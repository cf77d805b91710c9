import Mathlib.Tactic.Ring

/-! Machine words, pages and flag words. `usize` and `u64` are naturals below `2 ^ 64`; sums that the
release build may wrap are written with `wadd`. -/

namespace AntX

abbrev pageSize : Nat := 4096

def wadd (a b : Nat) : Nat := (a + b) % 2 ^ 64

def pageDown (a : Nat) : Nat := a / pageSize * pageSize

def pageUp (a : Nat) : Nat := pageDown (wadd a (pageSize - 1))

def userAddrMax : Nat := 0x7FFFFFFFF000

theorem wadd_eq {a b : Nat} (h : a + b < 2 ^ 64) : wadd a b = a + b := Nat.mod_eq_of_lt h

theorem wadd_lt (a b : Nat) : wadd a b < 2 ^ 64 := Nat.mod_lt _ (by decide)

theorem pageUp_cases {a : Nat} (ha : a < 2 ^ 64) :
    pageUp a = 0 ∨ (a ≤ pageUp a ∧ pageUp a < a + pageSize ∧ pageUp a < 2 ^ 64) := by
  unfold pageUp pageDown wadd
  by_cases h : a + 4095 < 2 ^ 64
  · simp only [pageSize, Nat.mod_eq_of_lt h]
    omega
  · simp only [pageSize]
    omega

theorem pageUp_lt (a : Nat) : pageUp a < 2 ^ 64 :=
  Nat.lt_of_le_of_lt (Nat.div_mul_le_self _ _) (wadd_lt _ _)

abbrev PageFlags := BitVec 64

namespace PageFlags

def present : PageFlags := 1#64
def writable : PageFlags := 2#64
def user : PageFlags := 4#64
def hugePage : PageFlags := 0x80#64
def nx : PageFlags := 0x8000000000000000#64

def contains (f g : PageFlags) : Bool := f &&& g == g

end PageFlags

inductive Errno
  | einval
  | enomem
  | efault
  | eagain
deriving DecidableEq, Repr

end AntX
