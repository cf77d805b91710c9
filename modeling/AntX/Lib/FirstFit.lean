import Mathlib.Data.Nat.Count
import Mathlib.Tactic.Ring
import Mathlib.Order.Interval.Finset.Nat

/-! Searches of allocators: the first number that passes a test, the lowest run of set bits of a
given length, the first of the heaviest admissible members. -/

namespace AntX.Lib

def firstFrom (test : Nat → Bool) : (k i : Nat) → Option Nat
  | 0, _ => none
  | k + 1, i => if test i then some i else firstFrom test k (i + 1)

theorem firstFrom_none {test : Nat → Bool} {k i : Nat} (h : firstFrom test k i = none) :
    ∀ j, i ≤ j → j < i + k → test j = false := by
  induction k generalizing i with
  | zero =>
    omega
  | succ k ih =>
    intro j hle hlt
    by_cases ht : test i = true
    · simp [firstFrom, ht] at h
    · simp only [firstFrom, ht] at h
      obtain rfl | hlater := Nat.eq_or_lt_of_le hle
      · simpa using ht
      · exact ih h j hlater (by omega)

theorem firstFrom_some {test : Nat → Bool} {k i j : Nat} (h : firstFrom test k i = some j) :
    i ≤ j ∧ j < i + k ∧ test j = true := by
  induction k generalizing i with
  | zero => cases h
  | succ k ih =>
    by_cases ht : test i = true
    · obtain rfl : i = j := by simpa [firstFrom, ht] using h
      exact ⟨Nat.le_refl i, by omega, ht⟩
    · simp only [firstFrom, ht] at h
      obtain ⟨hle, hlt, htest⟩ := ih h
      exact ⟨by omega, by omega, htest⟩

def RunAt (free : Nat → Bool) (k n : Nat) : Prop := ∀ j, k ≤ j → j < k + n → free j = true

/-- Scans the `m` bits from `i` on; `found` bits before `i` are set, the first of them is `start`. -/
def firstRunFrom (free : Nat → Bool) (n : Nat) : (m i found start : Nat) → Option Nat
  | 0, _, _, _ => none
  | m + 1, i, found, start =>
    if free i then
      let start := if found = 0 then i else start
      if n ≤ found + 1 then some start else firstRunFrom free n m (i + 1) (found + 1) start
    else firstRunFrom free n m (i + 1) 0 start

def firstRun (free : Nat → Bool) (n bound : Nat) : Option Nat := firstRunFrom free n bound 0 0 0

/-- What the scan knows before bit `i`, when it looks for a run of `len` bits. -/
structure Scanned (free : Nat → Bool) (len i found start : Nat) : Prop where
  le : found ≤ i
  short : found < len
  start_eq : found ≠ 0 → start = i - found
  run : RunAt free (i - found) found
  later : ∀ k, RunAt free k len → i - found ≤ k

variable {free : Nat → Bool} {n len bound m i found start k : Nat}

theorem Scanned.set (h : Scanned free len i found start) (hi : free i = true) (hshort : found + 1 < len) :
    Scanned free len (i + 1) (found + 1) (if found = 0 then i else start) where
  le := Nat.succ_le_succ h.le
  short := hshort
  start_eq _ := by
    by_cases h0 : found = 0
    · simp [h0]
    · rw [if_neg h0, h.start_eq h0]
      omega
  run := by
    intro j hj hlt
    have hle := h.le
    obtain rfl | hji := Nat.eq_or_lt_of_le (show j ≤ i by omega)
    · exact hi
    · exact h.run j (by omega) (by omega)
  later k hk := by
    have hlater := h.later k hk
    omega

theorem Scanned.cleared (h : Scanned free len i found start) (hi : free i = false) :
    Scanned free len (i + 1) 0 start where
  le := Nat.zero_le _
  short := Nat.lt_of_le_of_lt (Nat.zero_le _) h.short
  start_eq h0 := absurd rfl h0
  run := by
    intro j hj hlt
    omega
  later k hk := by
    have hlater := h.later k hk
    have hshort := h.short
    by_contra hlt
    have hset := hk i (by omega) (by omega)
    rw [hi] at hset
    cases hset

theorem Scanned.found_start (h : Scanned free len i found start) :
    (if found = 0 then i else start) = i - found := by
  by_cases h0 : found = 0
  · simp [h0]
  · rw [if_neg h0, h.start_eq h0]

/-- What a search below `bound` answers: the lowest run of `len` bits, or nothing if none ends by then. -/
def Finds (free : Nat → Bool) (len bound : Nat) : Option Nat → Prop
  | some k => RunAt free k len ∧ k + len ≤ bound ∧ ∀ k', RunAt free k' len → k ≤ k'
  | none => ∀ k, RunAt free k len → bound < k + len

theorem Scanned.finds (h : Scanned free len i found start) (hlen : len = max n 1) :
    Finds free len (i + m) (firstRunFrom free n m i found start) := by
  induction m generalizing i found start with
  | zero =>
    intro k hk
    have hlater := h.later k hk
    have hshort := h.short
    omega
  | succ m ih =>
    rw [firstRunFrom, ← Nat.succ_add_eq_add_succ]
    cases hi : free i with
    | false =>
      rw [if_neg (by decide)]
      exact ih (h.cleared hi)
    | true =>
      rw [if_pos rfl]
      by_cases hn : n ≤ found + 1
      · have hfi := h.le
        rw [if_pos hn, h.found_start]
        refine ⟨?_, by omega, h.later⟩
        intro j hj hlt
        obtain rfl | hji := Nat.eq_or_lt_of_le (show j ≤ i by omega)
        · exact hi
        · exact h.run j hj (by omega)
      · rw [if_neg hn]
        exact ih (h.set hi (by omega))

theorem scanned_zero (hlen : len = max n 1) : Scanned free len 0 0 0 where
  le := Nat.le_refl 0
  short := by omega
  start_eq h0 := absurd rfl h0
  run := by
    intro j hj hlt
    omega
  later k _ := Nat.zero_le k

/-- A request for no bits is one for a single bit. -/
theorem firstRun_finds (free : Nat → Bool) (n bound : Nat) : Finds free (max n 1) bound (firstRun free n bound) := by
  have hfinds : Finds free (max n 1) (0 + bound) (firstRun free n bound) := (scanned_zero rfl).finds rfl
  rwa [Nat.zero_add] at hfinds

def countSet (free : Nat → Bool) (bound : Nat) : Nat := Nat.count (fun k => free k = true) bound

def clearBits (free : Nat → Bool) (k n : Nat) : Nat → Bool :=
  fun j => if k ≤ j ∧ j < k + n then false else free j

theorem clearBits_inside {j : Nat} (hj : k ≤ j ∧ j < k + n) : clearBits free k n j = false := if_pos hj

theorem clearBits_outside {j : Nat} (hj : ¬ (k ≤ j ∧ j < k + n)) : clearBits free k n j = free j :=
  if_neg hj

open Finset

theorem countSet_pos : 0 < countSet free bound ↔ ∃ k, k < bound ∧ free k = true := by
  rw [countSet, Nat.count_eq_card_filter_range, card_pos]
  simp only [Finset.Nonempty, mem_filter, mem_range]

theorem countSet_clear (h : RunAt free k n) (hk : k + n ≤ bound) :
    countSet (clearBits free k n) bound + n = countSet free bound := by
  have hunion : (range bound).filter (fun j => free j = true) =
      (range bound).filter (fun j => clearBits free k n j = true) ∪ Ico k (k + n) := by
    ext j
    simp only [mem_union, mem_filter, mem_range, mem_Ico]
    by_cases hj : k ≤ j ∧ j < k + n
    · have hset := h j hj.1 hj.2
      have hlt : j < bound := by omega
      simp only [hj, hset, hlt, and_self, or_true]
    · rw [clearBits_outside hj]
      simp only [hj, or_false]
  have hdisjoint : Disjoint ((range bound).filter fun j => clearBits free k n j = true) (Ico k (k + n)) := by
    rw [disjoint_left]
    intro j hj hin
    rw [mem_filter, clearBits_inside (mem_Ico.mp hin)] at hj
    exact Bool.false_ne_true hj.2
  rw [countSet, countSet, Nat.count_eq_card_filter_range, Nat.count_eq_card_filter_range, hunion,
    card_union_of_disjoint hdisjoint, Nat.card_Ico, Nat.add_sub_cancel_left]

variable {α : Type*} {ok : α → Bool} {w : α → Nat} {l : List α} {idx : Option Nat} {best : Nat}

/-- Walks the list from position `i` with the best position and weight so far. -/
def heaviestFrom (ok : α → Bool) (w : α → Nat) : List α → (i best : Nat) → Option Nat → Option Nat
  | [], _, _, idx => idx
  | a :: l, i, best, idx =>
    if ok a ∧ best < w a then heaviestFrom ok w l (i + 1) (w a) (some i)
    else heaviestFrom ok w l (i + 1) best idx

def heaviest (ok : α → Bool) (w : α → Nat) (l : List α) : Option Nat := heaviestFrom ok w l 0 0 none

/-- The member at position `i` is admissible and of positive weight, no admissible one is heavier
and those before it are lighter. -/
structure Heaviest (ok : α → Bool) (w : α → Nat) (l : List α) (i : Nat) (a : α) : Prop where
  get : l[i]? = some a
  admissible : ok a = true
  pos : 0 < w a
  before : ∀ j b, j < i → l[j]? = some b → ok b = true → w b < w a
  all : ∀ b ∈ l, ok b = true → w b ≤ w a

theorem Heaviest.unique {i j : Nat} {a b : α} (ha : Heaviest ok w l i a)
    (hb : Heaviest ok w l j b) : i = j ∧ a = b := by
  have hab := ha.all b (List.mem_of_getElem? hb.get) hb.admissible
  have hba := hb.all a (List.mem_of_getElem? ha.get) ha.admissible
  have hij : i = j := by
    by_contra hne
    rcases Nat.lt_or_gt_of_ne hne with hlt | hlt
    · have hw := hb.before i a hlt ha.get ha.admissible
      omega
    · have hw := ha.before j b hlt hb.get hb.admissible
      omega
  subst hij
  exact ⟨rfl, Option.some.inj (ha.get.symm.trans hb.get)⟩

/-- The walk's state after the members of `l`: nothing admissible yet, or the heaviest of them. -/
def HeaviestSoFar (ok : α → Bool) (w : α → Nat) (l : List α) (best : Nat) : Option Nat → Prop
  | none => best = 0 ∧ ∀ b ∈ l, ok b = true → w b = 0
  | some i => ∃ a, Heaviest ok w l i a ∧ best = w a

theorem HeaviestSoFar.le
    (h : HeaviestSoFar ok w l best idx) {b : α} (hb : b ∈ l) (hok : ok b = true) : w b ≤ best := by
  cases idx with
  | none =>
    have h0 := h.2 b hb hok
    omega
  | some i =>
    obtain ⟨a, ha, rfl⟩ := h
    exact ha.all b hb hok

theorem HeaviestSoFar.take {a : α} (h : HeaviestSoFar ok w l best idx) (hok : ok a = true) (hw : best < w a) :
    HeaviestSoFar ok w (l ++ [a]) (w a) (some l.length) := by
  refine ⟨a, ⟨by simp, hok, by omega, ?_, ?_⟩, rfl⟩
  · intro j b hj hb hbok
    rw [List.getElem?_append_left hj] at hb
    exact Nat.lt_of_le_of_lt (h.le (List.mem_of_getElem? hb) hbok) hw
  · intro b hb hbok
    rcases List.mem_append.mp hb with hb | hb
    · exact Nat.le_of_lt (Nat.lt_of_le_of_lt (h.le hb hbok) hw)
    · exact Nat.le_of_eq (congrArg w (List.mem_singleton.mp hb))

theorem HeaviestSoFar.skip {a : α}
    (h : HeaviestSoFar ok w l best idx) (hskip : ¬ (ok a = true ∧ best < w a)) :
    HeaviestSoFar ok w (l ++ [a]) best idx := by
  have hle : ∀ b ∈ l ++ [a], ok b = true → w b ≤ best := by
    intro b hb hbok
    rcases List.mem_append.mp hb with hb | hb
    · exact h.le hb hbok
    · rw [List.mem_singleton.mp hb] at hbok ⊢
      by_contra hlt
      exact hskip ⟨hbok, by omega⟩
  cases idx with
  | none =>
    refine ⟨h.1, fun b hb hbok => ?_⟩
    have hb0 := hle b hb hbok
    have hbest := h.1
    omega
  | some i =>
    obtain ⟨c, hc, rfl⟩ := h
    have hi : i < l.length := (List.getElem?_eq_some_iff.mp hc.get).1
    refine ⟨c, ⟨?_, hc.admissible, hc.pos, ?_, hle⟩, rfl⟩
    · rw [List.getElem?_append_left hi]
      exact hc.get
    · intro j b hj hb hbok
      rw [List.getElem?_append_left (by omega)] at hb
      exact hc.before j b hj hb hbok

theorem heaviestFrom_spec (pre : List α) (h : HeaviestSoFar ok w pre best idx) :
    ∃ best', HeaviestSoFar ok w (pre ++ l) best' (heaviestFrom ok w l pre.length best idx) := by
  induction l generalizing pre best idx with
  | nil =>
    rw [List.append_nil]
    exact ⟨best, h⟩
  | cons a l ih =>
    have hlen : (pre ++ [a]).length = pre.length + 1 := by simp
    rw [heaviestFrom, List.append_cons, ← hlen]
    split_ifs with ha
    · exact ih (pre ++ [a]) (h.take ha.1 ha.2)
    · exact ih (pre ++ [a]) (h.skip ha)

theorem heaviest_spec (l : List α) : ∃ best, HeaviestSoFar ok w l best (heaviest ok w l) := by
  have h0 : HeaviestSoFar ok w [] 0 none := ⟨rfl, by simp⟩
  exact heaviestFrom_spec [] h0

theorem heaviest_exists {b : α} (hb : b ∈ l) (hok : ok b = true) (hw : 0 < w b) :
    ∃ i, heaviest ok w l = some i := by
  obtain ⟨best, hs⟩ := @heaviest_spec _ ok w l
  cases h : heaviest ok w l with
  | none =>
    rw [h] at hs
    have hzero := hs.2 b hb hok
    omega
  | some i => exact ⟨i, rfl⟩

theorem heaviest_some {i : Nat} (h : heaviest ok w l = some i) : ∃ a, Heaviest ok w l i a := by
  obtain ⟨best, hs⟩ := @heaviest_spec _ ok w l
  rw [h] at hs
  obtain ⟨a, ha, -⟩ := hs
  exact ⟨a, ha⟩

theorem Heaviest.eq {i : Nat} {a : α} (h : Heaviest ok w l i a) : heaviest ok w l = some i := by
  obtain ⟨j, hj⟩ := heaviest_exists (List.mem_of_getElem? h.get) h.admissible h.pos
  obtain ⟨b, hb⟩ := heaviest_some hj
  rw [hj, (h.unique hb).1]

theorem sum_map_set {i : Nat} {a b : α} (f : α → Nat) (h : l[i]? = some a) :
    ((l.set i b).map f).sum + f a = (l.map f).sum + f b := by
  induction l generalizing i with
  | nil => cases h
  | cons c l ih =>
    cases i with
    | zero =>
      cases h
      simp only [List.set_cons_zero, List.map_cons, List.sum_cons]
      omega
    | succ i =>
      have hrest := ih h
      simp only [List.set_cons_succ, List.map_cons, List.sum_cons]
      omega

end AntX.Lib
