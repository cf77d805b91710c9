import Mathlib.Data.Nat.Log
import AntX.Lib.Rotation
import AntX.Lib.Run

/-! The ring of services/io/iouring.rs is a bounded queue, although its head and tail wrap. An index
is masked to the number of entries, so every access is in bounds. -/

namespace AntX.Io

open AntX.Lib List Function

structure RingBuffer (α : Type) where
  entries : Nat → α
  capacity : UInt32
  mask : UInt32
  head : UInt32
  tail : UInt32

inductive RingCall (α : Type) where
  | push (entry : α)
  | pop
  | peek

namespace RingBuffer

variable {α : Type} (r : RingBuffer α)

def nextPowerOfTwo (n : UInt32) : UInt32 := .ofNat (2 ^ Nat.clog 2 n.toNat)

def new [Inhabited α] (capacity : UInt32) : RingBuffer α :=
  ⟨fun _ => default, nextPowerOfTwo capacity, nextPowerOfTwo capacity - 1, 0, 0⟩

def len : UInt32 := r.tail - r.head

def isEmpty : Bool := r.len == 0

def isFull : Bool := decide (r.capacity ≤ r.len)

def push (entry : α) : RingBuffer α × Bool :=
  if r.isFull then (r, false)
  else ({ r with entries := update r.entries (r.tail &&& r.mask).toNat entry, tail := r.tail + 1 }, true)

def pop : RingBuffer α × Option α :=
  if r.isEmpty then (r, none)
  else ({ r with head := r.head + 1 }, some (r.entries (r.head &&& r.mask).toNat))

def peek : Option α := if r.isEmpty then none else some (r.entries (r.head &&& r.mask).toNat)

def call : RingCall α → RingBuffer α × (Bool ⊕ Option α)
  | .push entry => (r.push entry).map id .inl
  | .pop => r.pop.map id .inr
  | .peek => (r, .inr r.peek)

/-- The same calls on a queue of at most `n` elements. -/
def queueCall (n : Nat) (q : List α) : RingCall α → List α × (Bool ⊕ Option α)
  | .push entry => if q.length < n then (q ++ [entry], .inl true) else (q, .inl false)
  | .pop => (q.tail, .inr q.head?)
  | .peek => (q, .inr q.head?)

variable {r} {q : List α} {k : Nat} {capacity : UInt32}

structure Holds (k : Nat) (r : RingBuffer α) (q : List α) : Prop where
  small : k ≤ 31
  capacity : r.capacity.toNat = 2 ^ k
  mask : r.mask.toNat = 2 ^ k - 1
  tail : r.tail = r.head + .ofNat q.length
  fits : q.length ≤ 2 ^ k
  content : ringContents r.entries (2 ^ k) (r.head.toNat % 2 ^ k) q.length = q

theorem toNat_add_mod (hk : k ≤ 31) (x y : UInt32) :
    (x + y).toNat % 2 ^ k = (x.toNat % 2 ^ k + y.toNat) % 2 ^ k := by
  have hdvd : 2 ^ k ∣ 2 ^ 32 := Nat.pow_dvd_pow 2 (by omega)
  rw [UInt32.toNat_add, Nat.mod_mod_of_dvd _ hdvd, Nat.mod_add_mod]

section

variable (h : Holds k r q)

include h

theorem Holds.length_lt : q.length < 2 ^ 32 := by
  have hfits := h.fits
  have hpow : 2 ^ k ≤ 2 ^ 31 := Nat.pow_le_pow_right (by decide) h.small
  omega

theorem Holds.len_eq : r.len.toNat = q.length := by
  rw [len, h.tail, UInt32.add_comm, UInt32.add_sub_cancel]
  exact UInt32.toNat_ofNat_of_lt' h.length_lt

theorem Holds.cell (x : UInt32) : (x &&& r.mask).toNat = x.toNat % 2 ^ k := by
  rw [UInt32.toNat_and, h.mask, Nat.and_two_pow_sub_one_eq_mod]

theorem Holds.stored (hroom : q.length < 2 ^ k) (entry : α) : Holds k
    { r with entries := update r.entries (r.tail &&& r.mask).toNat entry, tail := r.tail + 1 } (q ++ [entry]) := by
  have hcell : (r.tail &&& r.mask).toNat = (r.head.toNat % 2 ^ k + q.length) % 2 ^ k := by
    rw [h.cell, h.tail, toNat_add_mod h.small, UInt32.toNat_ofNat_of_lt' h.length_lt]
  refine ⟨h.small, h.capacity, h.mask, ?_, by simpa using Nat.succ_le_of_lt hroom, ?_⟩
  · simp [h.tail, UInt32.ofNat_add, UInt32.add_assoc]
  · rw [hcell, length_append, length_singleton, ringContents_push hroom, h.content]

end

theorem Holds.first {a : α} (h : Holds k r (a :: q)) :
    Holds k { r with head := r.head + 1 } q ∧ r.entries (r.head &&& r.mask).toNat = a := by
  have hcontent := h.content
  rw [length_cons, ringContents_pop (Nat.mod_lt _ (Nat.two_pow_pos k))] at hcontent
  obtain ⟨hfirst, hrest⟩ := cons.inj hcontent
  refine ⟨⟨h.small, h.capacity, h.mask, ?_, Nat.le_of_succ_le h.fits, ?_⟩, by rw [h.cell, hfirst]⟩
  · simp [h.tail, UInt32.ofNat_add, UInt32.add_assoc, UInt32.add_comm 1]
  · rw [toNat_add_mod h.small]
    exact hrest

theorem Holds.called (h : Holds k r q) (c : RingCall α) :
    Holds k (r.call c).1 (queueCall (2 ^ k) q c).1 ∧ (r.call c).2 = (queueCall (2 ^ k) q c).2 := by
  have hfull : r.isFull = true ↔ ¬ q.length < 2 ^ k := by
    simp [isFull, UInt32.le_iff_toNat_le, h.len_eq, h.capacity]
  have hempty : r.isEmpty = true ↔ q = [] := by simp [isEmpty, ← UInt32.toNat_inj, h.len_eq]
  cases c with
  | push entry =>
    by_cases hroom : q.length < 2 ^ k
    · simpa [call, push, hfull, queueCall, hroom] using h.stored hroom entry
    · simpa [call, push, hfull, queueCall, hroom] using h
  | pop =>
    cases q with
    | nil => simpa [call, pop, hempty, queueCall] using h
    | cons a q => simpa [call, pop, hempty, queueCall] using h.first
  | peek =>
    cases q with
    | nil => simpa [call, peek, hempty, queueCall] using h
    | cons a q => simpa [call, peek, hempty, queueCall, h] using h.first.2

theorem new_holds [Inhabited α] (hcap : capacity.toNat ≤ 2 ^ 31) :
    Holds (Nat.clog 2 capacity.toNat) (new capacity) ([] : List α) := by
  have hsmall : Nat.clog 2 capacity.toNat ≤ 31 := Nat.clog_le_of_le_pow hcap
  have hpow : 2 ^ Nat.clog 2 capacity.toNat ≤ 2 ^ 31 := Nat.pow_le_pow_right (by decide) hsmall
  have hnext : (nextPowerOfTwo capacity).toNat = 2 ^ Nat.clog 2 capacity.toNat :=
    UInt32.toNat_ofNat_of_lt' (by rw [UInt32.size]; omega)
  have hone : 1 ≤ nextPowerOfTwo capacity := by
    rw [UInt32.le_iff_toNat_le, hnext]
    exact Nat.two_pow_pos _
  refine ⟨hsmall, hnext, ?_, by simp [new], Nat.zero_le _, rfl⟩
  rw [new, UInt32.toNat_sub_of_le _ _ hone, hnext]
  rfl

theorem run_holds (h : Holds k r q) (calls : List (RingCall α)) :
    Holds k (run (fun r c => (r.call c).1) r calls) (run (fun q c => (queueCall (2 ^ k) q c).1) q calls) := by
  induction calls generalizing r q with
  | nil => exact h
  | cons c calls ih => exact ih (h.called c).1

/-- The ring has the length of the queue and answers the next call as the queue does. -/
def Refines (n : Nat) (r : RingBuffer α) (q : List α) : Prop :=
  r.capacity.toNat = n ∧ q.length ≤ n ∧ r.len.toNat = q.length ∧ ∀ c, (r.call c).2 = (queueCall n q c).2

/-- After any calls, the ring answers the next one as a queue bounded by its capacity does. -/
theorem ring_refines_queue [Inhabited α] (capacity : UInt32) (hcap : capacity.toNat ≤ 2 ^ 31)
    (calls : List (RingCall α)) : ∃ n, capacity.toNat ≤ n ∧ Refines n
      (run (fun r c => (r.call c).1) (new capacity) calls) (run (fun q c => (queueCall n q c).1) [] calls) := by
  have h := run_holds (new_holds hcap) calls
  exact ⟨_, Nat.le_pow_clog (by decide) _, h.capacity, h.fits, h.len_eq, fun c => (h.called c).2⟩

/-- The fifth entry finds the ring of four full; the last two go to its first cells. -/
def wrapping : List (RingCall Nat) :=
  [.push 1, .push 2, .push 3, .push 4, .push 5, .pop, .pop, .push 6, .push 7]

theorem ring_refines_queue_three : ∃ n, (3 : UInt32).toNat ≤ n ∧ Refines n
    (run (fun r c => (r.call c).1) (new 3) wrapping) (run (fun q c => (queueCall n q c).1) [] wrapping) :=
  ring_refines_queue 3 (by decide) wrapping

end RingBuffer

end AntX.Io
