import Mathlib.Data.Finset.Card

/-! Bitmaps kept in bytes of memory: one bit at a time, the search for a clear bit,
and the set of bits that are on. Where the records of equal size end that the bits stand for. -/

namespace AntX.Lib

open Function

variable {m m' : Nat → BitVec 8} {base count j k : Nat}

theorem record_end (h : j < k) (n : Nat) : j * n + n ≤ k * n := by
  rw [← Nat.succ_mul]
  exact Nat.mul_le_mul_right n h

theorem records_apart (h : j ≠ k) (n : Nat) : j * n + n ≤ k * n ∨ k * n + n ≤ j * n :=
  (Nat.lt_or_gt_of_ne h).imp (record_end · n) (record_end · n)

section

variable (m : Nat → BitVec 8) (base k : Nat)

def bitAt : Bool := (m (base + k / 8)).getLsbD (k % 8)

def setBitAt : Nat → BitVec 8 :=
  update m (base + k / 8) (m (base + k / 8) ||| (1#8 <<< (k % 8)))

def clearBitAt : Nat → BitVec 8 :=
  update m (base + k / 8) (m (base + k / 8) &&& ~~~(1#8 <<< (k % 8)))

end

def bytesFor (count : Nat) : Nat := (count + 7) / 8

def trailingOnes (b : BitVec 8) : Nat := (List.range 8).findIdx (fun i => !b.getLsbD i)

/-- The lowest clear bit of the first byte that has one below `count`. -/
def firstClear (m : Nat → BitVec 8) (base count : Nat) : Option Nat :=
  (List.range (bytesFor count)).findSome? fun i =>
    let b := m (base + i)
    if b = 0xFF#8 then none
    else
      let k := i * 8 + trailingOnes b
      if k < count then some k else none

/-- The bits that are on in a bitmap for `count` bits, padding included. -/
def setBits (m : Nat → BitVec 8) (base count : Nat) : Finset Nat :=
  (Finset.range (8 * bytesFor count)).filter (fun k => bitAt m base k = true)

theorem lt_bytesFor (h : k < count) : k / 8 < bytesFor count := by
  unfold bytesFor
  omega

theorem mask_bit (j k : Nat) : (1#8 <<< (k % 8)).getLsbD (j % 8) = decide (j % 8 = k % 8) := by
  have hj : j % 8 < 8 := Nat.mod_lt _ (by omega)
  by_cases h : j % 8 = k % 8
  · simp [h, h ▸ hj]
  · by_cases hlt : j % 8 < k % 8
    · simp [h, hlt]
    · simp [h, hlt, show j % 8 - k % 8 ≠ 0 by omega]

theorem bitAt_setBitAt (m : Nat → BitVec 8) (base k j : Nat) :
    bitAt (setBitAt m base k) base j = (bitAt m base j || decide (j = k)) := by
  unfold bitAt setBitAt
  by_cases hb : j / 8 = k / 8
  · have hjk : j = k ↔ j % 8 = k % 8 := by omega
    rw [hb, update_self, BitVec.getLsbD_or, mask_bit]
    simp only [hjk]
  · have hne : j ≠ k := fun h => hb (by rw [h])
    rw [update_of_ne (by omega)]
    simp [hne]

theorem bitAt_clearBitAt (m : Nat → BitVec 8) (base k j : Nat) :
    bitAt (clearBitAt m base k) base j = (bitAt m base j && decide (j ≠ k)) := by
  unfold bitAt clearBitAt
  by_cases hb : j / 8 = k / 8
  · have hj : j % 8 < 8 := Nat.mod_lt _ (by omega)
    have hjk : j = k ↔ j % 8 = k % 8 := by omega
    rw [hb, update_self, BitVec.getLsbD_and, BitVec.getLsbD_not, mask_bit]
    simp only [ne_eq, hjk, hj, decide_true, Bool.true_and, decide_not]
  · have hne : j ≠ k := fun h => hb (by rw [h])
    rw [update_of_ne (by omega)]
    simp [hne]

theorem trailingOnes_spec {b : BitVec 8} (h : b ≠ 0xFF#8) :
    trailingOnes b < 8 ∧ b.getLsbD (trailingOnes b) = false ∧ ∀ i < trailingOnes b, b.getLsbD i = true := by
  revert h b
  decide +kernel

theorem firstClear_some (h : firstClear m base count = some k) : k < count ∧ bitAt m base k = false := by
  obtain ⟨i, -, hi⟩ := List.exists_of_findSome?_eq_some h
  simp only at hi
  split_ifs at hi with hff hlt
  obtain rfl := Option.some.inj hi
  have hspec := trailingOnes_spec hff
  refine ⟨hlt, ?_⟩
  rw [bitAt, show (i * 8 + trailingOnes (m (base + i))) / 8 = i by omega,
    show (i * 8 + trailingOnes (m (base + i))) % 8 = trailingOnes (m (base + i)) by omega]
  exact hspec.2.1

theorem firstClear_isSome (hk : k < count) (hbit : bitAt m base k = false) :
    ∃ j, firstClear m base count = some j := by
  cases hf : firstClear m base count with
  | some j => exact ⟨j, rfl⟩
  | none =>
    have hnone := List.findSome?_eq_none_iff.mp hf (k / 8) (List.mem_range.mpr (lt_bytesFor hk))
    have hff : m (base + k / 8) ≠ 0xFF#8 := by
      intro he
      have hall : ∀ i < 8, (0xFF#8).getLsbD i = true := by decide
      rw [bitAt, he, hall _ (Nat.mod_lt _ (by omega))] at hbit
      exact absurd hbit (by decide)
    have hspec := trailingOnes_spec hff
    have hle : trailingOnes (m (base + k / 8)) ≤ k % 8 := by
      by_contra hgt
      have := hspec.2.2 (k % 8) (by omega)
      rw [bitAt] at hbit
      rw [hbit] at this
      exact absurd this (by decide)
    simp only [if_neg hff] at hnone
    rw [if_pos (by omega)] at hnone
    exact absurd hnone (by simp)

theorem mem_setBits : k ∈ setBits m base count ↔ k < 8 * bytesFor count ∧ bitAt m base k = true := by
  simp [setBits]

theorem setBits_congr (h : ∀ i < bytesFor count, m' (base + i) = m (base + i)) :
    setBits m' base count = setBits m base count := by
  ext k
  rw [mem_setBits, mem_setBits]
  refine and_congr_right fun hk => ?_
  rw [bitAt, bitAt, h (k / 8) (by omega)]

theorem setBits_setBitAt (hk : k < count) :
    setBits (setBitAt m base k) base count = insert k (setBits m base count) := by
  have := lt_bytesFor hk
  ext j
  rw [Finset.mem_insert, mem_setBits, mem_setBits, bitAt_setBitAt]
  by_cases hj : j = k
  · subst hj
    simp only [decide_true, Bool.or_true, true_or, and_true, iff_true]
    omega
  · simp [hj]

theorem setBits_clearBitAt : setBits (clearBitAt m base k) base count = (setBits m base count).erase k := by
  ext j
  rw [Finset.mem_erase, mem_setBits, mem_setBits, bitAt_clearBitAt]
  by_cases hj : j = k <;> simp [hj]

end AntX.Lib
