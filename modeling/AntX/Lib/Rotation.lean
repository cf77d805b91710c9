import Mathlib.Data.Nat.ModEq

/-! Slots that are written in rotation, and which version a scan from the highest slot down comes
upon first. Queues in a buffer that wraps around. -/

namespace AntX.Lib

section Ring

open Function List

variable {α : Type*} {buf : Nat → α} {n pos count i : Nat} {a : α}

def ringContents (buf : Nat → α) (n pos count : Nat) : List α :=
  (List.range count).map fun i => buf ((pos + i) % n)

@[simp] theorem ringContents_length : (ringContents buf n pos count).length = count := by
  simp [ringContents]

theorem ring_cell_ne (hi : i < count) (hc : count < n) : (pos + i) % n ≠ (pos + count) % n := by
  intro h
  have hdvd : n ∣ (pos + count) - (pos + i) := (Nat.modEq_iff_dvd' (by omega)).mp h
  have hle := Nat.le_of_dvd (by omega) hdvd
  omega

theorem ringContents_push (hc : count < n) :
    ringContents (update buf ((pos + count) % n) a) n pos (count + 1) =
      ringContents buf n pos count ++ [a] := by
  rw [ringContents, range_succ, map_append, map_singleton, update_self]
  congr 1
  apply map_congr_left
  intro i hi
  rw [update_of_ne (ring_cell_ne (mem_range.mp hi) hc)]

theorem ringContents_pop (hpos : pos < n) :
    ringContents buf n pos (count + 1) = buf pos :: ringContents buf n ((pos + 1) % n) count := by
  rw [ringContents, range_succ_eq_map, map_cons, map_map, Nat.add_zero, Nat.mod_eq_of_lt hpos]
  congr 1
  apply map_congr_left
  intro i _
  rw [comp_apply, Nat.mod_add_mod]
  congr 2
  omega

end Ring

open Option

variable {α : Type*}

def scanDown (slots : Nat → Option α) : Nat → Option α
  | 0 => none
  | n + 1 => (slots n).or (scanDown slots n)

theorem scanDown_of_top {slots : Nat → Option α} {n i : Nat} {a : α} (hi : i < n)
    (ha : slots i = some a) (habove : ∀ j, i < j → j < n → slots j = none) :
    scanDown slots n = some a := by
  induction n with
  | zero => omega
  | succ n ih =>
    rw [scanDown]
    obtain rfl | hlt := Nat.eq_or_lt_of_le (Nat.le_of_lt_succ hi)
    · rw [ha, some_or]
    · rw [habove n hlt (Nat.lt_succ_self n), none_or]
      exact ih hlt fun j hij hj => habove j hij (Nat.lt_succ_of_lt hj)

theorem scanDown_congr {slots slots' : Nat → Option α} {n : Nat} (h : ∀ i < n, slots i = slots' i) :
    scanDown slots n = scanDown slots' n := by
  induction n with
  | zero => rfl
  | succ n ih =>
    rw [scanDown, scanDown, h n (Nat.lt_succ_self n), ih fun i hi => h i (Nat.lt_succ_of_lt hi)]

theorem scanDown_some {slots : Nat → Option α} {n : Nat} {a : α} (h : scanDown slots n = some a) :
    ∃ i, i < n ∧ slots i = some a := by
  induction n with
  | zero => cases h
  | succ n ih =>
    rw [scanDown, or_eq_some_iff] at h
    rcases h with h | ⟨-, h⟩
    · exact ⟨n, Nat.lt_succ_self n, h⟩
    · obtain ⟨i, hi, hslot⟩ := ih h
      exact ⟨i, Nat.lt_succ_of_lt hi, hslot⟩

/-- The slots after the versions `first, …, first + count - 1` were written. -/
structure Rotated (N first count : Nat) (hist : Nat → α) (slots : Nat → Option α) : Prop where
  filled : ∀ i a, i < N → slots i = some a →
    ∃ t, t % N = i ∧ first ≤ t ∧ t < first + count ∧ first + count ≤ t + N ∧ a = hist t
  blank : ∀ i, i < N → slots i = none → ∀ t, first ≤ t → t < first + count → t % N ≠ i

variable {N first count : Nat} {hist hist' : Nat → α} {slots slots' : Nat → Option α}

theorem Rotated.zero (h : ∀ i, i < N → slots i = none) : Rotated N first 0 hist slots where
  filled i a hi ha := by
    rw [h i hi] at ha
    cases ha
  blank i _ _ t hle hlt := by omega

theorem Rotated.write (h : Rotated N first count hist slots)
    (hhist : ∀ t, t < first + count → hist' t = hist t)
    (hnew : slots' ((first + count) % N) = some (hist' (first + count)))
    (hother : ∀ i, i < N → i ≠ (first + count) % N → slots' i = slots i) :
    Rotated N first (count + 1) hist' slots' where
  filled i a hi ha := by
    by_cases hslot : i = (first + count) % N
    · rw [hslot, hnew] at ha
      exact ⟨first + count, hslot.symm, by omega, by omega, by omega, (some.inj ha).symm⟩
    · rw [hother i hi hslot] at ha
      obtain ⟨t, hmod, hfirst, hlt, hle, rfl⟩ := h.filled i a hi ha
      refine ⟨t, hmod, hfirst, by omega, ?_, (hhist t hlt).symm⟩
      -- The version written a full turn ago was in the slot that is written now.
      have hturn : first + count ≠ t + N := by
        intro heq
        rw [heq, Nat.add_mod_right] at hslot
        exact hslot hmod.symm
      omega
  blank i hi hb t hfirst hlt := by
    by_cases hslot : i = (first + count) % N
    · rw [hslot, hnew] at hb
      cases hb
    · obtain rfl | hlt' := Nat.eq_or_lt_of_le (show t ≤ first + count by omega)
      · exact fun hmod => hslot hmod.symm
      · rw [hother i hi hslot] at hb
        exact h.blank i hi hb t hfirst hlt'

theorem eq_of_mod_eq {t u : Nat} (hmod : t % N = u % N) (hle : t ≤ u) (hlt : u < t + N) : t = u := by
  have h0 := Nat.sub_mod_eq_zero_of_mod_eq hmod.symm
  rw [Nat.mod_eq_of_lt (by omega)] at h0
  omega

theorem Rotated.newest (hN : 0 < N) (h : Rotated N first (count + 1) hist slots) :
    slots ((first + count) % N) = some (hist (first + count)) := by
  have hi := Nat.mod_lt (first + count) hN
  cases hs : slots ((first + count) % N) with
  | none => exact absurd rfl (h.blank _ hi hs (first + count) (by omega) (by omega))
  | some a =>
    obtain ⟨t, hmod, hfirst, hlt, hle, rfl⟩ := h.filled _ a hi hs
    rw [eq_of_mod_eq hmod (by omega) (by omega)]

theorem Rotated.above_blank (h : Rotated N first (count + 1) hist slots)
    (hturn : (first + count) / N = first / N) {j : Nat} (hj : (first + count) % N < j) (hjN : j < N) :
    slots j = none := by
  cases hs : slots j with
  | none => rfl
  | some a =>
    obtain ⟨t, hmod, hfirst, hlt, -, -⟩ := h.filled j a hjN hs
    have hlow := Nat.div_le_div_right (c := N) hfirst
    have hhigh := Nat.div_le_div_right (c := N) (show t ≤ first + count by omega)
    have hdiv : t / N = (first + count) / N := by omega
    have ht := Nat.div_add_mod t N
    have hT := Nat.div_add_mod (first + count) N
    rw [hdiv] at ht
    omega

theorem Rotated.last_filled (hN : 0 < N) (h : Rotated N first (count + 1) hist slots)
    (hturn : (first + count) / N ≠ first / N) : ∃ a, slots (N - 1) = some a := by
  cases hs : slots (N - 1) with
  | some a => exact ⟨a, rfl⟩
  | none =>
    have hle := Nat.div_le_div_right (c := N) (Nat.le_add_right first count)
    have hlt : first < N * ((first + count) / N) := by
      have hmul := Nat.mul_le_mul_left N (show first / N + 1 ≤ (first + count) / N by omega)
      have hd := Nat.div_add_mod first N
      have hm := Nat.mod_lt first hN
      rw [Nat.mul_add, Nat.mul_one] at hmul
      omega
    have hT := Nat.div_add_mod (first + count) N
    have hmod : (N * ((first + count) / N) - 1) % N = N - 1 := by
      have hpos : (first + count) / N ≠ 0 := by
        intro h0
        rw [h0] at hlt
        omega
      obtain ⟨q, hq⟩ := Nat.exists_eq_succ_of_ne_zero hpos
      have hsplit : N * ((first + count) / N) - 1 = N - 1 + N * q := by
        rw [hq, Nat.mul_succ]
        omega
      rw [hsplit, Nat.add_mul_mod_self_left, Nat.mod_eq_of_lt (by omega)]
    exact absurd hmod (h.blank (N - 1) (by omega) hs _ (by omega) (by omega))

/-- The scan comes upon the newest version first just when that is in the last slot, or all
versions were written in one turn. -/
theorem Rotated.scanDown_newest_iff (hN : 0 < N) (h : Rotated N first (count + 1) hist slots)
    (hinj : ∀ t, t < first + count → first + count < t + N → hist t ≠ hist (first + count)) :
    scanDown slots N = some (hist (first + count)) ↔
      (first + count) % N = N - 1 ∨ (first + count) / N = first / N := by
  have hi := Nat.mod_lt (first + count) hN
  constructor
  · intro hscan
    by_contra hnot
    rw [not_or] at hnot
    obtain ⟨a, ha⟩ := h.last_filled hN hnot.2
    have hlast := scanDown_of_top (show N - 1 < N by omega) ha (fun j hj hjN => by omega)
    obtain ⟨t, hmod, -, hlt, hle, rfl⟩ := h.filled (N - 1) a (by omega) ha
    have hsame := some.inj (hlast.symm.trans hscan)
    obtain rfl | hlt' := Nat.eq_or_lt_of_le (show t ≤ first + count by omega)
    · exact hnot.1 hmod
    · exact hinj t hlt' (by omega) hsame
  · intro hpos
    apply scanDown_of_top hi (h.newest hN)
    intro j hj hjN
    rcases hpos with hlast | hturn
    · omega
    · exact h.above_blank hturn hj hjN

end AntX.Lib
