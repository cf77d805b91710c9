import Mathlib.Data.Finset.Card

/-! Following pointers: the elements met from a start on, and that the walk through a finite set comes
to its end just when it meets no element twice. Records that name a parent. -/

namespace AntX.Lib

open List

variable {α : Type*} {next : α → Option α} {a b : α} {i j n m fuel : Nat} {l : List α}

def chase (next : α → Option α) : Nat → α → Option α
  | 0, a => some a
  | n + 1, a => (next a).bind (chase next n)

/-- The elements met from `a` on, if the pointers end within `fuel` elements. -/
def trail (next : α → Option α) : (fuel : Nat) → α → Option (List α)
  | 0, _ => none
  | fuel + 1, a =>
    match next a with
    | none => some [a]
    | some b => (trail next fuel b).map (a :: ·)

@[simp] theorem chase_zero : chase next 0 a = some a := rfl

theorem chase_succ (h : next a = some b) : chase next (n + 1) a = chase next n b := by
  rw [chase, h, Option.bind_some]

theorem chase_add : chase next (n + m) a = (chase next n a).bind (chase next m) := by
  induction n generalizing a with
  | zero => rw [Nat.zero_add, chase_zero, Option.bind_some]
  | succ n ih =>
    rw [Nat.add_right_comm, chase, chase]
    cases next a with
    | none => rfl
    | some b => exact ih

theorem trail_getElem? (h : trail next fuel a = some l) (n : Nat) : l[n]? = chase next n a := by
  induction fuel generalizing a l n with
  | zero => cases h
  | succ fuel ih =>
    rw [trail] at h
    cases hnext : next a with
    | none =>
      rw [hnext] at h
      cases h
      cases n with
      | zero => rfl
      | succ n => simp [chase, hnext]
    | some b =>
      rw [hnext] at h
      obtain ⟨rest, hrest, rfl⟩ := Option.map_eq_some_iff.mp h
      cases n with
      | zero => rfl
      | succ n => rw [getElem?_cons_succ, ih hrest, chase_succ hnext]

theorem trail_of_chase (h : chase next n a = none) : ∃ l, trail next n a = some l := by
  induction n generalizing a with
  | zero => cases h
  | succ n ih =>
    rw [trail]
    cases hnext : next a with
    | none => exact ⟨[a], rfl⟩
    | some b =>
      rw [chase_succ hnext] at h
      obtain ⟨rest, hrest⟩ := ih h
      exact ⟨a :: rest, by simp [hrest]⟩

theorem chase_repeats (hij : i < j) (hi : chase next i a = some b) (hj : chase next j a = some b) (n : Nat) :
    chase next n a ≠ none := by
  have hlater : ∀ k m, m ≤ j → chase next (m + k * (j - i)) a ≠ none := by
    intro k
    induction k with
    | zero =>
      intro m hm hnone
      have hsplit : j = (m + 0 * (j - i)) + (j - m) := by omega
      rw [hsplit, chase_add, hnone] at hj
      cases hj
    | succ k ih =>
      intro m hm
      by_cases hmi : m + (j - i) ≤ j
      · rw [Nat.succ_mul, Nat.add_comm (k * _), ← Nat.add_assoc]
        exact ih (m + (j - i)) hmi
      · -- past `i`: one turn back is the same element
        have hback : chase next (m + (k + 1) * (j - i)) a = chase next (m + k * (j - i)) a := by
          have hm' : m + (k + 1) * (j - i) = j + (m - i + k * (j - i)) := by
            rw [Nat.succ_mul]
            omega
          have hm'' : m + k * (j - i) = i + (m - i + k * (j - i)) := by omega
          rw [hm', hm'', chase_add, chase_add, hi, hj]
        rw [hback]
        exact ih m hm
  intro hnone
  have hbig := hlater n 0 (Nat.zero_le j)
  have hsplit : 0 + n * (j - i) = n + n * (j - i - 1) := by
    obtain ⟨d, hd⟩ : ∃ d, j - i = d + 1 := ⟨j - i - 1, by omega⟩
    rw [hd, Nat.mul_succ, Nat.add_sub_cancel]
    omega
  rw [hsplit, chase_add, hnone] at hbig
  exact hbig rfl

theorem trail_nodup (h : trail next fuel a = some l) : l.Nodup := by
  rw [nodup_iff_getElem?_ne_getElem?]
  intro i j hij hj heq
  have hlt : i < l.length := by omega
  have hi : chase next i a = some l[i] := by rw [← trail_getElem? h, getElem?_eq_getElem hlt]
  have hj' : chase next j a = some l[i] := by
    rw [← trail_getElem? h, ← heq, getElem?_eq_getElem hlt]
  apply chase_repeats hij hi hj' l.length
  rw [← trail_getElem? h, getElem?_eq_none le_rfl]

/-- In a finite set the walk ends if and only if it meets no element twice. -/
theorem trail_returns_iff {S : Finset α} (hS : ∀ n b, chase next n a = some b → b ∈ S) :
    (∃ fuel l, trail next fuel a = some l) ↔
      ∀ i j b, i < j → chase next i a = some b → chase next j a ≠ some b := by
  constructor
  · rintro ⟨fuel, l, h⟩ i j b hij hi hj
    apply chase_repeats hij hi hj l.length
    rw [← trail_getElem? h, getElem?_eq_none le_rfl]
  · intro hno
    by_contra hends
    -- otherwise every number of steps leads somewhere, and two of `card S + 1` places agree
    have hall : ∀ n, ∃ b, chase next n a = some b := by
      intro n
      cases hn : chase next n a with
      | some b => exact ⟨b, rfl⟩
      | none =>
        obtain ⟨l, hl⟩ := trail_of_chase hn
        exact absurd ⟨n, l, hl⟩ hends
    choose place hplace using hall
    obtain ⟨i, -, j, -, hne, heq⟩ := Finset.exists_ne_map_eq_of_card_lt_of_maps_to
      (s := Finset.range (S.card + 1)) (t := S) (f := place) (by simp)
      fun n _ => hS n (place n) (hplace n)
    rcases Nat.lt_or_gt_of_ne hne with hlt | hlt
    · exact hno i j (place i) hlt (hplace i) (heq ▸ hplace j)
    · exact hno j i (place j) hlt (hplace j) (heq ▸ hplace i)

open Function

variable {K R : Type*} {parent : R → Option K} {ok : R → R → Prop} {m : K → Option R}

def Linked (parent : R → Option K) (ok : R → R → Prop) (m : K → Option R) : Prop :=
  ∀ k child, m k = some child → ∀ pk, parent child = some pk → ∃ p, m pk = some p ∧ ok p child

theorem linked_empty : Linked parent ok fun _ => none := by
  intro k child h
  cases h

theorem Linked.insert [DecidableEq K] (h : Linked parent ok m) {k : K} {child : R} (hfresh : m k = none)
    (hchild : ∀ pk, parent child = some pk → ∃ p, m pk = some p ∧ ok p child) :
    Linked parent ok (update m k (some child)) := by
  -- a parent that was there is not the new record
  have hkeep : ∀ pk p, m pk = some p → update m k (some child) pk = some p := by
    intro pk p hp
    have hne : pk ≠ k := by
      rintro rfl
      rw [hfresh] at hp
      cases hp
    rw [update_of_ne hne, hp]
  intro k' child' hk' pk hpk
  by_cases hk : k' = k
  · subst hk
    rw [update_self] at hk'
    obtain rfl := Option.some.inj hk'
    obtain ⟨p, hp, hok⟩ := hchild pk hpk
    exact ⟨p, hkeep pk p hp, hok⟩
  · rw [update_of_ne hk] at hk'
    obtain ⟨p, hp, hok⟩ := h k' child' hk' pk hpk
    exact ⟨p, hkeep pk p hp, hok⟩

theorem Linked.cut (h : Linked parent ok m) {gone : K → Prop} [DecidablePred gone]
    (hclosed : ∀ k child pk, m k = some child → parent child = some pk → gone pk → gone k) :
    Linked parent ok fun k => if gone k then none else m k := by
  intro k child hk pk hpk
  by_cases hg : gone k
  · simp [hg] at hk
  · simp only [hg, if_false] at hk
    obtain ⟨p, hp, hok⟩ := h k child hk pk hpk
    have hkept : ¬ gone pk := fun hgone => hg (hclosed k child pk hk hpk hgone)
    exact ⟨p, by simp only [hkept, if_false, hp], hok⟩

end AntX.Lib
