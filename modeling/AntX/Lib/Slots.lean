import Mathlib.Algebra.BigOperators.Fin
import Mathlib.Algebra.Order.BigOperators.Group.Finset

/-! Tables with a fixed number of slots, each empty or with one entry. -/

namespace AntX.Lib

open List Option Finset

def Slots (n : Nat) (α : Type*) := Fin n → Option α

namespace Slots

variable {n : Nat} {α : Type*} {t : Slots n α} {p : α → Bool} {i j : Fin n} {a b x : α}

def empty : Slots n α := fun _ => none

section

variable (t : Slots n α) (p : α → Bool)

def find? : Option (Fin n × α) :=
  (List.finRange n).findSome? fun i => ((t i).filter p).map fun a => (i, a)

def free? : Option (Fin n) := (List.finRange n).find? fun i => (t i).isNone

def set (i : Fin n) (o : Option α) : Slots n α :=
  fun j => if j = i then o else t j

def clear : Slots n α := fun i => (t i).filter fun a => !p a

def count : Nat := ∑ i, ((t i).any p).toNat

def occupied : Nat := ∑ i, (t i).isSome.toNat

def Has (a : α) : Prop := ∃ i, t i = some a

end

theorem find?_none (h : t.find? p = none) (ha : t.Has a) : p a = false := by
  obtain ⟨i, hi⟩ := ha
  have hp := findSome?_eq_none_iff.mp h i (mem_finRange i)
  rw [hi, map_eq_none_iff, filter_eq_none_iff] at hp
  simpa using hp a rfl

def FirstAt (t : Slots n α) (p : α → Bool) (i : Fin n) (a : α) : Prop :=
  t i = some a ∧ p a = true ∧ ∀ j < i, ∀ b, t j = some b → p b = false

theorem FirstAt.le (h : t.FirstAt p i a) (hj : t j = some b) (hp : p b = true) : i ≤ j := by
  by_contra hlt
  rw [h.2.2 j (not_le.mp hlt) b hj] at hp
  cases hp

theorem FirstAt.unique (hi : t.FirstAt p i a) (hj : t.FirstAt p j b) : i = j ∧ a = b := by
  obtain rfl := le_antisymm (hi.le hj.1 hj.2.1) (hj.le hi.1 hi.2.1)
  exact ⟨rfl, some.inj (hi.1.symm.trans hj.1)⟩

theorem find?_first (h : t.find? p = some (i, a)) : t.FirstAt p i a := by
  obtain ⟨before, k, after, hl, hk, hnone⟩ := findSome?_eq_some_iff.mp h
  obtain ⟨x, hx, hxa⟩ := map_eq_some_iff.mp hk
  obtain ⟨rfl, rfl⟩ := Prod.mk.inj hxa
  obtain ⟨hi, hp⟩ := filter_eq_some_iff.mp hx
  refine ⟨hi, hp, fun j hj b hb => ?_⟩
  have hsorted := pairwise_lt_finRange n
  have hmem := mem_finRange j
  rw [hl] at hsorted hmem
  rcases mem_append.mp hmem with hin | hin
  · have hskip := hnone j hin
    rw [hb, map_eq_none_iff, filter_eq_none_iff] at hskip
    simpa using hskip b rfl
  · have hafter := (pairwise_cons.mp (pairwise_append.mp hsorted).2.1).1
    rcases mem_cons.mp hin with rfl | hin
    · exact absurd hj (lt_irrefl _)
    · exact absurd hj (lt_asymm (hafter j hin))

theorem find?_some (h : t.find? p = some (i, a)) : t i = some a ∧ p a = true :=
  ⟨(find?_first h).1, (find?_first h).2.1⟩

theorem free?_some (h : t.free? = some i) : t i = none := by
  have hp := List.find?_some (p := fun i => (t i).isNone) h
  exact isNone_iff_eq_none.mp hp

theorem set_self {o : Option α} : t.set i o i = o := if_pos rfl

theorem set_of_ne {o : Option α} (h : j ≠ i) : t.set i o j = t j := if_neg h

theorem has_update : (t.set i (some x)).Has b ↔ b = x ∨ ∃ j, j ≠ i ∧ t j = some b := by
  constructor
  · rintro ⟨j, hj⟩
    by_cases hji : j = i
    · subst hji
      rw [set_self] at hj
      exact .inl (some.inj hj).symm
    · rw [set_of_ne hji] at hj
      exact .inr ⟨j, hji, hj⟩
  · rintro (rfl | ⟨j, hji, hj⟩)
    · exact ⟨i, set_self⟩
    · exact ⟨j, by rw [set_of_ne hji, hj]⟩

theorem clear_eq_some : t.clear p i = some a ↔ t i = some a ∧ p a = false := by
  rw [clear, filter_eq_some_iff, Bool.not_eq_true']

theorem occupied_update (o : Option α) :
    (t.set i o).occupied + (t i).isSome.toNat = t.occupied + o.isSome.toNat := by
  have hrest : ∑ j ∈ univ.erase i, (t.set i o j).isSome.toNat = ∑ j ∈ univ.erase i, (t j).isSome.toNat := by
    apply sum_congr rfl
    intro j hj
    rw [set_of_ne (ne_of_mem_erase hj)]
  have hnew := sum_erase_add univ (fun j => (t.set i o j).isSome.toNat) (mem_univ i)
  have hold := sum_erase_add univ (fun j => (t j).isSome.toNat) (mem_univ i)
  rw [hrest, set_self] at hnew
  rw [occupied, occupied]
  omega

theorem occupied_insert (hi : t i = none) : (t.set i (some x)).occupied = t.occupied + 1 := by
  simpa [hi] using occupied_update (t := t) (i := i) (some x)

theorem occupied_replace (hi : t i = some a) : (t.set i (some x)).occupied = t.occupied := by
  simpa [hi] using occupied_update (t := t) (i := i) (some x)

theorem occupied_remove (hi : t i = some a) : (t.set i none).occupied + 1 = t.occupied := by
  simpa [hi] using occupied_update (t := t) (i := i) none

theorem occupied_clear : (t.clear p).occupied + t.count p = t.occupied := by
  rw [occupied, count, occupied, ← sum_add_distrib]
  apply sum_congr rfl
  intro j _
  cases hj : t j with
  | none => simp [clear, hj]
  | some a => cases hp : p a <;> simp [clear, hj, hp]

theorem count_pos (ha : t.Has a) (hp : p a = true) : 0 < t.count p := by
  obtain ⟨i, hi⟩ := ha
  have hle := single_le_sum (f := fun j => ((t j).any p).toNat) (fun j _ => Nat.zero_le _) (mem_univ i)
  have hone : ((t i).any p).toNat = 1 := by simp [hi, hp]
  rw [count]
  omega

theorem occupied_le : t.occupied ≤ n := by
  have h : ∀ j ∈ univ, (t j).isSome.toNat ≤ 1 := fun j _ => Bool.toNat_le _
  simpa [occupied] using sum_le_card_nsmul univ _ 1 h

theorem occupied_empty : (empty : Slots n α).occupied = 0 := by simp [occupied, empty]

def Mutual (R : α → α → Prop) (t : Slots n α) : Prop :=
  ∀ i j a b, i ≠ j → t i = some a → t j = some b → R a b

variable {R : α → α → Prop}

theorem Mutual.empty : Mutual R (empty : Slots n α) := by
  intro i j a b _ ha
  cases ha

theorem Mutual.set (hsymm : ∀ a b, R a b → R b a) (h : Mutual R t)
    (hx : ∀ j, j ≠ i → ∀ b, t j = some b → R b x) : Mutual R (t.set i (some x)) := by
  intro j k a b hjk ha hb
  by_cases hj : j = i
  · have hk : k ≠ i := fun hk => hjk (hj.trans hk.symm)
    rw [hj, set_self] at ha
    rw [set_of_ne hk] at hb
    cases ha
    exact hsymm b x (hx k hk b hb)
  · rw [set_of_ne hj] at ha
    by_cases hk : k = i
    · rw [hk, set_self] at hb
      cases hb
      exact hx j hj a ha
    · rw [set_of_ne hk] at hb
      exact h j k a b hjk ha hb

theorem Mutual.sub {t' : Slots n α} (h : Mutual R t)
    (hsub : ∀ i a, t' i = some a → t i = some a) : Mutual R t' :=
  fun i j a b hij ha hb => h i j a b hij (hsub i a ha) (hsub j b hb)

theorem Mutual.remove (h : Mutual R t) : Mutual R (t.set i none) := by
  apply h.sub
  intro j a hj
  by_cases hji : j = i
  · rw [hji, set_self] at hj
    cases hj
  · rwa [set_of_ne hji] at hj

theorem Mutual.clear (h : Mutual R t) : Mutual R (t.clear p) :=
  h.sub fun _ _ hia => (clear_eq_some.mp hia).1

theorem Mutual.of_has (h : Mutual R t) (hrefl : ∀ a, R a a) (ha : t.Has a) (hb : t.Has b) :
    R a b := by
  obtain ⟨i, hi⟩ := ha
  obtain ⟨j, hj⟩ := hb
  by_cases hij : i = j
  · rw [hij, hj] at hi
    cases hi
    exact hrefl _
  · exact h i j a b hij hi hj

end Slots

structure Counted (n : Nat) (α : Type*) where
  entries : Slots n α
  count : Nat

namespace Counted

variable {n : Nat} {α : Type*} {t : Counted n α} {i : Fin n} {a x : α} {p : α → Bool}

def empty : Counted n α := ⟨Slots.empty, 0⟩

section

variable (t : Counted n α) (i : Fin n) (x : α)

def replace : Counted n α :=
  { t with entries := t.entries.set i (some x) }

def insert : Counted n α :=
  { entries := t.entries.set i (some x), count := (t.count + 1) % 2 ^ 64 }

def remove : Counted n α :=
  { entries := t.entries.set i none, count := (t.count + 2 ^ 64 - 1) % 2 ^ 64 }

def clear (p : α → Bool) : Counted n α :=
  { entries := t.entries.clear p, count := (t.count + 2 ^ 64 - t.entries.count p) % 2 ^ 64 }

def Exact : Prop := t.count = t.entries.occupied

end

open Slots

theorem Exact.empty : (empty : Counted n α).Exact := occupied_empty.symm

theorem Exact.replace (h : t.Exact) (hi : t.entries i = some a) : (t.replace i x).Exact :=
  h.trans (occupied_replace hi).symm

theorem Exact.insert (hn : n < 2 ^ 64) (h : t.Exact) (hi : t.entries i = none) : (t.insert i x).Exact := by
  have hocc := occupied_insert (x := x) hi
  have hle := occupied_le (t := t.entries.set i (some x))
  rw [Exact] at h
  rw [Exact, Counted.insert]
  dsimp only
  omega

theorem Exact.remove (hn : n < 2 ^ 64) (h : t.Exact) (hi : t.entries i = some a) : (t.remove i).Exact := by
  have hocc := occupied_remove hi
  have hle := occupied_le (t := t.entries)
  rw [Exact] at h
  rw [Exact, Counted.remove]
  dsimp only
  omega

theorem Exact.clear (hn : n < 2 ^ 64) (h : t.Exact) : (t.clear p).Exact := by
  have hocc := occupied_clear (t := t.entries) (p := p)
  have hle := occupied_le (t := t.entries)
  rw [Exact] at h
  rw [Exact, Counted.clear]
  dsimp only
  omega

end Counted

end AntX.Lib
