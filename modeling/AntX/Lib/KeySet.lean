import Mathlib.Tactic.Ring

/-! Sets of keys of a linear order, kept as a strictly increasing list: insertion, removal, the
least and the greatest key, and how many keys satisfy a predicate. -/

namespace AntX.Lib

open List

variable {α : Type*} [LinearOrder α] {xs : List α}

/-- A key that is there already stays once. -/
def insertKey (k : α) : List α → List α
  | [] => [k]
  | x :: xs => if k < x then k :: x :: xs else if k = x then x :: xs else x :: insertKey k xs

theorem mem_insertKey {k y : α} : y ∈ insertKey k xs ↔ y = k ∨ y ∈ xs := by
  induction xs with
  | nil => simp [insertKey]
  | cons x xs ih =>
    rw [insertKey]
    by_cases hlt : k < x
    · simp [hlt]
    · by_cases heq : k = x
      · rw [if_neg hlt, if_pos heq, heq]
        simp
      · simp only [hlt, heq, if_false, mem_cons, ih]
        exact or_left_comm

theorem insertKey_sorted {k : α} (h : xs.Pairwise (· < ·)) : (insertKey k xs).Pairwise (· < ·) := by
  induction xs with
  | nil => simp [insertKey]
  | cons x xs ih =>
    obtain ⟨hx, hxs⟩ := pairwise_cons.1 h
    rw [insertKey]
    by_cases hlt : k < x
    · rw [if_pos hlt]
      refine pairwise_cons.2 ⟨fun y hy => ?_, h⟩
      rcases mem_cons.1 hy with rfl | hy
      · exact hlt
      · exact lt_trans hlt (hx y hy)
    · by_cases heq : k = x
      · rw [if_neg hlt, if_pos heq]
        exact h
      · rw [if_neg hlt, if_neg heq]
        refine pairwise_cons.2 ⟨fun y hy => ?_, ih hxs⟩
        rcases mem_insertKey.1 hy with rfl | hy
        · exact lt_of_le_of_ne (le_of_not_gt hlt) (Ne.symm heq)
        · exact hx y hy

theorem insertKey_perm {k : α} (h : k ∉ xs) : (insertKey k xs).Perm (k :: xs) := by
  induction xs with
  | nil => exact List.Perm.refl _
  | cons x xs ih =>
    have hne : k ≠ x := fun hk => h (by simp [hk])
    rw [insertKey, if_neg hne]
    by_cases hlt : k < x
    · rw [if_pos hlt]
    · rw [if_neg hlt]
      exact ((ih fun hk => h (by simp [hk])).cons x).trans (List.Perm.swap _ _ _)

structure KeySet (α : Type*) [LinearOrder α] where
  keys : List α
  sorted : keys.Pairwise (· < ·)

namespace KeySet

variable {s : KeySet α} {k x : α} {p : α → Bool}

def empty : KeySet α := ⟨[], List.Pairwise.nil⟩

def insert (s : KeySet α) (k : α) : KeySet α := ⟨insertKey k s.keys, insertKey_sorted s.sorted⟩

def remove (s : KeySet α) (k : α) : KeySet α := ⟨s.keys.erase k, s.sorted.sublist erase_sublist⟩

def first (s : KeySet α) : Option α := s.keys.head?

def last (s : KeySet α) : Option α := s.keys.getLast?

instance : Membership α (KeySet α) := ⟨fun s k => k ∈ s.keys⟩

instance : DecidableEq (KeySet α) := fun s t =>
  decidable_of_iff (s.keys = t.keys) ⟨fun h => by cases s; cases t; simp_all, fun h => h ▸ rfl⟩

instance (s : KeySet α) (k : α) : Decidable (k ∈ s) := inferInstanceAs (Decidable (k ∈ s.keys))

theorem mem_def : k ∈ s ↔ k ∈ s.keys := Iff.rfl

theorem nodup (s : KeySet α) : s.keys.Nodup := s.sorted.imp ne_of_lt

@[simp] theorem not_mem_empty (k : α) : k ∉ (empty : KeySet α) := not_mem_nil

@[simp] theorem mem_insert : x ∈ s.insert k ↔ x = k ∨ x ∈ s := mem_insertKey

@[simp] theorem mem_remove : x ∈ s.remove k ↔ x ≠ k ∧ x ∈ s := s.nodup.mem_erase_iff

theorem mem_foldl_insert {β : Type*} (f : β → α) (l : List β) :
    x ∈ l.foldl (fun s e => s.insert (f e)) s ↔ x ∈ s ∨ ∃ e ∈ l, x = f e := by
  induction l generalizing s with
  | nil => simp
  | cons e l ih => simp [ih, or_assoc, or_left_comm]

theorem first_mem (h : s.first = some k) : k ∈ s := mem_of_mem_head? h

theorem first_none (h : s.first = none) (k : α) : k ∉ s := by
  rw [mem_def, head?_eq_none_iff.1 h]
  exact not_mem_nil

theorem first_le (h : s.first = some k) (hx : x ∈ s) : k ≤ x := by
  obtain ⟨xs, hs⟩ := head?_eq_some_iff.1 h
  have hsorted := s.sorted
  rw [hs] at hsorted
  rw [mem_def, hs] at hx
  rcases mem_cons.1 hx with rfl | hx
  · exact le_refl _
  · exact le_of_lt ((pairwise_cons.1 hsorted).1 x hx)

def count (s : KeySet α) (p : α → Bool) : Nat := s.keys.countP p

@[simp] theorem count_empty : (empty : KeySet α).count p = 0 := rfl

theorem count_pos : 0 < s.count p ↔ ∃ k ∈ s, p k = true := countP_pos_iff

theorem remove_perm (h : k ∈ s) : s.keys.Perm (k :: (s.remove k).keys) := perm_cons_erase h

theorem insert_remove (h : k ∈ s) : (s.remove k).insert k = s := by
  have hperm : ((s.remove k).insert k).keys.Perm s.keys :=
    (insertKey_perm (by rw [← mem_def, mem_remove]; simp)).trans (perm_cons_erase h).symm
  have heq : ((s.remove k).insert k).keys = s.keys :=
    hperm.eq_of_pairwise (fun _ _ _ _ hab hba => absurd hab (lt_asymm hba))
      ((s.remove k).insert k).sorted s.sorted
  cases s
  simpa [insert] using heq

end KeySet

end AntX.Lib
