import Mathlib.Logic.Function.Basic

/-! Caches as tables: a slot holds nothing or a key with a value. A table agrees with a map when no key
stands in two slots and each key has the value of the map. -/

namespace AntX.Lib

open Function Option

variable {ι κ β : Type*} {t : ι → Option (κ × β)} {f : κ → Option β} {i : ι} {k : κ} {v w : β}

structure Agrees (t : ι → Option (κ × β)) (f : κ → Option β) : Prop where
  unique : ∀ i j k v w, t i = some (k, v) → t j = some (k, w) → i = j
  current : ∀ i k v, t i = some (k, v) → f k = some v

def Absent (t : ι → Option (κ × β)) (k : κ) : Prop := ∀ i v, t i ≠ some (k, v)

theorem agrees_empty (f : κ → Option β) : Agrees (fun _ : ι => none) f :=
  ⟨fun _ _ _ _ _ h => (some_ne_none _ h.symm).elim, fun _ _ _ h => (some_ne_none _ h.symm).elim⟩

theorem Agrees.note [DecidableEq κ] (h : Agrees t f) (hk : Absent t k) (o : Option β) :
    Agrees t (update f k o) := by
  refine ⟨h.unique, fun i k' v hi => ?_⟩
  have hne : k' ≠ k := fun heq => hk i v (heq ▸ hi)
  rw [update_of_ne hne, h.current i k' v hi]

theorem Agrees.put [DecidableEq ι] (h : Agrees t f) (hk : ∀ j v, j ≠ i → t j ≠ some (k, v)) (hv : f k = some v) :
    Agrees (update t i (some (k, v))) f := by
  have hheld : ∀ j k' w, update t i (some (k, v)) j = some (k', w) →
      j = i ∧ k' = k ∧ w = v ∨ j ≠ i ∧ t j = some (k', w) := by
    intro j k' w hj
    by_cases hji : j = i
    · rw [hji, update_self, some.injEq, Prod.mk.injEq] at hj
      exact .inl ⟨hji, hj.1.symm, hj.2.symm⟩
    · rw [update_of_ne hji] at hj
      exact .inr ⟨hji, hj⟩
  constructor
  · intro j j' k' w w' hj hj'
    rcases hheld j k' w hj with ⟨rfl, rfl, -⟩ | ⟨hne, hold⟩
    · rcases hheld j' _ w' hj' with ⟨rfl, -⟩ | ⟨hne', hold'⟩
      · rfl
      · exact (hk j' w' hne' hold').elim
    · rcases hheld j' k' w' hj' with ⟨rfl, rfl, -⟩ | ⟨-, hold'⟩
      · exact (hk j w hne hold).elim
      · exact h.unique j j' k' w w' hold hold'
  · intro j k' w hj
    rcases hheld j k' w hj with ⟨-, rfl, rfl⟩ | ⟨-, hold⟩
    · exact hv
    · exact h.current j k' w hold

theorem Agrees.erase [DecidableEq ι] (h : Agrees t f) (i : ι) : Agrees (update t i none) f := by
  have hold : ∀ j x, update t i none j = some x → t j = some x := by
    intro j x hj
    by_cases hji : j = i
    · rw [hji, update_self] at hj
      cases hj
    · rwa [update_of_ne hji] at hj
  exact ⟨fun j j' k v w hj hj' => h.unique j j' k v w (hold j _ hj) (hold j' _ hj'),
    fun j k v hj => h.current j k v (hold j _ hj)⟩

theorem Agrees.renew [DecidableEq ι] [DecidableEq κ] (h : Agrees t f) (hi : t i = some (k, w)) (v : β) :
    Agrees (update t i (some (k, v))) (update f k (some v)) := by
  have habsent : Absent (update t i none) k := by
    intro j u hj
    by_cases hji : j = i
    · rw [hji, update_self] at hj
      cases hj
    · rw [update_of_ne hji] at hj
      exact hji (h.unique j i k u w hj hi)
  have hput := @Agrees.put _ _ _ _ _ i k v _ ((h.erase i).note habsent (some v)) (fun j u _ => habsent j u)
    (update_self ..)
  rwa [update_idem] at hput

theorem Agrees.drop (h : Agrees t f) (p : κ → Bool) :
    Agrees (fun i => (t i).filter fun x => !p x.1) fun k => if p k then none else f k := by
  have hold : ∀ i k v, (t i).filter (fun x => !p x.1) = some (k, v) → t i = some (k, v) ∧ p k = false := by
    intro i k v hi
    obtain ⟨ht, hp⟩ := filter_eq_some_iff.mp hi
    exact ⟨ht, by simpa using hp⟩
  constructor
  · intro i j k v w hi hj
    exact h.unique i j k v w (hold i k v hi).1 (hold j k w hj).1
  · intro i k v hi
    obtain ⟨ht, hp⟩ := hold i k v hi
    rw [hp, if_neg (by decide), h.current i k v ht]

end AntX.Lib
