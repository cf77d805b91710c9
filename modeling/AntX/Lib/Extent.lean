import Mathlib.Data.Nat.Bitwise
import Mathlib.Order.Interval.Set.LinearOrder

/-! Lists of records that occupy half-open extents of a line, each of which ends before the next
starts. Aligned blocks of `2 ^ o` numbers and their buddies. -/

namespace AntX.Lib

open List

variable {α : Type*}

/-- Two half-open extents share a point (for proper extents). -/
def Meets (lo hi : α → Nat) (a b : α) : Prop := lo a < hi b ∧ lo b < hi a

structure Ordered (lo hi : α → Nat) (l : List α) : Prop where
  proper : ∀ a ∈ l, lo a < hi a
  apart : l.Pairwise (fun a b => hi a ≤ lo b)

variable {lo hi : α → Nat}

theorem Ordered.nil : Ordered lo hi [] := ⟨by simp, .nil⟩

variable {a b : α} {l r : List α} {x limit cursor : Nat} {gap : Nat × Nat}

theorem ordered_cons : Ordered lo hi (a :: l) ↔ lo a < hi a ∧ (∀ b ∈ l, hi a ≤ lo b) ∧ Ordered lo hi l := by
  constructor
  · intro h
    have hp := pairwise_cons.mp h.apart
    exact ⟨h.proper a (by simp), hp.1, fun b hb => h.proper b (by simp [hb]), hp.2⟩
  · rintro ⟨ha, hb, hl⟩
    refine ⟨?_, pairwise_cons.mpr ⟨hb, hl.apart⟩⟩
    intro b hm
    rcases mem_cons.mp hm with rfl | hm
    · exact ha
    · exact hl.proper b hm

theorem Ordered.singleton (h : lo a < hi a) : Ordered lo hi [a] :=
  ordered_cons.mpr ⟨h, by simp, Ordered.nil⟩

theorem Ordered.sublist (h : Ordered lo hi l) (hs : r.Sublist l) : Ordered lo hi r :=
  ⟨fun a ha => h.proper a (hs.subset ha), h.apart.sublist hs⟩

theorem ordered_append : Ordered lo hi (l ++ r) ↔
      Ordered lo hi l ∧ Ordered lo hi r ∧ ∀ a ∈ l, ∀ b ∈ r, hi a ≤ lo b := by
  constructor
  · intro h
    exact ⟨h.sublist (sublist_append_left _ _), h.sublist (sublist_append_right _ _),
      (pairwise_append.mp h.apart).2.2⟩
  · rintro ⟨hl, hr, hx⟩
    refine ⟨?_, pairwise_append.mpr ⟨hl.apart, hr.apart, hx⟩⟩
    intro a ha
    rcases mem_append.mp ha with ha | ha
    · exact hl.proper a ha
    · exact hr.proper a ha

theorem Ordered.eq_of_mem (h : Ordered lo hi l) (ha : a ∈ l) (hb : b ∈ l) (hm : Meets lo hi a b) : a = b := by
  induction l with
  | nil => simp at ha
  | cons c l ih =>
    obtain ⟨_, hc, hl⟩ := ordered_cons.mp h
    rcases mem_cons.mp ha with rfl | ha' <;> rcases mem_cons.mp hb with rfl | hb'
    · rfl
    · have := hc b hb'
      have := hm.2
      omega
    · have := hc a ha'
      have := hm.1
      omega
    · exact ih hl ha' hb'

theorem Ordered.unique_at (h : Ordered lo hi l) (ha : a ∈ l) (hb : b ∈ l)
    (hax : lo a ≤ x ∧ x < hi a) (hbx : lo b ≤ x ∧ x < hi b) : a = b :=
  h.eq_of_mem ha hb ⟨by omega, by omega⟩

theorem Ordered.flatMap (h : Ordered lo hi l) {f : α → List α} (hf : ∀ a ∈ l, Ordered lo hi (f a))
    (hin : ∀ a ∈ l, ∀ b ∈ f a, lo a ≤ lo b ∧ hi b ≤ hi a) : Ordered lo hi (l.flatMap f) := by
  induction l with
  | nil => exact Ordered.nil
  | cons a l ih =>
    obtain ⟨_, ha, hl⟩ := ordered_cons.mp h
    rw [flatMap_cons, ordered_append]
    refine ⟨hf a (by simp), ih hl (fun b hb => hf b (by simp [hb])) (fun b hb => hin b (by simp [hb])), ?_⟩
    intro b hb c hc
    obtain ⟨d, hd, hcd⟩ := mem_flatMap.mp hc
    have hb' := hin a (by simp) b hb
    have hc' := hin d (by simp [hd]) c hcd
    have := ha d hd
    omega

theorem Ordered.insert (h : Ordered lo hi (l ++ r)) (ha : lo a < hi a) (hl : ∀ b ∈ l, lo b ≤ lo a)
    (hr : ∀ b ∈ r, lo a < lo b) (hm : ∀ b ∈ l ++ r, ¬ Meets lo hi a b) :
    Ordered lo hi (l ++ a :: r) := by
  obtain ⟨h1, h2, h3⟩ := ordered_append.mp h
  have hleft : ∀ b ∈ l, hi b ≤ lo a := by
    intro b hb
    have hn := hm b (by simp [hb])
    have := hl b hb
    unfold Meets at hn
    omega
  have hright : ∀ b ∈ r, hi a ≤ lo b := by
    intro b hb
    have hn := hm b (by simp [hb])
    have := hr b hb
    have := h2.proper b hb
    unfold Meets at hn
    omega
  refine ordered_append.mpr ⟨h1, ordered_cons.mpr ⟨ha, hright, h2⟩, ?_⟩
  intro b hb c hc
  rcases mem_cons.mp hc with rfl | hc
  · exact hleft b hb
  · exact h3 b hb c hc

theorem Ordered.find_eq_some_iff (h : Ordered lo hi l) :
    l.find? (fun b => decide (lo b ≤ x) && decide (x < hi b)) = some a ↔ a ∈ l ∧ lo a ≤ x ∧ x < hi a := by
  constructor
  · intro hf
    have hp := find?_some hf
    simp only [Bool.and_eq_true, decide_eq_true_eq] at hp
    exact ⟨mem_of_find?_eq_some hf, hp⟩
  · rintro ⟨ha, hx⟩
    cases hf : l.find? (fun b => decide (lo b ≤ x) && decide (x < hi b)) with
    | none =>
      have := find?_eq_none.mp hf a ha
      simp [hx] at this
    | some b =>
      have hp := find?_some hf
      simp only [Bool.and_eq_true, decide_eq_true_eq] at hp
      rw [h.unique_at (mem_of_find?_eq_some hf) ha hp hx]

/-- The stretches `(from, to)` between the members, from a cursor to a limit. The
cursor may lie anywhere, so the first stretch may be no stretch at all. -/
def gaps (lo hi : α → Nat) (limit : Nat) : Nat → List α → List (Nat × Nat)
  | cursor, [] => [(cursor, limit)]
  | cursor, a :: l => (cursor, lo a) :: gaps lo hi limit (hi a) l

def Fits (size : Nat) (gap : Nat × Nat) : Prop := gap.1 + size ≤ gap.2

instance (size : Nat) (gap : Nat × Nat) : Decidable (Fits size gap) :=
  inferInstanceAs (Decidable (_ ≤ _))

theorem gaps_from_ge (h : Ordered lo hi l) (hc : ∀ a ∈ l, cursor ≤ lo a)
    (hg : gap ∈ gaps lo hi limit cursor l) : cursor ≤ gap.1 := by
  induction l generalizing cursor with
  | nil =>
    rw [gaps, mem_singleton] at hg
    subst hg
    exact Nat.le_refl cursor
  | cons a l ih =>
    obtain ⟨ha, hb, hl⟩ := ordered_cons.mp h
    rw [gaps, mem_cons] at hg
    rcases hg with rfl | hg
    · exact Nat.le_refl cursor
    · have := ih hl hb hg
      have := hc a (by simp)
      omega

theorem find_gap_least (h : Ordered lo hi l) {size : Nat} {first : Nat × Nat}
    (hf : (gaps lo hi limit cursor l).find? (fun g => decide (Fits size g)) = some first)
    (hg : gap ∈ gaps lo hi limit cursor l) (hs : Fits size gap) : first.1 ≤ gap.1 := by
  induction l generalizing cursor with
  | nil =>
    rw [gaps, mem_singleton] at hg
    have hm := mem_of_find?_eq_some hf
    rw [gaps, mem_singleton] at hm
    subst hm hg
    exact Nat.le_refl cursor
  | cons a l ih =>
    obtain ⟨ha, hb, hl⟩ := ordered_cons.mp h
    rw [gaps, find?_cons] at hf
    rw [gaps, mem_cons] at hg
    by_cases hc : Fits size (cursor, lo a)
    · simp only [hc, decide_true, Option.some.injEq] at hf
      subst hf
      rcases hg with rfl | hg
      · exact Nat.le_refl cursor
      · have hafter := gaps_from_ge hl hb hg
        unfold Fits at hc
        omega
    · simp only [hc, decide_false] at hf
      rcases hg with rfl | hg
      · exact absurd hs hc
      · exact ih hl hf hg

def block (p o : Nat) : Set Nat := Set.Ico p (p + 2 ^ o)

@[simp] theorem mem_block {p o x : Nat} : x ∈ block p o ↔ p ≤ x ∧ x < p + 2 ^ o := Iff.rfl

theorem self_mem_block (p o : Nat) : p ∈ block p o := by
  have := Nat.two_pow_pos o
  exact mem_block.mpr ⟨le_rfl, by omega⟩

def buddy (p o : Nat) : Nat := p ^^^ 2 ^ o

variable {p o : Nat}

/-- The buddy of an aligned block is its right or its left neighbour, whichever
completes it to an aligned block of twice the size. -/
theorem buddy_cases (h : p % 2 ^ o = 0) : (buddy p o = p + 2 ^ o ∧ p % 2 ^ (o + 1) = 0) ∨
      (p = buddy p o + 2 ^ o ∧ buddy p o % 2 ^ (o + 1) = 0) := by
  obtain ⟨k, rfl⟩ := Nat.dvd_of_mod_eq_zero h
  have hx : buddy (2 ^ o * k) o = 2 ^ o * (k ^^^ 1) := by
    have hd := @Nat.shiftLeft_xor_distrib o k 1
    simp only [Nat.shiftLeft_eq, Nat.one_mul] at hd
    rw [buddy, Nat.mul_comm, ← hd, Nat.mul_comm]
  rw [hx, Nat.pow_succ]
  rcases Nat.even_or_odd k with he | ho
  · left
    rw [Nat.xor_one_of_even he]
    obtain ⟨j, rfl⟩ := he
    refine ⟨by rw [Nat.mul_add, Nat.mul_one], ?_⟩
    rw [← two_mul, ← Nat.mul_assoc, Nat.mul_mod_right]
  · right
    rw [Nat.xor_one_of_odd ho]
    obtain ⟨j, rfl⟩ := ho
    refine ⟨by rw [← Nat.mul_succ, Nat.succ_eq_add_one, Nat.add_sub_cancel], ?_⟩
    rw [Nat.add_sub_cancel, ← Nat.mul_assoc, Nat.mul_mod_right]

theorem mod_two_pow_of_succ (h : p % 2 ^ (o + 1) = 0) : p % 2 ^ o = 0 :=
  Nat.mod_eq_zero_of_dvd ((Nat.pow_dvd_pow 2 (Nat.le_succ o)).trans (Nat.dvd_of_mod_eq_zero h))

theorem block_succ (p o : Nat) : block p (o + 1) = block p o ∪ block (p + 2 ^ o) o := by
  ext x
  simp only [mem_block, Set.mem_union, Nat.pow_succ]
  omega

theorem block_min_buddy (h : p % 2 ^ o = 0) : min p (buddy p o) % 2 ^ (o + 1) = 0 ∧
      block (min p (buddy p o)) (o + 1) = block p o ∪ block (buddy p o) o := by
  rcases buddy_cases h with ⟨hb, hm⟩ | ⟨hb, hm⟩
  · rw [Nat.min_eq_left (by omega), block_succ, hb]
    exact ⟨hm, rfl⟩
  · rw [Nat.min_eq_right (by omega), block_succ, ← hb, Set.union_comm]
    exact ⟨hm, rfl⟩

end AntX.Lib
