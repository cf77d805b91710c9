import Mathlib.Data.List.Nodup

/-! Entries in numbered slots that are found through buckets of slot numbers. -/

namespace AntX.Lib

open Function List

structure SlotIndex (ι β : Type) where
  slots : List (Option β)
  buckets : ι → List Nat

namespace SlotIndex

variable {ι κ β : Type} [DecidableEq ι] [DecidableEq κ]

def empty : SlotIndex ι β := ⟨[], fun _ => []⟩

def slot (t : SlotIndex ι β) (i : Nat) : Option β := t.slots[i]?.join

def holds (key : β → κ) (t : SlotIndex ι β) (k : κ) (i : Nat) : Bool :=
  (t.slot i).any fun x => key x == k

def find (key : β → κ) (home : κ → ι) (t : SlotIndex ι β) (k : κ) : Option Nat :=
  (t.buckets (home k)).find? (t.holds key k)

def modify (t : SlotIndex ι β) (i : Nat) (f : β → β) : SlotIndex ι β :=
  { t with slots := t.slots.modify i (Option.map f) }

/-- The first slot without an entry, or a new one at the end. -/
def vacant (t : SlotIndex ι β) : Nat := t.slots.findIdx Option.isNone

def put (key : β → κ) (home : κ → ι) (t : SlotIndex ι β) (x : β) : SlotIndex ι β where
  slots :=
    if t.vacant < t.slots.length then t.slots.set t.vacant (some x) else t.slots ++ [some x]
  buckets := update t.buckets (home (key x)) (t.buckets (home (key x)) ++ [t.vacant])

/-- Takes the entry out of a slot and gives its bucket the numbers `l`. -/
def without (t : SlotIndex ι β) (i : Nat) (b : ι) (l : List Nat) : SlotIndex ι β where
  slots := t.slots.set i none
  buckets := update t.buckets b l

structure Indexed (key : β → κ) (home : κ → ι) (t : SlotIndex ι β) : Prop where
  live : ∀ b, ∀ i ∈ t.buckets b, ∃ x, t.slot i = some x ∧ home (key x) = b
  nodup : ∀ b, (t.buckets b).Nodup
  unique : ∀ b, ∀ i ∈ t.buckets b, ∀ j ∈ t.buckets b, ∀ x y, t.slot i = some x → t.slot j = some y →
    key x = key y → i = j

variable {key : β → κ} {home : κ → ι} {t t' : SlotIndex ι β} {k : κ} {i j : Nat} {x : β}

omit [DecidableEq ι] [DecidableEq κ] in
theorem slot_modify (t : SlotIndex ι β) (i j : Nat) (f : β → β) :
    (t.modify i f).slot j = if i = j then (t.slot j).map f else t.slot j := by
  rw [slot, slot, modify, getElem?_modify]
  cases t.slots[j]? with
  | none => simp
  | some o =>
    split_ifs <;> rfl

omit [DecidableEq ι] [DecidableEq κ] in
theorem slot_vacant (t : SlotIndex ι β) : t.slot t.vacant = none := by
  rw [slot]
  by_cases hlt : t.vacant < t.slots.length
  · have hnone : t.slots[t.vacant].isNone = true := findIdx_getElem (w := hlt)
    rw [getElem?_eq_getElem hlt, Option.isNone_iff_eq_none.mp hnone]
    rfl
  · rw [getElem?_eq_none (Nat.le_of_not_lt hlt)]
    rfl

omit [DecidableEq κ] in
theorem slot_put (t : SlotIndex ι β) (x : β) (j : Nat) :
    (t.put key home x).slot j = if j = t.vacant then some x else t.slot j := by
  have hle : t.vacant ≤ t.slots.length := findIdx_le_length
  rw [slot, slot, put]
  by_cases hlt : t.vacant < t.slots.length
  · rw [if_pos hlt, getElem?_set]
    by_cases hj : j = t.vacant
    · rw [if_pos hj.symm, if_pos hj, if_pos (hj ▸ hlt)]
      rfl
    · rw [if_neg (Ne.symm hj), if_neg hj]
  · have hend : t.vacant = t.slots.length := Nat.le_antisymm hle (Nat.le_of_not_lt hlt)
    rw [if_neg hlt, hend]
    by_cases hj : j = t.slots.length
    · rw [if_pos hj, hj, getElem?_concat_length]
      rfl
    · rw [if_neg hj, getElem?_append]
      split_ifs with hj'
      · rfl
      · rw [getElem?_eq_none (l := [some x]) (by rw [length_singleton]; omega),
          getElem?_eq_none (Nat.le_of_not_lt hj')]

omit [DecidableEq κ] in
theorem slot_without (t : SlotIndex ι β) (i j : Nat) (b : ι) (l : List Nat) :
    (t.without i b l).slot j = if i = j then none else t.slot j := by
  rw [slot, slot, without]
  rw [getElem?_set]
  split_ifs <;> rfl

omit [DecidableEq κ] in
theorem buckets_without_self (t : SlotIndex ι β) (i : Nat) (b : ι) (l : List Nat) :
    (t.without i b l).buckets b = l := update_self _ _ _

omit [DecidableEq κ] in
theorem buckets_without_of_ne (t : SlotIndex ι β) (i : Nat) {b c : ι} (h : c ≠ b) (l : List Nat) :
    (t.without i b l).buckets c = t.buckets c := update_of_ne h _ _

omit [DecidableEq ι] in
theorem holds_iff : t.holds key k i = true ↔ ∃ x, t.slot i = some x ∧ key x = k := by
  rw [holds, Option.any_eq_true]
  simp only [beq_iff_eq]

omit [DecidableEq ι] in
theorem find_some (h : t.find key home k = some i) :
    i ∈ t.buckets (home k) ∧ ∃ x, t.slot i = some x ∧ key x = k :=
  ⟨mem_of_find?_eq_some h, holds_iff.mp (find?_some h)⟩

omit [DecidableEq ι] in
theorem find_none (h : t.find key home k = none) (hi : i ∈ t.buckets (home k)) : t.holds key k i = false := by
  have hnot := find?_eq_none.mp h i hi
  simpa using hnot

namespace Indexed

omit [DecidableEq ι] [DecidableEq κ] in
theorem empty : Indexed key home (SlotIndex.empty : SlotIndex ι β) where
  live _ i hi := by cases hi
  nodup _ := nodup_nil
  unique _ i hi := by cases hi

omit [DecidableEq ι] [DecidableEq κ] in
theorem modify (h : Indexed key home t) {f : β → β} (hf : ∀ y, key (f y) = key y) :
    Indexed key home (t.modify i f) := by
  have hslot : ∀ j y, (t.modify i f).slot j = some y → ∃ x, t.slot j = some x ∧ key x = key y := by
    intro j y hy
    rw [slot_modify] at hy
    split_ifs at hy
    · obtain ⟨x, hx, rfl⟩ := Option.map_eq_some_iff.mp hy
      exact ⟨x, hx, (hf x).symm⟩
    · exact ⟨y, hy, rfl⟩
  constructor
  · intro b j hj
    obtain ⟨x, hx, hb⟩ := h.live b j hj
    rw [slot_modify, hx]
    split_ifs
    · exact ⟨f x, rfl, by rw [hf, hb]⟩
    · exact ⟨x, rfl, hb⟩
  · exact h.nodup
  · intro b j hj l hl y z hy hz hkey
    obtain ⟨y', hy', hky⟩ := hslot j y hy
    obtain ⟨z', hz', hkz⟩ := hslot l z hz
    exact h.unique b j hj l hl y' z' hy' hz' (by rw [hky, hkz, hkey])

omit [DecidableEq κ] in
theorem without (h : Indexed key home t) (hx : t.slot i = some x) {l : List Nat}
    (hl : l.Sublist (t.buckets (home (key x)))) (hi : i ∉ l) :
    Indexed key home (t.without i (home (key x)) l) := by
  have hsub : ∀ b, ((t.without i (home (key x)) l).buckets b).Sublist (t.buckets b) := by
    intro b
    by_cases hb : b = home (key x)
    · rw [hb, buckets_without_self]
      exact hl
    · rw [buckets_without_of_ne t i hb]
  have hne : ∀ b, ∀ j ∈ (t.without i (home (key x)) l).buckets b, i ≠ j := by
    rintro b j hj rfl
    obtain ⟨y, hy, rfl⟩ := h.live b i ((hsub b).subset hj)
    obtain rfl := Option.some.inj (hx.symm.trans hy)
    rw [buckets_without_self] at hj
    exact hi hj
  have hslot : ∀ b, ∀ j ∈ (t.without i (home (key x)) l).buckets b,
      (t.without i (home (key x)) l).slot j = t.slot j := by
    intro b j hj
    rw [slot_without, if_neg (hne b j hj)]
  constructor
  · intro b j hj
    rw [hslot b j hj]
    exact h.live b j ((hsub b).subset hj)
  · intro b
    exact (hsub b).nodup (h.nodup b)
  · intro b j hj m hm y z hy hz
    rw [hslot b j hj] at hy
    rw [hslot b m hm] at hz
    exact h.unique b j ((hsub b).subset hj) m ((hsub b).subset hm) y z hy hz

omit [DecidableEq ι] [DecidableEq κ] in
theorem vacant_out (h : Indexed key home t) (b : ι) : t.vacant ∉ t.buckets b := by
  intro hmem
  obtain ⟨x, hx, -⟩ := h.live b _ hmem
  rw [slot_vacant] at hx
  cases hx

omit [DecidableEq κ] in
theorem mem_put {b : ι} : i ∈ (t.put key home x).buckets b ↔
    i ∈ t.buckets b ∨ b = home (key x) ∧ i = t.vacant := by
  rw [SlotIndex.put]
  dsimp only
  by_cases hb : b = home (key x)
  · rw [hb, update_self, mem_append, mem_singleton]
    simp
  · simp [hb]

omit [DecidableEq κ] in
theorem slot_put_of_mem (h : Indexed key home t) {b : ι} (hi : i ∈ t.buckets b) :
    (t.put key home x).slot i = t.slot i := by
  rw [slot_put, if_neg]
  intro heq
  exact h.vacant_out b (heq ▸ hi)

omit [DecidableEq κ] in
theorem slot_put_vacant : (t.put key home x).slot t.vacant = some x := by
  rw [slot_put, if_pos rfl]

theorem put (h : Indexed key home t) (hnew : t.find key home (key x) = none) :
    Indexed key home (t.put key home x) := by
  -- No number of the bucket belongs to an entry with the key of the new one.
  have hother : ∀ i ∈ t.buckets (home (key x)), ∀ y, t.slot i = some y → key y ≠ key x := by
    intro i hi y hy hkey
    have hholds := find_none hnew hi
    rw [holds_iff.mpr ⟨y, hy, hkey⟩] at hholds
    cases hholds
  constructor
  · intro b i hi
    rcases mem_put.mp hi with hi | ⟨rfl, rfl⟩
    · rw [h.slot_put_of_mem hi]
      exact h.live b i hi
    · exact ⟨x, slot_put_vacant, rfl⟩
  · intro b
    rw [SlotIndex.put]
    dsimp only
    by_cases hb : b = home (key x)
    · rw [hb, update_self]
      exact (h.nodup _).append (nodup_singleton _) (disjoint_singleton.mpr (h.vacant_out _))
    · rw [update_of_ne hb]
      exact h.nodup b
  · intro b i hi j hj y z hy hz hkey
    rcases mem_put.mp hi with hi | ⟨hb, rfl⟩ <;> rcases mem_put.mp hj with hj | ⟨hb', rfl⟩
    · rw [h.slot_put_of_mem hi] at hy
      rw [h.slot_put_of_mem hj] at hz
      exact h.unique b i hi j hj y z hy hz hkey
    · rw [h.slot_put_of_mem hi] at hy
      rw [slot_put_vacant] at hz
      cases hz
      exact absurd hkey (hother i (hb' ▸ hi) y hy)
    · rw [slot_put_vacant] at hy
      rw [h.slot_put_of_mem hj] at hz
      cases hy
      exact absurd hkey.symm (hother j (hb ▸ hj) z hz)
    · rfl

omit [DecidableEq ι] in
theorem find_eq (h : Indexed key home t) (hi : i ∈ t.buckets (home k)) (hslot : t.slot i = some x)
    (hkey : key x = k) : t.find key home k = some i := by
  cases hfind : t.find key home k with
  | none =>
    have hholds := find_none hfind hi
    rw [holds_iff.mpr ⟨x, hslot, hkey⟩] at hholds
    cases hholds
  | some j =>
    obtain ⟨hj, y, hy, hky⟩ := find_some hfind
    rw [h.unique _ i hi j hj x y hslot hy (hkey.trans hky.symm)]

theorem find_put (h : Indexed key home t) (hnew : t.find key home (key x) = none) :
    (t.put key home x).find key home (key x) = some t.vacant :=
  (h.put hnew).find_eq (mem_put.mpr (.inr ⟨rfl, rfl⟩)) slot_put_vacant rfl

theorem find_without (h : Indexed key home t) (hx : t.slot i = some x)
    (hi : i ∈ t.buckets (home (key x))) {l : List Nat}
    (hl : l.Sublist (t.buckets (home (key x)))) :
    (t.without i (home (key x)) l).find key home (key x) = none := by
  cases hfind : (t.without i (home (key x)) l).find key home (key x) with
  | none => rfl
  | some j =>
    obtain ⟨hj, y, hy, hkey⟩ := find_some hfind
    rw [buckets_without_self] at hj
    rw [slot_without] at hy
    split_ifs at hy with hij
    exact absurd (h.unique _ i hi j (hl.subset hj) x y hx hy hkey.symm) hij

end Indexed

theorem find_without_none (hnone : t.find key home k = none) {b : ι} {l : List Nat}
    (hl : l.Sublist (t.buckets b)) : (t.without i b l).find key home k = none := by
  cases hfind : (t.without i b l).find key home k with
  | none => rfl
  | some j =>
    obtain ⟨hj, y, hy, hkey⟩ := find_some hfind
    rw [slot_without] at hy
    split_ifs at hy
    have hmem : j ∈ t.buckets (home k) := by
      by_cases hb : home k = b
      · rw [hb, buckets_without_self] at hj
        exact hb ▸ hl.subset hj
      · rwa [buckets_without_of_ne t i hb] at hj
    have hholds := find_none hnone hmem
    rw [holds_iff.mpr ⟨y, hy, hkey⟩] at hholds
    cases hholds

omit [DecidableEq ι] in
theorem find_modify (t : SlotIndex ι β) (i : Nat) {f : β → β} (hf : ∀ y, key (f y) = key y) (k : κ) :
    (t.modify i f).find key home k = t.find key home k := by
  have hholds : (t.modify i f).holds key k = t.holds key k := by
    funext j
    rw [holds, holds, slot_modify]
    split_ifs
    · rw [Option.any_map]
      simp only [hf]
    · rfl
  rw [find, find, hholds]
  rfl

def Filed (key : β → κ) (home : κ → ι) (t : SlotIndex ι β) : Prop :=
  ∀ i x, t.slot i = some x → i ∈ t.buckets (home (key x))

namespace Filed

omit [DecidableEq ι] [DecidableEq κ] in
theorem empty : Filed key home (SlotIndex.empty : SlotIndex ι β) := by
  intro i x hx
  cases hx

omit [DecidableEq ι] [DecidableEq κ] in
theorem modify (h : Filed key home t) {f : β → β} (hf : ∀ y, key (f y) = key y) :
    Filed key home (t.modify i f) := by
  intro j y hy
  rw [slot_modify] at hy
  split_ifs at hy
  · obtain ⟨x, hx, rfl⟩ := Option.map_eq_some_iff.mp hy
    rw [hf]
    exact h j x hx
  · exact h j y hy

omit [DecidableEq κ] in
theorem without (h : Filed key home t) {b : ι} {l : List Nat} (hl : ∀ j ∈ t.buckets b, j ≠ i → j ∈ l) :
    Filed key home (t.without i b l) := by
  intro j y hy
  rw [slot_without] at hy
  split_ifs at hy with hij
  have hmem := h j y hy
  by_cases hb : home (key y) = b
  · rw [hb, buckets_without_self]
    exact hl j (hb ▸ hmem) (Ne.symm hij)
  · rwa [buckets_without_of_ne t i hb]

omit [DecidableEq κ] in
theorem put (h : Filed key home t) : Filed key home (t.put key home x) := by
  intro j y hy
  rw [slot_put] at hy
  split_ifs at hy with hj
  · cases hy
    exact Indexed.mem_put.mpr (.inr ⟨rfl, hj⟩)
  · exact Indexed.mem_put.mpr (.inl (h j y hy))

omit [DecidableEq ι] in
theorem find_iff (h : Filed key home t) (hind : Indexed key home t) :
    t.find key home k = some i ↔ ∃ x, t.slot i = some x ∧ key x = k := by
  constructor
  · exact fun hfind => (find_some hfind).2
  · rintro ⟨x, hx, rfl⟩
    exact hind.find_eq (h i x hx) hx rfl

end Filed

end SlotIndex

end AntX.Lib
