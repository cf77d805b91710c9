import AntX.Mm.VmaInvariant

/-! Where the search for a free range may land: also in a gap below `mmap_base` or, between two areas,
above the top of the user half. -/

namespace AntX.Mm

open Lib List

/-- What a caller expects of the address `a` it was given for `size` bytes. -/
structure FreeAt (mm : MmStruct) (size a : Nat) : Prop where
  base : mm.mmapBase ≤ a
  top : a + size ≤ userAddrMax
  clear : ∀ v ∈ mm.vmas, ¬ (a < v.stop ∧ v.start < a + size)

def searchGaps (mm : MmStruct) : List (Nat × Nat) :=
  gaps Vma.start Vma.stop userAddrMax mm.mmapBase mm.vmas

/-- No gap behind an area below the base is large enough, and where any gap is
large enough there is one that is so below the top of the user half. -/
structure GapsSafe (mm : MmStruct) (size : Nat) : Prop where
  base : ∀ gap ∈ searchGaps mm, gap.1 < mm.mmapBase → ¬ Fits size gap
  top : (∃ gap ∈ searchGaps mm, Fits size gap) →
    ∃ gap ∈ searchGaps mm, Fits size gap ∧ gap.1 + size ≤ userAddrMax

theorem findFreeLoop_eq_gap {size cursor : Nat} {vmas : List Vma} (hf : SumsFit size cursor vmas) :
    findFreeLoop size cursor vmas = ((gaps Vma.start Vma.stop userAddrMax cursor vmas).find?
        (fun g => decide (Fits size g))).map Prod.fst := by
  induction vmas generalizing cursor with
  | nil =>
    rw [findFreeLoop, gaps, wadd_eq hf, find?_singleton]
    by_cases hc : cursor + size ≤ userAddrMax <;> simp [Fits, hc]
  | cons v vmas ih =>
    rw [findFreeLoop, gaps, wadd_eq hf.1, find?_cons]
    by_cases hc : cursor + size ≤ v.start
    · simp [Fits, hc]
    · simp only [hc, if_false, Fits, decide_false]
      exact ih (hf.2.resolve_left hc)

variable {mm : MmStruct}

theorem findFreeRange_safe_iff {size : Nat} (hl : OrderedVmas mm.vmas)
    (hf : SumsFit size mm.mmapBase mm.vmas) :
    (∀ a, findFreeRange mm size = some a → FreeAt mm size a) ↔ GapsSafe mm size := by
  have hgap : findFreeRange mm size = _ := findFreeLoop_eq_gap hf
  cases hfirst : (searchGaps mm).find? (fun g => decide (Fits size g)) with
  | none =>
    have hnone : ∀ gap ∈ searchGaps mm, ¬ Fits size gap := by
      intro gap hg
      simpa using find?_eq_none.mp hfirst gap hg
    rw [hgap]
    constructor
    · intro _
      refine ⟨fun gap hg _ => hnone gap hg, ?_⟩
      rintro ⟨gap, hg, hs⟩
      exact absurd hs (hnone gap hg)
    · intro _ a ha
      change Option.map Prod.fst ((searchGaps mm).find? _) = some a at ha
      rw [hfirst] at ha
      cases ha
  | some first =>
    have hmem := mem_of_find?_eq_some hfirst
    have hfits : Fits size first := by simpa using find?_some hfirst
    have hret : findFreeRange mm size = some first.1 := by
      rw [hgap]
      change Option.map Prod.fst ((searchGaps mm).find? _) = _
      rw [hfirst, Option.map_some]
    constructor
    · intro h
      have hfree := h _ hret
      constructor
      · intro gap hg hlow hs
        have := find_gap_least hl hfirst hg hs
        have := hfree.base
        omega
      · intro _
        exact ⟨first, hmem, hfits, hfree.top⟩
    · intro h a ha
      rw [hret] at ha
      cases ha
      obtain ⟨_, _, hclear⟩ := findFreeLoop_spec hl hf hret
      refine ⟨?_, ?_, ?_⟩
      · by_contra hlow
        exact h.base first hmem (by omega) hfits
      · obtain ⟨gap, hg, hs, htop⟩ := h.top ⟨first, hmem, hfits⟩
        have := find_gap_least hl hfirst hg hs
        omega
      · intro v hv
        have := hclear v hv
        omega

/-- The call of `mremap` passes its checks and grows an area that may move. -/
structure Moves (mm : MmStruct) (oldAddr oldSize newSize : Nat) (flags : BitVec 32) : Prop where
  nonempty : oldSize ≠ 0
  known : flags &&& ~~~mremapMaymove = 0#32
  maymove : flags &&& mremapMaymove ≠ 0#32
  keeps : newSize ≠ 0
  grows : pageUp oldSize < pageUp newSize
  area : ∃ v, findVma mm.vmas oldAddr = some v ∧ v.start = oldAddr ∧ v.stop = wadd oldAddr (pageUp oldSize)

theorem Moves.eq_moveArea {oldAddr oldSize newSize : Nat} {flags : BitVec 32}
    (h : Moves mm oldAddr oldSize newSize flags) :
    ∃ oldVma, mremap mm oldAddr oldSize newSize flags =
      moveArea mm oldVma oldAddr (pageUp oldSize) (pageUp newSize) := by
  obtain ⟨v, hv, hstart, hstop⟩ := h.area
  refine ⟨v, ?_⟩
  have hmatch : ¬ (v.start ≠ oldAddr ∨ v.stop ≠ wadd oldAddr (pageUp oldSize)) := by omega
  simp only [mremap, if_neg h.nonempty, if_neg (not_not.mpr h.known), hv, if_neg hmatch,
    if_neg h.keeps, if_neg (Nat.not_le.mpr h.grows), if_neg h.maymove]

theorem moveArea_ok_iff {oldVma : Vma} {oldAddr oldSize newSize a : Nat}
    (hl : OrderedVmas mm.vmas) (hfit : SumsFit newSize mm.mmapBase mm.vmas) :
    (moveArea mm oldVma oldAddr oldSize newSize).2 = .ok a ↔ findFreeRange mm newSize = some a := by
  unfold moveArea
  cases hf : findFreeRange mm newSize with
  | none => simp
  | some newStart =>
    obtain ⟨hsum, _, hfree⟩ := findFreeLoop_spec hl hfit hf
    have hnone : ¬ (removeRange oldAddr (wadd oldAddr oldSize) mm.vmas).any
        (fun e => overlaps { oldVma with start := newStart, stop := newStart + newSize } e &&
          !sameMapping e { oldVma with start := newStart, stop := newStart + newSize }) = true := by
      rw [any_eq_true]
      rintro ⟨e, hm, he⟩
      rw [removeRange_clear hl hfree hm] at he
      cases he
    simp only [wadd_eq hsum, insertVma, hnone]
    simp

/-- The search and the moving `mremap` return a range of the user half above the
base and clear of every area exactly when the gaps of the vector are safe. -/
theorem free_range_safe_iff (mm : MmStruct) (hl : VmaInv mm.vmas) :
    (∀ size, 0 < size → SumsFit size mm.mmapBase mm.vmas →
      ((∀ a, findFreeRange mm size = some a → FreeAt mm size a) ↔ GapsSafe mm size)) ∧
    ∀ oldAddr oldSize newSize flags, Moves mm oldAddr oldSize newSize flags →
      SumsFit (pageUp newSize) mm.mmapBase mm.vmas →
      ((∀ a, (mremap mm oldAddr oldSize newSize flags).2 = .ok a →
          FreeAt mm (pageUp newSize) a) ↔ GapsSafe mm (pageUp newSize)) := by
  have ho := vmaInv_iff.mp hl
  constructor
  · intro size _ hf
    exact findFreeRange_safe_iff ho hf
  · intro oldAddr oldSize newSize flags hm hf
    obtain ⟨oldVma, he⟩ := hm.eq_moveArea
    rw [he, ← findFreeRange_safe_iff ho hf]
    exact forall_congr' fun a => by rw [moveArea_ok_iff ho hf]

def lowArea : Vma := Vma.new 0x400000 0x401000 .user .anonymous

def highArea : Vma := Vma.new 0x600000 0x601000 .user .anonymous

theorem free_range_safe_above_base :
    let mm : MmStruct := { MmStruct.new with mmapBase := 0x500000, vmas := [highArea] }
    (∀ a, findFreeRange mm 0x200000 = some a → FreeAt mm 0x200000 a) ∧
      ∀ a, (mremap mm 0x600000 0x1000 0x200000 1#32).2 = .ok a → FreeAt mm 0x200000 a := by
  intro mm
  have hfit : SumsFit 0x200000 mm.mmapBase mm.vmas := ⟨by decide, .inr (by decide)⟩
  have hgaps : GapsSafe mm 0x200000 := ⟨by decide, by decide⟩
  obtain ⟨hfind, hmove⟩ := free_range_safe_iff mm (by decide)
  constructor
  · exact (hfind 0x200000 (by decide) hfit).mpr hgaps
  · have hmoves : Moves mm 0x600000 0x1000 0x200000 1#32 :=
      ⟨by decide, by decide, by decide, by decide, by decide, highArea, by decide⟩
    exact (hmove 0x600000 0x1000 0x200000 1#32 hmoves hfit).mpr hgaps

theorem free_range_below_base : ¬ ((∀ mm : MmStruct, VmaInv mm.vmas → ∀ size, 0 < size → size % pageSize = 0 →
          SumsFit size mm.mmapBase mm.vmas →
          ∀ a, findFreeRange mm size = some a → FreeAt mm size a) ∧
        ∀ mm : MmStruct, VmaInv mm.vmas → ∀ oldAddr oldSize newSize flags,
          Moves mm oldAddr oldSize newSize flags → SumsFit (pageUp newSize) mm.mmapBase mm.vmas →
          ∀ a, (mremap mm oldAddr oldSize newSize flags).2 = .ok a → FreeAt mm (pageUp newSize) a) := by
  intro h
  let mm : MmStruct := { MmStruct.new with mmapBase := 0x500000, vmas := [lowArea] }
  have hfree := h.1 mm (by decide) 0x1000 (by decide) (by decide) ⟨by decide, .inr (by decide)⟩
    0x401000 (by decide)
  exact absurd hfree.base (by decide)

end AntX.Mm
