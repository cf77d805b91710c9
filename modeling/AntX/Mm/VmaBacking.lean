import AntX.Mm.VmaInvariant

/-! What an address is backed by, before and after an operation on the areas. -/

namespace AntX.Mm

open Lib List

def Vma.FileBacked (v : Vma) : Prop := v.vmaType = .fileBacked ∧ v.inodeId ≠ 0

instance (v : Vma) : Decidable v.FileBacked := inferInstanceAs (Decidable (_ ∧ _))

def Vma.filePos (v : Vma) (a : Nat) : Nat := wadd v.offset (a - v.start)

structure SameFile (v w : Vma) (a : Nat) : Prop where
  inodeId : w.inodeId = v.inodeId
  shared : w.shared = v.shared
  mountIdx : w.mountIdx = v.mountIdx
  filePos : w.filePos a = v.filePos a

def BackingKept (old new : List Vma) : Prop :=
  ∀ a v w, findVma old a = some v → v.FileBacked → findVma new a = some w →
    SameFile v w a ∧ w.filePwm = v.filePwm

variable {vmas : List Vma} {a start stop len t : Nat} {v w e k : Vma} {flags : PageFlags} {mm : MmStruct}

theorem findVma_iff (hl : OrderedVmas vmas) : findVma vmas a = some v ↔ v ∈ vmas ∧ v.start ≤ a ∧ a < v.stop :=
  hl.find_eq_some_iff

theorem contains_iff : v.contains a = true ↔ v.start ≤ a ∧ a < v.stop := by
  simp [Vma.contains]

theorem findVma_some (h : findVma vmas a = some v) : v ∈ vmas ∧ v.start ≤ a ∧ a < v.stop := by
  have hc : v.contains a = true := by
    simpa using find?_some h
  exact ⟨mem_of_find?_eq_some h, contains_iff.mp hc⟩

theorem filePos_shift (hs : v.start ≤ w.start) (ha : w.start ≤ a)
    (ho : w.offset = wadd v.offset (w.start - v.start)) : w.filePos a = v.filePos a := by
  unfold Vma.filePos wadd at *
  omega

theorem SameFile.start_le (h : SameFile v w a) (ho : w.offset = v.offset) (ha : w.start ≤ a)
    (hb : w.start < 2 ^ 64) : w.start ≤ v.start := by
  have hp := h.filePos
  unfold Vma.filePos wadd at hp
  omega

theorem SameFile.refl (v : Vma) (a : Nat) : SameFile v v a := ⟨rfl, rfl, rfl, rfl⟩

def PiecesKeep (f : Vma → List Vma) (v : Vma) : Prop :=
  ∀ a w, v.start ≤ a → a < v.stop → findVma (f v) a = some w → SameFile v w a ∧ w.filePwm = v.filePwm

section Pieces

variable {f : Vma → List Vma} {vmas : List Vma}

theorem findVma_eq_none_of_within (hin : ∀ v ∈ vmas, ∀ w ∈ f v, v.start ≤ w.start ∧ w.stop ≤ v.stop)
    (ha : ∀ v ∈ vmas, ¬ (v.start ≤ a ∧ a < v.stop)) : findVma (vmas.flatMap f) a = none := by
  refine find?_eq_none.mpr ?_
  intro w hw hc
  obtain ⟨v, hv, hwv⟩ := mem_flatMap.mp hw
  have := hin v hv w hwv
  have := contains_iff.mp hc
  exact ha v hv ⟨by omega, by omega⟩

theorem findVma_flatMap (hl : OrderedVmas vmas)
    (hin : ∀ v ∈ vmas, ∀ w ∈ f v, v.start ≤ w.start ∧ w.stop ≤ v.stop) (hv : v ∈ vmas)
    (ha : v.start ≤ a ∧ a < v.stop) : findVma (vmas.flatMap f) a = findVma (f v) a := by
  induction vmas with
  | nil => simp at hv
  | cons u vmas ih =>
    obtain ⟨hu, hb, ho⟩ := ordered_cons.mp hl
    have hin' : ∀ v ∈ vmas, ∀ w ∈ f v, v.start ≤ w.start ∧ w.stop ≤ v.stop :=
      fun v hv => hin v (by simp [hv])
    rw [flatMap_cons, findVma, find?_append]
    rcases mem_cons.mp hv with rfl | hv
    · have hnone : findVma (vmas.flatMap f) a = none := by
        refine findVma_eq_none_of_within hin' (fun w hw hc => ?_)
        have := hb w hw
        omega
      rw [findVma] at hnone
      rw [hnone, Option.or_none, findVma]
    · have hnone : (f u).find? (·.contains a) = none := by
        refine find?_eq_none.mpr (fun w hw hc => ?_)
        have := hin u (by simp) w hw
        have := contains_iff.mp hc
        have := hb v hv
        omega
      rw [hnone, Option.none_or]
      exact ih ho hin' hv

theorem backingKept_flatMap_iff (hl : OrderedVmas vmas)
    (hin : ∀ v ∈ vmas, ∀ w ∈ f v, v.start ≤ w.start ∧ w.stop ≤ v.stop) :
    BackingKept vmas (vmas.flatMap f) ↔ ∀ v ∈ vmas, v.FileBacked → PiecesKeep f v := by
  constructor
  · intro h v hv hb a w h1 h2 hw
    refine h a v w ((findVma_iff hl).mpr ⟨hv, h1, h2⟩) hb ?_
    rw [findVma_flatMap hl hin hv ⟨h1, h2⟩]
    exact hw
  · intro h a v w hv hb hw
    obtain ⟨hm, ha⟩ := (findVma_iff hl).mp hv
    rw [findVma_flatMap hl hin hm ha] at hw
    exact h v hm hb a w ha.1 ha.2 hw

end Pieces

theorem backingKept_refl (vmas : List Vma) : BackingKept vmas vmas := by
  intro a v w hv _ hw
  rw [hv] at hw
  cases hw
  exact ⟨SameFile.refl v a, rfl⟩

theorem not_piecesKeep {f : Vma → List Vma} (ha : v.start ≤ a ∧ a < v.stop)
    (hx : ∃ w ∈ f v, w.start ≤ a ∧ a < w.stop)
    (hbad : ∀ w ∈ f v, w.start ≤ a → a < w.stop → ¬ SameFile v w a) : ¬ PiecesKeep f v := by
  intro h
  obtain ⟨w, hw, hc⟩ := hx
  cases hf : findVma (f v) a with
  | none =>
    have := find?_eq_none.mp hf w hw
    exact this (contains_iff.mpr hc)
  | some u =>
    obtain ⟨hu, h1, h2⟩ := findVma_some hf
    exact hbad u hu h1 h2 (h a u ha.1 ha.2 hf).1

theorem piecesKeep_of_same {f : Vma → List Vma} (h : f v = [v]) : PiecesKeep f v := by
  intro a w _ _ hf
  have hm := mem_of_find?_eq_some hf
  rw [h, mem_singleton] at hm
  subst hm
  exact ⟨SameFile.refl w a, rfl⟩

theorem cutPieces_keep_iff (hb : v.FileBacked) (hw : v.stop < 2 ^ 64) :
    PiecesKeep (cutPieces start stop) v ↔ (start < v.stop → v.start < stop → v.stop ≤ stop) := by
  by_cases h1 : v.stop ≤ start ∨ v.start ≥ stop
  · exact iff_of_true (piecesKeep_of_same (if_pos h1)) (by omega)
  by_cases h2 : stop ≥ v.stop
  · refine iff_of_true ?_ (fun _ _ => h2)
    intro a w _ _ hf
    have hm := mem_of_find?_eq_some hf
    by_cases h3 : start ≤ v.start
    · simp [cutPieces, h1, h2, h3] at hm
    · simp only [cutPieces, if_neg h1, h2, h3, false_and, if_false, if_true, mem_singleton] at hm
      subst hm
      exact ⟨⟨rfl, rfl, rfl, rfl⟩, rfl⟩
  · refine iff_of_false ?_ (by omega)
    by_cases h3 : start ≤ v.start
    · have hp : cutPieces start stop v = [{ v with start := stop }] := by
        simp only [cutPieces, if_neg h1, h2, h3, and_false, if_false, if_true]
      refine not_piecesKeep (a := stop) ⟨by omega, by omega⟩ ?_ ?_
      · rw [hp]
        exact ⟨_, mem_singleton_self _, by simp only; omega, by simp only; omega⟩
      · rw [hp]
        intro w hm _ _ hs
        have hm := mem_singleton.mp hm
        subst hm
        have := hs.start_le rfl le_rfl (by omega)
        simp only at this
        omega
    · have hp : cutPieces start stop v = [Vma.new v.start start v.flags v.vmaType,
          Vma.new stop v.stop v.flags v.vmaType] := by
        simp only [cutPieces, if_neg h1, h2, h3, false_and, if_false]
      refine not_piecesKeep (a := stop) ⟨by omega, by omega⟩ ?_ ?_
      · rw [hp]
        exact ⟨_, mem_cons_of_mem _ (mem_singleton_self _), by simp [Vma.new], by simp only [Vma.new]; omega⟩
      · rw [hp]
        intro w hm _ _ hs
        have hz : w.inodeId = 0 := by
          rcases mem_cons.mp hm with rfl | hm
          · rfl
          · rw [mem_singleton.mp hm]
            rfl
        exact hb.2 (hs.inodeId.symm.trans hz)

theorem protectPieces_keep_iff (hlt : start < stop) (hw : v.stop < 2 ^ 64) :
    PiecesKeep (protectPieces start stop flags) v ↔
      (start < v.stop → v.start < stop → start ≤ v.start ∧ v.stop ≤ stop) := by
  by_cases h1 : v.stop ≤ start ∨ v.start ≥ stop
  · exact iff_of_true (piecesKeep_of_same (if_pos h1)) (by omega)
  have hmem (w : Vma) : w ∈ protectPieces start stop flags v ↔
      (v.start < start ∧ w = { v with stop := start }) ∨
      w = { v with start := max v.start start, stop := min v.stop stop, flags := flags } ∨
      (v.stop > stop ∧ w = { v with start := stop }) := by
    rw [protectPieces, if_neg h1]
    by_cases h2 : v.start < start <;> by_cases h3 : v.stop > stop <;> simp [h2, h3]
  by_cases h2 : start ≤ v.start
  · by_cases h3 : v.stop ≤ stop
    · refine iff_of_true ?_ (fun _ _ => ⟨h2, h3⟩)
      intro a w _ _ hf
      rcases (hmem w).mp (mem_of_find?_eq_some hf) with ⟨hc, _⟩ | rfl | ⟨hc, _⟩
      · omega
      · exact ⟨⟨rfl, rfl, rfl, by simp only [Vma.filePos, Nat.max_eq_left h2]⟩, rfl⟩
      · omega
    · refine iff_of_false (not_piecesKeep (a := stop) ⟨by omega, by omega⟩ ?_ ?_) (by omega)
      · exact ⟨_, (hmem _).mpr (.inr (.inr ⟨by omega, rfl⟩)), by simp, by simp only; omega⟩
      · intro w hm h4 h5 hs
        rcases (hmem w).mp hm with ⟨hc, _⟩ | rfl | ⟨hc, rfl⟩
        · omega
        · simp only at h5
          omega
        · have := hs.start_le rfl le_rfl (by omega)
          simp only at this
          omega
  · refine iff_of_false (not_piecesKeep (a := start) ⟨by omega, by omega⟩ ?_ ?_) (by omega)
    · exact ⟨_, (hmem _).mpr (.inr (.inl rfl)), by simp only; omega, by simp only; omega⟩
    · intro w hm h4 h5 hs
      rcases (hmem w).mp hm with ⟨hc, rfl⟩ | rfl | ⟨hc, rfl⟩
      · simp at h5
      · have := hs.start_le rfl h4 (by omega)
        simp only at this
        omega
      · simp only at h4
        omega

theorem advisePieces_keep (start stop : Nat) (flag : VmFlags) (v : Vma) :
    PiecesKeep (fun v => advisePieces start stop flag (adviseWhole start stop flag v)) v := by
  intro a w _ _ hf
  obtain ⟨hm, hc⟩ := findVma_some hf
  have hwhole : ∃ g, adviseWhole start stop flag v = { v with vmFlags := g } := by
    unfold adviseWhole
    split_ifs
    · exact ⟨v.vmFlags, rfl⟩
    · exact ⟨_, rfl⟩
    · exact ⟨v.vmFlags, rfl⟩
  obtain ⟨g, hg⟩ := hwhole
  simp only [hg, advisePieces] at hm
  split_ifs at hm with h1 h2 h3
  · rw [mem_singleton.mp hm]
    exact ⟨⟨rfl, rfl, rfl, rfl⟩, rfl⟩
  · simp only [mem_cons, not_mem_nil, or_false] at hm
    rcases hm with rfl | rfl
    · exact ⟨⟨rfl, rfl, rfl, rfl⟩, rfl⟩
    · exact ⟨⟨rfl, rfl, rfl, filePos_shift (Nat.le_of_lt h2) hc.1 rfl⟩, rfl⟩
  · simp only [mem_cons, not_mem_nil, or_false] at hm
    rcases hm with rfl | rfl
    · exact ⟨⟨rfl, rfl, rfl, rfl⟩, rfl⟩
    · exact ⟨⟨rfl, rfl, rfl, filePos_shift (by simp only; omega) hc.1 rfl⟩, rfl⟩
  · rw [mem_singleton.mp hm]
    exact ⟨⟨rfl, rfl, rfl, rfl⟩, rfl⟩

theorem removeRange_keeps_iff (hl : OrderedVmas vmas) (hw : ∀ v ∈ vmas, v.stop < 2 ^ 64) :
    BackingKept vmas (removeRange start stop vmas) ↔
      ∀ v ∈ vmas, v.FileBacked → start < v.stop → v.start < stop → v.stop ≤ stop := by
  rw [removeRange_eq_flatMap hl, backingKept_flatMap_iff hl (fun _ _ _ h => cutPieces_within h)]
  refine forall₃_congr fun v hv hb => ?_
  exact cutPieces_keep_iff hb (hw v hv)

theorem protectTouches_of_mem (hl : OrderedVmas vmas) (hv : v ∈ vmas) (h1 : start < v.stop)
    (h2 : v.start < stop) : protectTouches start stop vmas = true := by
  induction vmas with
  | nil => simp at hv
  | cons u vmas ih =>
    obtain ⟨hu, hb, ho⟩ := ordered_cons.mp hl
    rw [protectTouches]
    rcases mem_cons.mp hv with rfl | hv
    · rw [if_neg (by omega), if_neg (by omega)]
    · have := hb v hv
      split_ifs with h3 h4
      · exact ih ho hv
      · omega
      · rfl

theorem mprotect_keeps_iff (hl : OrderedVmas mm.vmas) (hw : ∀ v ∈ mm.vmas, v.stop < 2 ^ 64) :
    BackingKept mm.vmas (vmaStep mm (.mprotect start len flags)).vmas ↔
      ∀ stop, len ≠ 0 → rangeEnd start len = some stop → ∀ v ∈ mm.vmas, v.FileBacked →
        start < v.stop → v.start < stop → start ≤ v.start ∧ v.stop ≤ stop := by
  simp only [vmaStep]
  cases he : mprotect start len flags mm.vmas with
  | error e =>
    refine iff_of_true (backingKept_refl _) ?_
    intro stop hz hr v hv _ h1 h2
    simp [mprotect, hz, hr, protectTouches_of_mem hl hv h1 h2] at he
  | ok vmas =>
    obtain ⟨stop, hr, hlt, rfl⟩ := mprotect_eq_ok he
    have hz : len ≠ 0 := by
      rintro rfl
      simp [mprotect] at he
    have hkeep := backingKept_flatMap_iff (f := protectPieces start stop flags) hl
      (fun _ _ _ h => protectPieces_within h)
    rw [hkeep]
    constructor
    · intro h stop' _ hr' v hv hb
      rw [hr] at hr'
      cases hr'
      exact (protectPieces_keep_iff hlt (hw v hv)).mp (h v hv hb)
    · intro h v hv hb
      exact (protectPieces_keep_iff hlt (hw v hv)).mpr (h stop hz hr v hv hb)

theorem madviseRange_keeps {advice : Nat} (hl : OrderedVmas vmas) :
    BackingKept vmas (madviseRange start len advice vmas).1 := by
  rcases madviseRange_cases start len advice vmas with he | ⟨stop, flag, _, _, _, he⟩
  · rw [he]
    exact backingKept_refl vmas
  · rw [he, backingKept_flatMap_iff hl]
    · intro v _ _
      exact advisePieces_keep start stop flag v
    · intro v _ w hw
      have := adviseWhole_extent start stop flag v
      have := advisePieces_within hw
      omega

theorem mremap_shrink_keeps {oldAddr oldSize newSize : Nat} {flags : BitVec 32}
    (hl : OrderedVmas mm.vmas) (hw : ∀ v ∈ mm.vmas, v.stop < 2 ^ 64)
    (hs : pageUp newSize ≤ pageUp oldSize) :
    BackingKept mm.vmas (mremap mm oldAddr oldSize newSize flags).1.vmas := by
  rcases mremap_cases mm oldAddr oldSize newSize flags with
    he | ⟨oldVma, hf, hstart, hstop, hcases⟩
  · rw [he]
    exact backingKept_refl _
  have hm := (findVma_some hf).1
  have hp := hl.proper oldVma hm
  -- Every area that reaches below the end of the shrunk one ends there at the latest.
  have hend : ∀ v ∈ mm.vmas, v.start < oldVma.stop → v.stop ≤ oldVma.stop := by
    intro v hv h1
    by_contra hc
    have heq := hl.unique_at (x := oldVma.stop - 1) hv hm ⟨by omega, by omega⟩ ⟨by omega, by omega⟩
    rw [heq] at hc
    omega
  rcases hcases with ⟨_, he⟩ | ⟨_, _, he⟩ | ⟨hc, _⟩ | ⟨hc, _⟩
  iterate 2
    · rw [he, removeRange_keeps_iff hl hw, ← hstop]
      exact fun v hv _ _ h => hend v hv h
  all_goals omega

def VmaOp.Splits : VmaOp → Prop
  | .removeRange _ _ => True
  | .mprotect _ _ _ => True
  | .mremap _ oldSize newSize _ => pageUp newSize ≤ pageUp oldSize
  | .madviseRange _ _ _ => True
  | _ => False

/-- A removal may touch a file-backed area only if it removes its end; a
protection only if it covers the area. -/
def SplitSafe (vmas : List Vma) : VmaOp → Prop
  | .removeRange start stop =>
    ∀ v ∈ vmas, v.FileBacked → start < v.stop → v.start < stop → v.stop ≤ stop
  | .mprotect start len _ =>
    ∀ stop, len ≠ 0 → rangeEnd start len = some stop → ∀ v ∈ vmas, v.FileBacked →
      start < v.stop → v.start < stop → start ≤ v.start ∧ v.stop ≤ stop
  | _ => True

/-- Splitting keeps the backing of every file-backed address that stays mapped
exactly when no fragment has to advance its offset, `madvise_range` apart. -/
theorem split_keeps_backing_iff (mm : MmStruct) (op : VmaOp) (hl : OrderedVmas mm.vmas)
    (hw : ∀ v ∈ mm.vmas, v.stop < 2 ^ 64) (hop : op.Splits) :
    BackingKept mm.vmas (vmaStep mm op).vmas ↔ SplitSafe mm.vmas op := by
  cases op with
  | insertVma vma | setBrk newBrk => exact hop.elim
  | removeRange start stop => exact removeRange_keeps_iff hl hw
  | mprotect start len flags => exact mprotect_keeps_iff hl hw
  | mremap oldAddr oldSize newSize flags =>
    exact iff_of_true (mremap_shrink_keeps hl hw hop) trivial
  | madviseRange start len advice => exact iff_of_true (madviseRange_keeps hl) trivial

def fileArea (start stop offset : Nat) : Vma :=
  { Vma.new start stop (.present ||| .user) .fileBacked with offset, inodeId := 7 }

theorem split_keeps_backing_truncated : BackingKept [fileArea 0x1000 0x4000 0, fileArea 0x6000 0x8000 0x2000]
      (removeRange 0x3000 0x6000 [fileArea 0x1000 0x4000 0, fileArea 0x6000 0x8000 0x2000]) :=
  (split_keeps_backing_iff { MmStruct.new with
      vmas := [fileArea 0x1000 0x4000 0, fileArea 0x6000 0x8000 0x2000] }
    (.removeRange 0x3000 0x6000) (vmaInv_iff.mp (by decide)) (by decide) trivial).mpr
    (by unfold SplitSafe; decide)

/-- Unmapping the middle of a file mapping turns its tail into an area without a file. -/
theorem split_loses_backing :
    ¬ ∀ (mm : MmStruct) (op : VmaOp), OrderedVmas mm.vmas → (∀ v ∈ mm.vmas, v.stop < 2 ^ 64) →
      op.Splits → BackingKept mm.vmas (vmaStep mm op).vmas := by
  intro h
  have hk := h { MmStruct.new with vmas := [fileArea 0x1000 0x4000 0] } (.removeRange 0x2000 0x3000)
    (vmaInv_iff.mp (by decide)) (by decide) trivial
  have hs := (hk 0x3000 (fileArea 0x1000 0x4000 0)
    (Vma.new 0x3000 0x4000 (.present ||| .user) .fileBacked) (by decide) (by decide) (by decide)).1
  exact absurd hs.inodeId (by decide)

def Continues (v e : Vma) : Prop :=
  e.inodeId = v.inodeId ∧ e.shared = v.shared ∧ e.mountIdx = v.mountIdx ∧
    e.offset = wadd v.offset (e.start - v.start)

/-- The areas that the merge loop may append to `v` one after another, from
`stop` on, continue the file mapping of `v`. -/
def RunContinues (v : Vma) : Nat → List Vma → Prop
  | _, [] => True
  | stop, e :: vmas =>
    if mergeable e v = true ∧ e.start = stop then Continues v e ∧ RunContinues v e.stop vmas
    else RunContinues v stop vmas

def MergeSafe (v : Vma) (vmas : List Vma) : Prop :=
  (∀ e ∈ vmas, mergeable e v = true → e.stop ≠ v.start) ∧ RunContinues v v.stop vmas

def IdentityKept (v : Vma) (old new : List Vma) : Prop :=
  (∀ a e, findVma old a = some e → ∃ w, findVma new a = some w ∧ SameFile e w a) ∧
    ∀ a, v.start ≤ a → a < v.stop → ∃ w, findVma new a = some w ∧ SameFile v w a

theorem SameFile.of_continues (hc : Continues v e) (hs : v.start ≤ e.start) (ha : e.start ≤ a)
    (hw : SameFile v w a) : SameFile e w a := by
  obtain ⟨h1, h2, h3, h4⟩ := hc
  exact ⟨hw.inodeId.trans h1.symm, hw.shared.trans h2.symm, hw.mountIdx.trans h3.symm,
    hw.filePos.trans (filePos_shift hs ha h4).symm⟩

section Merge

variable {v m : Vma} {vmas : List Vma}

theorem mergeLoop_extent (m : Vma) (vmas : List Vma) :
    (mergeLoop m vmas).1.start ≤ m.start ∧ m.stop ≤ (mergeLoop m vmas).1.stop := by
  obtain ⟨a, b, ha, hb, he⟩ := mergeLoop_fields m vmas
  rw [he]
  exact ⟨ha, hb⟩

theorem mergeLoop_absorbs (he : e ∈ vmas) (hc : mergeable e m = true)
    (ht : m.start ≤ e.stop ∧ m.stop ≥ e.start) :
    (mergeLoop m vmas).1.start ≤ e.start ∧ e.stop ≤ (mergeLoop m vmas).1.stop := by
  induction vmas generalizing m with
  | nil => simp at he
  | cons k vmas ih =>
    rw [mergeLoop_cons]
    rcases mem_cons.mp he with rfl | he
    · rw [if_pos ⟨hc, ht⟩]
      have := mergeLoop_extent (m.hull e) vmas
      simp only [Vma.hull] at this ⊢
      omega
    · split_ifs
      · exact ih he hc (by simp only [Vma.hull]; omega)
      · exact ih he hc ht

theorem mergeLoop_grow (ht : v.start < t) (hp : k.start < k.stop) (hm : mergeable k v = true)
    (hs : k.start = t) :
    mergeLoop { v with stop := t } (k :: vmas) = mergeLoop { v with stop := k.stop } vmas := by
  rw [mergeLoop_cons, if_pos ⟨hm, by simp only; omega⟩, Vma.hull]
  congr 2
  · simp only
    omega
  · simp only
    omega

theorem mergeLoop_skip (hc : ¬(mergeable k v = true ∧ k.start = t))
    (hsep : k.stop ≤ v.start ∨ t ≤ k.start) (hleft : mergeable k v = true → k.stop ≠ v.start) :
    mergeLoop { v with stop := t } (k :: vmas) =
      ((mergeLoop { v with stop := t } vmas).1, k :: (mergeLoop { v with stop := t } vmas).2) := by
  rw [mergeLoop_cons, if_neg]
  rintro ⟨hm, htouch⟩
  have hne := hleft hm
  exact hc ⟨hm, by simp only at htouch; omega⟩

/-- Without a mergeable neighbour on the left, the loop only moves the end of
the inserted area, over the areas that `RunContinues` inspects. -/
theorem mergeLoop_right (hl : OrderedVmas vmas) (ht : v.start < t)
    (hsep : ∀ e ∈ vmas, e.stop ≤ v.start ∨ t ≤ e.start)
    (hleft : ∀ e ∈ vmas, mergeable e v = true → e.stop ≠ v.start) :
    ∃ b, (mergeLoop { v with stop := t } vmas).1 = { v with stop := b } ∧ t ≤ b ∧
      (RunContinues v t vmas → ∀ e ∈ vmas, e ∈ (mergeLoop { v with stop := t } vmas).2 ∨
        (Continues v e ∧ v.start ≤ e.start ∧ e.stop ≤ b)) ∧
      ((∀ e ∈ vmas, v.start ≤ e.start → e.stop ≤ b → Continues v e) → RunContinues v t vmas) := by
  induction vmas generalizing t with
  | nil => exact ⟨t, rfl, le_rfl, by simp, fun _ => trivial⟩
  | cons k vmas ih =>
    obtain ⟨hk, hb, ho⟩ := ordered_cons.mp hl
    have hk' := hsep k (by simp)
    have hleft' : ∀ e ∈ vmas, mergeable e v = true → e.stop ≠ v.start :=
      fun e he => hleft e (by simp [he])
    by_cases hc : mergeable k v = true ∧ k.start = t
    · -- the loop goes on with the area grown over its right neighbour
      have hsep' : ∀ e ∈ vmas, e.stop ≤ v.start ∨ k.stop ≤ e.start := fun e he => .inr (hb e he)
      obtain ⟨b, h1, h2, h3, h4⟩ := ih ho (by omega) hsep' hleft'
      rw [mergeLoop_grow ht hk hc.1 hc.2]
      refine ⟨b, h1, by omega, ?_, ?_⟩
      · intro hr e he
        rw [RunContinues, if_pos hc] at hr
        rcases mem_cons.mp he with rfl | he
        · exact .inr ⟨hr.1, by omega, h2⟩
        · exact h3 hr.2 e he
      · intro h
        rw [RunContinues, if_pos hc]
        exact ⟨h k (by simp) (by omega) h2, h4 (fun e he => h e (by simp [he]))⟩
    · -- an area that does not touch the right end is passed over
      have hsep' : ∀ e ∈ vmas, e.stop ≤ v.start ∨ t ≤ e.start := fun e he => hsep e (by simp [he])
      obtain ⟨b, h1, h2, h3, h4⟩ := ih ho ht hsep' hleft'
      rw [mergeLoop_skip hc hk' (hleft k (by simp))]
      refine ⟨b, h1, h2, ?_, ?_⟩
      · intro hr e he
        rw [RunContinues, if_neg hc] at hr
        rcases mem_cons.mp he with rfl | he
        · exact .inl (by simp)
        · exact (h3 hr e he).imp (fun h => by simp [h]) id
      · intro h
        rw [RunContinues, if_neg hc]
        exact h4 (fun e he => h e (by simp [he]))

end Merge

theorem mem_insertAtPosition {m : Vma} : w ∈ insertAtPosition m vmas ↔ w = m ∨ w ∈ vmas := by
  have hsplit := takeWhile_append_dropWhile (p := fun v : Vma => !decide (v.start > m.start)) (l := vmas)
  rw [insertAtPosition, mem_append, mem_cons, or_left_comm, ← mem_append, hsplit]

section MergeIdentity

variable {v : Vma} {vmas : List Vma}

def mergedVmas (v : Vma) (vmas : List Vma) : List Vma :=
  insertAtPosition (mergeLoop v vmas).1 (mergeLoop v vmas).2

theorem mem_mergedVmas : (mergeLoop v vmas).1 ∈ mergedVmas v vmas := mem_insertAtPosition.mpr (.inl rfl)

theorem findVma_mergedVmas (hnew : OrderedVmas (mergedVmas v vmas))
    (hs : (mergeLoop v vmas).1.start ≤ a) (he : a < (mergeLoop v vmas).1.stop)
    (hf : findVma (mergedVmas v vmas) a = some w) : w = (mergeLoop v vmas).1 :=
  hnew.unique_at (findVma_some hf).1 mem_mergedVmas (findVma_some hf).2 ⟨hs, he⟩

variable (hl : OrderedVmas vmas) (hv : v.start < v.stop)
  (hsep : ∀ e ∈ vmas, e.stop ≤ v.start ∨ v.stop ≤ e.start) (hnew : OrderedVmas (mergedVmas v vmas))
include hl hv hnew

/-- An area that ends where `v` starts would be absorbed, and the start of the result would move away
from the file position of `v`. -/
theorem no_left_merge (hw : v.stop < 2 ^ 64)
    (hins : ∀ a, v.start ≤ a → a < v.stop → ∃ w, findVma (mergedVmas v vmas) a = some w ∧ SameFile v w a) :
    ∀ e ∈ vmas, mergeable e v = true → e.stop ≠ v.start := by
  intro e he hm heq
  have hp := hl.proper e he
  have hext := mergeLoop_extent v vmas
  have habs := mergeLoop_absorbs he hm ⟨by omega, by omega⟩
  obtain ⟨w, hf, hs⟩ := hins v.start le_rfl hv
  have heq := findVma_mergedVmas hnew (by omega) (by omega) hf
  obtain ⟨a, b, _, _, hf'⟩ := mergeLoop_fields v vmas
  have ho : v.offset = w.offset := by rw [heq, hf']
  have hback : SameFile w v v.start :=
    ⟨hs.inodeId.symm, hs.shared.symm, hs.mountIdx.symm, hs.filePos.symm⟩
  have := hback.start_le ho le_rfl (by omega)
  rw [heq] at this
  omega

include hsep

theorem mergeSafe_of_identityKept (hw : v.stop < 2 ^ 64 ∧ ∀ e ∈ vmas, e.offset < 2 ^ 64)
    (hkept : IdentityKept v vmas (mergedVmas v vmas)) : MergeSafe v vmas := by
  obtain ⟨hold, hins⟩ := hkept
  have hleft := no_left_merge hl hv hnew hw.1 hins
  refine ⟨hleft, ?_⟩
  obtain ⟨b, h1, h2, _, h4⟩ := mergeLoop_right hl hv hsep hleft
  refine h4 (fun e he hs hb => ?_)
  have hp := hl.proper e he
  obtain ⟨w, hf, hsame⟩ := hold e.start e ((findVma_iff hl).mpr ⟨he, le_rfl, hp⟩)
  have heq := findVma_mergedVmas hnew (by rw [h1]; exact hs) (by rw [h1]; simp only; omega) hf
  rw [heq, h1] at hsame
  refine ⟨hsame.inodeId.symm, hsame.shared.symm, hsame.mountIdx.symm, ?_⟩
  have hpos := hsame.filePos
  have := hw.2 e he
  unfold Vma.filePos wadd at hpos
  unfold wadd
  simp only at hpos
  omega

theorem identityKept_of_mergeSafe (hsafe : MergeSafe v vmas) : IdentityKept v vmas (mergedVmas v vmas) := by
  obtain ⟨hleft, hrun⟩ := hsafe
  have hext := mergeLoop_extent v vmas
  obtain ⟨b, h1, h2, h3, _⟩ := mergeLoop_right hl hv hsep hleft
  have hkeep := h3 hrun
  have hsame (a : Nat) : SameFile v (mergeLoop v vmas).1 a := by
    rw [h1]
    exact ⟨rfl, rfl, rfl, rfl⟩
  constructor
  · intro a e hf
    obtain ⟨he, ha1, ha2⟩ := findVma_some hf
    rcases hkeep e he with hk | ⟨hc, hs, hb⟩
    · exact ⟨e, (findVma_iff hnew).mpr ⟨mem_insertAtPosition.mpr (.inr hk), ha1, ha2⟩, SameFile.refl e a⟩
    · refine ⟨_, (findVma_iff hnew).mpr ⟨mem_mergedVmas, by omega, by rw [h1]; simp only; omega⟩, ?_⟩
      exact SameFile.of_continues hc hs ha1 (hsame a)
  · intro a ha1 ha2
    exact ⟨_, (findVma_iff hnew).mpr ⟨mem_mergedVmas, by omega, by omega⟩, hsame a⟩

end MergeIdentity

/-- An insertion beside its neighbours keeps every file position exactly when
nothing merges on the left and what merges on the right continues the mapping. -/
theorem insertVma_keeps_identity_iff (v : Vma) (vmas new : List Vma) (hl : OrderedVmas vmas)
    (hv : v.start < v.stop) (hd : ∀ e ∈ vmas, ¬ Meets Vma.start Vma.stop v e)
    (hw : v.stop < 2 ^ 64 ∧ ∀ e ∈ vmas, e.offset < 2 ^ 64) (hi : insertVma v vmas = .ok new) :
    IdentityKept v vmas new ↔ MergeSafe v vmas := by
  have hnew : OrderedVmas new :=
    insertVma_ordered hl hv (.inr fun e he ho => absurd (overlaps_iff.mp ho) (hd e he)) hi
  obtain ⟨_, rfl⟩ := insertVma_eq_ok hi
  have hsep : ∀ e ∈ vmas, e.stop ≤ v.start ∨ v.stop ≤ e.start := by
    intro e he
    have hn := hd e he
    unfold Meets at hn
    omega
  exact ⟨mergeSafe_of_identityKept hl hv hsep hnew hw, identityKept_of_mergeSafe hl hv hsep hnew⟩

theorem insertVma_keeps_identity_appended :
    IdentityKept (fileArea 0x2000 0x3000 0x1000) [fileArea 0x3000 0x4000 0x2000]
      [fileArea 0x2000 0x4000 0x1000] :=
  (insertVma_keeps_identity_iff (fileArea 0x2000 0x3000 0x1000) [fileArea 0x3000 0x4000 0x2000]
    [fileArea 0x2000 0x4000 0x1000] (vmaInv_iff.mp (by decide)) (by decide)
    (by unfold Meets; decide) (by decide) rfl).mpr
    ⟨by decide, by simp only [RunContinues, Continues]; decide⟩

/-- The second page of a file, mapped right behind the first, reads the page
after it: the merged area starts at the first page with the offset of the second. -/
theorem insertVma_loses_identity : ¬ ∀ (v : Vma) (vmas new : List Vma), OrderedVmas vmas → v.start < v.stop →
      (∀ e ∈ vmas, ¬ Meets Vma.start Vma.stop v e) →
      (v.stop < 2 ^ 64 ∧ ∀ e ∈ vmas, e.offset < 2 ^ 64) → insertVma v vmas = .ok new →
      IdentityKept v vmas new := by
  intro h
  have hk := h (fileArea 0x2000 0x3000 0x1000) [fileArea 0x1000 0x2000 0]
    [fileArea 0x1000 0x3000 0x1000] (vmaInv_iff.mp (by decide)) (by decide)
    (by unfold Meets; decide) (by decide) rfl
  obtain ⟨w, hf, hs⟩ := hk.2 0x2000 (by decide) (by decide)
  have hw : w = fileArea 0x1000 0x3000 0x1000 := by
    exact (Option.some.inj hf).symm
  rw [hw] at hs
  exact absurd hs.filePos (by decide)

end AntX.Mm
