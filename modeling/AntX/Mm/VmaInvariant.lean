import AntX.Lib.Extent
import AntX.Lib.Run
import AntX.Mm.Vma
import Mathlib.Data.List.TakeWhile

/-! The representation invariant of the area vector, the operations that keep it, and what unmapping
and protecting do to each address. -/

namespace AntX.Mm

open Lib List

abbrev OrderedVmas (vmas : List Vma) : Prop := Ordered Vma.start Vma.stop vmas

abbrev Vma.Meets : Vma → Vma → Prop := Lib.Meets start stop

def Vma.hull (m e : Vma) : Vma := { m with start := min m.start e.start, stop := max m.stop e.stop }

structure VmaInv (vmas : List Vma) : Prop where
  sorted : vmas.Pairwise (fun v w => v.start ≤ w.start)
  proper : ∀ v ∈ vmas, v.start < v.stop
  disjoint : vmas.Pairwise (fun v w => ¬ Meets Vma.start Vma.stop v w)

instance (vmas : List Vma) : Decidable (VmaInv vmas) :=
  have (v w : Vma) : Decidable (Meets Vma.start Vma.stop v w) := inferInstanceAs (Decidable (_ ∧ _))
  decidable_of_iff (vmas.Pairwise (fun v w => v.start ≤ w.start) ∧ (∀ v ∈ vmas, v.start < v.stop) ∧
    vmas.Pairwise (fun v w => ¬ Meets Vma.start Vma.stop v w))
    ⟨fun h => ⟨h.1, h.2.1, h.2.2⟩, fun h => ⟨h.sorted, h.proper, h.disjoint⟩⟩

variable {vmas vmas' : List Vma} {v w m e k oldVma : Vma}
  {start stop len a oldAddr newStop oldSize newSize : Nat} {flags : PageFlags} {flag : VmFlags}
  {mm : MmStruct}

theorem vmaInv_iff : VmaInv vmas ↔ OrderedVmas vmas := by
  constructor
  · rintro ⟨hs, hp, hd⟩
    refine ⟨hp, ?_⟩
    refine (hs.and hd).imp_of_mem ?_
    intro v w hv hw h
    have := hp w hw
    unfold Meets at h
    omega
  · rintro ⟨hp, ha⟩
    refine ⟨ha.imp_of_mem ?_, hp, ha.imp_of_mem ?_⟩
    · intro v w hv _ h
      have := hp v hv
      omega
    · unfold Meets
      omega

theorem overlaps_iff : overlaps v w = true ↔ v.Meets w := by
  simp [overlaps, Meets]

def cutPieces (start stop : Nat) (vma : Vma) : List Vma :=
  if vma.stop ≤ start ∨ vma.start ≥ stop then [vma]
  else if start ≤ vma.start ∧ stop ≥ vma.stop then []
  else if start ≤ vma.start then [{ vma with start := stop }]
  else if stop ≥ vma.stop then [{ vma with stop := start }]
  else
    [Vma.new vma.start start vma.flags vma.vmaType, Vma.new stop vma.stop vma.flags vma.vmaType]

theorem flatMap_cutPieces_of_start_ge (h : ∀ v ∈ vmas, stop ≤ v.start) :
    vmas.flatMap (cutPieces start stop) = vmas := by
  induction vmas with
  | nil => rfl
  | cons v vmas ih =>
    have hv := h v (by simp)
    rw [flatMap_cons, ih (fun w hw => h w (by simp [hw]))]
    simp [cutPieces, hv]

theorem removeRange_eq_flatMap (h : OrderedVmas vmas) :
    removeRange start stop vmas = vmas.flatMap (cutPieces start stop) := by
  induction vmas with
  | nil => rfl
  | cons v vmas ih =>
    obtain ⟨hv, hb, hl⟩ := ordered_cons.mp h
    have hi := ih hl
    rw [flatMap_cons, removeRange, cutPieces]
    by_cases hpast : v.start ≥ stop
    -- the loop stops at the first area behind the range
    · have hrest : ∀ w ∈ vmas, stop ≤ w.start := fun w hw => by have := hb w hw; omega
      simp [hpast, hi, flatMap_cutPieces_of_start_ge hrest]
    · simp only [hpast, or_false, if_false]
      split_ifs <;> simp [hi]

theorem cutPieces_within (hw : w ∈ cutPieces start stop v) : v.start ≤ w.start ∧ w.stop ≤ v.stop := by
  unfold cutPieces at hw
  split_ifs at hw <;> simp [Vma.new] at hw
  · simp [hw]
  · subst hw; simp only; omega
  · subst hw; simp only; omega
  · rcases hw with rfl | rfl <;> simp only <;> omega

def RangeSafe (start stop : Nat) (vmas : List Vma) : Prop :=
  ∀ v ∈ vmas, v.start < stop → start < v.stop → start ≤ stop

theorem cutPieces_ordered (hv : v.start < v.stop) (hs : v.start < stop → start < v.stop → start ≤ stop) :
    OrderedVmas (cutPieces start stop v) := by
  unfold cutPieces
  split_ifs with h1 h2 h3 h4
  · exact Ordered.singleton hv
  · exact Ordered.nil
  · exact Ordered.singleton (by simp only; omega)
  · exact Ordered.singleton (by simp only; omega)
  · have hle := hs (by omega) (by omega)
    refine ordered_cons.mpr ⟨by simp only [Vma.new]; omega, ?_,
      Ordered.singleton (by simp only [Vma.new]; omega)⟩
    simpa [Vma.new] using hle

theorem removeRange_ordered (h : OrderedVmas vmas) (hs : RangeSafe start stop vmas) :
    OrderedVmas (removeRange start stop vmas) := by
  rw [removeRange_eq_flatMap h]
  exact h.flatMap (fun v hv => cutPieces_ordered (h.proper v hv) (hs v hv))
    (fun v _ w hw => cutPieces_within hw)

theorem rangeSafe_of_le (vmas : List Vma) (h : start ≤ stop) :
    RangeSafe start stop vmas := fun _ _ _ _ => h

theorem protectPieces_within (hw : w ∈ protectPieces start stop flags v) :
    v.start ≤ w.start ∧ w.stop ≤ v.stop := by
  unfold protectPieces at hw
  split_ifs at hw with h1
  · simp at hw
    simp [hw]
  all_goals
    simp only [mem_append, mem_cons, not_mem_nil, or_false, false_or] at hw
    rcases hw with (rfl | rfl) | rfl <;> simp only <;> omega

theorem protectPieces_ordered (hv : v.start < v.stop) (hs : start < stop) :
    OrderedVmas (protectPieces start stop flags v) := by
  unfold protectPieces
  by_cases h1 : v.stop ≤ start ∨ v.start ≥ stop
  · rw [if_pos h1]
    exact Ordered.singleton hv
  rw [if_neg h1]
  refine ordered_append.mpr ⟨ordered_append.mpr ⟨?_, Ordered.singleton (by simp only; omega), ?_⟩, ?_, ?_⟩
  · split_ifs
    · exact Ordered.singleton (by omega)
    · exact Ordered.nil
  · split_ifs <;> simp only [mem_cons, not_mem_nil, or_false, forall_eq, false_implies, implies_true]
    omega
  · split_ifs
    · exact Ordered.singleton (by omega)
    · exact Ordered.nil
  · split_ifs <;> simp
    omega

theorem rangeEnd_cases (hl : len ≠ 0) (h : rangeEnd start len = some stop) : start < stop ∨ stop = 0 := by
  unfold rangeEnd at h
  split_ifs at h with hlt
  cases h
  rcases pageUp_cases hlt with hz | ⟨hle, _, _⟩
  · exact .inr hz
  · omega

theorem protectTouches_zero (start : Nat) (vmas : List Vma) : protectTouches start 0 vmas = false := by
  induction vmas with
  | nil => rfl
  | cons v vmas ih => simp [protectTouches, ih]

theorem mprotect_eq_ok (he : mprotect start len flags vmas = .ok vmas') :
    ∃ stop, rangeEnd start len = some stop ∧ start < stop ∧
      vmas' = vmas.flatMap (protectPieces start stop flags) := by
  unfold mprotect at he
  split_ifs at he with hz
  cases hr : rangeEnd start len with
  | none => simp [hr] at he
  | some stop =>
    simp only [hr] at he
    split_ifs at he with ht
    cases he
    refine ⟨stop, rfl, ?_, rfl⟩
    rcases rangeEnd_cases hz hr with hlt | rfl
    · exact hlt
    · simp [protectTouches_zero] at ht

theorem mprotect_ordered (h : OrderedVmas vmas) (he : mprotect start len flags vmas = .ok vmas') :
    OrderedVmas vmas' := by
  obtain ⟨stop, _, hlt, rfl⟩ := mprotect_eq_ok he
  exact h.flatMap (fun v hv => protectPieces_ordered (h.proper v hv) hlt)
    (fun v _ w hw => protectPieces_within hw)

theorem advisePieces_within (hw : w ∈ advisePieces start stop flag v) :
    v.start ≤ w.start ∧ w.stop ≤ v.stop := by
  unfold advisePieces at hw
  split_ifs at hw
  all_goals
    simp only [mem_cons, not_mem_nil, or_false] at hw
  · simp [hw]
  · rcases hw with rfl | rfl <;> simp only <;> omega
  · rcases hw with rfl | rfl <;> simp only <;> omega
  · simp [hw]

theorem advisePieces_ordered (hv : v.start < v.stop) : OrderedVmas (advisePieces start stop flag v) := by
  unfold advisePieces
  split_ifs
  · exact Ordered.singleton hv
  · exact ordered_cons.mpr ⟨by omega, by simp, Ordered.singleton (by simp only; omega)⟩
  · exact ordered_cons.mpr ⟨by simp only; omega, by simp, Ordered.singleton (by omega)⟩
  · exact Ordered.singleton hv

theorem adviseWhole_extent (start stop : Nat) (flag : VmFlags) (v : Vma) :
    (adviseWhole start stop flag v).start = v.start ∧ (adviseWhole start stop flag v).stop = v.stop := by
  unfold adviseWhole
  split_ifs <;> simp

theorem madviseRange_cases (start len advice : Nat) (vmas : List Vma) :
    (madviseRange start len advice vmas).1 = vmas ∨
      ∃ stop flag, rangeEnd start len = some stop ∧ len ≠ 0 ∧ adviceFlag advice = some flag ∧
        (madviseRange start len advice vmas).1 =
          vmas.flatMap (fun v => advisePieces start stop flag (adviseWhole start stop flag v)) := by
  unfold madviseRange
  by_cases hl : len = 0
  · simp [hl]
  rw [if_neg hl]
  cases ha : adviceFlag advice with
  | none => simp
  | some flag =>
    cases hr : rangeEnd start len with
    | none => simp
    | some stop =>
      right
      refine ⟨stop, flag, rfl, hl, rfl, ?_⟩
      simp only
      split_ifs
      · split <;> simp [flatMap_map]
      · simp [flatMap_map]

theorem madviseRange_ordered {advice : Nat} (h : OrderedVmas vmas) :
    OrderedVmas (madviseRange start len advice vmas).1 := by
  rcases madviseRange_cases start len advice vmas with he | ⟨stop, flag, _, _, _, he⟩
  · rwa [he]
  rw [he]
  refine h.flatMap (fun v hv => advisePieces_ordered ?_) (fun v hv w hw => ?_)
  · have := adviseWhole_extent start stop flag v
    have := h.proper v hv
    omega
  · have he := adviseWhole_extent start stop flag v
    have := advisePieces_within hw
    omega

theorem mergeLoop_cons (m e : Vma) (vmas : List Vma) : mergeLoop m (e :: vmas) =
    if mergeable e m = true ∧ m.start ≤ e.stop ∧ m.stop ≥ e.start then mergeLoop (m.hull e) vmas
    else ((mergeLoop m vmas).1, e :: (mergeLoop m vmas).2) := by
  rw [mergeLoop, Vma.hull]
  by_cases h : mergeable e m = true <;> simp [h]

theorem mergeLoop_sublist (m : Vma) (vmas : List Vma) : (mergeLoop m vmas).2.Sublist vmas := by
  induction vmas generalizing m with
  | nil => exact .refl _
  | cons e vmas ih =>
    rw [mergeLoop_cons]
    split_ifs
    · exact (ih _).cons e
    · exact (ih m).cons_cons e

theorem mergeLoop_fields (m : Vma) (vmas : List Vma) :
    ∃ a b, a ≤ m.start ∧ m.stop ≤ b ∧ (mergeLoop m vmas).1 = { m with start := a, stop := b } := by
  induction vmas generalizing m with
  | nil => exact ⟨_, _, le_rfl, le_rfl, rfl⟩
  | cons e vmas ih =>
    rw [mergeLoop_cons]
    split_ifs
    · obtain ⟨a, b, ha, hb, he⟩ := ih (m.hull e)
      exact ⟨a, b, ha.trans (min_le_left ..), (le_max_left ..).trans hb, he⟩
    · exact ih m

theorem meets_hull (hk : k.start < k.stop) (ht : m.start ≤ e.stop ∧ m.stop ≥ e.start)
    (h : (m.hull e).Meets k) : m.Meets k ∨ e.Meets k := by
  simp only [Meets, Vma.hull] at h ⊢
  omega

theorem mergeLoop_apart (hk : k.start < k.stop) (hm : ¬ m.Meets k) (hl : ∀ e ∈ vmas, ¬ e.Meets k) :
    ¬ (mergeLoop m vmas).1.Meets k := by
  induction vmas generalizing m with
  | nil => exact hm
  | cons e vmas ih =>
    have hrest : ∀ e ∈ vmas, ¬ e.Meets k := fun e he => hl e (by simp [he])
    rw [mergeLoop_cons]
    split_ifs with hc
    · exact ih (fun h => (meets_hull hk hc.2 h).elim hm (hl e (by simp))) hrest
    · exact ih hm hrest

theorem apart_of_before (h : ∀ w ∈ vmas, e.stop ≤ w.start) : ∀ k ∈ vmas, ¬ k.Meets e := by
  intro k hk hm
  have := h k hk
  have := hm.1
  omega

theorem mergeLoop_kept_apart (hl : OrderedVmas vmas) (hc : ∀ e ∈ vmas, m.Meets e → mergeable e m = true) :
    ∀ k ∈ (mergeLoop m vmas).2, ¬ (mergeLoop m vmas).1.Meets k := by
  induction vmas generalizing m with
  | nil => simp [mergeLoop]
  | cons e vmas ih =>
    obtain ⟨he, hb, ho⟩ := ordered_cons.mp hl
    have hrest : ∀ e ∈ vmas, m.Meets e → mergeable e m = true := fun e he => hc e (by simp [he])
    rw [mergeLoop_cons]
    split_ifs with h
    · apply ih ho
      intro k hk hm
      rcases meets_hull (ho.proper k hk) h.2 hm with hm | hm
      · exact hrest k hk hm
      · exact absurd ⟨hm.2, hm.1⟩ (apart_of_before hb k hk)
    · intro k hk
      rcases mem_cons.mp hk with rfl | hk
      · exact mergeLoop_apart he (fun hm => h ⟨hc k (by simp) hm, hm.1.le, hm.2.le⟩) (apart_of_before hb)
      · exact ih ho hrest k hk

theorem insertAtPosition_ordered (hl : OrderedVmas vmas) (hm : m.start < m.stop)
    (ha : ∀ k ∈ vmas, ¬ m.Meets k) : OrderedVmas (insertAtPosition m vmas) := by
  have hsplit := takeWhile_append_dropWhile (p := fun v : Vma => !decide (v.start > m.start)) (l := vmas)
  refine Ordered.insert (by rwa [hsplit]) hm ?_ ?_ (by rwa [hsplit])
  · intro b hb
    have := mem_takeWhile_imp hb
    simpa using this
  · intro b hb
    have hd := hl.sublist (dropWhile_sublist (fun v : Vma => !decide (v.start > m.start)))
    cases hc : vmas.dropWhile (fun v : Vma => !decide (v.start > m.start)) with
    | nil => simp [hc] at hb
    | cons c rest =>
      have hfirst : m.start < c.start := by
        have := head_dropWhile_not (fun v : Vma => !decide (v.start > m.start)) (l := vmas)
        simpa [hc] using this
      rw [hc] at hb hd
      obtain ⟨hp, hcb, _⟩ := ordered_cons.mp hd
      rcases mem_cons.mp hb with rfl | hb
      · exact hfirst
      · have := hcb b hb
        omega

/-- The inserted area overlaps no entry that passes the overlap check but not
the merge test, unless the overlap check rejects it. -/
def InsertSafe (v : Vma) (vmas : List Vma) : Prop :=
  (∃ e ∈ vmas, overlaps v e = true ∧ sameMapping e v = false) ∨
    ∀ e ∈ vmas, overlaps v e = true → e.filePwm = v.filePwm

theorem insertVma_eq_ok (he : insertVma v vmas = .ok vmas') :
    (∀ e ∈ vmas, overlaps v e = true → sameMapping e v = true) ∧
      vmas' = insertAtPosition (mergeLoop v vmas).1 (mergeLoop v vmas).2 := by
  unfold insertVma at he
  split_ifs at he with hc
  cases he
  simpa using hc

theorem insertVma_ordered (hl : OrderedVmas vmas) (hv : v.start < v.stop) (hs : InsertSafe v vmas)
    (he : insertVma v vmas = .ok vmas') : OrderedVmas vmas' := by
  obtain ⟨hsame, rfl⟩ := insertVma_eq_ok he
  have hpwm : ∀ e ∈ vmas, overlaps v e = true → e.filePwm = v.filePwm := by
    rcases hs with ⟨e, hm, ho, hn⟩ | hs
    · simp [hsame e hm ho] at hn
    · exact hs
  have hc : ∀ e ∈ vmas, v.Meets e → mergeable e v = true := by
    intro e hm h
    have ho := overlaps_iff.mpr h
    simp [mergeable, hsame e hm ho, hpwm e hm ho]
  have hmerged : (mergeLoop v vmas).1.start < (mergeLoop v vmas).1.stop := by
    obtain ⟨a, b, ha, hb, he⟩ := mergeLoop_fields v vmas
    rw [he]
    simp only
    omega
  exact insertAtPosition_ordered (hl.sublist (mergeLoop_sublist v vmas)) hmerged (mergeLoop_kept_apart hl hc)

theorem mergeLoop_improper (hl : OrderedVmas vmas) (hm : m.stop ≤ m.start)
    (hw : ∃ e ∈ vmas, mergeable e m = true ∧ e.start ≤ m.stop ∧ m.start ≤ e.stop) :
    (mergeLoop m vmas).1.start < (mergeLoop m vmas).1.stop ∧
      ∀ k ∈ (mergeLoop m vmas).2, ¬ (mergeLoop m vmas).1.Meets k := by
  induction vmas with
  | nil => simp at hw
  | cons e vmas ih =>
    obtain ⟨he, hb, ho⟩ := ordered_cons.mp hl
    obtain ⟨w, hwm, hmw, hws, hwt⟩ := hw
    rw [mergeLoop_cons]
    split_ifs with h
    · obtain ⟨a, b, ha, hb', hf⟩ := mergeLoop_fields (m.hull e) vmas
      simp only [Vma.hull] at ha hb'
      refine ⟨by rw [hf]; simp only; omega, mergeLoop_kept_apart ho ?_⟩
      intro k hk hmeet
      have := hb k hk
      have := hmeet.2
      simp only [Vma.hull] at this
      omega
    · have hrest : w ∈ vmas := (mem_cons.mp hwm).resolve_left fun hwe => h (hwe ▸ ⟨hmw, hwt, hws⟩)
      obtain ⟨hproper, hapart⟩ := ih ho ⟨w, hrest, hmw, hws, hwt⟩
      refine ⟨hproper, fun k hk => ?_⟩
      rcases mem_cons.mp hk with rfl | hk
      · refine mergeLoop_apart he (fun hmeet => ?_) (apart_of_before hb)
        have := hb w hrest
        have := hmeet.1
        omega
      · exact hapart k hk

/-- No sum that the search computes before it returns leaves the machine word. -/
def SumsFit (size : Nat) : Nat → List Vma → Prop
  | cursor, [] => cursor + size < 2 ^ 64
  | cursor, v :: vmas =>
    cursor + size < 2 ^ 64 ∧ (cursor + size ≤ v.start ∨ SumsFit size v.stop vmas)

theorem findFreeLoop_spec {size cursor : Nat} (hl : OrderedVmas vmas)
    (hf : SumsFit size cursor vmas) (h : findFreeLoop size cursor vmas = some a) :
    a + size < 2 ^ 64 ∧ (a = cursor ∨ ∃ v ∈ vmas, a = v.stop) ∧
      ∀ v ∈ vmas, a + size ≤ v.start ∨ v.stop ≤ a := by
  induction vmas generalizing cursor with
  | nil =>
    rw [findFreeLoop] at h
    split_ifs at h
    cases h
    exact ⟨hf, .inl rfl, by simp⟩
  | cons v vmas ih =>
    obtain ⟨hv, hb, ho⟩ := ordered_cons.mp hl
    rw [findFreeLoop, wadd_eq hf.1] at h
    split_ifs at h with hc
    · cases h
      refine ⟨hf.1, .inl rfl, ?_⟩
      intro w hw
      rcases mem_cons.mp hw with rfl | hw
      · exact .inl hc
      · have := hb w hw
        omega
    · obtain ⟨h1, h2, h3⟩ := ih ho (hf.2.resolve_left hc) h
      refine ⟨h1, .inr ?_, ?_⟩
      · rcases h2 with rfl | ⟨w, hw, rfl⟩
        · exact ⟨v, by simp, rfl⟩
        · exact ⟨w, by simp [hw], rfl⟩
      · intro w hw
        rcases mem_cons.mp hw with rfl | hw
        · right
          rcases h2 with rfl | ⟨u, hu, rfl⟩
          · exact le_rfl
          · have := hb u hu
            have := ho.proper u hu
            omega
        · exact h3 w hw

theorem nextStart_le {boundary : Nat} (hv : v ∈ vmas) (hb : boundary ≤ v.start) :
    nextStart boundary vmas ≤ v.start := by
  have hle (init : Nat) (l : List Vma) : l.foldl (fun next v =>
      if v.start ≥ boundary ∧ v.start < next then v.start else next) init ≤ init := by
    induction l generalizing init with
    | nil => exact le_rfl
    | cons w l ih =>
      refine Nat.le_trans (ih _) ?_
      dsimp only
      split_ifs <;> omega
  unfold nextStart
  generalize 2 ^ 64 - 1 = init
  induction vmas generalizing init with
  | nil => simp at hv
  | cons w vmas ih =>
    rcases mem_cons.mp hv with rfl | hv
    · rw [foldl_cons]
      refine Nat.le_trans (hle _ vmas) ?_
      split_ifs <;> omega
    · exact ih hv _

theorem extendAt_ordered (hl : OrderedVmas vmas) (he : extendAt oldAddr newStop vmas = some vmas')
    (hlt : oldAddr < newStop) (hfree : ∀ v ∈ vmas, oldAddr < v.start → newStop ≤ v.start) :
    OrderedVmas vmas' ∧ ∀ w ∈ vmas', ∃ v ∈ vmas, v.start = w.start := by
  induction vmas generalizing vmas' with
  | nil => simp [extendAt] at he
  | cons v vmas ih =>
    obtain ⟨hv, hb, ho⟩ := ordered_cons.mp hl
    rw [extendAt] at he
    split_ifs at he with hs
    · cases he
      refine ⟨ordered_cons.mpr ⟨by simp only; omega, ?_, ho⟩, ?_⟩
      · intro w hw
        have := hb w hw
        exact hfree w (by simp [hw]) (by omega)
      · intro w hw
        rcases mem_cons.mp hw with rfl | hw
        · exact ⟨v, by simp, rfl⟩
        · exact ⟨w, by simp [hw], rfl⟩
    · cases hr : extendAt oldAddr newStop vmas with
      | none => simp [hr] at he
      | some rest =>
        simp only [hr, Option.map_some, Option.some.injEq] at he
        subst he
        obtain ⟨h1, h2⟩ := ih ho hr (fun w hw => hfree w (by simp [hw]))
        refine ⟨ordered_cons.mpr ⟨hv, ?_, h1⟩, ?_⟩
        · intro w hw
          obtain ⟨u, hu, hus⟩ := h2 w hw
          have := hb u hu
          omega
        · intro w hw
          rcases mem_cons.mp hw with rfl | hw
          · exact ⟨w, by simp, rfl⟩
          · obtain ⟨u, hu, hus⟩ := h2 w hw
            exact ⟨u, by simp [hu], hus⟩

theorem wadd_of_lt {b : Nat} (hb : b < 2 ^ 64) (h : a < wadd a b) : wadd a b = a + b := by
  unfold wadd at *
  omega

inductive VmaOp
  | insertVma (vma : Vma)
  | removeRange (start stop : Nat)
  | mprotect (start len : Nat) (flags : PageFlags)
  | mremap (oldAddr oldSize newSize : Nat) (flags : BitVec 32)
  | setBrk (newBrk : Nat)
  | madviseRange (start len advice : Nat)

def vmaStep (mm : MmStruct) : VmaOp → MmStruct
  | .insertVma vma =>
    match insertVma vma mm.vmas with
    | .ok vmas => { mm with vmas }
    | .error _ => mm
  | .removeRange start stop => { mm with vmas := removeRange start stop mm.vmas }
  | .mprotect start len flags =>
    match mprotect start len flags mm.vmas with
    | .ok vmas => { mm with vmas }
    | .error _ => mm
  | .mremap oldAddr oldSize newSize flags => (mremap mm oldAddr oldSize newSize flags).1
  | .setBrk newBrk => (setBrk mm newBrk).1
  | .madviseRange start len advice => { mm with vmas := (madviseRange start len advice mm.vmas).1 }

def VmaOp.Valid : VmaOp → Prop
  | .insertVma vma => vma.start < vma.stop ∧ vma.start % pageSize = 0 ∧ vma.stop % pageSize = 0
  | .removeRange start stop => start % pageSize = 0 ∧ stop % pageSize = 0
  | .mprotect start len _ => start % pageSize = 0 ∧ len % pageSize = 0
  | .mremap oldAddr oldSize newSize _ =>
    oldAddr % pageSize = 0 ∧ oldSize % pageSize = 0 ∧ newSize % pageSize = 0
  | .setBrk newBrk => newBrk % pageSize = 0
  | .madviseRange start len _ => start % pageSize = 0 ∧ len % pageSize = 0

/-- A break inserts `[brk, new)`: the break rises over areas it may merge with, or
it falls inside a heap area that absorbs the improper one, or the check rejects it. -/
def BrkSafe (mm : MmStruct) (newBrk : Nat) : Prop :=
  let vma := Vma.new mm.brk (pageUp newBrk) heapFlags .heap
  mm.startBrk < pageUp newBrk → (∃ e ∈ mm.vmas, overlaps vma e = true ∧ sameMapping e vma = false) ∨
    (mm.brk < pageUp newBrk ∧ ∀ e ∈ mm.vmas, overlaps vma e = true → e.filePwm = 0) ∨
    (pageUp newBrk ≤ mm.brk ∧
      ∃ e ∈ mm.vmas, mergeable e vma = true ∧ e.start ≤ pageUp newBrk ∧ mm.brk ≤ e.stop)

def RemapSafe (mm : MmStruct) (oldAddr oldSize newSize : Nat) (flags : BitVec 32) : Prop :=
  pageUp oldSize < pageUp newSize →
    if flags &&& mremapMaymove = 0#32 then oldAddr + pageUp newSize < 2 ^ 64
    else SumsFit (pageUp newSize) mm.mmapBase mm.vmas

def OpSafe (mm : MmStruct) : VmaOp → Prop
  | .insertVma vma => InsertSafe vma mm.vmas
  | .removeRange start stop => RangeSafe start stop mm.vmas
  | .mprotect _ _ _ => True
  | .mremap oldAddr oldSize newSize flags => RemapSafe mm oldAddr oldSize newSize flags
  | .setBrk newBrk => BrkSafe mm newBrk
  | .madviseRange _ _ _ => True

instance SumsFit.decidable (size : Nat) : (cursor : Nat) → (vmas : List Vma) →
    Decidable (SumsFit size cursor vmas)
  | cursor, [] => inferInstanceAs (Decidable (cursor + size < 2 ^ 64))
  | cursor, v :: vmas =>
    have := SumsFit.decidable size v.stop vmas
    inferInstanceAs (Decidable (cursor + size < 2 ^ 64 ∧ (cursor + size ≤ v.start ∨ _)))

instance : (op : VmaOp) → Decidable op.Valid
  | .insertVma _ | .removeRange .. | .mprotect .. | .mremap .. | .madviseRange .. =>
    inferInstanceAs (Decidable (_ ∧ _))
  | .setBrk _ => inferInstanceAs (Decidable (_ = _))

instance (mm : MmStruct) : (op : VmaOp) → Decidable (OpSafe mm op)
  | .insertVma _ => inferInstanceAs (Decidable ((∃ e ∈ mm.vmas, _) ∨ ∀ e ∈ mm.vmas, _))
  | .removeRange .. => inferInstanceAs (Decidable (∀ v ∈ mm.vmas, _ → _ → _))
  | .mprotect .. | .madviseRange .. => isTrue trivial
  | .mremap .. => inferInstanceAs (Decidable (_ → ite _ _ _))
  | .setBrk _ => inferInstanceAs (Decidable (_ → _ ∨ _ ∨ _))

theorem extendInPlace_ordered (hl : OrderedVmas mm.vmas) (hm : oldVma ∈ mm.vmas)
    (hs : oldVma.start = oldAddr) (he : oldVma.stop = oldAddr + oldSize)
    (hgrow : oldSize < newSize) (hfit : oldAddr + newSize < 2 ^ 64) :
    OrderedVmas (extendInPlace mm oldAddr oldSize newSize).1.vmas := by
  have hb : wadd oldAddr oldSize = oldAddr + oldSize := wadd_eq (by omega)
  have hn : wadd (wadd oldAddr oldSize) (newSize - oldSize) = oldAddr + newSize := by
    rw [hb, wadd_eq (by omega)]
    omega
  unfold extendInPlace
  simp only [hn]
  split_ifs with hnext
  · cases hx : extendAt oldAddr (oldAddr + newSize) mm.vmas with
    | none => exact hl
    | some vmas =>
      refine (extendAt_ordered hl hx (by omega) ?_).1
      intro v hv hlt
      have hsep : oldVma.stop ≤ v.start := by
        by_contra hc
        have hp := hl.proper v hv
        have heq := hl.eq_of_mem hm hv ⟨by omega, by omega⟩
        subst heq
        omega
      exact Nat.le_trans hnext (nextStart_le hv (by omega))
  · exact hl

theorem removeRange_clear {newStart : Nat} {moved : Vma} (hl : OrderedVmas vmas)
    (hfree : ∀ v ∈ vmas, newStop ≤ v.start ∨ v.stop ≤ newStart)
    (hm : e ∈ removeRange start stop vmas) :
    overlaps { moved with start := newStart, stop := newStop } e = false := by
  rw [Bool.eq_false_iff]
  intro ho
  rw [removeRange_eq_flatMap hl] at hm
  obtain ⟨v, hv, hev⟩ := mem_flatMap.mp hm
  have hin := cutPieces_within hev
  have hap := hfree v hv
  have hmeet := overlaps_iff.mp ho
  simp only [Meets] at hmeet
  omega

theorem moveArea_ordered (hl : OrderedVmas mm.vmas) (hle : oldAddr ≤ wadd oldAddr oldSize)
    (hpos : 0 < newSize) (hfit : SumsFit newSize mm.mmapBase mm.vmas) :
    OrderedVmas (moveArea mm oldVma oldAddr oldSize newSize).1.vmas := by
  unfold moveArea findFreeRange
  cases hf : findFreeLoop newSize mm.mmapBase mm.vmas with
  | none => exact hl
  | some newStart =>
    obtain ⟨hsum, _, hfree⟩ := findFreeLoop_spec hl hfit hf
    have hr := removeRange_ordered hl (rangeSafe_of_le mm.vmas hle)
    simp only [wadd_eq hsum]
    cases hi : insertVma { oldVma with start := newStart, stop := newStart + newSize }
        (removeRange oldAddr (wadd oldAddr oldSize) mm.vmas) with
    | error e => exact hr
    | ok vmas =>
      refine insertVma_ordered hr (by simp only; omega) (.inr ?_) hi
      intro e hm ho
      rw [removeRange_clear hl hfree hm] at ho
      cases ho

theorem mremap_cases (mm : MmStruct) (oldAddr oldSize newSize : Nat) (flags : BitVec 32) :
    (mremap mm oldAddr oldSize newSize flags).1 = mm ∨
    ∃ oldVma, findVma mm.vmas oldAddr = some oldVma ∧ oldVma.start = oldAddr ∧
      oldVma.stop = wadd oldAddr (pageUp oldSize) ∧
      ((newSize = 0 ∧ (mremap mm oldAddr oldSize newSize flags).1.vmas =
          removeRange oldAddr (wadd oldAddr (pageUp oldSize)) mm.vmas) ∨
        (newSize ≠ 0 ∧ pageUp newSize ≤ pageUp oldSize ∧ (mremap mm oldAddr oldSize newSize flags).1.vmas =
            removeRange (wadd oldAddr (pageUp newSize)) (wadd oldAddr (pageUp oldSize)) mm.vmas) ∨
        (pageUp oldSize < pageUp newSize ∧ flags &&& mremapMaymove = 0#32 ∧
          mremap mm oldAddr oldSize newSize flags =
            extendInPlace mm oldAddr (pageUp oldSize) (pageUp newSize)) ∨
        (pageUp oldSize < pageUp newSize ∧ flags &&& mremapMaymove ≠ 0#32 ∧
          mremap mm oldAddr oldSize newSize flags =
            moveArea mm oldVma oldAddr (pageUp oldSize) (pageUp newSize))) := by
  unfold mremap
  by_cases h1 : oldSize = 0
  · simp [h1]
  rw [if_neg h1]
  by_cases h2 : flags &&& ~~~mremapMaymove ≠ 0#32
  · simp [h2]
  rw [if_neg h2]
  cases findVma mm.vmas oldAddr with
  | none => exact .inl rfl
  | some oldVma =>
    dsimp only
    by_cases h3 : oldVma.start ≠ oldAddr ∨ oldVma.stop ≠ wadd oldAddr (pageUp oldSize)
    · rw [if_pos h3]
      exact .inl rfl
    rw [if_neg h3]
    refine .inr ⟨oldVma, rfl, by omega, by omega, ?_⟩
    by_cases h4 : newSize = 0
    · exact .inl ⟨h4, by rw [if_pos h4]⟩
    rw [if_neg h4]
    by_cases h5 : pageUp newSize ≤ pageUp oldSize
    · exact .inr (.inl ⟨h4, h5, by rw [if_pos h5]⟩)
    rw [if_neg h5]
    by_cases h6 : flags &&& mremapMaymove = 0#32
    · exact .inr (.inr (.inl ⟨by omega, h6, if_pos h6⟩))
    · exact .inr (.inr (.inr ⟨by omega, h6, if_neg h6⟩))

theorem mremap_ordered {flags : BitVec 32} (hl : OrderedVmas mm.vmas)
    (hs : RemapSafe mm oldAddr oldSize newSize flags) :
    OrderedVmas (mremap mm oldAddr oldSize newSize flags).1.vmas := by
  rcases mremap_cases mm oldAddr oldSize newSize flags with
    he | ⟨oldVma, hf, hstart, hstop, hcases⟩
  · rwa [he]
  have hm : oldVma ∈ mm.vmas := mem_of_find?_eq_some hf
  have hp := hl.proper oldVma hm
  have hw : wadd oldAddr (pageUp oldSize) = oldAddr + pageUp oldSize :=
    wadd_of_lt (pageUp_lt _) (by omega)
  have hlt := wadd_lt oldAddr (pageUp oldSize)
  rcases hcases with ⟨_, he⟩ | ⟨_, h5, he⟩ | ⟨h5, h6, he⟩ | ⟨h5, h6, he⟩
  · rw [he]
    exact removeRange_ordered hl (rangeSafe_of_le _ (by omega))
  · rw [he]
    have hw' : wadd oldAddr (pageUp newSize) = oldAddr + pageUp newSize := wadd_eq (by omega)
    exact removeRange_ordered hl (rangeSafe_of_le _ (by omega))
  · have hfit := hs h5
    rw [if_pos h6] at hfit
    rw [he]
    exact extendInPlace_ordered hl hm hstart (by omega) h5 hfit
  · have hfit := hs h5
    rw [if_neg h6] at hfit
    rw [he]
    exact moveArea_ordered hl (by omega) (by omega) hfit

theorem setBrk_ordered {newBrk : Nat} (hl : OrderedVmas mm.vmas) (hs : BrkSafe mm newBrk) :
    OrderedVmas (setBrk mm newBrk).1.vmas := by
  unfold setBrk
  simp only
  split_ifs with h1 h2
  · cases hi : insertVma (Vma.new mm.brk (pageUp newBrk) heapFlags .heap) mm.vmas with
    | error e => exact hl
    | ok vmas =>
      rcases hs h1 with hr | ⟨hup, hpwm⟩ | ⟨hdown, habs⟩
      · obtain ⟨e, hm, ho, hn⟩ := hr
        simp [(insertVma_eq_ok hi).1 e hm ho] at hn
      · exact insertVma_ordered hl hup (.inr hpwm) hi
      · obtain ⟨_, rfl⟩ := insertVma_eq_ok hi
        obtain ⟨hp, hap⟩ := mergeLoop_improper hl hdown habs
        exact insertAtPosition_ordered (hl.sublist (mergeLoop_sublist _ _)) hp hap
  · exact removeRange_ordered hl (rangeSafe_of_le _ (Nat.le_of_lt h2))
  · exact hl

theorem vmaStep_ordered {op : VmaOp} (hl : OrderedVmas mm.vmas)
    (hv : ∀ vma, op = .insertVma vma → vma.start < vma.stop) (hs : OpSafe mm op) :
    OrderedVmas (vmaStep mm op).vmas := by
  cases op with
  | insertVma vma =>
    simp only [vmaStep]
    cases hi : insertVma vma mm.vmas with
    | error e => exact hl
    | ok vmas => exact insertVma_ordered hl (hv vma rfl) hs hi
  | removeRange start stop => exact removeRange_ordered hl hs
  | mprotect start len flags =>
    simp only [vmaStep]
    cases hi : mprotect start len flags mm.vmas with
    | error e => exact hl
    | ok vmas => exact mprotect_ordered hl hi
  | mremap oldAddr oldSize newSize flags => exact mremap_ordered hl hs
  | setBrk newBrk => exact setBrk_ordered hl hs
  | madviseRange start len advice => exact madviseRange_ordered hl

/-- From an empty address space, a run of safe operations keeps the vector
sorted, proper and free of overlaps. -/
theorem vma_run_invariant (mm : MmStruct) (ops : List VmaOp) (h0 : mm.vmas = [])
    (hv : ∀ op ∈ ops, op.Valid) (hs : Guarded vmaStep OpSafe mm ops) :
    VmaInv (run vmaStep mm ops).vmas := by
  have h : OrderedVmas mm.vmas := by rw [h0]; exact Ordered.nil
  rw [vmaInv_iff]
  clear h0
  induction ops generalizing mm with
  | nil => exact h
  | cons op ops ih =>
    refine ih _ (fun o ho => hv o (by simp [ho])) hs.2 (vmaStep_ordered h ?_ hs.1)
    rintro vma rfl
    have hop := hv (.insertVma vma) (by simp)
    exact hop.1

theorem vma_run_invariant_heap_and_file : VmaInv (run vmaStep MmStruct.new
      [.setBrk 0x4000, .setBrk 0x2000, .removeRange 0x1000 0x3000,
        .insertVma { Vma.new 0x1000 0x2000 .user .fileBacked with inodeId := 7, filePwm := 1 },
        .mprotect 0x1000 0x1000 .present, .mremap 0x1000 0x1000 0x3000 1#32,
        .madviseRange 0x3000 0x2000 4]).vmas :=
  vma_run_invariant MmStruct.new _ rfl (by decide) (by decide)

/-- Lowering the break after its heap area was unmapped stores an area that
ends before it starts. -/
theorem vma_run_invariant_fails :
    ¬ ∀ ops : List VmaOp, (∀ op ∈ ops, op.Valid) → VmaInv (run vmaStep MmStruct.new ops).vmas := by
  intro h
  have hrun := h [.setBrk 0x2000, .removeRange 0 0x2000, .setBrk 0x1000] (by decide)
  revert hrun
  decide

def attrsAt (vmas : List Vma) (a : Nat) : Option (PageFlags × VmaType) :=
  (findVma vmas a).map fun v => (v.flags, v.vmaType)

theorem attrsAt_cons (v : Vma) (vmas : List Vma) (a : Nat) : attrsAt (v :: vmas) a =
      if v.start ≤ a ∧ a < v.stop then some (v.flags, v.vmaType) else attrsAt vmas a := by
  by_cases hv : v.start ≤ a ∧ a < v.stop
  · simp [attrsAt, findVma, Vma.contains, hv]
  · have hc : v.contains a = false := by
      simp only [Vma.contains]
      grind
    simp [attrsAt, findVma, hc, hv]

theorem attrsAt_eq_none {vmas : List Vma} {a : Nat}
    (h : ∀ v ∈ vmas, ¬ (v.start ≤ a ∧ a < v.stop)) : attrsAt vmas a = none := by
  induction vmas with
  | nil => rfl
  | cons v vmas ih =>
    rw [attrsAt_cons, if_neg (h v (by simp))]
    exact ih fun w hw => h w (mem_cons_of_mem v hw)

variable {start stop : Nat}

theorem attrsAt_removeRange {vmas : List Vma} (hs : vmas.Pairwise (fun v w => v.start ≤ w.start))
    (hd : vmas.Pairwise (fun v w => ¬ v.Meets w)) (a : Nat) :
    attrsAt (removeRange start stop vmas) a =
      if start ≤ a ∧ a < stop then none else attrsAt vmas a := by
  induction vmas with
  | nil => simp [removeRange, attrsAt, findVma]
  | cons v vmas ih =>
    obtain ⟨hsv, hs⟩ := pairwise_cons.mp hs
    obtain ⟨hdv, hd⟩ := pairwise_cons.mp hd
    have hih := ih hs hd
    -- where the loop stops early, the areas left lie above the range
    have hpast : stop ≤ v.start ∧ a < stop → attrsAt vmas a = none := by
      intro hv
      refine attrsAt_eq_none fun w hw ha => ?_
      have := hsv w hw
      omega
    unfold removeRange
    split_ifs <;> simp only [attrsAt_cons, Vma.new, hih] <;> grind

theorem attrsAt_protectPieces (hlt : start < stop) (f : PageFlags) (v : Vma) (rest : List Vma) (a : Nat) :
    attrsAt (protectPieces start stop f v ++ rest) a =
      if v.start ≤ a ∧ a < v.stop then
        some (if start ≤ a ∧ a < stop then f else v.flags, v.vmaType)
      else attrsAt rest a := by
  unfold protectPieces
  split_ifs <;> simp only [nil_append, cons_append, append_nil, attrsAt_cons] <;>
    grind

theorem attrsAt_protect (hlt : start < stop) (f : PageFlags) (vmas : List Vma) (a : Nat) :
    attrsAt (vmas.flatMap (protectPieces start stop f)) a =
      (attrsAt vmas a).map fun p => (if start ≤ a ∧ a < stop then f else p.1, p.2) := by
  induction vmas with
  | nil => rfl
  | cons v vmas ih =>
    rw [flatMap_cons, attrsAt_protectPieces hlt, attrsAt_cons, ih]
    split_ifs <;> rfl

/-- An unmap takes away the addresses of its range and an `mprotect` changes the flags of its own, and no others. -/
theorem unmap_and_protect_exact (vmas : List Vma) (hs : vmas.Pairwise (fun v w => v.start ≤ w.start))
    (hd : vmas.Pairwise (fun v w => ¬ Meets Vma.start Vma.stop v w)) :
    (∀ start stop, start ≤ stop → ∀ a, attrsAt (removeRange start stop vmas) a =
      if start ≤ a ∧ a < stop then none else attrsAt vmas a) ∧
    (∀ start len f vmas', start + len < userAddrMax → mprotect start len f vmas = .ok vmas' →
      ∀ a, attrsAt vmas' a = (attrsAt vmas a).map fun p =>
        (if start ≤ a ∧ a < (start + len + (pageSize - 1)) / pageSize * pageSize then f else p.1, p.2)) := by
  refine ⟨fun start stop _ a => attrsAt_removeRange hs hd a, ?_⟩
  intro start len f vmas' hlim he a
  obtain ⟨stop, hr, hlt, rfl⟩ := mprotect_eq_ok he
  have hstop : stop = (start + len + (pageSize - 1)) / pageSize * pageSize := by
    unfold rangeEnd at hr
    split_ifs at hr
    cases hr
    rw [pageUp, pageDown, wadd_eq]
    unfold userAddrMax at hlim
    unfold pageSize
    omega
  rw [← hstop]
  exact attrsAt_protect hlt f vmas a

theorem unmap_and_protect_exact_middle :
    attrsAt (removeRange 4096 8192 [Vma.new 0 12288 .user .heap]) 8192 = some (.user, .heap) ∧
    ∃ vmas', mprotect 4000 5000 .nx [Vma.new 0 16384 .user .heap] = .ok vmas' ∧
      attrsAt vmas' 12287 = some (.nx, .heap) := by
  constructor
  · have h := (unmap_and_protect_exact [Vma.new 0 12288 .user .heap] (by simp) (by simp)).1
    exact h 4096 8192 (by decide) 8192
  · have h := (unmap_and_protect_exact [Vma.new 0 16384 .user .heap] (by simp) (by simp)).2
    exact ⟨_, rfl, h 4000 5000 .nx _ (by decide) rfl 12287⟩

end AntX.Mm
