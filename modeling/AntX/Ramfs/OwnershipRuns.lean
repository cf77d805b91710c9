import AntX.Ramfs.Directory

/-! Block ownership over runs of calls from `mount` on: in which states a call keeps every block with the
one node that refers to it. -/

namespace AntX.Ramfs

open AntX.Lib Option

inductive RamfsCall where
  | createFile (answers : List DCacheResult) (path name : List UInt8) (pwm : UInt64)
  | mkdir (answers : List DCacheResult) (path name : List UInt8) (pwm : UInt64)
  | write (id offset : Nat) (buf : List UInt8) (pwm : UInt64)
  | truncate (id newSize : Nat) (pwm : UInt64)
  | unlink (answers parentAnswers : List DCacheResult) (path : List UInt8) (pwm : UInt64)
  deriving DecidableEq

namespace RamFsData

variable {api : PwmApi} {s s' s₁ s₂ : RamFsData} {c : RamfsCall} {id parent block offset : Nat}
  {name buf : List UInt8} {fileType : VfsFileType} {pwm : UInt64}

def ramfsStep (api : PwmApi) (s : RamFsData) : RamfsCall → Option RamFsData
  | .createFile answers path name pwm => (s.createFile api answers path name pwm).map fun r => r.2
  | .mkdir answers path name pwm => (s.mkdir api answers path name pwm).map fun r => r.2
  | .write id offset buf pwm => (s.write api id offset buf pwm).map fun r => r.2
  | .truncate id newSize pwm => (s.truncate api id newSize pwm).map fun r => r.2
  | .unlink answers parentAnswers path pwm =>
    (s.unlink api answers parentAnswers path pwm).map fun r => r.2

def foundParent (api : PwmApi) (s : RamFsData) (answers : List DCacheResult) (path name : List UInt8)
    (pwm : UInt64) : Option Nat :=
  match s.checkParent api answers path name pwm with
  | some (.ok parent) => some parent
  | _ => none

def target (api : PwmApi) (s : RamFsData) : RamfsCall → Option Nat
  | .createFile answers path name pwm => s.foundParent api answers path name pwm
  | .mkdir answers path name pwm => s.foundParent api answers path name pwm
  | .write id _ _ _ => some id
  | .truncate id _ _ => some id
  | .unlink _ parentAnswers path _ => (s.resolvePath parentAnswers (parentPath path)).join

def Spares (s s' : RamFsData) (target : Option Nat) : Prop :=
  ∀ m, target ≠ some m → ∀ q b, s.Refers (m, q) b → ∀ a, a / ramfsBlockSize = b → s'.dataArea a = s.dataArea a

/-- The call finds a directory with room for another entry in its block, or one whose entries all lie in its
block; a truncation clears the pointers to the index blocks it frees, and empties no directory but the root,
whose block 0 is not in a pointer. -/
def Contained (api : PwmApi) (s : RamFsData) : RamfsCall → Prop
  | .createFile answers path name pwm => ∀ parent ∈ s.foundParent api answers path name pwm,
      HasRoom (s.nodes parent)
  | .mkdir answers path name pwm => ∀ parent ∈ s.foundParent api answers path name pwm,
      HasRoom (s.nodes parent)
  | .write _ _ _ _ => True
  | .truncate id newSize _ =>
      (0 < newSize → newSize < (s.nodes id).size → s.KeepsIndex id newSize) ∧
        (newSize = 0 → (s.nodes id).fileType = .dir → id = 1)
  | .unlink _ parentAnswers path _ => ∀ parent ∈ (s.resolvePath parentAnswers (parentPath path)).join,
      (s.nodes parent).fileType = .dir ∧ Compact (s.nodes parent)

instance (api : PwmApi) (s : RamFsData) : (c : RamfsCall) → Decidable (Contained api s c)
  | .createFile .. | .mkdir .. | .unlink .. => inferInstanceAs (Decidable (∀ _ ∈ _, _))
  | .write _ _ _ _ => isTrue trivial
  | .truncate _ _ _ => inferInstanceAs (Decidable ((_ → _ → _) ∧ _))

theorem spares_refl (s : RamFsData) (target : Option Nat) : Spares s s target := fun _ _ _ _ _ _ _ => rfl

theorem spares_of_confined (hs : s.Intact) (h : Confined s s' id) : Spares s s' (some id) := by
  rintro m hm q b hrefers a rfl
  have hmark := hs.blocksOwned.taken hrefers
  apply h.frame a hmark
  intro r h0 hr
  have hsame := hs.sound.eq_of_pointer trivial trivial hmark (hr ▸ h0) hrefers.2.1 hr
  exact hm (congrArg some (Prod.mk.inj hsame).1.symm)

theorem spares_of_dir (hs : s.Intact) (hdir : (s.nodes parent).fileType = .dir)
    (hframe : ∀ a, s.Marked (a / ramfsBlockSize) →
      a / ramfsBlockSize ≠ (s.nodes parent).directBlocks 0 → s'.dataArea a = s.dataArea a) :
    Spares s s' (some parent) := by
  rintro m hm q b hrefers a rfl
  have hmark := hs.blocksOwned.taken hrefers
  apply hframe a hmark
  intro hsame
  by_cases h0 : (s.nodes parent).directBlocks 0 = 0
  · rw [hsame, h0] at hrefers
    have hparent := hs.rooted parent hdir h0
    have hroot := hs.refers_zero hrefers
    exact hm (by rw [hparent, (Prod.mk.inj hroot).1])
  · have heq := hs.sound.eq_of_pointer trivial trivial hmark (hsame ▸ h0) hrefers.2.1
      (show s.pointer parent (.direct 0) = a / ramfsBlockSize from hsame.symm)
    exact hm (congrArg some (Prod.mk.inj heq).1.symm)

variable {answers : List DCacheResult} {path : List UInt8}
  {r : Except KernelError Unit × RamFsData} {newSize : Nat}

theorem foundParent_ok {name : List UInt8} {pwm : UInt64}
    (h : s.checkParent api answers path name pwm = some (.ok parent)) :
    s.foundParent api answers path name pwm = some parent := by
  rw [foundParent, h]

theorem Allocated.frame_within (h : Allocated s s₁ fileType pwm id block) (hw : Within s₁ s' id) {a : Nat}
    (ha : s.Marked (a / ramfsBlockSize)) : s'.dataArea a = s.dataArea a := by
  have hmark : s₁.Marked (a / ramfsBlockSize) := (h.marks _).mpr (Or.inr ha)
  rw [hw.confined.frame a hmark ?_, h.frame_marked ha]
  intro q h0 hq
  rw [h.pointer_self] at h0 hq
  split at hq
  · exact h.unmarked (hq ▸ ha)
  · rename_i hfirst
    exact h0 (if_neg hfirst)

theorem addEntry_keeps (hs : s.Intact) (hdir : (s.nodes parent).fileType = .dir)
    (hmax : (s.nodes parent).directBlocks 0 ≠ u32Max) (hroom : HasRoom (s.nodes parent)) (hne : parent ≠ id)
    (hnew : Allocated s s₁ fileType pwm id block) (hw : Within s₁ s₂ id)
    (h : s₂.addEntry parent id fileType name = some s') :
    s'.Intact ∧ Spares s s' (some parent) := by
  have hnode : s₂.nodes parent = s.nodes parent := (hw.others parent hne).trans (hnew.others parent hne)
  have hintact := hw.intact (hnew.intact hs)
  obtain ⟨hafter, -, -, hdata⟩ := addEntry_intact hintact (hnode ▸ hroom) (hnode ▸ hmax) h
  refine ⟨hafter, spares_of_dir hs hdir fun a ha hd => ?_⟩
  rw [hdata a (hnode ▸ hd), hnew.frame_within hw ha]

theorem Allocated.ne_used (h : Allocated s s₁ fileType pwm id block) (hused : (s.nodes parent).used = true) :
    parent ≠ id := by
  rintro rfl
  rw [h.unused] at hused
  cases hused

theorem createFile_keeps (hs : s.Intact)
    (hc : ∀ p ∈ s.foundParent api answers path name pwm, HasRoom (s.nodes p))
    {r : Option Nat × RamFsData} (h : s.createFile api answers path name pwm = some r) :
    r.2.Intact ∧ Spares s r.2 (s.foundParent api answers path name pwm) := by
  rcases createFile_cases h with rfl | ⟨parent, id, s₁, block, hcheck, hnew, hrest⟩
  · exact ⟨hs, spares_refl s _⟩
  · obtain ⟨hused, hdir, hmax⟩ := checkParent_ok hcheck
    have hfound := foundParent_ok hcheck
    have hintact := hnew.intact hs
    rw [hfound]
    rcases hrest with rfl | ⟨s₂, hadd, rfl⟩
    · exact ⟨hintact, spares_of_dir hs hdir fun a ha _ => hnew.frame_marked ha⟩
    · exact addEntry_keeps hs hdir hmax (hc parent hfound) (hnew.ne_used hused) hnew
        (Within.refl hintact.sound id) hadd

theorem mkdir_keeps (hs : s.Intact) (hc : ∀ p ∈ s.foundParent api answers path name pwm, HasRoom (s.nodes p))
    (h : s.mkdir api answers path name pwm = some r) :
    r.2.Intact ∧ Spares s r.2 (s.foundParent api answers path name pwm) := by
  obtain ⟨checked, hcheck, rfl⟩ := map_eq_some_iff.mp h
  cases checked with
  | error _ => exact ⟨hs, spares_refl s _⟩
  | ok parent =>
    obtain ⟨hused, hdir, hmax⟩ := checkParent_ok hcheck
    have hfound := foundParent_ok hcheck
    rw [hfound]
    rcases allocNode_cases s .dir pwm with halloc | ⟨id, s₁, block, halloc, hnew⟩
    · simp only [halloc]
      exact ⟨hs, spares_refl s _⟩
    · have hintact := hnew.intact hs
      have hblock : (s₁.nodes id).directBlocks 0 = block := hnew.pointer_self (.direct 0)
      simp only [halloc, hblock]
      by_cases hfull : block = u32Max
      · rw [if_pos hfull]
        exact ⟨hintact, spares_of_dir hs hdir fun a ha _ => hnew.frame_marked ha⟩
      · rw [if_neg hfull]
        have hmark : s₁.Marked block := (hnew.marks block).mpr (Or.inl ⟨rfl, hfull⟩)
        have hblock0 : block ≠ 0 := by
          rintro rfl
          exact hnew.unmarked hs.sound.zero
        have hdots := writeDots_within hintact.sound hblock hblock0 hmark id parent
        have hw : Within s₁ ((s₁.writeDots block id parent).modifyNode id fun n => { n with linkCount := 2 }) id :=
          hdots.trans (within_record hdots.sound (fun n mem q => by cases q <;> rfl) fun n => rfl)
        split
        · exact ⟨hw.intact hintact, spares_of_dir hs hdir fun a ha _ => hnew.frame_within hw ha⟩
        · split
          · exact ⟨hw.intact hintact, spares_of_dir hs hdir fun a ha _ => hnew.frame_within hw ha⟩
          · rename_i s₃ hadd
            exact addEntry_keeps hs hdir hmax (hc parent hfound) (hnew.ne_used hused) hnew hw hadd

theorem write_keeps (hs : s.Intact) {r : Except KernelError Nat × RamFsData}
    (h : s.write api id offset buf pwm = some r) : r.2.Intact ∧ Spares s r.2 (some id) := by
  rw [write] at h
  split at h
  · cases h
  split at h
  · obtain ⟨⟨k, s₁⟩, hloop, rfl⟩ := map_eq_some_iff.mp h
    have hw := writeLoop_within hs.sound hloop
    exact ⟨hw.intact hs, spares_of_confined hs hw.confined⟩
  · cases h
    exact ⟨hs, spares_refl s _⟩

theorem truncate_cases (h : s.truncate api id newSize pwm = some r) :
    r.2 = s ∨ s.resize id newSize = some r.2 := by
  rw [truncate] at h
  repeat' split at h
  all_goals first
    | cases h
      exact .inl rfl
    | obtain ⟨s₁, hresize, rfl⟩ := map_eq_some_iff.mp h
      exact .inr hresize

theorem truncate_keeps (hs : s.Intact)
    (hk : 0 < newSize → newSize < (s.nodes id).size → s.KeepsIndex id newSize)
    (hroot : newSize = 0 → (s.nodes id).fileType = .dir → id = 1)
    (h : s.truncate api id newSize pwm = some r) : r.2.Intact ∧ Spares s r.2 (some id) := by
  rcases truncate_cases h with hsame | hresize
  · rw [hsame]
    exact ⟨hs, spares_refl s _⟩
  · obtain ⟨hinside, hwithin, -⟩ := resize_inside hs.sound hk hresize
    refine ⟨?_, spares_of_confined hs hinside.confined⟩
    rcases Nat.eq_zero_or_pos newSize with h0 | hpos
    · refine ⟨hinside.sound, fun n hdir hfirst => ?_⟩
      by_cases hn : n = id
      · subst hn
        exact hroot h0 (hinside.fileType ▸ hdir)
      · rw [hinside.others n hn] at hdir hfirst
        exact hs.rooted n hdir hfirst
    · exact (hwithin hpos).intact hs

theorem release_keeps (hs : s.Intact) (h : s.truncate api id 0 pwm = some r)
    {f : RamFsNode → RamFsNode} (hf : ∀ n mem q, (f n).pointer mem q = n.pointer mem q)
    (hfile : ∀ n, (f n).fileType = .file) :
    (r.2.modifyNode id f).Intact ∧ r.2.dataArea = s.dataArea := by
  have hrest : r.2.Sound Set.univ ∧ (∀ m, m ≠ id → r.2.nodes m = s.nodes m) ∧ r.2.dataArea = s.dataArea := by
    rcases truncate_cases h with hsame | hresize
    · rw [hsame]
      exact ⟨hs.sound, fun _ _ => rfl, rfl⟩
    · obtain ⟨hinside, -, hdata⟩ := resize_inside hs.sound (fun h0 => absurd h0 (Nat.lt_irrefl 0)) hresize
      exact ⟨hinside.sound, hinside.others, hdata rfl⟩
  obtain ⟨hsound, hothers, hdata⟩ := hrest
  refine ⟨⟨modifyNode_sound hsound hf, fun n hdir hfirst => ?_⟩, hdata⟩
  by_cases hn : n = id
  · subst hn
    simp [modifyNode, hfile] at hdir
  · simp only [modifyNode, Function.update_of_ne hn, hothers n hn] at hdir hfirst
    exact hs.rooted n hdir hfirst

theorem unlink_keeps (hs : s.Intact) {parentAnswers : List DCacheResult}
    (hc : ∀ p ∈ (s.resolvePath parentAnswers (parentPath path)).join, (s.nodes p).fileType = .dir
      ∧ Compact (s.nodes p)) (h : s.unlink api answers parentAnswers path pwm = some r) :
    r.2.Intact ∧ Spares s r.2 (s.resolvePath parentAnswers (parentPath path)).join := by
  obtain ⟨found, -, h⟩ := bind_eq_some_iff.mp h
  cases found with
  | none =>
    cases h
    exact ⟨hs, spares_refl s _⟩
  | some id =>
    dsimp only at h
    split at h
    · cases h
    split at h
    · cases h
      exact ⟨hs, spares_refl s _⟩
    split at h
    · cases h
      exact ⟨hs, spares_refl s _⟩
    obtain ⟨up, hup, h⟩ := bind_eq_some_iff.mp h
    cases up with
    | none =>
      cases h
      exact ⟨hs, spares_refl s _⟩
    | some parent =>
      obtain ⟨s₁, hremove, h⟩ := bind_eq_some_iff.mp h
      obtain ⟨r₂, htruncate, rfl⟩ := map_eq_some_iff.mp h
      obtain ⟨hdir, hcompact⟩ := hc parent (by rw [hup]; rfl)
      obtain ⟨hintact, -, -, hframe⟩ := removeEntry_intact hs hcompact hremove
      obtain ⟨hafter, hdata⟩ := release_keeps hintact htruncate
        (f := fun n => { n with used := false, fileType := .file, linkCount := 0, ownerPwm := 0 })
        (fun n mem q => by cases q <;> rfl) fun n => rfl
      rw [hup]
      refine ⟨hafter, spares_of_dir hs hdir fun a _ hd => ?_⟩
      exact (congrFun hdata a).trans (hframe a hd)

theorem ramfsStep_keeps (hs : s.Intact) (hc : Contained api s c) (h : ramfsStep api s c = some s') :
    s'.Intact ∧ Spares s s' (target api s c) := by
  cases c with
  | createFile answers path name pwm =>
    obtain ⟨r, hr, rfl⟩ := map_eq_some_iff.mp h
    exact createFile_keeps hs hc hr
  | mkdir answers path name pwm =>
    obtain ⟨r, hr, rfl⟩ := map_eq_some_iff.mp h
    exact mkdir_keeps hs hc hr
  | write id offset buf pwm =>
    obtain ⟨r, hr, rfl⟩ := map_eq_some_iff.mp h
    exact write_keeps hs hr
  | truncate id newSize pwm =>
    obtain ⟨r, hr, rfl⟩ := map_eq_some_iff.mp h
    exact truncate_keeps hs hc.1 hc.2 hr
  | unlink answers parentAnswers path pwm =>
    obtain ⟨r, hr, rfl⟩ := map_eq_some_iff.mp h
    exact unlink_keeps hs hc hr

theorem mount_nodes (n : Nat) : mount.nodes n = if n = 1 then freshNode 1 .dir 1 0 2 else RamFsNode.new := by
  by_cases hn : n = 1
  · subst hn
    rfl
  · rw [if_neg hn]
    exact Function.update_of_ne hn _ _

theorem mount_pointer (n : Nat) (q : Ref) : mount.pointer n q = 0 := by
  rw [pointer, mount_nodes]
  split
  · rw [freshNode_pointer, ite_self]
  · cases q <;> simp [RamFsNode.pointer, RamFsNode.new, entryOf_zero]

theorem mount_intact : mount.Intact where
  sound := by
    have hnone : ∀ x b, ¬ mount.Points Set.univ x b := by
      rintro ⟨n, q⟩ b ⟨-, hp, h0, -⟩
      exact h0 (hp.symm.trans (mount_pointer n q))
    exact ⟨⟨fun hx => absurd hx (hnone _ _), fun hx _ => absurd hx (hnone _ _)⟩, by decide +kernel⟩
  rooted n hdir _ := by
    by_contra hn
    rw [mount_nodes, if_neg hn] at hdir
    cases hdir

theorem run_intact {calls : List RamfsCall} (hcalls : Along (ramfsStep api) (Contained api) mount calls)
    (hrun : runOpt (ramfsStep api) mount calls = some s) : s.Intact :=
  hcalls.runOpt_invariant (fun _ _ _ hs hc h => (ramfsStep_keeps hs hc h).1) mount_intact hrun

/-- After a run of such calls every block belongs to one node, and the next such call changes no block of a
node other than the one it works on. -/
theorem blocks_stay_owned {calls : List RamfsCall}
    (hcalls : Along (ramfsStep api) (Contained api) mount calls)
    (hrun : runOpt (ramfsStep api) mount calls = some s) :
    s.BlocksOwned ∧ ∀ c s', Contained api s c → ramfsStep api s c = some s' → Spares s s' (target api s c) := by
  have hs := run_intact hcalls hrun
  exact ⟨hs.blocksOwned, fun c s' hc h => (ramfsStep_keeps hs hc h).2⟩

def openApi : PwmApi := ⟨fun _ => 0, fun _ => 15, fun _ _ _ => true⟩

def tidyCalls : List RamfsCall :=
  [.createFile [] [47] [97] 1, .mkdir [] [47] [98] 1, .write 2 4096 [7] 1, .truncate 2 1 1,
    .unlink [] [] [47, 97] 1]

theorem tidyCalls_owned : ∃ s, runOpt (ramfsStep openApi) mount tidyCalls = some s ∧ s.BlocksOwned := by
  obtain ⟨s, hrun⟩ := isSome_iff_exists.mp
    (show (runOpt (ramfsStep openApi) mount tidyCalls).isSome = true by decide +kernel)
  exact ⟨s, hrun, (blocks_stay_owned (by decide +kernel) hrun).1⟩

/-- A file with one block behind its indirect block is cut to the end of its direct blocks: the indirect
block is freed and stays in the node. -/
def cutCalls : List RamfsCall :=
  [.createFile [] [47] [97] 1, .write 2 49152 [7] 1, .truncate 2 49152 1]

theorem cut_frees_block_in_use :
    ¬ ∀ api calls s, runOpt (ramfsStep api) mount calls = some s → s.BlocksOwned := by
  intro h
  have hrun : (runOpt (ramfsStep openApi) mount cutCalls).map
      (fun s => ((s.nodes 2).used, (s.nodes 2).indirectBlock, s.blockBitmap 2)) = some (true, 2, false) := by
    decide +kernel
  obtain ⟨s, hs, hfacts⟩ := map_eq_some_iff.mp hrun
  simp only [Prod.mk.injEq] at hfacts
  obtain ⟨hused, hindirect, hfree⟩ := hfacts
  have hrefers : s.Refers (2, .indirect) 2 := ⟨hused, hindirect, .inl (by decide), by decide⟩
  have hmark := (h openApi cutCalls s hs).taken hrefers
  exact absurd hmark.2 (by simp [hfree])

end RamFsData

end AntX.Ramfs
