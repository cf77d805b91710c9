import AntX.Ramfs.OwnershipRuns
import AntX.Ramfs.FileCalls

/-! Hard links of services/fs/ramfs_core/ramfs_data.rs, and what an `unlink` of one of the names leaves
of the node. -/

namespace AntX.Ramfs

open AntX.Lib Option

namespace RamFsData

variable {api : PwmApi} {s s' s₁ s₂ : RamFsData} {id m p d t parent start stop : Nat} {name path : List UInt8}
  {pwm : UInt64} {answers parentAnswers : List DCacheResult}

def addLink (s : RamFsData) (node : Nat) : RamFsData :=
  s.modifyNode node fun n => { n with linkCount := (n.linkCount + 1) % 2 ^ 32 }

def link (s : RamFsData) (parentNode targetNode : Nat) (name : List UInt8) :
    Option (Except KernelError Unit × RamFsData) :=
  if name = [] ∨ 47 ∈ name then some (.error .invalidArgument, s)
  else if ramfsMaxNodes ≤ parentNode ∨ ramfsMaxNodes ≤ targetNode then some (.error .invalidArgument, s)
  else if !(s.nodes parentNode).used || !(s.nodes targetNode).used then some (.error .fileNotFound, s)
  else if (s.nodes parentNode).fileType ≠ .dir then some (.error .notADirectory, s)
  else if (s.nodes parentNode).directBlocks 0 = u32Max then some (.error .fileNotFound, s)
  else
    (s.searchNode (s.nodes parentNode) (RamFsDirEntry.named name)).map fun found =>
      if found.isSome then (.error .alreadyExists, s)
      else
        match s.addEntry parentNode targetNode (s.nodes targetNode).fileType name with
        | none => (.error .noSpace, s)
        | some s => (.ok (), s.addLink targetNode)

/-- One of two names of a node has been removed as it should: that name and nothing else is gone, and the
other name still leads to the node, which is in use with the same bytes. -/
structure LinkKept (s s' : RamFsData) (t : Nat) (removed other : List UInt8) : Prop where
  gone : s'.resolvePath [] removed = some none
  others : ∀ path u, u ≠ t → s.resolvePath [] path = some (some u) → s'.resolvePath [] path = some (some u)
  resolves : s'.resolvePath [] other = some (some t)
  used : (s'.nodes t).used = true
  size : (s'.nodes t).size = (s.nodes t).size
  bytes : ∀ p, p < (s.nodes t).size → s'.byteAt t p = s.byteAt t p

theorem link_ok (h : s.link d t name = some (.ok (), s')) :
    d < ramfsMaxNodes ∧ t < ramfsMaxNodes ∧ (s.nodes t).used = true ∧ (s.nodes d).fileType = .dir ∧
      (s.nodes d).directBlocks 0 ≠ u32Max ∧ s.searchNode (s.nodes d) (RamFsDirEntry.named name) = some none ∧
      ∃ s₁, s.addEntry d t (s.nodes t).fileType name = some s₁ ∧ s' = s₁.addLink t := by
  obtain ⟨-, h⟩ := ok_of_check_state h
  obtain ⟨hids, h⟩ := ok_of_check_state h
  obtain ⟨hunused, h⟩ := ok_of_check_state h
  obtain ⟨hdir, h⟩ := ok_of_check_state h
  obtain ⟨hblock, h⟩ := ok_of_check_state h
  obtain ⟨found, hfound, h⟩ := map_eq_some_iff.mp h
  cases found with
  | some e => cases h
  | none =>
    cases hadd : s.addEntry d t (s.nodes t).fileType name with
    | none =>
      rw [hadd] at h
      cases h
    | some s₁ =>
      rw [hadd] at h
      cases h
      simp only [Bool.or_eq_true, Bool.not_eq_true', not_or, Bool.not_eq_false] at hunused
      exact ⟨by omega, by omega, hunused.2, not_not.mp hdir, hblock, hfound, s₁, rfl, rfl⟩

theorem addEntry_used {fileType : VfsFileType} (h : s.addEntry d id fileType name = some s') (m : Nat) :
    (s'.nodes m).used = (s.nodes m).used := by
  rw [addEntry] at h
  split at h
  · cases h
  · cases h
    by_cases hm : m = d
    · subst hm
      simp [modifyNode, writeEntry]
    · simp [modifyNode, writeEntry, hm]

theorem addLink_used (s : RamFsData) (t m : Nat) : ((s.addLink t).nodes m).used = (s.nodes m).used := by
  by_cases hm : m = t
  · subst hm
    simp [addLink, modifyNode]
  · simp [addLink, modifyNode, hm]

theorem link_used (h : s.link d t name = some (.ok (), s')) : (s'.nodes t).used = true := by
  obtain ⟨-, -, hused, -, -, -, s₁, hadd, rfl⟩ := link_ok h
  rw [addLink_used, addEntry_used hadd, hused]

theorem freePointer_nodes {i : Nat} (h : freePointer p s i = some s') : s'.nodes = s.nodes := by
  obtain ⟨b, -, rfl⟩ := map_eq_some_iff.mp h
  split
  · rfl
  · exact (blockSetFree_frees s b).nodes

theorem freeIndirectChain_nodes (h : s.freeIndirectChain p start stop = some s') : s'.nodes = s.nodes := by
  rw [freeIndirectChain] at h
  split at h
  · cases h
    rfl
  · obtain ⟨s₁, hloop, rfl⟩ := map_eq_some_iff.mp h
    have hnodes := @runOpt_invariant _ _ _ (fun (s₂ : RamFsData) => s₂.nodes = s.nodes)
      (fun _ _ _ hs hstep => (freePointer_nodes hstep).trans hs) _ _ rfl _ hloop
    exact (blockSetFree_frees s₁ p).nodes.trans hnodes

theorem freeChainAt_nodes {first last i : Nat} (h : freeChainAt p start stop first last s i = some s') :
    s'.nodes = s.nodes := by
  obtain ⟨index, -, h⟩ := bind_eq_some_iff.mp h
  dsimp only at h
  generalize (if i = first then start % indirectBlocksPerBlock else 0) = localStart at h
  generalize (if i = last - 1 then stop % indirectBlocksPerBlock else indirectBlocksPerBlock) = localEnd at h
  split at h
  · exact freeIndirectChain_nodes h
  · cases h
    rfl

theorem freeDoubleIndirectChain_nodes (h : s.freeDoubleIndirectChain p start stop = some s') :
    s'.nodes = s.nodes := by
  rw [freeDoubleIndirectChain] at h
  split at h
  · cases h
    rfl
  · obtain ⟨s₁, hloop, rfl⟩ := map_eq_some_iff.mp h
    have hnodes := @runOpt_invariant _ _ _ (fun (s₂ : RamFsData) => s₂.nodes = s.nodes)
      (fun _ _ _ hs hstep => (freeChainAt_nodes hstep).trans hs) _ _ rfl _ hloop
    exact (blockSetFree_frees s₁ p).nodes.trans hnodes

theorem modifyNode_other (f : RamFsNode → RamFsNode) (hm : m ≠ id) : (s.modifyNode id f).nodes m = s.nodes m :=
  Function.update_of_ne hm _ _

theorem freeDirect_other {first : Nat} (hm : m ≠ id) : (s.freeDirect id first stop).nodes m = s.nodes m := by
  rw [freeDirect, modifyNode_other _ hm, (foldl_blockSetFree_frees _ s).nodes]

theorem releaseAll_other (h : s.releaseAll id = some s') (hm : m ≠ id) : s'.nodes m = s.nodes m := by
  obtain ⟨s₁, hindirect, h⟩ := bind_eq_some_iff.mp h
  obtain ⟨s₂, hdouble, rfl⟩ := map_eq_some_iff.mp h
  rw [setDoubleIndirect, modifyNode_other _ hm, freeDoubleIndirectChain_nodes hdouble, setIndirect,
    modifyNode_other _ hm, freeIndirectChain_nodes hindirect, freeDirect_other hm]

theorem resize_zero (h : s.resize id 0 = some s') :
    (s'.nodes id).size = 0 ∧ ∀ m, m ≠ id → s'.nodes m = s.nodes m := by
  obtain ⟨s₁, hrelease, rfl⟩ := map_eq_some_iff.mp h
  rw [if_neg (by omega), if_pos rfl] at hrelease
  refine ⟨by simp [setSize, modifyNode], fun m hm => ?_⟩
  rw [setSize, modifyNode_other _ hm, releaseAll_other hrelease hm]

theorem removeEntry_nodes (h : s.removeEntry parent id = some s') : s'.nodes = s.nodes ∧ s'.aces = s.aces := by
  rw [removeEntry] at h
  split at h
  · cases h
  · split at h
    · cases h
      exact ⟨rfl, rfl⟩
    · obtain ⟨found, -, rfl⟩ := map_eq_some_iff.mp h
      cases found with
      | none | some place => exact ⟨rfl, rfl⟩

theorem truncate_zero {r : Except KernelError Unit × RamFsData} (hid : id < ramfsMaxNodes)
    (hused : (s.nodes id).used = true) (hperm : s.checkPermission api (s.nodes id) pwm fsCapWrite = true)
    (h : s.truncate api id 0 pwm = some r) :
    (r.2.nodes id).size = 0 ∧ ∀ m, m ≠ id → r.2.nodes m = s.nodes m := by
  rw [truncate, if_neg (by omega), if_neg (by simp [hused]), if_neg (by simp [hperm])] at h
  split at h
  · rename_i hsize
    cases h
    exact ⟨hsize.symm, fun _ _ => rfl⟩
  · obtain ⟨s₁, hresize, rfl⟩ := map_eq_some_iff.mp h
    exact resize_zero hresize

theorem unlink_ok (h : s.unlink api answers parentAnswers path pwm = some (.ok (), s')) :
    ∃ id, s.resolvePath answers path = some (some id) ∧ (s'.nodes id).used = false ∧ (s'.nodes id).size = 0 ∧
      ∀ m, m ≠ id → s'.nodes m = s.nodes m := by
  obtain ⟨found, hfound, h⟩ := bind_eq_some_iff.mp h
  cases found with
  | none => cases h
  | some id =>
    dsimp only at h
    split at h
    · cases h
    rename_i hid
    obtain ⟨hused, h⟩ := ok_of_check_state h
    obtain ⟨hperm, h⟩ := ok_of_check_state h
    simp only [Bool.not_eq_true', Bool.not_eq_false] at hused hperm
    obtain ⟨up, -, h⟩ := bind_eq_some_iff.mp h
    cases up with
    | none => cases h
    | some parent =>
      obtain ⟨s₁, hremove, h⟩ := bind_eq_some_iff.mp h
      obtain ⟨r, htruncate, h⟩ := map_eq_some_iff.mp h
      obtain ⟨hnodes, haces⟩ := removeEntry_nodes hremove
      obtain ⟨hsize, hothers⟩ := truncate_zero (Nat.lt_of_not_le hid) (by rw [hnodes, hused])
        (by rw [hnodes, checkPermission, haces, ← checkPermission, hperm]) htruncate
      cases h
      refine ⟨id, hfound, by simp [modifyNode], by simpa [modifyNode] using hsize, fun m hm => ?_⟩
      rw [modifyNode_other _ hm, hothers m hm, hnodes]

/-- After a link has succeeded, an unlink that succeeds leaves the node in use exactly if its path was not
one of the node's: no removal of one of the names keeps the node for the other. -/
theorem unlink_keeps_linked_iff (hlink : s.link d t name = some (.ok (), s₁))
    (hunlink : s₁.unlink api answers parentAnswers path pwm = some (.ok (), s₂)) :
    ((s₂.nodes t).used = true ↔ s₁.resolvePath answers path ≠ some (some t)) ∧
      (s₁.resolvePath answers path = some (some t) →
        (s₂.nodes t).size = 0 ∧ ∀ other, ¬ LinkKept s₁ s₂ t path other) := by
  obtain ⟨id, hpath, hunused, hsize, hothers⟩ := unlink_ok hunlink
  have hiff : (s₂.nodes t).used = true ↔ s₁.resolvePath answers path ≠ some (some t) := by
    by_cases ht : t = id
    · subst ht
      simp [hunused, hpath]
    · have hkept : (s₂.nodes t).used = true := by rw [hothers t ht, link_used hlink]
      simp [hkept, hpath, Ne.symm ht]
  refine ⟨hiff, fun htarget => ?_⟩
  have ht : id = t := by simpa [hpath] using htarget
  subst ht
  exact ⟨hsize, fun other hkept => hiff.mp hkept.used htarget⟩

def oneName : Option RamFsData :=
  (mount.createFile openApi [] [47] [97] 1).bind fun r => (r.2.write openApi 2 0 [7] 1).map fun r => r.2

/-- It is given the name `/b` as well. The removal of `/b` clears the entry of `/a`, the first one of the
directory for the node, and gives up the node. -/
theorem oneName_linked : ∃ s s₁ s₂, oneName = some s ∧ s.resolvePath [] [47, 97] = some (some 2) ∧
    (s.nodes 2).fileType = .file ∧ s.link 1 2 [98] = some (.ok (), s₁) ∧
    s₁.resolvePath [] [47, 98] = some (some 2) ∧ s₁.unlink openApi [] [] [47, 98] 1 = some (.ok (), s₂) ∧
    (s₂.nodes 2).used = false ∧ s₂.resolvePath [] [47, 97] = some none ∧
    s₂.resolvePath [] [47, 98] = some (some 2) := by
  have hrun : (oneName.bind fun s => (s.link 1 2 [98]).bind fun l =>
      (l.2.unlink openApi [] [] [47, 98] 1).map fun u =>
        decide (s.resolvePath [] [47, 97] = some (some 2) ∧ (s.nodes 2).fileType = .file ∧ l.1 = .ok () ∧
          l.2.resolvePath [] [47, 98] = some (some 2) ∧ u.1 = .ok () ∧ (u.2.nodes 2).used = false ∧
          u.2.resolvePath [] [47, 97] = some none ∧ u.2.resolvePath [] [47, 98] = some (some 2))) = some true := by
    decide +kernel
  obtain ⟨s, hs, hrun⟩ := bind_eq_some_iff.mp hrun
  obtain ⟨⟨answer, s₁⟩, hlink, hrun⟩ := bind_eq_some_iff.mp hrun
  obtain ⟨⟨answer', s₂⟩, hunlink, hrun⟩ := map_eq_some_iff.mp hrun
  simp only [decide_eq_true_eq] at hrun
  obtain ⟨hpath, htype, rfl, hname, rfl, hunused, hgone, hstays⟩ := hrun
  exact ⟨s, s₁, s₂, hs, hpath, htype, hlink, hname, hunlink, hunused, hgone, hstays⟩

theorem unlink_keeps_linked_second : ∃ s s₁ s₂ : RamFsData, s.link 1 2 [98] = some (.ok (), s₁) ∧
    s₁.unlink openApi [] [] [47, 98] 1 = some (.ok (), s₂) ∧ (s₂.nodes 2).size = 0 ∧
    ¬ LinkKept s₁ s₂ 2 [47, 98] [47, 97] := by
  obtain ⟨s, s₁, s₂, -, -, -, hlink, hname, hunlink, -⟩ := oneName_linked
  obtain ⟨-, hlost⟩ := unlink_keeps_linked_iff hlink hunlink
  exact ⟨s, s₁, s₂, hlink, hunlink, (hlost hname).1, (hlost hname).2 _⟩

theorem linked_node_given_up :
    ¬ ∀ api (s : RamFsData) a t d name (s₁ : RamFsData) b removed other pwm s₂, s.resolvePath [] a = some (some t) →
      (s.nodes t).fileType = .file → s.link d t name = some (.ok (), s₁) → s₁.resolvePath [] b = some (some t) →
      (removed, other) = (a, b) ∨ (removed, other) = (b, a) →
      s₁.unlink api [] [] removed pwm = some (.ok (), s₂) → LinkKept s₁ s₂ t removed other := by
  intro hall
  obtain ⟨s, s₁, s₂, -, hpath, htype, hlink, hname, hunlink, hunused, -⟩ := oneName_linked
  have hkept := hall openApi s [47, 97] 2 1 [98] s₁ [47, 98] [47, 98] [47, 97] 1 s₂ hpath htype hlink hname
    (Or.inr rfl) hunlink
  rw [hkept.used] at hunused
  cases hunused

end RamFsData

end AntX.Ramfs
