import AntX.Mm.PageFault

/-! The rights that the fault handlers give out: each grants a user write to the page of the fault or
to none. -/

namespace AntX.Mm

def readOnlyAt (vmas : List Vma) (a : Nat) : Bool :=
  (findVma vmas a).any fun v => !v.flags.contains .writable

structure Outcome (t t' : PageTable) (f : Nat) (grants : Bool) : Prop where
  elsewhere : ∀ a, ptKey a ≠ ptKey f → t'.userWritable a = true → t.userWritable a = true
  here : ∀ a, ptKey a = ptKey f → t.userWritable a = false → t'.userWritable a = grants

theorem Outcome.refl (t : PageTable) (f : Nat) : Outcome t t f false :=
  ⟨fun _ _ h => h, fun _ _ h => h⟩

theorem ptKey_pageDown (f : Nat) : ptKey (pageDown f) = ptKey f := by
  simp only [ptKey, pageDown, pageSize]
  omega

variable {t t' : PageTable} {f cr3 : Nat} {grants : Bool} {info : PageFaultInfo} {vmas : List Vma}
  {k : Kernel}

theorem Outcome.of_page (h : Outcome t t' (pageDown f) grants) : Outcome t t' f grants := by
  exact ⟨fun a ha => h.elsewhere a (by rwa [ptKey_pageDown]), fun a ha => h.here a (by rwa [ptKey_pageDown])⟩

namespace Kernel

variable {k k' : Kernel} {cr3 virt phys n : Nat} {flags : PageFlags}

open PageTable Entry

theorem map_outcome (h : Outcome t (k'.tables cr3) virt grants) (phys : Nat) (flags : PageFlags) :
    Outcome t ((k'.mapPageInTable cr3 virt phys flags).tables cr3) virt
      (if PageTable.mappable k'.pmm (k'.tables cr3) cr3 virt then Entry.allowsUserWrite flags
        else grants) := by
  rw [mapPageInTable_tables]
  refine ⟨fun a ha hu => ?_, fun a ha hu => ?_⟩
  · rw [mapPage_userWritable, if_neg (fun hc => ha hc.2)] at hu
    exact h.elsewhere a ha hu
  · simp only [mapPage_userWritable, ha, and_true, h.here a ha hu]

theorem Later.map_outcome (h : Later k k' n) (cr3 virt phys : Nat) (flags : PageFlags) :
    Outcome (k.tables cr3) ((k'.mapPageInTable cr3 virt phys flags).tables cr3) virt
      (k.mapsAfter cr3 virt n && Entry.allowsUserWrite flags) := by
  have hout := Kernel.map_outcome (Outcome.refl (k'.tables cr3) virt) phys flags
  rw [h.mappable, h.tables] at hout
  cases hm : k.mapsAfter cr3 virt n <;> simpa [hm] using hout

theorem alloc_outcome {r : Kernel} (hnone : k.allocPage = none → r = k)
    (hsome : ∀ k₁ phys, k.allocPage = some (k₁, phys) → ∃ k₂ : Kernel, k₂.pmm = k₁.pmm ∧
      k₂.tables = k₁.tables ∧ r.tables cr3 = (k₂.mapPageInTable cr3 virt phys flags).tables cr3) :
    Outcome (k.tables cr3) (r.tables cr3) virt (k.mapsAfter cr3 virt 1 && Entry.allowsUserWrite flags) := by
  cases ha : k.allocPage with
  | none =>
    rw [mapsAfter_of_none (allocPage_none ha), Bool.false_and, hnone ha]
    exact Outcome.refl _ _
  | some a =>
    obtain ⟨k₂, hpmm, htables, hr⟩ := hsome a.1 a.2 ha
    have hl := allocPage_later ha
    rw [hr]
    exact Later.map_outcome ⟨hpmm ▸ hl.pmm, htables.trans hl.tables⟩ cr3 virt a.2 flags

theorem mapZeroed_outcome (k : Kernel) (cr3 page : Nat) (flags : PageFlags) :
    Outcome (k.tables cr3) ((k.mapZeroed cr3 page flags).1.tables cr3) page
      (k.mapsAfter cr3 page 1 && Entry.allowsUserWrite flags) := by
  unfold mapZeroed
  refine alloc_outcome (fun ha => by simp only [ha]) (fun k₁ phys ha => ?_)
  exact ⟨{ k₁ with mem := zeroPage k₁.mem phys }, rfl, rfl, by simp only [ha]; rfl⟩

theorem doCowCopy_outcome (k : Kernel) (cr3 page : Nat) :
    Outcome (k.tables cr3) ((k.doCowCopyWithMm cr3 page).1.tables cr3) page
      ((k.getPhysicalInPml4 cr3 page).isSome && k.mapsAfter cr3 page 1) := by
  unfold doCowCopyWithMm
  cases hp : k.getPhysicalInPml4 cr3 page with
  | none => exact Outcome.refl _ _
  | some oldPhys =>
    rw [Option.isSome_some, Bool.true_and, ← Bool.and_true (k.mapsAfter _ _ _), ← cowFlags_allows]
    refine alloc_outcome (fun ha => by simp only [ha]) (fun k₁ phys ha => ?_)
    exact ⟨{ k₁ with mem := copyPage k₁.mem oldPhys phys }, rfl, rfl, by simp only [ha]; rfl⟩

variable (vfs : VfsRead)

theorem sharedFlags_allows (f : PageFlags) : Entry.allowsUserWrite (sharedFlags f) = f.contains .user := by
  simp [allowsUserWrite, isPresent, isWritable, isUser, contains_user,
    sharedFlags, PageFlags.present, PageFlags.writable]

theorem privateFlags_allows (f : PageFlags) : Entry.allowsUserWrite (privateFlags f) = false := by
  simp [allowsUserWrite, isPresent, isWritable, isUser, privateFlags, PageFlags.writable]

def fileGrants (k : Kernel) (cr3 : Nat) (vma : Vma) (info : PageFaultInfo) (page : Nat) : Bool :=
  match k.cacheCost vma page with
  | none => false
  | some n =>
    vma.flags.contains .user &&
      if vma.shared then k.mapsAfter cr3 page n else info.write && k.mapsAfter cr3 page (n + 1)

theorem handleFileFault_outcome (k : Kernel) (cr3 : Nat) (vma : Vma) (info : PageFaultInfo)
    (page : Nat) : Outcome (k.tables cr3) ((k.handleFileFault vfs cr3 vma info page).1.tables cr3)
      page (k.fileGrants cr3 vma info page) := by
  have hspec := k.cachedPage_spec vfs vma page
  unfold handleFileFault fileGrants
  cases hcost : k.cacheCost vma page with
  | none =>
    rw [hcost] at hspec
    obtain ⟨k₁, heq, ht⟩ := hspec
    simp only [heq, ht]
    exact Outcome.refl _ _
  | some n =>
    rw [hcost] at hspec
    obtain ⟨k₁, cachePhys, heq, hl⟩ := hspec
    simp only [heq]
    cases hshared : vma.shared with
    | true =>
      have hout := hl.map_outcome cr3 page cachePhys (sharedFlags vma.flags)
      rw [sharedFlags_allows, Bool.and_comm] at hout
      cases info.write with
      | true | false => exact hout
    | false =>
      have hfirst := hl.map_outcome cr3 page cachePhys (privateFlags vma.flags)
      rw [privateFlags_allows, Bool.and_false] at hfirst
      simp only [Bool.false_eq_true, if_false]
      cases hw : info.write with
      | false =>
        rw [Bool.false_and, Bool.and_false]
        exact hfirst
      | true =>
        simp only [if_true, Bool.true_and]
        cases ha : (k₁.mapPageInTable cr3 page cachePhys (privateFlags vma.flags)).allocPage with
        | none =>
          rw [copy_refused hl ha, Bool.and_false]
          exact hfirst
        | some r =>
          have hmap := copy_mappable hl (by rw [ha]; exact Option.some_ne_none _)
          have hput : (pcachePut { r.1 with mem := copyPage r.1.mem cachePhys r.2 } vma.inodeId
              (vma.pageIndex page)).tables = (k₁.mapPageInTable cr3 page cachePhys
                (privateFlags vma.flags)).tables :=
            (pcachePut_tables _ _ _).trans (allocPage_later ha).tables
          have hout := Kernel.map_outcome (hput ▸ hfirst) r.2 (sharedFlags vma.flags)
          rw [hput, hmap, sharedFlags_allows] at hout
          cases hroom : k.mapsAfter cr3 page (n + 1) <;> simpa [hroom, countFault] using hout

def vmaGrants (k : Kernel) (cr3 : Nat) (vma : Vma) (info : PageFaultInfo) : Bool :=
  let page := pageDown info.faultAddr
  if vma.isFile then k.fileGrants cr3 vma info page
  else if info.write && !vma.flags.contains .writable then
    (k.getPhysicalInPml4 cr3 page).isSome && k.mapsAfter cr3 page 1
  else k.mapsAfter cr3 page 1 && (vma.flags.contains .writable && vma.flags.contains .user)

theorem handleVmaFault_outcome (k : Kernel) (cr3 : Nat) (vma : Vma) (info : PageFaultInfo) :
    Outcome (k.tables cr3) ((k.handleVmaFaultWithMm vfs cr3 vma info).1.tables cr3)
      info.faultAddr (k.vmaGrants cr3 vma info) := by
  refine Outcome.of_page ?_
  unfold handleVmaFaultWithMm vmaGrants
  split_ifs
  · exact k.handleFileFault_outcome vfs cr3 vma info _
  · exact k.doCowCopy_outcome cr3 _
  · rw [← present_allows]
    exact k.mapZeroed_outcome cr3 _ _

def cowGrants (k : Kernel) (cr3 faultAddr : Nat) : Bool :=
  let page := pageDown faultAddr
  match k.getPhysicalInPml4 cr3 page, k.cowRefs with
  | some oldPhys, some refs =>
    if shouldReuse refs (Entry.frame (BitVec.ofNat 64 oldPhys)) then k.mapsAfter cr3 page 0
    else k.mapsAfter cr3 page 1
  | _, _ => false

theorem cowHandleFault_outcome (k : Kernel) (cr3 faultAddr : Nat) :
    Outcome (k.tables cr3) ((k.cowHandleFault cr3 faultAddr).1.tables cr3) faultAddr
      (k.cowGrants cr3 faultAddr) := by
  refine Outcome.of_page ?_
  unfold cowHandleFault cowGrants
  simp only
  cases hp : k.getPhysicalInPml4 cr3 (pageDown faultAddr) with
  | none => exact Outcome.refl _ _
  | some oldPhys =>
    cases hr : k.cowRefs with
    | none => exact Outcome.refl _ _
    | some refs =>
      cases hreuse : shouldReuse refs (frame (BitVec.ofNat 64 oldPhys)) with
      | true =>
        have hl : Later k { k with cowRefs := some (Function.update refs
            (frame (BitVec.ofNat 64 oldPhys)) none) } 0 := ⟨rfl, rfl⟩
        have hout := hl.map_outcome cr3 (pageDown faultAddr) oldPhys cowFlags
        rw [cowFlags_allows, Bool.and_true] at hout
        simpa only [if_true, hreuse] using hout
      | false =>
        simp only [hreuse, Bool.false_eq_true, if_false]
        rw [← Bool.and_true (k.mapsAfter _ _ _), ← cowFlags_allows]
        refine alloc_outcome (fun ha => by simp only [ha]) (fun k₁ phys ha => ?_)
        have hrefs : k₁.cowRefs = some refs := by
          obtain ⟨pmm, -, rfl⟩ := allocPage_eq ha
          exact hr
        obtain ⟨refs', hdec⟩ := cowDecRef_shared
          (k := { k₁ with mem := copyPage k₁.mem (frame (BitVec.ofNat 64 oldPhys)) phys })
          hrefs hreuse
        exact ⟨{ k₁ with
          mem := copyPage k₁.mem (frame (BitVec.ofNat 64 oldPhys)) phys
          cowRefs := some refs' }, rfl, rfl, by simp only [ha, hdec]; rfl⟩

theorem unmapPageInTable_tables (k : Kernel) (cr3 virt : Nat) : (k.unmapPageInTable cr3 virt).tables cr3 =
      (PageTable.unmapPage k.pmm (k.tables cr3) cr3 virt).2 := by
  simp [unmapPageInTable]

theorem map_unmap_outcome (h : Outcome t (k'.tables cr3) virt (k.mapsAfter cr3 virt n)) :
    Outcome t ((k'.unmapPageInTable cr3 virt).tables cr3) virt false := by
  rw [unmapPageInTable_tables]
  refine ⟨fun a hne hu => h.elsewhere a hne (unmapPage_userWritable _ _ _ _ hu),
    fun a hkey hu => Bool.eq_false_iff.mpr fun hc => ?_⟩
  have hbefore := unmapPage_userWritable _ _ _ _ hc
  rw [h.here a hkey hu, mapsAfter] at hbefore
  simp only [Bool.and_eq_true, bne_iff_ne, ne_eq, decide_eq_true_eq] at hbefore
  rw [userWritable_congr _ hkey, unmapPage_gone _ _ hbefore.1.1 hbefore.1.2] at hc
  cases hc

def growGrants (k : Kernel) (cr3 addr : Nat) : Bool :=
  decide (stackGuardEnd ≤ pageDown addr) && k.mapsAfter cr3 (pageDown addr) 1

theorem handleStackExpansionSimple_outcome (k : Kernel) (cr3 addr : Nat) :
    Outcome (k.tables cr3) ((k.handleStackExpansionSimple cr3 addr).1.tables cr3) addr
      (k.growGrants cr3 addr) := by
  refine Outcome.of_page ?_
  unfold handleStackExpansionSimple growGrants
  by_cases hguard : pageDown addr < stackGuardEnd
  · rw [if_pos hguard, decide_eq_false (by omega), Bool.false_and]
    exact Outcome.refl _ _
  · rw [if_neg hguard, decide_eq_true (by omega), Bool.true_and]
    simpa only [cowFlags_allows, Bool.and_true] using k.mapZeroed_outcome cr3 (pageDown addr) cowFlags

def stackAreaFits (mm : MmStruct) (addr : Nat) : Bool :=
  (findVma mm.vmas (pageDown addr)).isNone &&
    (insertVma (Vma.new (pageDown addr) (wadd (pageDown addr) pageSize) cowFlags .stack) mm.vmas).toBool

theorem handleStackExpansion_outcome (k : Kernel) (cr3 : Nat) (mm : MmStruct) (addr : Nat) :
    Outcome (k.tables cr3) ((k.handleStackExpansion cr3 mm addr).1.tables cr3) addr
      (stackAreaFits mm addr && k.growGrants cr3 addr) := by
  refine Outcome.of_page ?_
  unfold handleStackExpansion growGrants stackAreaFits
  by_cases hguard : pageDown addr < stackGuardEnd
  · rw [if_pos hguard, decide_eq_false (by omega), Bool.false_and, Bool.and_false]
    exact Outcome.refl _ _
  · rw [if_neg hguard, decide_eq_true (by omega), Bool.true_and]
    cases hvma : findVma mm.vmas (pageDown addr) with
    | some v => exact Outcome.refl _ _
    | none =>
      cases ha : k.allocPage with
      | none =>
        rw [mapsAfter_of_none (allocPage_none ha), Bool.and_false]
        exact Outcome.refl _ _
      | some r =>
        obtain ⟨k₁, phys⟩ := r
        have hl := allocPage_later ha
        have hl' : Later k { k₁ with mem := zeroPage k₁.mem phys } 1 := ⟨hl.pmm, hl.tables⟩
        have hout := hl'.map_outcome cr3 (pageDown addr) phys cowFlags
        rw [cowFlags_allows, Bool.and_true] at hout
        cases insertVma (Vma.new (pageDown addr) (wadd (pageDown addr) pageSize) cowFlags .stack) mm.vmas with
        | ok vmas => exact hout
        | error e => exact map_unmap_outcome hout

theorem handleSwapFault_outcome (h : k.isSwapFault cr3 info = true) :
    Outcome (k.tables cr3) ((k.handleSwapFault cr3 info.faultAddr).1.tables cr3) info.faultAddr
      (k.swap.initialized && k.mapsAfter cr3 info.faultAddr 1) := by
  rw [isSwapFault, Bool.and_eq_true, Option.any_eq_true] at h
  obtain ⟨-, pte, hpte, hswap⟩ := h
  unfold handleSwapFault swapIn
  rw [hpte]
  simp only [hswap, Bool.not_true, Bool.false_eq_true, if_false]
  cases k.swap.initialized with
  | false => exact Outcome.refl _ _
  | true =>
    rw [Bool.true_and, ← Bool.and_true (k.mapsAfter _ _ _), ← cowFlags_allows]
    refine alloc_outcome (fun ha => by simp [ha]) (fun k₁ phys ha => ?_)
    exact ⟨{ k₁ with
      mem := copyPage k₁.mem (k₁.swap.storagePhys + swapSlot pte * pageSize) phys
      swap := freeSlot k₁.swap (swapSlot pte) }, rfl, rfl, by simp [ha]⟩

def pageGrants (k : Kernel) (cr3 : Nat) (mm : MmStruct) (info : PageFaultInfo) : Bool :=
  !info.reserved &&
    match findVma mm.vmas info.faultAddr with
    | some vma => !vma.isGuard && k.vmaGrants cr3 vma info
    | none =>
      info.user && isStackExpansionCandidate info.faultAddr &&
        (stackAreaFits mm info.faultAddr && k.growGrants cr3 info.faultAddr)

theorem handlePageFault_outcome (k : Kernel) (cr3 : Nat) (mm : MmStruct) (info : PageFaultInfo) :
    Outcome (k.tables cr3) ((k.handlePageFault vfs cr3 mm info).1.tables cr3) info.faultAddr
      (k.pageGrants cr3 mm info) := by
  unfold handlePageFault pageGrants
  cases info.reserved with
  | true => exact Outcome.refl _ _
  | false =>
    cases findVma mm.vmas info.faultAddr with
    | some vma =>
      cases hguard : vma.isGuard with
      | true => simpa [hguard] using Outcome.refl (k.tables cr3) info.faultAddr
      | false => simpa [hguard] using k.handleVmaFault_outcome vfs cr3 vma info
    | none =>
      cases hgrow : info.user && isStackExpansionCandidate info.faultAddr with
      | true => simpa [hgrow] using k.handleStackExpansion_outcome cr3 mm info.faultAddr
      | false => simpa [hgrow] using Outcome.refl (k.tables cr3) info.faultAddr

def userGrants (k : Kernel) (cr3 : Nat) (mm : Option MmStruct) (info : PageFaultInfo) : Bool :=
  !info.reserved &&
    if k.isSwapFault cr3 info then k.swap.initialized && k.mapsAfter cr3 info.faultAddr 1
    else
      match mm.bind (fun mm => findVma mm.vmas info.faultAddr) with
      | some vma => !vma.isGuard && k.vmaGrants cr3 vma info
      | none =>
        if info.write && info.present then k.cowGrants cr3 info.faultAddr
        else
          info.user && isStackExpansionCandidate info.faultAddr && k.growGrants cr3 info.faultAddr

theorem handleUncovered_outcome (k : Kernel) (cr3 : Nat) (info : PageFaultInfo) :
    Outcome (k.tables cr3) ((k.handleUncovered cr3 info).1.tables cr3) info.faultAddr
      (if info.write && info.present then k.cowGrants cr3 info.faultAddr
        else info.user && isStackExpansionCandidate info.faultAddr && k.growGrants cr3 info.faultAddr) := by
  unfold handleUncovered
  split_ifs with hcow hgrow
  · have hout := k.cowHandleFault_outcome cr3 info.faultAddr
    cases hc : k.cowHandleFault cr3 info.faultAddr with
    | mk k' fixed =>
      rw [hc] at hout
      cases fixed with
      | none | some page => exact hout
  · rw [hgrow, Bool.true_and]
    exact k.handleStackExpansionSimple_outcome cr3 info.faultAddr
  · rw [Bool.eq_false_iff.mpr hgrow, Bool.false_and]
    exact Outcome.refl _ _

theorem handleUserPageFault_outcome (k : Kernel) (cr3 : Nat) (mm : Option MmStruct) (info : PageFaultInfo) :
    Outcome (k.tables cr3) ((k.handleUserPageFault vfs cr3 mm info).1.tables cr3) info.faultAddr
      (k.userGrants cr3 mm info) := by
  unfold handleUserPageFault userGrants
  cases info.reserved with
  | true => exact Outcome.refl _ _
  | false =>
    cases hswap : k.isSwapFault cr3 info with
    | true =>
      have hout := handleSwapFault_outcome hswap
      by_cases hfixed : (k.handleSwapFault cr3 info.faultAddr).2 = .fixed
      · simpa [hfixed, countFault] using hout
      · simpa [hfixed] using hout
    | false =>
      cases mm.bind (fun mm => findVma mm.vmas info.faultAddr) with
      | some vma =>
        cases hguard : vma.isGuard with
        | true => simpa [hguard] using Outcome.refl (k.tables cr3) info.faultAddr
        | false => simpa [hguard] using k.handleVmaFault_outcome vfs cr3 vma info
      | none => exact k.handleUncovered_outcome cr3 info

def refuses (k : Kernel) (cr3 : Nat) (vmas : List Vma) (info : PageFaultInfo) : Bool :=
  !info.reserved && (findVma vmas info.faultAddr).any fun vma =>
    vma.isGuard || (!vma.isFile && (k.getPhysicalInPml4 cr3 (pageDown info.faultAddr)).isNone)

theorem handleFileFault_not_segv (k : Kernel) (cr3 : Nat) (vma : Vma) (info : PageFaultInfo)
    (page : Nat) : (k.handleFileFault vfs cr3 vma info page).2 ≠ .signalSegv := by
  unfold handleFileFault
  simp only
  split
  · exact nofun
  · split_ifs
    · exact nofun
    · exact nofun
    · split <;> exact nofun
    · exact nofun

theorem doCowCopy_segv (k : Kernel) (cr3 page : Nat) :
    (k.doCowCopyWithMm cr3 page).2 = .signalSegv ↔ (k.getPhysicalInPml4 cr3 page).isNone = true := by
  unfold doCowCopyWithMm
  cases k.getPhysicalInPml4 cr3 page with
  | none => simp
  | some old => cases k.allocPage <;> simp

theorem handleVmaFault_segv {vma : Vma} (hwrite : info.write = true)
    (hro : vma.flags.contains .writable = false) :
    (k.handleVmaFaultWithMm vfs cr3 vma info).2 = .signalSegv ↔
      (!vma.isFile && (k.getPhysicalInPml4 cr3 (pageDown info.faultAddr)).isNone) = true := by
  unfold handleVmaFaultWithMm
  cases vma.isFile with
  | true => simpa using k.handleFileFault_not_segv vfs cr3 vma info _
  | false => simpa [hwrite, hro] using k.doCowCopy_segv cr3 (pageDown info.faultAddr)

end Kernel

theorem readOnlyAt_iff {a : Nat} : readOnlyAt vmas a = true ↔
    ∃ vma, findVma vmas a = some vma ∧ vma.flags.contains .writable = false := by
  simp [readOnlyAt, Option.any_eq_true]

/-- What a fault handler owes the areas: the call makes no entry user-writable in an area
without the right to write, and a write fault there is answered with a segmentation
fault. -/
structure KeepsProtection (vmas : List Vma) (t t' : PageTable) (info : PageFaultInfo)
    (result : PfResult) : Prop where
  entries : ∀ a, readOnlyAt vmas a = true → t'.userWritable a = true → t.userWritable a = true
  writes : info.write = true → readOnlyAt vmas info.faultAddr = true → result = .signalSegv

def grantAllowed (vmas : List Vma) (t : PageTable) (f : Nat) : Prop :=
  t.userWritable f = true ∨ ∀ a, ptKey a = ptKey f → readOnlyAt vmas a = false

theorem Outcome.entries_iff (h : Outcome t t' f grants) :
    (∀ a, readOnlyAt vmas a = true → t'.userWritable a = true → t.userWritable a = true) ↔
      (grants = true → grantAllowed vmas t f) := by
  constructor
  · intro hkeep hgrant
    cases hf : t.userWritable f with
    | true => exact .inl hf
    | false =>
      refine .inr fun a hkey => Bool.eq_false_iff.mpr fun hro => ?_
      have hbefore : t.userWritable a = false := (t.userWritable_congr hkey).trans hf
      have hafter : t'.userWritable a = true := (h.here a hkey hbefore).trans hgrant
      rw [hkeep a hro hafter] at hbefore
      cases hbefore
  · intro hallowed a hro hafter
    by_cases hkey : ptKey a = ptKey f
    · cases hbefore : t.userWritable a with
      | true => rfl
      | false =>
        rcases hallowed ((h.here a hkey hbefore).symm.trans hafter) with hf | hfree
        · rw [t.userWritable_congr hkey, hf] at hbefore
          cases hbefore
        · rw [hfree a hkey] at hro
          cases hro
    · exact h.elsewhere a hkey hafter

namespace Kernel

variable (vfs : VfsRead)

theorem handlePageFault_segv {mm : MmStruct} (hwrite : info.write = true)
    (hro : readOnlyAt mm.vmas info.faultAddr = true) :
    (k.handlePageFault vfs cr3 mm info).2.2 = .signalSegv ↔ k.refuses cr3 mm.vmas info = true := by
  obtain ⟨vma, hvma, hflag⟩ := readOnlyAt_iff.mp hro
  unfold handlePageFault refuses
  rw [hvma]
  cases info.reserved with
  | true => simp
  | false =>
    cases hguard : vma.isGuard with
    | true => simp [hguard]
    | false => simpa [hguard] using handleVmaFault_segv vfs hwrite hflag

theorem handleSwapFault_not_segv (h : k.isSwapFault cr3 info = true) :
    (k.handleSwapFault cr3 info.faultAddr).2 ≠ .signalSegv := by
  rw [isSwapFault, Bool.and_eq_true, Option.any_eq_true] at h
  obtain ⟨-, pte, hpte, hswap⟩ := h
  unfold handleSwapFault
  rw [hpte]
  simp only [hswap, Bool.not_true, Bool.false_eq_true, if_false]
  split <;> exact nofun

theorem handleUserPageFault_segv {mm : Option MmStruct} (hwrite : info.write = true)
    (hro : readOnlyAt ((mm.map (·.vmas)).getD []) info.faultAddr = true) :
    (k.handleUserPageFault vfs cr3 mm info).2 = .signalSegv ↔ k.isSwapFault cr3 info = false ∧
        k.refuses cr3 ((mm.map (·.vmas)).getD []) info = true := by
  obtain ⟨vma, hvma, hflag⟩ := readOnlyAt_iff.mp hro
  unfold handleUserPageFault refuses
  cases mm with
  | none => cases hvma
  | some mm =>
    have hvma' : findVma mm.vmas info.faultAddr = some vma := hvma
    simp only [Option.map_some, Option.getD_some, Option.bind_some, hvma']
    cases info.reserved with
    | true => simp
    | false =>
      cases hswap : k.isSwapFault cr3 info with
      | true => simpa using handleSwapFault_not_segv hswap
      | false =>
        cases hguard : vma.isGuard with
        | true => simp [hguard]
        | false => simpa [hguard] using handleVmaFault_segv vfs hwrite hflag

end Kernel

/-- Exactly when the two entry points keep the protection of the areas. -/
theorem fault_protection_iff (vfs : VfsRead) (k : Kernel) (cr3 : Nat) (info : PageFaultInfo) :
    (∀ mm : MmStruct,
      KeepsProtection mm.vmas (k.tables cr3) ((k.handlePageFault vfs cr3 mm info).1.tables cr3)
          info (k.handlePageFault vfs cr3 mm info).2.2 ↔
        (k.pageGrants cr3 mm info = true → grantAllowed mm.vmas (k.tables cr3) info.faultAddr) ∧
        (info.write = true → readOnlyAt mm.vmas info.faultAddr = true → k.refuses cr3 mm.vmas info = true)) ∧
    ∀ mm : Option MmStruct, KeepsProtection ((mm.map (·.vmas)).getD []) (k.tables cr3)
          ((k.handleUserPageFault vfs cr3 mm info).1.tables cr3) info
          (k.handleUserPageFault vfs cr3 mm info).2 ↔
        (k.userGrants cr3 mm info = true →
          grantAllowed ((mm.map (·.vmas)).getD []) (k.tables cr3) info.faultAddr) ∧
        (info.write = true → readOnlyAt ((mm.map (·.vmas)).getD []) info.faultAddr = true →
          k.isSwapFault cr3 info = false ∧ k.refuses cr3 ((mm.map (·.vmas)).getD []) info = true) := by
  refine ⟨fun mm => ?_, fun mm => ?_⟩
  · rw [← (k.handlePageFault_outcome vfs cr3 mm info).entries_iff]
    refine ⟨fun h => ⟨h.entries, fun hw hro => ?_⟩, fun h => ⟨h.1, fun hw hro => ?_⟩⟩
    · exact (Kernel.handlePageFault_segv vfs hw hro).mp (h.writes hw hro)
    · exact (Kernel.handlePageFault_segv vfs hw hro).mpr (h.2 hw hro)
  · rw [← (k.handleUserPageFault_outcome vfs cr3 mm info).entries_iff]
    refine ⟨fun h => ⟨h.entries, fun hw hro => ?_⟩, fun h => ⟨h.1, fun hw hro => ?_⟩⟩
    · exact (Kernel.handleUserPageFault_segv vfs hw hro).mp (h.writes hw hro)
    · exact (Kernel.handleUserPageFault_segv vfs hw hro).mpr (h.2 hw hro)

def readableArea : MmStruct := { MmStruct.new with vmas := [Vma.new 0x10000 0x11000 .user .anonymous] }

def readOfArea : PageFaultInfo := ⟨0x10000, false, false, true, false, false⟩

def writeToArea : PageFaultInfo := ⟨0x10000, true, true, true, false, false⟩

def afterRead : Kernel :=
  let kernelTable := { PageTable.empty with pml4 := fun i => if i = 256 then some 3#64 else none }
  let k := Kernel.start (Pmm.boot (64 * 4096) 0x8000 0) 0x1000 kernelTable
  ((k.createUserPageTable [0x2000, 0x3000]).1.handleUserPageFault (fun _ _ _ _ => []) 0x3F000 (some readableArea) readOfArea).1

theorem write_fault_defeats_protection :
    (¬ ∀ (vfs : VfsRead) (k : Kernel) (cr3 : Nat) (mm : MmStruct) (info : PageFaultInfo),
      KeepsProtection mm.vmas (k.tables cr3) ((k.handlePageFault vfs cr3 mm info).1.tables cr3) info
        (k.handlePageFault vfs cr3 mm info).2.2) ∧
    ¬ ∀ (vfs : VfsRead) (k : Kernel) (cr3 : Nat) (mm : Option MmStruct) (info : PageFaultInfo),
      KeepsProtection ((mm.map (·.vmas)).getD []) (k.tables cr3)
        ((k.handleUserPageFault vfs cr3 mm info).1.tables cr3) info
        (k.handleUserPageFault vfs cr3 mm info).2 := by
  refine ⟨fun h => ?_, fun h => ?_⟩
  · have hkeep := (h (fun _ _ _ _ => []) afterRead 0x3F000 readableArea writeToArea).entries 0x10000
      (by decide) (by decide +kernel)
    cases hkeep
  · have hkeep := (h (fun _ _ _ _ => []) afterRead 0x3F000 (some readableArea) writeToArea).entries
      0x10000 (by decide) (by decide +kernel)
    cases hkeep

end AntX.Mm
