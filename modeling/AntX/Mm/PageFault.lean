import AntX.Lib.Run
import AntX.Mm.Vma
import AntX.Mm.PageTableSpec

/-! The handlers of page faults: demand paging and copy on write, with the clone of a page table at a
fork. The page table and the memory description of the process are arguments. -/

namespace AntX.Mm

open Lib Function

namespace Kernel

def cowInit (k : Kernel) : Kernel := { k with cowRefs := some (fun _ => none) }

def frameKey (phys : Nat) : Nat := pageDown phys

def cowIncRef (k : Kernel) (phys : Nat) : Kernel :=
  match k.cowRefs with
  | none => k
  | some refs =>
    let key := frameKey phys
    { k with cowRefs := some (update refs key (some ((refs key).getD 0 + 1))) }

def cowDecRef (k : Kernel) (phys : Nat) : Kernel × Bool :=
  match k.cowRefs with
  | none => (k, false)
  | some refs =>
    let key := frameKey phys
    match refs key with
    | none => (k, false)
    | some count =>
      if count - 1 = 0 then ({ k with cowRefs := some (update refs key none) }, true)
      else ({ k with cowRefs := some (update refs key (some (count - 1))) }, false)

def isCowEntry (e : BitVec 64) : Bool := Entry.isPresent e && Entry.isWritable e && Entry.isUser e

def protect (e : BitVec 64) : BitVec 64 := e &&& ~~~PageFlags.writable

def cowEntry (e : BitVec 64) : BitVec 64 := if isCowEntry e then protect e else e

def childBits (bits : BitVec 64) (page : Nat) : BitVec 64 :=
  (bits &&& 0xFFF#64) ||| (BitVec.ofNat 64 page &&& frameMask)

/-! The innermost loop, over the entries of page `n` under the directory, for all three of
its effects: on the parent's entries, on the child's, on the counts. -/

def protectPage (t : PageTable) (n : Nat) : PageTable :=
  { t with pt := fun l => if l / 512 = n then cowEntry (t.pt l) else t.pt l }

def copyEntries (parent child : PageTable) (n : Nat) : PageTable :=
  { child with pt := fun l =>
      if l / 512 = n then (if Entry.isPresent (parent.pt l) then cowEntry (parent.pt l) else 0#64)
      else child.pt l }

def clonePt (k : Kernel) (parent child n : Nat) : Kernel :=
  let tp := k.tables parent
  let entries := (List.range 512).map fun l => tp.pt (n * 512 + l)
  let k := (entries.filter isCowEntry).foldl (fun k e => k.cowIncRef (Entry.frame e)) k
  let k := k.setTable parent (protectPage tp n)
  k.setTable child (copyEntries tp (k.tables child) n)

section

variable (parent child : Nat) (k : Kernel)

def clonePdEntry (n : Nat) : Kernel × Bool :=
  match (k.tables parent).pd n with
  | .absent => (k, true)
  | .huge bits =>
    let tc := k.tables child
    (k.setTable child { tc with pd := update tc.pd n (.huge bits) }, true)
  | .table bits =>
    match k.allocPage with
    | none => (k, false)
    | some (k, page) =>
      let tc := k.tables child
      let k := k.setTable child { tc with
          pd := update tc.pd n (.table (childBits bits page))
          pt := fun l => if l / 512 = n then 0#64 else tc.pt l }
      (k.clonePt parent child n, true)

def clonePdptEntry (j : Nat) : Kernel × Bool :=
  match (k.tables parent).pdpt j with
  | .absent => (k, true)
  | .huge _ => (k, true)
  | .table bits =>
    match k.allocPage with
    | none => (k, false)
    | some (k, page) =>
      let tc := k.tables child
      let k := k.setTable child { tc with
          pdpt := update tc.pdpt j (.table (childBits bits page))
          pd := fun n => if n / 512 = j then .absent else tc.pd n }
      forEach (clonePdEntry parent child) k ((List.range 512).map (j * 512 + ·))

def clonePml4Entry (i : Nat) : Kernel × Bool :=
  match (k.tables parent).pml4 i with
  | none => (k, true)
  | some bits =>
    match k.allocPage with
    | none => (k, false)
    | some (k, page) =>
      let tc := k.tables child
      let k := k.setTable child { tc with
          pml4 := update tc.pml4 i (some (childBits bits page))
          pdpt := fun j => if j / 512 = i then .absent else tc.pdpt j }
      forEach (clonePdptEntry parent child) k ((List.range 512).map (i * 512 + ·))

end

def cloneUserPageTableCow (k : Kernel) (parent : Nat) : Kernel × Option Nat :=
  if parent = 0 then (k, none)
  else
    match k.allocPage with
    | none => (k, none)
    | some (k, child) =>
      let k := k.setTable child (childTable (k.tables k.kernelPml4))
      match forEach (clonePml4Entry parent child) k (List.range 256) with
      | (k, true) => (k, some child)
      | (k, false) => (k, none)

def cowFlags : PageFlags := .present ||| .writable ||| .user

def shouldReuse (refs : Nat → Option Nat) (frame : Nat) : Bool :=
  match refs frame with
  | some count => decide (count ≤ 1)
  | none => true

def cowHandleFault (k : Kernel) (pml4 faultAddr : Nat) : Kernel × Option Nat :=
  let page := pageDown faultAddr
  match k.getPhysicalInPml4 pml4 page with
  | none => (k, none)
  | some oldPhys =>
    let oldFrame := Entry.frame (BitVec.ofNat 64 oldPhys)
    match k.cowRefs with
    | none => (k, none)
    | some refs =>
      if shouldReuse refs oldFrame then
        let k := { k with cowRefs := some (update refs oldFrame none) }
        (k.mapPageInTable pml4 page oldPhys cowFlags, some oldPhys)
      else
        match k.allocPage with
        | none => (k, none)
        | some (k, newPhys) =>
          let k := { k with mem := copyPage k.mem oldFrame newPhys }
          let (k, last) := k.cowDecRef oldFrame
          let k := if last then k.freePage oldFrame else k
          (k.mapPageInTable pml4 page newPhys cowFlags, some newPhys)

end Kernel

inductive PfResult where
  | fixed
  | signalSegv
  | signalBus
  | oom
  | unhandled
deriving DecidableEq, Repr

structure PageFaultInfo where
  faultAddr : Nat
  present : Bool
  write : Bool
  user : Bool
  reserved : Bool
  instruction : Bool
deriving DecidableEq, Repr

def userStackTop : Nat := userAddrMax

def userStackDefaultSize : Nat := 0x00800000

def userStackGuardPages : Nat := 1

def stackGuardEnd : Nat := userStackTop - userStackDefaultSize + userStackGuardPages * pageSize

def isStackExpansionCandidate (addr : Nat) : Bool :=
  decide (userStackTop - userStackDefaultSize ≤ addr) && decide (addr < userStackTop)

def wsub (a b : Nat) : Nat := (a + (2 ^ 64 - b)) % 2 ^ 64

def Vma.isFile (v : Vma) : Bool := v.vmaType == .fileBacked && v.inodeId != 0

def Vma.pageIndex (v : Vma) (page : Nat) : Nat := wadd (wsub page v.start) v.offset / pageSize

def sharedFlags (flags : PageFlags) : PageFlags := flags ||| .present ||| .writable

def privateFlags (flags : PageFlags) : PageFlags :=
  (flags ||| .present) &&& (allFlags &&& ~~~PageFlags.writable)

namespace Kernel

variable (vfs : VfsRead)

variable (k : Kernel)

def mapZeroed (cr3 page : Nat) (flags : PageFlags) : Kernel × PfResult :=
  match k.allocPage with
  | none => (k, .oom)
  | some (k, phys) =>
    let k := { k with mem := zeroPage k.mem phys }
    ((k.mapPageInTable cr3 page phys flags).countFault, .fixed)

def handleStackExpansionSimple (cr3 addr : Nat) : Kernel × PfResult :=
  if pageDown addr < stackGuardEnd then (k, .signalSegv)
  else k.mapZeroed cr3 (pageDown addr) cowFlags

def handleStackExpansion (cr3 : Nat) (mm : MmStruct) (addr : Nat) : Kernel × MmStruct × PfResult :=
  let page := pageDown addr
  if page < stackGuardEnd then (k, mm, .signalSegv)
  else if (findVma mm.vmas page).isSome then (k, mm, .signalSegv)
  else
    match k.allocPage with
    | none => (k, mm, .oom)
    | some (k, phys) =>
      let k := { k with mem := zeroPage k.mem phys }
      let k := k.mapPageInTable cr3 page phys cowFlags
      match insertVma (Vma.new page (wadd page pageSize) cowFlags .stack) mm.vmas with
      | .error _ => ((k.unmapPageInTable cr3 page).freePage phys, mm, .oom)
      | .ok vmas => (k.countFault, { mm with vmas := vmas }, .fixed)

def doCowCopyWithMm (cr3 page : Nat) : Kernel × PfResult :=
  match k.getPhysicalInPml4 cr3 page with
  | none => (k, .signalSegv)
  | some oldPhys =>
    match k.allocPage with
    | none => (k, .oom)
    | some (k, newPhys) =>
      let k := { k with mem := copyPage k.mem oldPhys newPhys }
      ((k.mapPageInTable cr3 page newPhys cowFlags).countFault, .fixed)

def cachedPage (vma : Vma) (page : Nat) : Kernel × Option Nat :=
  let pageIndex := vma.pageIndex page
  match k.pcacheLookup vma.inodeId pageIndex with
  | some phys => (k, some phys)
  | none =>
    match k.pcacheGet vma.inodeId pageIndex with
    | (k, none) => (k, none)
    | (k, some phys) =>
      let fileOff := wadd vma.offset (wsub page vma.start)
      let bytes := vfs vma.mountIdx vma.inodeId fileOff vma.filePwm
      (if bytes.length > 0 then k.pcacheFill vma.inodeId pageIndex bytes else k, some phys)

def handleFileFault (cr3 : Nat) (vma : Vma) (info : PageFaultInfo) (page : Nat) : Kernel × PfResult :=
  let pageIndex := vma.pageIndex page
  match k.cachedPage vfs vma page with
  | (k, none) => (k, .oom)
  | (k, some cachePhys) =>
    if vma.shared then
      let k := k.mapPageInTable cr3 page cachePhys (sharedFlags vma.flags)
      let k := if info.write then k.pcacheMarkDirty vma.inodeId pageIndex else k
      (k.countFault, .fixed)
    else
      let k := k.mapPageInTable cr3 page cachePhys (privateFlags vma.flags)
      if info.write then
        match k.allocPage with
        | none => (k, .oom)
        | some (k, newPhys) =>
          let k := { k with mem := copyPage k.mem cachePhys newPhys }
          let k := k.pcachePut vma.inodeId pageIndex
          let k := k.mapPageInTable cr3 page newPhys (sharedFlags vma.flags)
          (k.countFault, .fixed)
      else (k.countFault, .fixed)

def handleVmaFaultWithMm (cr3 : Nat) (vma : Vma) (info : PageFaultInfo) : Kernel × PfResult :=
  let page := pageDown info.faultAddr
  if vma.isFile then k.handleFileFault vfs cr3 vma info page
  else if info.write && !vma.flags.contains .writable then k.doCowCopyWithMm cr3 page
  else k.mapZeroed cr3 page (vma.flags ||| .present)

def handlePageFault (cr3 : Nat) (mm : MmStruct) (info : PageFaultInfo) : Kernel × MmStruct × PfResult :=
  if info.reserved then (k, mm, .signalBus)
  else
    match findVma mm.vmas info.faultAddr with
    | some vma =>
      if vma.isGuard then (k, mm, .signalSegv)
      else
        let (k, result) := k.handleVmaFaultWithMm vfs cr3 vma info
        (k, mm, result)
    | none =>
      if info.user && isStackExpansionCandidate info.faultAddr then
        k.handleStackExpansion cr3 mm info.faultAddr
      else (k, mm, .signalSegv)

def handleSwapFault (pml4 faultAddr : Nat) : Kernel × PfResult :=
  match k.getPteValue pml4 faultAddr with
  | none => (k, .signalSegv)
  | some pte =>
    if !isSwapPte pte then (k, .signalSegv)
    else
      match k.swapIn (swapSlot pte) with
      | none => (k, .oom)
      | some (k, newPhys) => (k.mapPageInTable pml4 faultAddr newPhys cowFlags, .fixed)

def isSwapFault (cr3 : Nat) (info : PageFaultInfo) : Bool :=
  !info.present && info.user && (k.getPteValue cr3 info.faultAddr).any isSwapPte

def handleUncovered (cr3 : Nat) (info : PageFaultInfo) : Kernel × PfResult :=
  if info.write && info.present then
    match k.cowHandleFault cr3 info.faultAddr with
    | (k, some _) => (k.countFault, .fixed)
    | (k, none) => (k, .signalSegv)
  else if info.user && isStackExpansionCandidate info.faultAddr then
    k.handleStackExpansionSimple cr3 info.faultAddr
  else (k, .signalSegv)

def handleUserPageFault (cr3 : Nat) (mm : Option MmStruct) (info : PageFaultInfo) : Kernel × PfResult :=
  if info.reserved then (k, .signalBus)
  else if k.isSwapFault cr3 info then
    let (k, result) := k.handleSwapFault cr3 info.faultAddr
    (if result = .fixed then k.countFault else k, result)
  else
    match mm.bind (fun mm => findVma mm.vmas info.faultAddr) with
    | some vma =>
      if vma.isGuard then (k, .signalSegv) else k.handleVmaFaultWithMm vfs cr3 vma info
    | none => k.handleUncovered cr3 info

end Kernel

open PageTable Entry PageFlags

theorem contains_writable (f : PageFlags) : f.contains .writable = f.getLsbD 1 := by
  rw [contains, show writable = BitVec.twoPow 64 1 by decide, BitVec.and_twoPow]
  cases f.getLsbD 1 <;> decide

theorem contains_user (f : PageFlags) : f.contains .user = f.getLsbD 2 := by
  rw [contains, show user = BitVec.twoPow 64 2 by decide, BitVec.and_twoPow]
  cases f.getLsbD 2 <;> decide

theorem present_allows (f : PageFlags) : allowsUserWrite (f ||| present) =
    (f.contains .writable && f.contains .user) := by
  simp [allowsUserWrite, isPresent, isWritable, isUser, contains_user, contains_writable, present]

namespace Kernel

variable {k k' : Kernel} {cr3 virt phys n : Nat} {flags : PageFlags}

def mapsAfter (k : Kernel) (cr3 virt n : Nat) : Bool :=
  cr3 != 0 && decide (pml4Key virt < 256) && (k.pmm.takes (n + (k.tables cr3).missing virt)).isSome

structure Later (k k' : Kernel) (n : Nat) : Prop where
  pmm : k.pmm.takes n = some k'.pmm
  tables : k'.tables = k.tables

theorem Later.refl (k : Kernel) : Later k k 0 := ⟨rfl, rfl⟩

theorem Later.mappable (h : Later k k' n) (cr3 virt : Nat) :
    PageTable.mappable k'.pmm (k'.tables cr3) cr3 virt = k.mapsAfter cr3 virt n := by
  rw [PageTable.mappable, mapsAfter, Pmm.takes_add, h.pmm, h.tables]
  rfl

theorem allocPage_eq {page : Nat} (h : k.allocPage = some (k', page)) :
    ∃ pmm, k.pmm.takePage = some (pmm, page) ∧ k' = { k with pmm := pmm } := by
  unfold allocPage at h
  cases ht : k.pmm.takePage with
  | none => simp [ht] at h
  | some r =>
    simp only [ht, Option.some.injEq, Prod.mk.injEq] at h
    exact ⟨r.1, by rw [← h.2], h.1.symm⟩

theorem allocPage_later {page : Nat} (h : k.allocPage = some (k', page)) : Later k k' 1 := by
  obtain ⟨pmm, ht, rfl⟩ := allocPage_eq h
  exact ⟨by simp [Pmm.takes, ht], rfl⟩

theorem allocPage_none (h : k.allocPage = none) (m : Nat) : k.pmm.takes (1 + m) = none := by
  unfold allocPage at h
  cases ht : k.pmm.takePage with
  | none => exact takes_stuck ht (by omega)
  | some r => simp [ht] at h

theorem mapsAfter_of_none (h : ∀ m, k.pmm.takes (n + m) = none) (cr3 virt : Nat) :
    k.mapsAfter cr3 virt n = false := by
  rw [mapsAfter, h]
  simp

theorem mapPageInTable_tables (k : Kernel) (cr3 virt phys : Nat) (flags : PageFlags) :
    (k.mapPageInTable cr3 virt phys flags).tables cr3 =
      (PageTable.mapPage k.pmm (k.tables cr3) cr3 virt phys flags).2 := by
  simp [mapPageInTable]

variable (vfs : VfsRead)

def cacheCost (k : Kernel) (vma : Vma) (page : Nat) : Option Nat :=
  let b := k.pcache (pcacheHash vma.inodeId (vma.pageIndex page))
  if (k.pcacheLookup vma.inodeId (vma.pageIndex page)).isSome then some 0
  else if b.count < pcacheBucketCapacity ∧ (k.pmm.takes 1).isSome ∧ b.entries.any (!·.occupied)
  then some 1
  else none

theorem pcacheFill_later {inodeId pageIndex : Nat} {bytes : List (BitVec 8)} (h : Later k k' n) :
    Later k (k'.pcacheFill inodeId pageIndex bytes) n := by
  unfold pcacheFill
  split
  · exact ⟨h.pmm, h.tables⟩
  · exact h

theorem pcacheGet_spec {inodeId pageIndex : Nat} (hmiss : k.pcacheLookup inodeId pageIndex = none) :
    let b := k.pcache (pcacheHash inodeId pageIndex)
    if b.count < pcacheBucketCapacity ∧ (k.pmm.takes 1).isSome ∧ b.entries.any (!·.occupied) then
      ∃ k' phys, k.pcacheGet inodeId pageIndex = (k', some phys) ∧ Later k k' 1
    else ∃ k', k.pcacheGet inodeId pageIndex = (k', none) ∧ k'.tables = k.tables := by
  have hnoref : (k.pcache (pcacheHash inodeId pageIndex)).lookupAndRef inodeId pageIndex = none := by
    rw [PageCacheBucket.lookupAndRef, show (k.pcache _).lookup inodeId pageIndex = none from hmiss]
  intro b
  unfold pcacheGet
  by_cases hfull : b.count ≥ pcacheBucketCapacity
  · rw [if_neg (by omega)]
    exact ⟨k, by rw [if_pos hfull], rfl⟩
  · rw [if_neg hfull, hnoref]
    cases ha : k.allocPage with
    | none =>
      rw [if_neg (by simp [show k.pmm.takes 1 = none from allocPage_none ha 0])]
      exact ⟨k, rfl, rfl⟩
    | some r =>
      obtain ⟨k₁, phys⟩ := r
      have hl := allocPage_later ha
      cases hfree : b.entries.any (fun e => !e.occupied) with
      | true =>
        rw [if_pos ⟨by omega, by rw [hl.pmm]; rfl, rfl⟩]
        simp only [PageCacheBucket.place, show (k.pcache _).entries.any _ = true from hfree, if_true]
        exact ⟨_, phys, rfl, hl.pmm, hl.tables⟩
      | false =>
        rw [if_neg (by simp)]
        simp only [PageCacheBucket.place, show (k.pcache _).entries.any _ = false from hfree]
        exact ⟨_, rfl, hl.tables⟩

theorem cachedPage_spec (k : Kernel) (vma : Vma) (page : Nat) : match k.cacheCost vma page with
    | none => ∃ k', k.cachedPage vfs vma page = (k', none) ∧ k'.tables = k.tables
    | some n => ∃ k' phys, k.cachedPage vfs vma page = (k', some phys) ∧ Later k k' n := by
  unfold cacheCost cachedPage
  cases hhit : k.pcacheLookup vma.inodeId (vma.pageIndex page) with
  | some phys => exact ⟨k, phys, by simp [hhit], Later.refl k⟩
  | none =>
    have hget := pcacheGet_spec hhit
    simp only [hhit, Option.isSome_none, Bool.false_eq_true, if_false] at hget ⊢
    split_ifs at hget with hroom
    · obtain ⟨k', phys, heq, hl⟩ := hget
      rw [if_pos hroom]
      refine ⟨_, phys, by rw [heq], ?_⟩
      split_ifs
      · exact pcacheFill_later hl
      · exact hl
    · obtain ⟨k', heq, ht⟩ := hget
      rw [if_neg hroom]
      exact ⟨k', by rw [heq], ht⟩

theorem pcachePut_tables (k : Kernel) (inodeId pageIndex : Nat) :
    (k.pcachePut inodeId pageIndex).tables = k.tables := by
  simp only [pcachePut]
  split <;> rfl

theorem mapsAfter_succ (h : Later k k' n) (h₁ : k.mapsAfter cr3 virt n = true) :
    k.mapsAfter cr3 virt (n + 1) = (((k'.mapPageInTable cr3 virt phys flags).pmm).takes 1).isSome := by
  have hdone := mapPage_mapped k'.pmm (k'.tables cr3) cr3 virt phys flags (by rw [h.mappable, h₁])
  have hpmm : k.pmm.takes (n + (k.tables cr3).missing virt) =
      some (k'.mapPageInTable cr3 virt phys flags).pmm := by
    rw [Pmm.takes_add, h.pmm, ← h.tables]
    exact hdone.1
  simp only [mapsAfter, Bool.and_eq_true] at h₁
  rw [mapsAfter, Nat.add_right_comm, Pmm.takes_add, hpmm, h₁.1.1, h₁.1.2]
  rfl

theorem mapsAfter_of_alloc (h : Later k k' n) (hroot : cr3 ≠ 0) (hkey : pml4Key virt < 256)
    (halloc : (k'.mapPageInTable cr3 virt phys flags).allocPage ≠ none) :
    k.mapsAfter cr3 virt n = true := by
  by_contra hm
  rw [Bool.not_eq_true] at hm
  have hstuck := mapPage_stuck k'.pmm (k'.tables cr3) cr3 virt phys flags hroot hkey (by rw [h.mappable, hm])
  refine halloc ?_
  rw [allocPage, show (k'.mapPageInTable cr3 virt phys flags).pmm.takePage = none from hstuck]

theorem copy_mappable (h : Later k k' n) (halloc : (k'.mapPageInTable cr3 virt phys flags).allocPage ≠ none)
    (pmm : Pmm) : PageTable.mappable pmm ((k'.mapPageInTable cr3 virt phys flags).tables cr3) cr3 virt =
      k.mapsAfter cr3 virt (n + 1) := by
  by_cases hm : k.mapsAfter cr3 virt n = true
  · have hsome : ((k'.mapPageInTable cr3 virt phys flags).pmm.takes 1).isSome := by
      cases ha : (k'.mapPageInTable cr3 virt phys flags).allocPage with
      | none => exact absurd ha halloc
      | some r => rw [(allocPage_later ha).pmm]; rfl
    rw [mapsAfter_succ h hm, hsome, mapPageInTable_tables, PageTable.mappable,
      (mapPage_mapped _ _ _ _ _ _ (by rw [h.mappable, hm])).2.1]
    simp only [mapsAfter, Bool.and_eq_true] at hm
    simp [hm.1.1, hm.1.2, Pmm.takes]
  · rw [PageTable.mappable, mapsAfter]
    by_cases hroot : cr3 = 0
    · simp [hroot]
    · simp [show ¬pml4Key virt < 256 from fun hkey => hm (mapsAfter_of_alloc h hroot hkey halloc)]

theorem copy_refused (h : Later k k' n) (halloc : (k'.mapPageInTable cr3 virt phys flags).allocPage = none) :
    k.mapsAfter cr3 virt (n + 1) = false := by
  by_cases hm : k.mapsAfter cr3 virt n = true
  · rw [mapsAfter_succ h hm, show (k'.mapPageInTable cr3 virt phys flags).pmm.takes 1 = none from
      allocPage_none halloc 0]
    rfl
  · rw [Bool.not_eq_true] at hm
    rw [mapsAfter] at hm ⊢
    rw [Nat.add_right_comm, Pmm.takes_add]
    cases htakes : k.pmm.takes (n + (k.tables cr3).missing virt) with
    | none => simp
    | some pmm =>
      rw [htakes, Option.isSome_some, Bool.and_true] at hm
      rw [hm, Bool.false_and]

theorem cowFlags_allows : allowsUserWrite cowFlags = true := by decide

theorem cowDecRef_shared {refs : Nat → Option Nat} {e : BitVec 64} (hrefs : k.cowRefs = some refs)
    (hshared : shouldReuse refs (frame e) = false) :
    ∃ refs', k.cowDecRef (frame e) = ({ k with cowRefs := some refs' }, false) := by
  unfold shouldReuse at hshared
  cases hcount : refs (frame e) with
  | none => simp [hcount] at hshared
  | some count =>
    simp only [hcount, decide_eq_false_iff_not, Nat.not_le] at hshared
    simp only [cowDecRef, hrefs, frameKey, frame_aligned, hcount]
    rw [if_neg (by omega)]
    exact ⟨_, rfl⟩

end Kernel

end AntX.Mm
