import AntX.Mm.ForkClone

/-! Swapping out, `framework/mm/swap.rs`, and the fault that brings a page back. The swap area is a
range of physical memory, a slot a page of it; the entry of slot 0 is the zero word. -/

namespace AntX.Mm

open Function BitVec List PageTable Entry

def swapMaxSlots : Nat := 4096

def swapEntry (slot : Nat) : BitVec 64 := (BitVec.ofNat 64 slot &&& 0x003FFFFFFFFFFFFF#64) <<< 2

def SwapArea.allocSlot (a : SwapArea) : Option (SwapArea × Nat) :=
  match (List.range swapMaxSlots).find? (fun i => !a.slotUsed i) with
  | none => none
  | some slot =>
    some ({ a with
      slotUsed := update a.slotUsed slot true
      usedCount := a.usedCount + 1 }, slot)

def PageTable.setPteValue (t : PageTable) (root virt : Nat) (rawPte : BitVec 64) : PageTable :=
  match t.getPteValue root virt with
  | none => t
  | some _ => { t with pt := update t.pt (ptKey virt) rawPte }

def PageTable.clearEntry (t : PageTable) (virt : Nat) : PageTable :=
  match t.pml4 (pml4Key virt), t.pdpt (pdptKey virt), t.pd (pdKey virt) with
  | none, _, _ => t
  | some _, .absent, _ => t
  | some _, .huge _, _ => { t with pdpt := update t.pdpt (pdptKey virt) .absent }
  | some _, .table _, .absent => t
  | some _, .table _, .huge _ => { t with pd := update t.pd (pdKey virt) .absent }
  | some _, .table _, .table _ => { t with pt := update t.pt (ptKey virt) 0#64 }

namespace Kernel

def setPteValue (k : Kernel) (pml4 virt : Nat) (rawPte : BitVec 64) : Kernel :=
  k.setTable pml4 ((k.tables pml4).setPteValue pml4 virt rawPte)

def unmapPage (k : Kernel) (virt : Nat) : Kernel :=
  if k.kernelPml4 = 0 ∨ pml4Key virt ≥ 256 then k
  else k.setTable k.kernelPml4 ((k.tables k.kernelPml4).clearEntry virt)

def swapOut (k : Kernel) (physAddr : Nat) : Option (Kernel × BitVec 64) :=
  if !k.swap.initialized then none
  else
    match k.swap.allocSlot with
    | none => none
    | some (swap, slot) =>
      some ({ k with
        swap := swap
        mem := copyPage k.mem physAddr (swap.storagePhys + slot * pageSize) }, swapEntry slot)

def swapOutToPte (k : Kernel) (pml4 virtAddr : Nat) : Option (Kernel × BitVec 64) :=
  match k.getPteValue pml4 virtAddr with
  | none => none
  | some pte =>
    if !Entry.isPresent pte then none
    else
      match k.swapOut (Entry.frame pte) with
      | none => none
      | some (k, entry) => some (k.setPteValue pml4 virtAddr entry, entry)

end Kernel

def lruCapacity : Nat := 256

structure LruEntry where
  pml4 : Nat
  virtAddr : Nat
  physAddr : Nat
  dirty : Bool
  occupied : Bool
  locked : Bool
deriving DecidableEq, Repr

def LruEntry.empty : LruEntry := ⟨0, 0, 0, false, false, false⟩

def LruEntry.tracks (e : LruEntry) (virtAddr : Nat) : Bool := e.occupied && e.virtAddr == virtAddr

/-! The registered policy, `DefaultSwapPolicy`. -/

def shouldDemoteActive (activeCount capacity : Nat) : Bool := decide (activeCount ≥ capacity)

def shouldEvictInactive (inactiveCount capacity : Nat) : Bool := decide (inactiveCount ≥ capacity)

def selectVictim (entries : List (Option LruEntry)) : Option Nat :=
  entries.findIdx? (fun e => e.any (!·.locked))

structure LruList where
  active : List LruEntry
  activeCount : Nat
  inactive : List LruEntry
  inactiveCount : Nat
deriving DecidableEq, Repr

namespace LruList

def new : LruList :=
  ⟨List.replicate lruCapacity .empty, 0, List.replicate lruCapacity .empty, 0⟩

section

variable (l : LruList) (pml4 virtAddr physAddr : Nat) (dirty locked : Bool)

def evictOldest : LruList :=
  match l.inactive.findIdx? (fun e => e.occupied && !e.locked) with
  | none => l
  | some j =>
    { l with inactive := l.inactive.set j .empty, inactiveCount := l.inactiveCount - 1 }

def demoteOldest : LruList :=
  match l.active.findIdx? (·.occupied) with
  | none => l
  | some i =>
    let entry := l.active.getD i .empty
    let l := { l with active := l.active.set i .empty, activeCount := l.activeCount - 1 }
    let l := if shouldEvictInactive l.inactiveCount lruCapacity then l.evictOldest else l
    match l.inactive.findIdx? (!·.occupied) with
    | none => l
    | some j =>
      { l with inactive := l.inactive.set j entry, inactiveCount := l.inactiveCount + 1 }

def pushActive : LruList :=
  match l.active.findIdx? (·.tracks virtAddr) with
  | some i =>
    -- the table and the frame of the call are dropped
    let entry := l.active.getD i .empty
    { l with active :=
        l.active.set i { entry with dirty := dirty, locked := locked || entry.locked } }
  | none =>
    let l := if shouldDemoteActive l.activeCount lruCapacity then l.demoteOldest else l
    match l.active.findIdx? (!·.occupied) with
    | none => l
    | some i =>
      { l with
        active := l.active.set i ⟨pml4, virtAddr, physAddr, dirty, true, locked⟩
        activeCount := l.activeCount + 1 }

def addActive : LruList :=
  match l.inactive.findIdx? (·.tracks virtAddr) with
  | some i =>
    let entry := l.inactive.getD i .empty
    let l := { l with inactive := l.inactive.set i .empty, inactiveCount := l.inactiveCount - 1 }
    l.pushActive entry.pml4 entry.virtAddr entry.physAddr (entry.dirty || dirty) (locked || entry.locked)
  | none => l.pushActive pml4 virtAddr physAddr dirty locked

def getVictim : Option (LruList × LruEntry) :=
  match selectVictim (l.inactive.map fun e => if e.occupied then some e else none) with
  | none => none
  | some i =>
    some ({ l with inactive := l.inactive.set i .empty, inactiveCount := l.inactiveCount - 1 },
      l.inactive.getD i .empty)

end

end LruList

structure Reclaimed where
  freed : Nat
  pml4 : Nat
  virtAddr : Nat
  before : Kernel
  after : Kernel

/-- `reclaimed` is not in the source: the log of the turns, the last first. -/
structure SwapSys where
  kernel : Kernel
  lru : LruList
  reclaimed : List Reclaimed

namespace SwapSys

def lruTouch (s : SwapSys) (pml4 virtAddr physAddr : Nat) (dirty locked : Bool) : SwapSys :=
  { s with lru := s.lru.addActive pml4 virtAddr physAddr dirty locked }

def release (s : SwapSys) (entry : LruEntry) (k : Kernel) : SwapSys :=
  { s with
    kernel := k.freePage entry.physAddr
    reclaimed := ⟨entry.physAddr, entry.pml4, entry.virtAddr, s.kernel, k⟩ :: s.reclaimed }

def reclaimOne (s : SwapSys) : SwapSys × Bool :=
  match s.lru.getVictim with
  | none => (s, false)
  | some (lru, entry) =>
    let s := { s with lru := lru }
    if entry.pml4 ≠ 0 then
      match s.kernel.swapOutToPte entry.pml4 entry.virtAddr with
      | none => (s, false)
      | some (k, _) => (s.release entry k, true)
    else
      match s.kernel.swapOut entry.physAddr with
      | none => (s, false)
      | some (k, _) => (s.release entry (k.unmapPage entry.virtAddr), true)

def reclaimPages (s : SwapSys) : Nat → SwapSys × Nat
  | 0 => (s, 0)
  | maxCount + 1 =>
    match s.reclaimOne with
    | (s, false) => (s, 0)
    | (s, true) =>
      let (s, reclaimed) := s.reclaimPages maxCount
      (s, reclaimed + 1)

end SwapSys

open Lib

variable {slot i page : Nat} {a : SwapArea} {e pte : BitVec 64} {pmm : Pmm}

theorem swapEntry_toNat (h : slot < 2 ^ 54) : (swapEntry slot).toNat = slot * 4 := by
  have hmask : (0x003FFFFFFFFFFFFF#64).toNat = 2 ^ 54 - 1 := by decide
  rw [swapEntry, toNat_shiftLeft, toNat_and, toNat_ofNat, hmask,
    Nat.and_two_pow_sub_one_eq_mod, Nat.shiftLeft_eq]
  omega

theorem swapSlot_swapEntry (h : slot < 2 ^ 54) : Kernel.swapSlot (swapEntry slot) = slot := by
  rw [Kernel.swapSlot, swapEntry_toNat h]
  omega

theorem isSwapPte_swapEntry (h : slot < 2 ^ 54) : Kernel.isSwapPte (swapEntry slot) = decide (slot ≠ 0) := by
  have hlow : ∀ i < 2, (swapEntry slot).getLsbD i = false := by
    intro i hi
    rw [swapEntry, getLsbD_shiftLeft]
    simp [hi]
  have hzero : swapEntry slot = 0#64 ↔ slot = 0 := by
    rw [← toNat_inj, swapEntry_toNat h, toNat_ofNat]
    omega
  rw [Kernel.isSwapPte, hlow 0 (by decide), hlow 1 (by decide)]
  by_cases hs : slot = 0
  · rw [hzero.mpr hs]
    simp [hs]
  · simp [mt hzero.mp hs, hs]

theorem allocSlot_spec {a' : SwapArea} (h : a.allocSlot = some (a', slot)) :
    slot < swapMaxSlots ∧ a.slotUsed slot = false ∧ (slot ≠ 0 ↔ a.slotUsed 0 = true) ∧ a' = { a with
        slotUsed := update a.slotUsed slot true, usedCount := a.usedCount + 1 } := by
  unfold SwapArea.allocSlot at h
  cases hf : (List.range swapMaxSlots).find? (fun i => !a.slotUsed i) with
  | none =>
    rw [hf] at h
    cases h
  | some i =>
    rw [hf] at h
    cases h
    have hfree : a.slotUsed slot = false := by simpa using find?_some hf
    refine ⟨mem_range.mp (mem_of_find?_eq_some hf), hfree, ?_, rfl⟩
    constructor
    · intro hne
      by_contra hused
      have hhead : List.range swapMaxSlots = 0 :: (List.range 4095).map Nat.succ :=
        range_succ_eq_map
      have hzero : a.slotUsed 0 = false := by simpa using hused
      rw [hhead, find?_cons, hzero] at hf
      cases hf
      exact hne rfl
    · rintro hused rfl
      rw [hused] at hfree
      cases hfree

theorem allocSlot_of_free (hi : i < swapMaxSlots) (hfree : a.slotUsed i = false) :
    ∃ a' slot, a.allocSlot = some (a', slot) := by
  unfold SwapArea.allocSlot
  cases hf : (List.range swapMaxSlots).find? (fun i => !a.slotUsed i) with
  | none =>
    have hused := find?_eq_none.mp hf i (mem_range.mpr hi)
    simp [hfree] at hused
  | some slot => exact ⟨_, slot, rfl⟩

namespace PageTable

variable {t : PageTable} {root virt : Nat}

theorem getPteValue_eq_some : t.getPteValue root virt = some e ↔
      root ≠ 0 ∧ t.missing virt = 0 ∧ t.pt (ptKey virt) = e := by
  constructor
  · intro h
    unfold getPteValue at h
    unfold missing
    split_ifs at h with hroot
    split at h
    · cases h
    · split at h
      · split at h
        · cases h
          exact ⟨hroot, by simp [*], rfl⟩
        · cases h
      · cases h
  · rintro ⟨hroot, hm, rfl⟩
    obtain ⟨b, b', b'', hb, hb', hb''⟩ := missing_zero hm
    simp [getPteValue, hroot, hb, hb', hb'']

end PageTable

namespace Kernel

variable {k k₁ k₂ : Kernel} {pml4 virt : Nat} {entry : BitVec 64}

structure SwappedOut (k : Kernel) (pml4 virt : Nat) (k₁ : Kernel) (pte : BitVec 64) (slot : Nat) :
    Prop where
  entry : k.getPteValue pml4 virt = some pte
  present : Entry.isPresent pte = true
  initialized : k.swap.initialized = true
  slotBound : slot < swapMaxSlots
  wasFree : k.swap.slotUsed slot = false
  slotZero : slot ≠ 0 ↔ k.swap.slotUsed 0 = true
  swap : k₁.swap = { k.swap with
    slotUsed := update k.swap.slotUsed slot true, usedCount := k.swap.usedCount + 1 }
  pmm : k₁.pmm = k.pmm
  mem : k₁.mem = copyPage k.mem (Entry.frame pte) (k.swap.storagePhys + slot * pageSize)
  tables : k₁.tables = update k.tables pml4
    { k.tables pml4 with pt := update (k.tables pml4).pt (ptKey virt) (swapEntry slot) }

theorem swapOutToPte_spec (h : k.swapOutToPte pml4 virt = some (k₁, entry)) :
    ∃ pte slot, entry = swapEntry slot ∧ SwappedOut k pml4 virt k₁ pte slot := by
  unfold swapOutToPte at h
  cases hpte : k.getPteValue pml4 virt with
  | none => simp [hpte] at h
  | some pte =>
    cases hpres : isPresent pte with
    | false => simp [hpte, hpres] at h
    | true =>
      cases hinit : k.swap.initialized with
      | false => simp [hpte, hpres, swapOut, hinit] at h
      | true =>
        cases hslot : k.swap.allocSlot with
        | none => simp [hpte, hpres, swapOut, hinit, hslot] at h
        | some result =>
          obtain ⟨swap, slot⟩ := result
          obtain ⟨hbound, hfree, hzero, hswap⟩ := allocSlot_spec hslot
          simp only [hpte, hpres, swapOut, hinit, hslot, Bool.not_true, Bool.false_eq_true,
            if_false, Option.some.injEq, Prod.mk.injEq] at h
          obtain ⟨rfl, rfl⟩ := h
          refine ⟨pte, slot, rfl, hpte, hpres, hinit, hbound, hfree, hzero, hswap, rfl, ?_, ?_⟩
          · simp [setPteValue, setTable, hswap]
          · have hset : (k.tables pml4).getPteValue pml4 virt = some pte := hpte
            simp only [setPteValue, setTable, PageTable.setPteValue, hset]

theorem swapOutToPte_of_free (hpte : k.getPteValue pml4 virt = some pte)
    (hpres : Entry.isPresent pte = true) (hinit : k.swap.initialized = true)
    (hi : i < swapMaxSlots) (hfree : k.swap.slotUsed i = false) :
    ∃ k₁ entry, k.swapOutToPte pml4 virt = some (k₁, entry) := by
  obtain ⟨swap, slot, halloc⟩ := allocSlot_of_free hi hfree
  simp [swapOutToPte, hpte, hpres, swapOut, hinit, halloc]

theorem SwappedOut.getPteValue_self (h : SwappedOut k pml4 virt k₁ pte slot) :
    k₁.getPteValue pml4 virt = some (swapEntry slot) := by
  obtain ⟨hroot, hm, -⟩ := getPteValue_eq_some.mp h.entry
  rw [getPteValue, h.tables, update_self]
  exact getPteValue_eq_some.mpr ⟨hroot, hm, update_self _ _ _⟩

def readUser (k : Kernel) (pml4 a : Nat) : Option (BitVec 8) :=
  (k.getPhysicalInPml4 pml4 a).map k.mem

structure SwapKept (k₁ k₂ : Kernel) (pml4 virt slot : Nat) : Prop where
  entry : k₂.getPteValue pml4 virt = k₁.getPteValue pml4 virt
  initialized : k₂.swap.initialized = k₁.swap.initialized
  storage : k₂.swap.storagePhys = k₁.swap.storagePhys
  bytes : ∀ i < pageSize, k₂.mem (k₁.swap.storagePhys + slot * pageSize + i) =
    k₁.mem (k₁.swap.storagePhys + slot * pageSize + i)

/-- A fault of the user in `k₂` is seen as one on a swapped page, and its handler brings
the page of `k` back. -/
structure SwapRestores (k k₂ : Kernel) (pml4 virt : Nat) : Prop where
  recognised : ∀ info : PageFaultInfo, info.faultAddr = virt → info.present = false →
    info.user = true → k₂.isSwapFault pml4 info = true
  fixed : ∃ k₃, k₂.handleSwapFault pml4 virt = (k₃, .fixed) ∧ ∀ a, a / pageSize = virt / pageSize →
      ∃ byte, k.readUser pml4 a = some byte ∧ k₃.readUser pml4 a = some byte

def PhysicalPages (pmm : Pmm) : Prop :=
  ∀ pmm' page, pmm.takePage = some (pmm', page) → page % pageSize = 0 ∧ page < 2 ^ 52

theorem physicalPages_of_sound (h : PmmSound pmm)
    (hfits : pmm.info.totalPages * pageSize ≤ 2 ^ 52) : PhysicalPages pmm := by
  intro pmm' page htake
  have hfresh := takePage_fresh h htake
  exact ⟨hfresh.aligned, Nat.lt_of_lt_of_le hfresh.below hfits⟩

theorem ptKey_of_page {a b : Nat} (h : a / pageSize = b / pageSize) : ptKey a = ptKey b := by
  rw [ptKey, ptKey, h]

theorem readUser_of_entry {a : Nat} (hroot : pml4 ≠ 0) (hm : (k.tables pml4).missing virt = 0)
    (he : (k.tables pml4).pt (ptKey virt) = e) (hpres : Entry.isPresent e = true)
    (ha : a / pageSize = virt / pageSize) :
    k.readUser pml4 a = some (k.mem (Entry.frame e + a % pageSize)) := by
  have hkey := ptKey_of_page ha
  rw [← missing_congr _ hkey] at hm
  rw [← hkey] at he
  rw [readUser, getPhysicalInPml4, getPhysical_of_path hroot hm, he, if_pos hpres]
  rfl

theorem copyPage_at (mem : Nat → BitVec 8) (src dst : Nat) (h : i < pageSize) :
    copyPage mem src dst (dst + i) = mem (src + i) := by
  rw [copyPage, if_pos ⟨Nat.le_add_right dst i, Nat.add_lt_add_left h dst⟩, Nat.add_sub_cancel_left]

theorem frame_of_physical (haligned : page % pageSize = 0) (hbelow : page < 2 ^ 52) :
    Entry.frame (BitVec.ofNat 64 page) = page := by
  rw [frame_eq, toNat_ofNat]
  simp only [pageSize] at haligned ⊢
  omega

theorem handleSwapFault_reads (huser : pml4Key virt < 256)
    (hpte : k.getPteValue pml4 virt = some (swapEntry slot)) (hbound : slot < 2 ^ 54)
    (hslot : slot ≠ 0) (hinit : k.swap.initialized = true)
    (htake : k.pmm.takePage = some (pmm, page)) (haligned : page % pageSize = 0)
    (hbelow : page < 2 ^ 52) :
    ∃ k₃, k.handleSwapFault pml4 virt = (k₃, .fixed) ∧
      ∀ a, a / pageSize = virt / pageSize → k₃.readUser pml4 a =
        some (k.mem (k.swap.storagePhys + slot * pageSize + a % pageSize)) := by
  obtain ⟨hroot, hm, -⟩ := getPteValue_eq_some.mp hpte
  have hswap : isSwapPte (swapEntry slot) = true := by
    rw [isSwapPte_swapEntry hbound]
    exact decide_eq_true hslot
  let filled : Kernel := { k with
    pmm := pmm
    mem := copyPage k.mem (k.swap.storagePhys + slot * pageSize) page
    swap := freeSlot k.swap slot }
  have hfix : k.handleSwapFault pml4 virt = (filled.mapPageInTable pml4 virt page cowFlags, .fixed) := by
    simp only [handleSwapFault, hpte, hswap, swapSlot_swapEntry hbound, swapIn, hinit, allocPage,
      htake, Bool.not_true, Bool.false_eq_true, if_false, filled]
  refine ⟨_, hfix, ?_⟩
  intro a ha
  rw [mapPageInTable, mapPage_of_path _ _ _ _ _ _ hroot huser hm]
  let t := (k.tables pml4).writeLeaf virt page cowFlags
  have hpt : t.pt (ptKey virt) = setFlags (setFrame ((k.tables pml4).pt (ptKey virt)) page) cowFlags := by
    rw [writeLeaf_pt, update_self]
  have hmissing : t.missing virt = 0 := (writeLeaf_missing _ _ _ _ hm virt).trans hm
  have hpres : isPresent (setFlags (setFrame ((k.tables pml4).pt (ptKey virt)) page) cowFlags) = true := by
    rw [isPresent, setFlags_bit _ _ (by decide)]
    decide
  have hframe : frame (setFlags (setFrame ((k.tables pml4).pt (ptKey virt)) page) cowFlags) = page := by
    rw [frame_leaf _ _ (by decide), frame_of_physical haligned hbelow]
  rw [readUser_of_entry hroot (by simpa using hmissing) (by simpa using hpt) hpres ha, hframe]
  exact congrArg some (copyPage_at _ _ _ (Nat.mod_lt a (by decide)))

/-- The page comes back exactly when slot 0 was taken at the swap-out and a frame is free at
the fault. -/
theorem swap_round_trip_iff {k k₁ k₂ : Kernel} {pml4 virt : Nat} {entry : BitVec 64}
    (huser : pml4Key virt < 256) (hout : k.swapOutToPte pml4 virt = some (k₁, entry))
    (hkept : SwapKept k₁ k₂ pml4 virt (swapSlot entry)) (hphys : PhysicalPages k₂.pmm) :
    SwapRestores k k₂ pml4 virt ↔ k.swap.slotUsed 0 = true ∧ k₂.pmm.takePage.isSome = true := by
  obtain ⟨pte, slot, rfl, h⟩ := swapOutToPte_spec hout
  have hbound : slot < 2 ^ 54 := Nat.lt_trans h.slotBound (by decide)
  have hpte : k₂.getPteValue pml4 virt = some (swapEntry slot) :=
    hkept.entry.trans h.getPteValue_self
  rw [swapSlot_swapEntry hbound] at hkept
  have hinit : k₂.swap.initialized = true := by
    rw [hkept.initialized, h.swap, h.initialized]
  rw [← h.slotZero]
  constructor
  · rintro ⟨hrec, k₃, hfixed, -⟩
    have hfault := hrec ⟨virt, false, false, true, false, false⟩ rfl rfl rfl
    have hswap : isSwapPte (swapEntry slot) = true := by simpa [isSwapFault, hpte] using hfault
    rw [isSwapPte_swapEntry hbound] at hswap
    refine ⟨of_decide_eq_true hswap, ?_⟩
    cases htake : k₂.pmm.takePage with
    | some r => rfl
    | none =>
      simp [handleSwapFault, hpte, isSwapPte_swapEntry hbound, of_decide_eq_true hswap, swapIn,
        hinit, allocPage, htake] at hfixed
  · rintro ⟨hslot, hsome⟩
    obtain ⟨⟨pmm, page⟩, htake⟩ := Option.isSome_iff_exists.mp hsome
    obtain ⟨haligned, hbelow⟩ := hphys pmm page htake
    constructor
    · rintro info rfl hpres hu
      simp [isSwapFault, hpres, hu, hpte, isSwapPte_swapEntry hbound, hslot]
    · obtain ⟨k₃, hfix, hread⟩ :=
        handleSwapFault_reads huser hpte hbound hslot hinit htake haligned hbelow
      refine ⟨k₃, hfix, fun a ha => ⟨_, ?_, hread a ha⟩⟩
      obtain ⟨hroot, hm, he⟩ := getPteValue_eq_some.mp h.entry
      have hoff : a % pageSize < pageSize := Nat.mod_lt a (by decide)
      have hstore : k₁.swap.storagePhys = k.swap.storagePhys := by rw [h.swap]
      have hbytes := hkept.bytes (a % pageSize) hoff
      rw [readUser_of_entry hroot hm he h.present ha, hkept.storage, hbytes, h.mem, hstore,
        copyPage_at _ _ _ hoff]

def swapProcess (slotUsed : Nat → Bool) : Kernel :=
  let k := (start (Pmm.boot (64 * 4096) 0x8000 0) 0x1000 .empty).setTable 0x2000
    { pml4 := fun i => if i = 0 then some 0x3007#64 else none
      pdpt := fun j => if j = 0 then .table 0x4007#64 else .absent
      pd := fun n => if n = 0 then .table 0x5007#64 else .absent
      pt := fun l => if l = 16 then 0x6007#64 else 0#64 }
  { k with swap := ⟨slotUsed, 0, 0x100000, true⟩ }

theorem swapProcess_physical (slotUsed : Nat → Bool) : PhysicalPages (swapProcess slotUsed).pmm := by
  obtain ⟨hsound, -, htotal⟩ := boot_sound (64 * 4096) 0x8000 0
  apply physicalPages_of_sound hsound
  decide

theorem swapProcess_swaps (slotUsed : Nat → Bool) (h : slotUsed 1 = false) :
    ∃ k₁ entry, (swapProcess slotUsed).swapOutToPte 0x2000 0x10000 = some (k₁, entry) := by
  apply swapOutToPte_of_free (i := 1) (show getPteValue _ _ _ = some 0x6007#64 from rfl)
  · decide
  · rfl
  · decide
  · exact h

theorem swap_round_trip_second_slot :
    ∃ k₁ entry, (swapProcess (· == 0)).swapOutToPte 0x2000 0x10000 = some (k₁, entry) ∧
      SwapRestores (swapProcess (· == 0)) k₁ 0x2000 0x10000 := by
  obtain ⟨k₁, entry, hout⟩ := swapProcess_swaps (· == 0) rfl
  obtain ⟨pte, slot, -, h⟩ := swapOutToPte_spec hout
  refine ⟨k₁, entry, hout, ?_⟩
  have hphys : PhysicalPages k₁.pmm := by
    rw [h.pmm]
    exact swapProcess_physical _
  refine (swap_round_trip_iff (by decide) hout ⟨rfl, rfl, rfl, fun _ _ => rfl⟩ hphys).mpr ⟨rfl, ?_⟩
  rw [h.pmm]
  decide +kernel

theorem swap_round_trip_slot_zero :
    ¬ ∀ (k k₁ k₂ : Kernel) (pml4 virt : Nat) (entry : BitVec 64), pml4Key virt < 256 →
      k.swapOutToPte pml4 virt = some (k₁, entry) → SwapKept k₁ k₂ pml4 virt (swapSlot entry) →
      PhysicalPages k₂.pmm → k₂.pmm.takePage.isSome = true → SwapRestores k k₂ pml4 virt := by
  intro hall
  obtain ⟨k₁, entry, hout⟩ := swapProcess_swaps (fun _ => false) rfl
  obtain ⟨pte, slot, -, h⟩ := swapOutToPte_spec hout
  have hslot : slot = 0 := by
    by_contra hne
    exact absurd (h.slotZero.mp hne) (by decide)
  have hphys : PhysicalPages k₁.pmm := by
    rw [h.pmm]
    exact swapProcess_physical _
  have hsome : k₁.pmm.takePage.isSome = true := by
    rw [h.pmm]
    decide +kernel
  have hrestores := hall _ k₁ k₁ 0x2000 0x10000 entry (by decide) hout
    ⟨rfl, rfl, rfl, fun _ _ => rfl⟩ hphys hsome
  have hfault := hrestores.recognised ⟨0x10000, false, false, true, false, false⟩ rfl rfl rfl
  rw [isSwapFault, h.getPteValue_self, hslot] at hfault
  revert hfault
  decide

end Kernel

end AntX.Mm
