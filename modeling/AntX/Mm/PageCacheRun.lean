import AntX.Mm.PageFault

/-! Runs of file faults over any number of address spaces. Every entry of the page cache has one
reference, so the first private write gives the frame back. -/

namespace AntX.Mm

open Lib Function List Entry PageTable

namespace PageCacheBucket

theorem replaceFirst_cases (p : PageCacheEntry → Bool) (f : PageCacheEntry → PageCacheEntry)
    (es : List PageCacheEntry) :
    ((∀ e ∈ es, p e = false) ∧ replaceFirst p f es = es) ∨
      ∃ l e r, es = l ++ e :: r ∧ p e = true ∧ (∀ x ∈ l, p x = false) ∧
        replaceFirst p f es = l ++ f e :: r := by
  induction es with
  | nil => exact .inl ⟨by simp, rfl⟩
  | cons a es ih =>
    cases ha : p a with
    | true => exact .inr ⟨[], a, es, rfl, ha, by simp, by simp [replaceFirst, ha]⟩
    | false =>
      rcases ih with ⟨hall, heq⟩ | ⟨l, e, r, rfl, he, hl, heq⟩
      · exact .inl ⟨by simpa [ha] using hall, by simp [replaceFirst, ha, heq]⟩
      · exact .inr ⟨a :: l, e, r, rfl, he, by simpa [ha] using hl, by simp [replaceFirst, ha, heq]⟩

theorem find?_first {p : PageCacheEntry → Bool} {l r : List PageCacheEntry} {e : PageCacheEntry}
    (hl : ∀ x ∈ l, p x = false) (he : p e = true) : (l ++ e :: r).find? p = some e := by
  rw [find?_append, find?_eq_none.mpr (by simpa using hl), find?_cons_of_pos he]
  rfl

end PageCacheBucket

open PageCacheBucket

structure BucketInv (b : PageCacheBucket) : Prop where
  size : b.entries.length = pcacheBucketCapacity
  counted : b.count = b.entries.countP (·.occupied)
  once : ∀ e ∈ b.entries, e.occupied = true → e.refCount = 1

namespace BucketInv

variable {b b' : PageCacheBucket} {inodeId pageIndex phys : Nat}

theorem new : BucketInv .new := by
  refine ⟨length_replicate, by decide, fun e he hocc => ?_⟩
  rw [eq_of_mem_replicate he] at hocc
  cases hocc

theorem hasRoom (h : BucketInv b) (hcount : b.count < pcacheBucketCapacity) :
    b.entries.any (fun e => !e.occupied) = true := by
  by_contra hfull
  have hall : ∀ e ∈ b.entries, e.occupied = true := by simpa using hfull
  have hcard : b.entries.countP (·.occupied) = b.entries.length := countP_eq_length.mpr hall
  rw [h.counted, hcard, h.size] at hcount
  exact absurd hcount (Nat.lt_irrefl _)

theorem exchange {l r : List PageCacheEntry} {e e' : PageCacheEntry} (h : BucketInv b)
    (hsplit : b.entries = l ++ e :: r) (honce : e'.occupied = true → e'.refCount = 1)
    {count : Nat} (hcount : count + e.occupied.toNat = b.count + e'.occupied.toNat) :
    BucketInv ⟨l ++ e' :: r, count⟩ := by
  have hsize := h.size
  have hcounted := h.counted
  have hall := h.once
  rw [hsplit] at hsize hcounted hall
  refine ⟨by simpa using hsize, ?_, fun x hx hocc => ?_⟩
  · cases ho : e.occupied <;> cases ho' : e'.occupied <;> simp [ho, ho'] at hcount hcounted ⊢ <;> omega
  · simp only [mem_append, mem_cons] at hx
    rcases hx with hx | rfl | hx
    · exact hall x (by simp [hx]) hocc
    · exact honce hocc
    · exact hall x (by simp [hx]) hocc

theorem holds_occupied {e : PageCacheEntry} (he : e.holds inodeId pageIndex = true) : e.occupied = true := by
  simp only [PageCacheEntry.holds, Bool.and_eq_true] at he
  exact he.1.1

theorem markDirty (h : BucketInv b) : BucketInv (b.markDirty inodeId pageIndex) := by
  unfold PageCacheBucket.markDirty mapEntry
  rcases replaceFirst_cases (·.holds inodeId pageIndex) (fun e => { e with dirty := true }) b.entries
    with ⟨-, heq⟩ | ⟨l, e, r, hsplit, -, -, heq⟩
  · rw [heq]
    exact h
  · rw [heq]
    refine h.exchange hsplit ?_ ?_
    · exact h.once e (by simp [hsplit])
    · rfl

theorem place_eq (hp : b.place inodeId pageIndex phys = some b') :
    ∃ l e r, b.entries = l ++ e :: r ∧ e.occupied = false ∧
      b' = ⟨l ++ ⟨inodeId, pageIndex, phys, 1, false, true⟩ :: r, b.count + 1⟩ := by
  unfold PageCacheBucket.place at hp
  split_ifs at hp with hfree
  cases hp
  rcases replaceFirst_cases (fun e => !e.occupied) (fun _ => ⟨inodeId, pageIndex, phys, 1, false, true⟩)
    b.entries with ⟨hall, -⟩ | ⟨l, e, r, hsplit, he, -, heq⟩
  · rw [any_eq_true] at hfree
    obtain ⟨e, hmem, he⟩ := hfree
    rw [hall e hmem] at he
    cases he
  · exact ⟨l, e, r, hsplit, by simpa using he, by rw [heq]⟩

theorem place (h : BucketInv b) (hp : b.place inodeId pageIndex phys = some b') : BucketInv b' := by
  obtain ⟨l, e, r, hsplit, hocc, rfl⟩ := place_eq hp
  exact h.exchange hsplit (fun _ => rfl) (by simp [hocc])

theorem lookup_place (hmiss : b.lookup inodeId pageIndex = none)
    (hp : b.place inodeId pageIndex phys = some b') : b'.lookup inodeId pageIndex = some phys := by
  have hnone : ∀ e ∈ b.entries, e.holds inodeId pageIndex = false := by
    simpa [PageCacheBucket.lookup] using hmiss
  obtain ⟨l, e, r, hsplit, -, rfl⟩ := place_eq hp
  rw [PageCacheBucket.lookup, find?_first]
  · rfl
  · exact fun x hx => hnone x (by simp [hsplit, hx])
  · simp [PageCacheEntry.holds]

theorem deref (h : BucketInv b) (hlook : b.lookup inodeId pageIndex = some phys) :
    ∃ b', b.deref inodeId pageIndex = (b', some phys) ∧ BucketInv b' := by
  obtain ⟨e, hfind, hphys⟩ : ∃ e, b.entries.find? (·.holds inodeId pageIndex) = some e ∧ e.phys = phys := by
    simpa [PageCacheBucket.lookup] using hlook
  have hholds := find?_some hfind
  have hocc := holds_occupied hholds
  have hone := h.once e (mem_of_find?_eq_some hfind) hocc
  refine ⟨{ b.mapEntry inodeId pageIndex (fun _ => .empty) with count := b.count - 1 }, ?_, ?_⟩
  · rw [PageCacheBucket.deref, hfind]
    simp [hone, hphys]
  · unfold mapEntry
    rcases replaceFirst_cases (·.holds inodeId pageIndex) (fun _ => .empty) b.entries
      with ⟨hall, -⟩ | ⟨l, e', r, hsplit, he', -, heq⟩
    · rw [hall e (mem_of_find?_eq_some hfind)] at hholds
      cases hholds
    · rw [heq]
      have hpos := h.counted
      simp only [hsplit, countP_append, countP_cons, holds_occupied he', if_true] at hpos
      refine h.exchange hsplit (fun hempty => absurd hempty (by decide)) ?_
      simp only [holds_occupied he', PageCacheEntry.empty, Bool.toNat_true, Bool.toNat_false]
      omega

end BucketInv

def PageTable.mapsFrame (t : PageTable) (root virt frame : Nat) : Bool :=
  decide (pml4Key virt < 256) && (t.getPhysical root virt).any fun p =>
    Entry.frame (BitVec.ofNat 64 p) == Entry.frame (BitVec.ofNat 64 frame)

structure FileFault where
  cr3 : Nat
  vma : Vma
  info : PageFaultInfo
  page : Nat

def ReturnsUnmapped (k : Kernel) : Prop :=
  ∀ r ∈ k.returned, ∀ root virt, (r.2 root).mapsFrame root virt r.1 = false

def CacheInv (k : Kernel) : Prop := ∀ i, BucketInv (k.pcache i)

namespace Kernel

variable {k k' : Kernel} {cr3 virt phys n : Nat} {flags : PageFlags}

variable (vfs : VfsRead)

def fileFaultStep (k : Kernel) (f : FileFault) : Kernel :=
  (k.handleFileFault vfs f.cr3 f.vma f.info f.page).1

def cacheFrame (k : Kernel) (vma : Vma) (page : Nat) : Option Nat :=
  (k.pcacheLookup vma.inodeId (vma.pageIndex page)).or (k.pmm.takePage.map (·.2))

def hasSlot (cr3 virt : Nat) : Bool := cr3 != 0 && decide (pml4Key virt < 256)

def dropsCached (k : Kernel) (f : FileFault) : Bool :=
  f.info.write && !f.vma.shared &&
    match k.cacheCost f.vma f.page with
    | none => false
    | some n =>
      (k.pmm.takes (n + 1 +
        if hasSlot f.cr3 f.page then (k.tables f.cr3).missing f.page else 0)).isSome

/-- The fault does not drop its cached page, or it could not map it and neither does any
other table. -/
def SparesCached (k : Kernel) (f : FileFault) : Prop :=
  k.dropsCached f = true → hasSlot f.cr3 f.page = false ∧ ∀ frame, k.cacheFrame f.vma f.page = some frame →
      ∀ root virt, (k.tables root).mapsFrame root virt frame = false

theorem CacheInv.update {b : PageCacheBucket} (h : CacheInv k) (hb : BucketInv b) (i j : Nat) :
    BucketInv (Function.update k.pcache i b j) := by
  by_cases hj : j = i
  · rw [hj, update_self]
    exact hb
  · rw [update_of_ne hj]
    exact h j

theorem pcacheGet_cache {inodeId pageIndex : Nat} {r : Option Nat} (h : CacheInv k)
    (hmiss : k.pcacheLookup inodeId pageIndex = none)
    (heq : k.pcacheGet inodeId pageIndex = (k', r)) :
    CacheInv k' ∧ k'.returned = k.returned ∧ ∀ phys, r = some phys →
      k'.pcacheLookup inodeId pageIndex = some phys ∧ k.pmm.takePage.map (·.2) = some phys := by
  have hmiss' : (k.pcache (pcacheHash inodeId pageIndex)).lookup inodeId pageIndex = none := hmiss
  simp only [pcacheGet, PageCacheBucket.lookupAndRef, hmiss'] at heq
  split_ifs at heq with hfull
  · cases heq
    exact ⟨h, rfl, by simp⟩
  · cases ha : k.allocPage with
    | none =>
      rw [ha] at heq
      cases heq
      exact ⟨h, rfl, by simp⟩
    | some r =>
      obtain ⟨k₁, phys⟩ := r
      obtain ⟨pmm, htake, rfl⟩ := allocPage_eq ha
      have hroom := (h (pcacheHash inodeId pageIndex)).hasRoom (by omega)
      obtain ⟨b, hplace⟩ : ∃ b, (k.pcache (pcacheHash inodeId pageIndex)).place inodeId pageIndex phys =
          some b := by
        rw [PageCacheBucket.place, if_pos hroom]
        exact ⟨_, rfl⟩
      simp only [ha, hplace] at heq
      cases heq
      refine ⟨CacheInv.update h ((h _).place hplace) _, rfl, fun p hp => ?_⟩
      cases hp
      refine ⟨?_, by rw [htake]; rfl⟩
      simpa only [pcacheLookup, PageCache.lookup, update_self] using BucketInv.lookup_place hmiss' hplace

theorem cachedPage_cache (h : CacheInv k) {vma : Vma} {page : Nat} {r : Option Nat}
    (heq : k.cachedPage vfs vma page = (k', r)) :
    CacheInv k' ∧ k'.returned = k.returned ∧ ∀ phys, r = some phys →
      k'.pcacheLookup vma.inodeId (vma.pageIndex page) = some phys ∧ k.cacheFrame vma page = some phys := by
  unfold cachedPage at heq
  cases hhit : k.pcacheLookup vma.inodeId (vma.pageIndex page) with
  | some phys =>
    simp only [hhit, Prod.mk.injEq] at heq
    obtain ⟨rfl, rfl⟩ := heq
    exact ⟨h, rfl, fun p hp => ⟨by rw [hhit, hp], by rw [cacheFrame, hhit]; exact hp⟩⟩
  | none =>
    have hframe : k.cacheFrame vma page = k.pmm.takePage.map (·.2) := by
      rw [cacheFrame, hhit, Option.none_or]
    cases hget : k.pcacheGet vma.inodeId (vma.pageIndex page) with
    | mk k₁ r₁ =>
      obtain ⟨hinv, hret, hphys⟩ := pcacheGet_cache h hhit hget
      simp only [hhit, hget] at heq
      cases r₁ with
      | none =>
        cases heq
        exact ⟨hinv, hret, nofun⟩
      | some phys =>
        obtain ⟨hlook, hnext⟩ := hphys phys rfl
        obtain ⟨rfl, rfl⟩ := heq
        rw [hframe]
        split_ifs
        · rw [pcacheFill, hlook]
          exact ⟨hinv, hret, fun p heq => by cases heq; exact ⟨hlook, hnext⟩⟩
        · exact ⟨hinv, hret, fun p heq => by cases heq; exact ⟨hlook, hnext⟩⟩

theorem hasSlot_iff : hasSlot cr3 virt = true ↔ cr3 ≠ 0 ∧ pml4Key virt < 256 := by
  simp [hasSlot]

theorem mapPageInTable_of_no_slot (h : hasSlot cr3 virt = false) :
    k.mapPageInTable cr3 virt phys flags = k := by
  have hskip : cr3 = 0 ∨ pml4Key virt ≥ 256 := by
    by_contra hc
    rw [hasSlot_iff.mpr (by omega)] at h
    cases h
  simp [mapPageInTable, mapPage, hskip]

theorem allocPage_isSome (k : Kernel) : k.allocPage.isSome = (k.pmm.takes 1).isSome := by
  unfold allocPage Pmm.takes
  cases k.pmm.takePage <;> rfl

theorem alloc_after_map (h : Later k k' n) : (k'.mapPageInTable cr3 virt phys flags).allocPage.isSome =
      (k.pmm.takes (n + 1 + if hasSlot cr3 virt then (k.tables cr3).missing virt else 0)).isSome := by
  cases hslot : hasSlot cr3 virt with
  | false =>
    rw [mapPageInTable_of_no_slot hslot, allocPage_isSome, if_neg (by decide), Nat.add_zero,
      Pmm.takes_add, h.pmm]
    rfl
  | true =>
    have hmaps : ∀ m, k.mapsAfter cr3 virt m = (k.pmm.takes (m + (k.tables cr3).missing virt)).isSome := by
      intro m
      rw [mapsAfter, show (cr3 != 0 && decide (pml4Key virt < 256)) = true from hslot, Bool.true_and]
    rw [if_pos rfl, ← hmaps (n + 1)]
    obtain ⟨hroot, hkey⟩ := hasSlot_iff.mp hslot
    by_cases hm : k.mapsAfter cr3 virt n = true
    · rw [mapsAfter_succ h hm, allocPage_isSome]
    · have hnone : (k'.mapPageInTable cr3 virt phys flags).allocPage = none := by
        by_contra halloc
        exact hm (mapsAfter_of_alloc h hroot hkey halloc)
      rw [hnone, copy_refused h hnone]
      rfl

theorem privateFlags_present (f : PageFlags) : isPresent (privateFlags f) = true := by
  simp [isPresent, privateFlags, allFlags, PageFlags.present, PageFlags.writable]

theorem privateFlags_frame (f : PageFlags) : privateFlags f &&& frameMask = 0#64 := by
  rw [privateFlags, BitVec.and_assoc,
    show allFlags &&& ~~~PageFlags.writable &&& frameMask = 0#64 by decide, BitVec.and_zero]

theorem mapped_before_copy (h : Later k k' n) (hslot : hasSlot cr3 virt = true) (f : PageFlags)
    (halloc : (k'.mapPageInTable cr3 virt phys (privateFlags f)).allocPage ≠ none) :
    ((k'.mapPageInTable cr3 virt phys (privateFlags f)).tables cr3).mapsFrame cr3 virt phys =
      true := by
  obtain ⟨hroot, hkey⟩ := hasSlot_iff.mp hslot
  have hmap : mappable k'.pmm (k'.tables cr3) cr3 virt = true := by
    rw [h.mappable]
    exact mapsAfter_of_alloc h hroot hkey halloc
  obtain ⟨-, hpath, e, he⟩ :=
    mapPage_mapped k'.pmm (k'.tables cr3) cr3 virt phys (privateFlags f) hmap
  have hpres : isPresent (setFlags (setFrame e phys) (privateFlags f)) = true := by
    rw [isPresent, setFlags_bit _ _ (by decide)]
    exact privateFlags_present f
  rw [mapPageInTable_tables, mapsFrame, getPhysical_of_path hroot hpath, he,
    if_pos hpres, Option.any_some, frame_ofNat_add (Nat.mod_lt _ (by decide)),
    frame_leaf e phys (privateFlags_frame f)]
  simp [hkey]

theorem pcachePut_cache {inodeId pageIndex : Nat} (h : CacheInv k)
    (hlook : k.pcacheLookup inodeId pageIndex = some phys) :
    CacheInv (k.pcachePut inodeId pageIndex) ∧
      (k.pcachePut inodeId pageIndex).returned = (phys, k.tables) :: k.returned := by
  obtain ⟨b, hderef, hb⟩ := (h (pcacheHash inodeId pageIndex)).deref hlook
  simp only [pcachePut, hderef]
  exact ⟨CacheInv.update h hb _, rfl⟩

theorem returns_of_kept {f : FileFault} (hret : k'.returned = k.returned) (hdrop : k.dropsCached f = false) :
    ReturnsUnmapped k' ↔ ReturnsUnmapped k ∧ k.SparesCached f := by
  have hspare : k.SparesCached f := fun hc => by
    rw [hdrop] at hc
    cases hc
  rw [ReturnsUnmapped, hret]
  exact ⟨fun h => ⟨h, hspare⟩, And.left⟩

theorem returns_of_dropped {k₁ : Kernel} {f : FileFault} (hl : Later k k₁ n)
    (hdrop : k.dropsCached f = true) (hframe : k.cacheFrame f.vma f.page = some phys)
    (halloc : (k₁.mapPageInTable f.cr3 f.page phys (privateFlags f.vma.flags)).allocPage ≠ none)
    (hret : k'.returned = (phys,
      (k₁.mapPageInTable f.cr3 f.page phys (privateFlags f.vma.flags)).tables) :: k.returned) :
    ReturnsUnmapped k' ↔ ReturnsUnmapped k ∧ k.SparesCached f := by
  rw [ReturnsUnmapped, hret, forall_mem_cons, and_comm]
  refine and_congr Iff.rfl ?_
  cases hslot : hasSlot f.cr3 f.page with
  | true =>
    refine iff_of_false (fun hun => ?_) (fun hspare => ?_)
    · have hmapped := mapped_before_copy hl hslot f.vma.flags halloc
      rw [hun f.cr3 f.page] at hmapped
      cases hmapped
    · have hno := (hspare hdrop).1
      rw [hslot] at hno
      cases hno
  | false =>
    rw [mapPageInTable_of_no_slot hslot, hl.tables]
    refine ⟨fun hun _ => ⟨hslot, fun frame hf => ?_⟩, fun hspare => (hspare hdrop).2 phys hframe⟩
    rw [hframe, Option.some.injEq] at hf
    exact hf ▸ hun

theorem fileFault_cache (h : CacheInv k) (f : FileFault) : CacheInv (k.fileFaultStep vfs f) ∧
      (ReturnsUnmapped (k.fileFaultStep vfs f) ↔ ReturnsUnmapped k ∧ k.SparesCached f) := by
  have hspec := k.cachedPage_spec vfs f.vma f.page
  unfold fileFaultStep handleFileFault
  cases hcost : k.cacheCost f.vma f.page with
  | none =>
    rw [hcost] at hspec
    obtain ⟨k₁, heq, -⟩ := hspec
    obtain ⟨hinv, hret, -⟩ := cachedPage_cache vfs h heq
    rw [heq]
    exact ⟨hinv, returns_of_kept hret (by simp [dropsCached, hcost])⟩
  | some n =>
    rw [hcost] at hspec
    obtain ⟨k₁, cachePhys, heq, hl⟩ := hspec
    obtain ⟨hinv, hret, hphys⟩ := cachedPage_cache vfs h heq
    obtain ⟨hlook, hframe⟩ := hphys cachePhys rfl
    simp only [heq]
    cases hshared : f.vma.shared with
    | true =>
      have hkept : k.dropsCached f = false := by simp [dropsCached, hshared]
      cases hwrite : f.info.write with
      | true => exact ⟨CacheInv.update hinv (hinv _).markDirty _, returns_of_kept hret hkept⟩
      | false => exact ⟨hinv, returns_of_kept hret hkept⟩
    | false =>
      cases hwrite : f.info.write with
      | false => exact ⟨hinv, returns_of_kept hret (by simp [dropsCached, hwrite])⟩
      | true =>
        have hdrop : k.dropsCached f =
            (k₁.mapPageInTable f.cr3 f.page cachePhys (privateFlags f.vma.flags)).allocPage.isSome := by
          rw [alloc_after_map hl]
          simp [dropsCached, hshared, hwrite, hcost]
        cases ha : (k₁.mapPageInTable f.cr3 f.page cachePhys (privateFlags f.vma.flags)).allocPage with
        | none => exact ⟨hinv, returns_of_kept hret (by rw [hdrop, ha]; rfl)⟩
        | some r =>
          obtain ⟨k₃, newPhys⟩ := r
          obtain ⟨pmm, -, rfl⟩ := allocPage_eq ha
          obtain ⟨hput, hputret⟩ := pcachePut_cache (k := { k₁.mapPageInTable f.cr3 f.page cachePhys
              (privateFlags f.vma.flags) with
            pmm := pmm
            mem := copyPage k₁.mem cachePhys newPhys }) hinv hlook
          refine ⟨hput, returns_of_dropped hl (by rw [hdrop, ha]; rfl) hframe ?_ ?_⟩
          · rw [ha]
            exact Option.some_ne_none _
          · rw [← hret]
            exact hputret

end Kernel

def Kernel.withEmptyCache (k : Kernel) : Kernel := { k with pcache := .new, returned := [] }

/-- Over every sequence of file faults, the frames that the cache gives back are unmapped
exactly when every fault spares its cached page. -/
theorem file_faults_return_unmapped_iff (vfs : VfsRead) (k : Kernel) (faults : List FileFault) :
    ReturnsUnmapped (run (Kernel.fileFaultStep vfs) k.withEmptyCache faults) ↔
      Guarded (Kernel.fileFaultStep vfs) Kernel.SparesCached k.withEmptyCache faults := by
  have hinv : ∀ k f, CacheInv k → CacheInv (Kernel.fileFaultStep vfs k f) :=
    fun k f hk => (Kernel.fileFault_cache vfs hk f).1
  have hstep : ∀ k f, CacheInv k →
      (ReturnsUnmapped (Kernel.fileFaultStep vfs k f) ↔ ReturnsUnmapped k ∧ k.SparesCached f) :=
    fun k f hk => (Kernel.fileFault_cache vfs hk f).2
  have hstart : CacheInv k.withEmptyCache := fun _ => BucketInv.new
  have hnone : ReturnsUnmapped k.withEmptyCache := nofun
  rw [run_iff_guarded hinv hstep hstart]
  exact ⟨And.right, fun hg => ⟨hnone, hg⟩⟩

def filePageArea (shared : Bool) : Vma :=
  { Vma.new 0x10000 0x11000 (.user ||| .writable) .fileBacked with inodeId := 7, shared := shared }

def twoProcesses : Kernel :=
  let kernelTable := { PageTable.empty with pml4 := fun i => if i = 256 then some 3#64 else none }
  let k := Kernel.start (Pmm.boot (64 * 4096) 0x8000 0) 0x1000 kernelTable
  ((k.createUserPageTable [0x2000, 0x3000]).1.createUserPageTable [0x2000, 0x3000]).1

theorem file_faults_free_mapped_frame : ¬ ∀ (vfs : VfsRead) (k : Kernel) (faults : List FileFault),
      ReturnsUnmapped (run (Kernel.fileFaultStep vfs) k.withEmptyCache faults) := by
  intro h
  have hall := h (fun _ _ _ _ => []) twoProcesses
    [⟨0x3F000, filePageArea true, ⟨0x10000, false, false, true, false, false⟩, 0x10000⟩,
      ⟨0xA000, filePageArea false, ⟨0x10000, false, true, true, false, false⟩, 0x10000⟩]
  have hall' := all_eq_true.mpr fun r hr => congrArg (!·) (hall r hr 0x3F000 0x10000)
  revert hall'
  decide +kernel

end AntX.Mm
