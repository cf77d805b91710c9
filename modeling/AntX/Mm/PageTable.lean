import AntX.Mm.Pmm

/-! Four-level page tables, as trees: the entries of a level are kept under the leading part of the
page number. The page cache, a hash table of buckets of counted entries. -/

namespace AntX.Mm

open Lib Function

def frameMask : BitVec 64 := 0x000FFFFFFFFFF000#64

def allFlags : PageFlags := 0x80000000000001FF#64

namespace Entry

variable (e : BitVec 64)

def frame : Nat := (e &&& frameMask).toNat

def flags : PageFlags := e &&& allFlags

def isPresent : Bool := e.getLsbD 0

def isWritable : Bool := e.getLsbD 1

def isUser : Bool := e.getLsbD 2

def setFrame (phys : Nat) : BitVec 64 :=
  (e &&& ~~~frameMask) ||| (BitVec.ofNat 64 phys &&& frameMask)

def setFlags (flags : PageFlags) : BitVec 64 := (e &&& ~~~allFlags) ||| flags

end Entry

inductive DirEntry where
  | absent
  | huge (bits : BitVec 64)
  | table (bits : BitVec 64)
deriving DecidableEq, Repr

def DirEntry.setUser : DirEntry → DirEntry
  | .absent => .absent
  | .huge bits => .huge (bits ||| PageFlags.user)
  | .table bits => .table (bits ||| PageFlags.user)

structure PageTable where
  pml4 : Nat → Option (BitVec 64)
  pdpt : Nat → DirEntry
  pd : Nat → DirEntry
  pt : Nat → BitVec 64

def PageTable.empty : PageTable :=
  ⟨fun _ => none, fun _ => .absent, fun _ => .absent, fun _ => 0#64⟩

/-! The four indices of an address, each with those above it. -/

def ptKey (virt : Nat) : Nat := virt / pageSize % 2 ^ 36

def pdKey (virt : Nat) : Nat := ptKey virt / 512

def pdptKey (virt : Nat) : Nat := pdKey virt / 512

def pml4Key (virt : Nat) : Nat := pdptKey virt / 512

namespace PageTable

/-- `get_physical_in_pml4`; `root` is the physical address of the top table. -/
def getPhysical (t : PageTable) (root virt : Nat) : Option Nat :=
  if root = 0 then none
  else
    match t.pml4 (pml4Key virt) with
    | none => none
    | some _ =>
      match t.pdpt (pdptKey virt) with
      | .absent => none
      | .huge e => some (Entry.frame e + virt % 2 ^ 30)
      | .table _ =>
        match t.pd (pdKey virt) with
        | .absent => none
        | .huge e => some (Entry.frame e + virt % 2 ^ 21)
        | .table _ =>
          let e := t.pt (ptKey virt)
          if Entry.isPresent e then some (Entry.frame e + virt % pageSize) else none

def getPteValue (t : PageTable) (root virt : Nat) : Option (BitVec 64) :=
  if root = 0 then none
  else
    match t.pml4 (pml4Key virt) with
    | none => none
    | some _ =>
      match t.pdpt (pdptKey virt) with
      | .table _ =>
        match t.pd (pdKey virt) with
        | .table _ => some (t.pt (ptKey virt))
        | _ => none
      | _ => none

end PageTable

/-- `alloc_page`; a request that fails leaves the allocator alone. -/
def Pmm.takePage (pmm : Pmm) : Option (Pmm × Nat) :=
  match pmm.allocPage with
  | (_, none) => none
  | (pmm, some page) => some (pmm, page)

def tableBits (page : Nat) : BitVec 64 :=
  (BitVec.ofNat 64 page &&& frameMask) ||| (PageFlags.present ||| PageFlags.writable)

def splitFlags (bits : BitVec 64) : PageFlags :=
  (Entry.flags bits &&& ~~~PageFlags.hugePage) ||| .present

def leafEntry (phys : Nat) (flags : PageFlags) : BitVec 64 :=
  Entry.setFlags (Entry.setFrame 0#64 phys) flags

namespace PageTable

/-! `get_or_create_table_entry` at the three levels: a table that is missing is made of a
zeroed page, one whose place a huge page takes is filled with the parts of that page. -/

variable (pmm : Pmm) (t : PageTable)

def newTable (table : Nat → PageTable) : Option (Pmm × PageTable) :=
  pmm.takePage.map fun r => (r.1, table r.2)

def openPdpt (i : Nat) : Option (Pmm × PageTable) :=
  match t.pml4 i with
  | some _ => some (pmm, t)
  | none => newTable pmm fun page => { t with
      pml4 := update t.pml4 i (some (tableBits page))
      pdpt := fun j => if j / 512 = i then .absent else t.pdpt j }

def splitGiant (bits : BitVec 64) (k : Nat) : BitVec 64 :=
  leafEntry (Entry.frame bits + k % 512 * 2 ^ 21) (splitFlags bits ||| .hugePage)

def openPd (j : Nat) : Option (Pmm × PageTable) :=
  match t.pdpt j with
  | .table _ => some (pmm, t)
  | .absent => newTable pmm fun page => { t with
      pdpt := update t.pdpt j (.table (tableBits page))
      pd := fun k => if k / 512 = j then .absent else t.pd k }
  | .huge bits => newTable pmm fun page => { t with
      pdpt := update t.pdpt j (.table (tableBits page))
      pd := fun k => if k / 512 = j then .huge (splitGiant bits k) else t.pd k }

def splitLarge (bits : BitVec 64) (l : Nat) : BitVec 64 :=
  leafEntry (Entry.frame bits + l % 512 * pageSize) (splitFlags bits)

def openPt (k : Nat) : Option (Pmm × PageTable) :=
  match t.pd k with
  | .table _ => some (pmm, t)
  | .absent => newTable pmm fun page => { t with
      pd := update t.pd k (.table (tableBits page))
      pt := fun l => if l / 512 = k then 0#64 else t.pt l }
  | .huge bits => newTable pmm fun page => { t with
      pd := update t.pd k (.table (tableBits page))
      pt := fun l => if l / 512 = k then splitLarge bits l else t.pt l }

def setUserPath (virt : Nat) : PageTable :=
  { t with
    pml4 := update t.pml4 (pml4Key virt) ((t.pml4 (pml4Key virt)).map (· ||| PageFlags.user))
    pdpt := update t.pdpt (pdptKey virt) (t.pdpt (pdptKey virt)).setUser
    pd := update t.pd (pdKey virt) (t.pd (pdKey virt)).setUser }

def writeLeaf (virt phys : Nat) (flags : PageFlags) : PageTable :=
  let t := if flags.contains .user then t.setUserPath virt else t
  { t with
    pt := update t.pt (ptKey virt) (Entry.setFlags (Entry.setFrame (t.pt (ptKey virt)) phys) flags) }

def openPath (virt : Nat) : Pmm × PageTable × Bool :=
  match openPdpt pmm t (pml4Key virt) with
  | none => (pmm, t, false)
  | some (pmm, t) =>
    match openPd pmm t (pdptKey virt) with
    | none => (pmm, t, false)
    | some (pmm, t) =>
      match openPt pmm t (pdKey virt) with
      | none => (pmm, t, false)
      | some (pmm, t) => (pmm, t, true)

def mapPage (root virt phys : Nat) (flags : PageFlags) : Pmm × PageTable :=
  if root = 0 ∨ pml4Key virt ≥ 256 then (pmm, t)
  else
    match openPath pmm t virt with
    | (pmm, t, false) => (pmm, t)
    | (pmm, t, true) => (pmm, t.writeLeaf virt phys flags)

def ptEmpty (k : Nat) : Bool :=
  (List.range 512).all fun l => !Entry.isPresent (t.pt (k * 512 + l))

def pdEmpty (j : Nat) : Bool :=
  (List.range 512).all fun k => t.pd (j * 512 + k) = .absent

def pdptEmpty (i : Nat) : Bool :=
  (List.range 512).all fun j => t.pdpt (i * 512 + j) = .absent

def unmapPage (root virt : Nat) : Pmm × PageTable :=
  if root = 0 ∨ pml4Key virt ≥ 256 then (pmm, t)
  else
    match t.pml4 (pml4Key virt) with
    | none => (pmm, t)
    | some pml4e =>
      match t.pdpt (pdptKey virt) with
      | .absent => (pmm, t)
      | .huge _ => (pmm, { t with pdpt := update t.pdpt (pdptKey virt) .absent })
      | .table pdpte =>
        match t.pd (pdKey virt) with
        | .absent => (pmm, t)
        | .huge _ => (pmm, { t with pd := update t.pd (pdKey virt) .absent })
        | .table pde =>
          let t := { t with pt := update t.pt (ptKey virt) 0#64 }
          if t.ptEmpty (pdKey virt) then
            let t := { t with pd := update t.pd (pdKey virt) .absent }
            let pmm := pmm.freePage (Entry.frame pde)
            if t.pdEmpty (pdptKey virt) then
              let t := { t with pdpt := update t.pdpt (pdptKey virt) .absent }
              let pmm := pmm.freePage (Entry.frame pdpte)
              if t.pdptEmpty (pml4Key virt) then
                let t := { t with pml4 := update t.pml4 (pml4Key virt) none }
                (pmm.freePage (Entry.frame pml4e), t)
              else (pmm, t)
            else (pmm, t)
          else (pmm, t)

end PageTable

structure PageCacheEntry where
  inodeId : Nat
  pageIndex : Nat
  phys : Nat
  refCount : Nat
  dirty : Bool
  occupied : Bool
deriving DecidableEq, Repr

def PageCacheEntry.empty : PageCacheEntry := ⟨0, 0, 0, 0, false, false⟩

def PageCacheEntry.holds (e : PageCacheEntry) (inodeId pageIndex : Nat) : Bool :=
  e.occupied && e.inodeId == inodeId && e.pageIndex == pageIndex

def pcacheHashBuckets : Nat := 64

def pcacheBucketCapacity : Nat := 16

structure PageCacheBucket where
  entries : List PageCacheEntry
  count : Nat
deriving DecidableEq, Repr

namespace PageCacheBucket

def new : PageCacheBucket := ⟨List.replicate pcacheBucketCapacity PageCacheEntry.empty, 0⟩

variable (b : PageCacheBucket) (inodeId pageIndex : Nat)

def lookup : Option Nat :=
  (b.entries.find? (·.holds inodeId pageIndex)).map (·.phys)

def replaceFirst (p : PageCacheEntry → Bool) (f : PageCacheEntry → PageCacheEntry) :
    List PageCacheEntry → List PageCacheEntry
  | [] => []
  | e :: es => if p e then f e :: es else e :: replaceFirst p f es

def mapEntry (f : PageCacheEntry → PageCacheEntry) : PageCacheBucket :=
  { b with entries := replaceFirst (·.holds inodeId pageIndex) f b.entries }

def lookupAndRef : Option (PageCacheBucket × Nat) :=
  match b.lookup inodeId pageIndex with
  | none => none
  | some phys =>
    some (b.mapEntry inodeId pageIndex (fun e => { e with refCount := e.refCount + 1 }), phys)

def place (phys : Nat) : Option PageCacheBucket :=
  if b.entries.any (fun e => !e.occupied) then
    some {
      entries := replaceFirst (fun e => !e.occupied)
        (fun _ => ⟨inodeId, pageIndex, phys, 1, false, true⟩) b.entries
      count := b.count + 1 }
  else none

def markDirty : PageCacheBucket :=
  b.mapEntry inodeId pageIndex (fun e => { e with dirty := true })

def deref : PageCacheBucket × Option Nat :=
  match b.entries.find? (·.holds inodeId pageIndex) with
  | none => (b, none)
  | some e =>
    if e.refCount - 1 = 0 then
      ({ b.mapEntry inodeId pageIndex (fun _ => .empty) with count := b.count - 1 }, some e.phys)
    else (b.mapEntry inodeId pageIndex (fun e => { e with refCount := e.refCount - 1 }), none)

end PageCacheBucket

def pcacheHash (inodeId pageIndex : Nat) : Nat :=
  (inodeId * 0x9E3779B97F4A7C15 % 2 ^ 64 + pageIndex * 0x517CC1B727220A95 % 2 ^ 64) % 2 ^ 64
    % pcacheHashBuckets

abbrev PageCache := Nat → PageCacheBucket

namespace PageCache

def new : PageCache := fun _ => .new

def lookup (c : PageCache) (inodeId pageIndex : Nat) : Option Nat :=
  (c (pcacheHash inodeId pageIndex)).lookup inodeId pageIndex

def markDirty (c : PageCache) (inodeId pageIndex : Nat) : PageCache :=
  let i := pcacheHash inodeId pageIndex
  Function.update c i ((c i).markDirty inodeId pageIndex)

end PageCache

structure SwapArea where
  slotUsed : Nat → Bool
  usedCount : Nat
  storagePhys : Nat
  initialized : Bool

/-- `returned` is not in the source: the frames that the page cache gave back to the
allocator, the last first, each with the tables of that moment. -/
structure Kernel where
  pmm : Pmm
  mem : Nat → BitVec 8
  tables : Nat → PageTable
  kernelPml4 : Nat
  cowRefs : Option (Nat → Option Nat)
  pcache : PageCache
  swap : SwapArea
  pageFaultCount : Nat
  returned : List (Nat × (Nat → PageTable))

/-- `vfs_pread_inode` by mount, inode, offset and credential: the bytes it puts into the
page, none when it fails or the file has ended. -/
abbrev VfsRead := Option Nat → Nat → Nat → Nat → List (BitVec 8)

def zeroPage (mem : Nat → BitVec 8) (page : Nat) : Nat → BitVec 8 :=
  fun x => if page ≤ x ∧ x < page + pageSize then 0#8 else mem x

def copyPage (mem : Nat → BitVec 8) (src dst : Nat) : Nat → BitVec 8 :=
  fun x => if dst ≤ x ∧ x < dst + pageSize then mem (src + (x - dst)) else mem x

def fillPage (mem : Nat → BitVec 8) (page : Nat) (bytes : List (BitVec 8)) : Nat → BitVec 8 :=
  fun x => if page ≤ x ∧ x < page + min bytes.length pageSize then bytes.getD (x - page) 0#8
    else mem x

namespace Kernel

def start (pmm : Pmm) (kernelPml4 : Nat) (kernelTable : PageTable) : Kernel :=
  { pmm := pmm
    mem := fun _ => 0#8
    tables := update (fun _ => .empty) kernelPml4 kernelTable
    kernelPml4 := kernelPml4
    cowRefs := none
    pcache := .new
    swap := ⟨fun _ => false, 0, 0, false⟩
    pageFaultCount := 0
    returned := [] }

variable (k : Kernel)

def allocPage : Option (Kernel × Nat) :=
  match k.pmm.takePage with
  | none => none
  | some (pmm, page) => some ({ k with pmm := pmm }, page)

def freePage (k : Kernel) (page : Nat) : Kernel := { k with pmm := k.pmm.freePage page }

def setTable (pml4 : Nat) (t : PageTable) : Kernel :=
  { k with tables := update k.tables pml4 t }

def childTable (kernel : PageTable) : PageTable :=
  { kernel with pml4 := fun i => if 256 ≤ i then kernel.pml4 i else none }

def getPhysicalInPml4 (pml4 virt : Nat) : Option Nat :=
  (k.tables pml4).getPhysical pml4 virt

def getPteValue (k : Kernel) (pml4 virt : Nat) : Option (BitVec 64) :=
  (k.tables pml4).getPteValue pml4 virt

def mapPageInTable (pml4 virt phys : Nat) (flags : PageFlags) : Kernel :=
  let (pmm, t) := PageTable.mapPage k.pmm (k.tables pml4) pml4 virt phys flags
  { k with pmm := pmm, tables := update k.tables pml4 t }

/-- `pages` are those of GDT, IDT, TSS and the IST stacks; KPTI is off and RSP0 not yet set. -/
def createUserPageTable (pages : List Nat) : Kernel × Option Nat :=
  match k.allocPage with
  | none => (k, none)
  | some (k, pml4) =>
    let kernel := k.tables k.kernelPml4
    -- the source reads the first entry of the copy back
    if (kernel.pml4 256).isNone then (k.freePage pml4, none)
    else
      let k := k.setTable pml4 (childTable kernel)
      (pages.foldl (fun k page => k.mapPageInTable pml4 page page (.present ||| .writable)) k, some pml4)

def unmapPageInTable (pml4 virt : Nat) : Kernel :=
  let (pmm, t) := PageTable.unmapPage k.pmm (k.tables pml4) pml4 virt
  { k with pmm := pmm, tables := update k.tables pml4 t }

def countFault : Kernel := { k with pageFaultCount := k.pageFaultCount + 1 }

variable (inodeId pageIndex : Nat)

def pcacheLookup : Option Nat := k.pcache.lookup inodeId pageIndex

def cacheFree (phys : Nat) : Kernel :=
  { k.freePage phys with returned := (phys, k.tables) :: k.returned }

def pcacheGet : Kernel × Option Nat :=
  let i := pcacheHash inodeId pageIndex
  let b := k.pcache i
  if b.count ≥ pcacheBucketCapacity then (k, none)
  else
    match b.lookupAndRef inodeId pageIndex with
    | some (b, phys) => ({ k with pcache := update k.pcache i b }, some phys)
    | none =>
      match k.allocPage with
      | none => (k, none)
      | some (k, phys) =>
        let k := { k with mem := zeroPage k.mem phys }
        match b.place inodeId pageIndex phys with
        | some b => ({ k with pcache := update k.pcache i b }, some phys)
        | none => (k.cacheFree phys, none)

def pcacheFill (bytes : List (BitVec 8)) : Kernel :=
  match k.pcacheLookup inodeId pageIndex with
  | some phys => { k with mem := fillPage k.mem phys bytes }
  | none => k

def pcacheMarkDirty : Kernel :=
  { k with pcache := k.pcache.markDirty inodeId pageIndex }

def pcachePut : Kernel :=
  let i := pcacheHash inodeId pageIndex
  match (k.pcache i).deref inodeId pageIndex with
  | (b, none) => { k with pcache := update k.pcache i b }
  | (b, some phys) => { k with pcache := update k.pcache i b }.cacheFree phys

def swapSlot (pte : BitVec 64) : Nat := pte.toNat / 4 % 2 ^ 54

def isSwapPte (pte : BitVec 64) : Bool := !pte.getLsbD 0 && pte != 0#64 && !pte.getLsbD 1

def freeSlot (a : SwapArea) (slot : Nat) : SwapArea :=
  if slot < 4096 ∧ a.slotUsed slot then
    { a with slotUsed := update a.slotUsed slot false, usedCount := a.usedCount - 1 }
  else a

def swapIn (slot : Nat) : Option (Kernel × Nat) :=
  if !k.swap.initialized then none
  else
    match k.allocPage with
    | none => none
    | some (k, page) =>
      some ({ k with
        mem := copyPage k.mem (k.swap.storagePhys + slot * pageSize) page
        swap := freeSlot k.swap slot }, page)

end Kernel

end AntX.Mm
