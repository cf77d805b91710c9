import AntX.Lib.Extent
import AntX.Lib.FirstFit
import AntX.Lib.Links
import AntX.Mm.Types

/-! The physical page allocator: `framework/mm/pmm.rs` and `services/mm/pmm_policy.rs`. A pointer to a
free-list node is the number of its page. -/

namespace AntX.Mm

open Lib Function

def maxBuddyOrder : Nat := 9

def buddyAllocated : Nat := 0xFF

def physToPage (phys : Nat) : Nat := phys / pageSize

def pageToPhys (page : Nat) : Nat := page * pageSize

inductive PageSize
  | size4K
  | size2M
  | size1G
deriving DecidableEq, Repr

def PageSize.size : PageSize → Nat
  | .size4K => 4096
  | .size2M => 2 * 1024 * 1024
  | .size1G => 1024 * 1024 * 1024

structure AllocContext where
  requestedPages : Nat
  freePages : Nat
  totalPages : Nat
  pressureLevel : Nat
  preferredNode : Option Nat

inductive AllocDecision
  | allow
  | deny
  | retryAfterReclaim
deriving DecidableEq, Repr

def countToOrder (count : Nat) : Nat :=
  if count ≤ 1 then 0
  else
    let order := Nat.log2 (count - 1) + 1
    if order > maxBuddyOrder then maxBuddyOrder else order

/-- A set bit is a page in use. `size` counts words of 32 bits. -/
structure Bitmap where
  size : Nat
  bit : Nat → Bool

namespace Bitmap

def writeBit (v : Bool) (b : Bitmap) (i : Nat) : Bitmap :=
  if i / 32 < b.size then { b with bit := update b.bit i v } else b

def setBit (b : Bitmap) (i : Nat) : Bitmap := writeBit true b i

def testBit (b : Bitmap) (i : Nat) : Bool := decide (i / 32 < b.size) && b.bit i

def countFree (b : Bitmap) : Nat := Nat.count (fun i => b.bit i = false) (b.size * 32)

def writeRange (v : Bool) (b : Bitmap) (start : Nat) : Nat → Bitmap
  | 0 => b
  | n + 1 => writeBit v (writeRange v b start n) (start + n)

abbrev setRange (b : Bitmap) (start n : Nat) : Bitmap := writeRange true b start n

abbrev clearRange (b : Bitmap) (start n : Nat) : Bitmap := writeRange false b start n

end Bitmap

structure MemoryInfo where
  totalPages : Nat
  freePages : Nat
  usedPages : Nat

structure Pmm where
  memSize : Nat
  kernelEnd : Nat
  info : MemoryInfo
  initialized : Bool
  buddyReady : Bool
  earlyCurrent : Nat
  bitmap : Bitmap
  metaReady : Bool
  buddyMeta : Nat → Nat
  heads : Nat → Option Nat
  links : Links Nat

namespace Pmm

def new : Pmm :=
  { memSize := 0, kernelEnd := 0, info := { totalPages := 0, freePages := 0, usedPages := 0 }
    initialized := false, buddyReady := false, earlyCurrent := 0
    bitmap := { size := 0, bit := fun _ => false }
    metaReady := false, buddyMeta := fun _ => 0
    heads := fun _ => none, links := { next := fun _ => none, prev := fun _ => none } }

variable (s : Pmm)

def writeMeta (idx val : Nat) : Pmm :=
  { s with buddyMeta := update s.buddyMeta idx val }

def writeMetaRange (val start : Nat) : Nat → Pmm → Pmm
  | 0, s => s
  | n + 1, s => (writeMetaRange val start n s).writeMeta (start + n) val

/-- The bits of the last word beyond `total_pages` count as free and are taken off. -/
def countFreePages : Nat :=
  let free := s.bitmap.countFree
  let extra := s.bitmap.size * 32 - s.info.totalPages
  if extra > 0 then free - extra else free

def updateStats : Pmm :=
  let free := s.countFreePages
  { s with info := { s.info with freePages := free, usedPages := s.info.totalPages - free } }

def saturatingAdd (a b : Nat) : Nat := min (a + b) (2 ^ 64 - 1)

def statsAlloc (npages : Nat) : Pmm :=
  { s with info := { s.info with
      freePages := s.info.freePages - npages
      usedPages := saturatingAdd s.info.usedPages npages } }

def statsFree (npages : Nat) : Pmm :=
  { s with info := { s.info with
      freePages := saturatingAdd s.info.freePages npages
      usedPages := s.info.usedPages - npages } }

def inRam (pfn : Nat) : Bool := decide (pageToPhys pfn < s.memSize)

def buddyListRemove (pfn order : Nat) : Pmm :=
  if !s.inRam pfn then s
  else
    { s with
      heads := if s.links.prev pfn = none then
          update s.heads order (s.links.next pfn) else s.heads
      links := s.links.relink pfn }

def buddyListPush (pfn order : Nat) : Pmm :=
  { s with
    bitmap := s.bitmap.clearRange pfn (2 ^ order)
    heads := update s.heads order (some pfn)
    links := s.links.pushFront (s.heads order) pfn }

def buddyListPop (order : Nat) : Pmm × Option Nat :=
  match s.heads order with
  | none => (s, none)
  | some pfn =>
    if !s.inRam pfn then (s, none)
    else
      ({ s with
          heads := update s.heads order (s.links.next pfn)
          links := s.links.setPrev? (s.links.next pfn) none },
        some pfn)

def tryMergeLoop (limitPfn : Nat) : (left : Nat) → Pmm → (pfn order : Nat) → Pmm × Nat × Nat
  | 0, s, pfn, order => (s, pfn, order)
  | left + 1, s, pfn, order =>
    let buddyPfn := buddy pfn order
    if buddyPfn ≥ min s.info.totalPages limitPfn then (s, pfn, order)
    else if pfn + 2 ^ (order + 1) > limitPfn then (s, pfn, order)
    else
      let buddyState := s.buddyMeta buddyPfn
      if buddyState > maxBuddyOrder then (s, pfn, order)
      else if buddyState ≠ order then (s, pfn, order)
      else
        let s := s.buddyListRemove buddyPfn order
        let s := s.writeMeta buddyPfn buddyAllocated
        tryMergeLoop limitPfn left s (min pfn buddyPfn) (order + 1)

def buddyTryMerge (pfn order limitPfn : Nat) : Pmm × Nat × Nat :=
  if !s.metaReady then (s, pfn, order)
  else
    let (s, pfn, order) := tryMergeLoop limitPfn (maxBuddyOrder - order) s pfn order
    (s.writeMeta pfn order, pfn, order)

def fitOrder (cur remaining : Nat) : Nat → Nat
  | 0 => 0
  | order + 1 =>
    if cur % 2 ^ (order + 1) = 0 ∧ 2 ^ (order + 1) ≤ remaining then order + 1
    else fitOrder cur remaining order

def freeInsertLoop (endPfn : Nat) : (fuel : Nat) → Pmm → (cur : Nat) → Pmm
  | 0, s, _ => s
  | fuel + 1, s, cur =>
    if cur < endPfn then
      let remaining := endPfn - cur
      let order := fitOrder cur remaining (min (Nat.log2 remaining) maxBuddyOrder)
      let (s, mergedPfn, mergedOrder) := s.buddyTryMerge cur order endPfn
      let s := s.buddyListPush mergedPfn mergedOrder
      freeInsertLoop endPfn fuel s (mergedPfn + 2 ^ mergedOrder)
    else s

def buddyFreeInsertRange (startPfn npages : Nat) : Pmm :=
  if !s.metaReady then s else freeInsertLoop (startPfn + npages) npages s startPfn

structure Deferred where
  blockPfn : Nat
  start : Nat
  stop : Nat
  size : Nat

/-- One free list is walked; `next` is read before the node leaves the list. -/
def reserveWalk (startPfn endPfn order : Nat) :
    (fuel : Nat) → Pmm → Option Nat → List Deferred → Pmm × List Deferred
  | 0, s, _, deferred => (s, deferred)
  | _ + 1, s, none, deferred => (s, deferred)
  | fuel + 1, s, some node, deferred =>
    if !s.inRam node then (s, deferred)
    else
      let next := s.links.next node
      if node < endPfn ∧ node + 2 ^ order > startPfn then
        let s := s.buddyListRemove node order
        let s := if s.metaReady then writeMetaRange buddyAllocated node (2 ^ order) s else s
        reserveWalk startPfn endPfn order fuel s next
          ({ blockPfn := node, start := startPfn, stop := endPfn, size := 2 ^ order } :: deferred)
      else reserveWalk startPfn endPfn order fuel s next deferred

/-- The walks of the orders below `n`. A list has no more nodes than there are pages. -/
def reserveWalks (startPfn endPfn : Nat) : (n : Nat) → Pmm → Pmm × List Deferred
  | 0, s => (s, [])
  | n + 1, s =>
    let (s, deferred) := reserveWalks startPfn endPfn n s
    reserveWalk startPfn endPfn n s.info.totalPages s (s.heads n) deferred

def pushBack (d : Deferred) : Pmm :=
  let s := if d.blockPfn < d.start then s.buddyFreeInsertRange d.blockPfn (d.start - d.blockPfn) else s
  let blockEnd := d.blockPfn + d.size
  if blockEnd > d.stop then
    let rightStart := max d.blockPfn d.stop
    s.buddyFreeInsertRange rightStart (blockEnd - rightStart)
  else s

def buddyReservePfnRange (startPfn npages : Nat) : Pmm :=
  let endPfn := startPfn + npages
  let (s, deferred) := reserveWalks startPfn endPfn (maxBuddyOrder + 1) s
  let s := { s with bitmap := s.bitmap.setRange startPfn npages }
  let s := s.statsAlloc npages
  deferred.foldl pushBack s

def splitLoop (pfn order : Nat) : (n : Nat) → Pmm → Pmm
  | 0, s => s
  | n + 1, s =>
    let buddyPfn := pfn + 2 ^ (order + n)
    let s := s.buddyListPush buddyPfn (order + n)
    let s := s.writeMeta buddyPfn (order + n)
    splitLoop pfn order n s

def buddyAlloc (order : Nat) : Pmm × Option (Nat × Nat) :=
  if order > maxBuddyOrder then (s, none)
  else match firstFrom (fun o => (s.heads o).isSome) (maxBuddyOrder + 1 - order) order with
    | none => (s, none)
    | some allocOrder =>
      match s.buddyListPop allocOrder with
      | (s, none) => (s, none)
      | (s, some pfn) =>
        if !s.metaReady then (s, none)
        else
          let s := s.writeMeta pfn buddyAllocated
          let s := splitLoop pfn order (allocOrder - order) s
          let s := s.writeMeta pfn buddyAllocated
          (s, some (pfn, order))

def earlyAllocSingle : Pmm × Option Nat :=
  let aligned := pageUp s.earlyCurrent
  let s := { s with earlyCurrent := wadd aligned pageSize }
  if aligned ≥ s.memSize then (s, none) else (s, some aligned)

def earlyAllocMultiple (count : Nat) : Pmm × Option Nat :=
  let size := count * pageSize
  let aligned := pageUp s.earlyCurrent
  let s := { s with earlyCurrent := wadd aligned size }
  if wadd aligned size > s.memSize then (s, none) else (s, some aligned)

def allFree (start n : Nat) : Bool :=
  (List.range n).all (fun j => !s.bitmap.testBit (start + j))

def bitmapFallbackLoop (s : Pmm) (count : Nat) : (n i : Nat) → Pmm × Option Nat
  | 0, _ => (s, none)
  | n + 1, i =>
    if s.bitmap.testBit i then bitmapFallbackLoop s count n (i + 1)
    else if i + count > s.info.totalPages then (s, none)
    else if s.allFree (i + 1) (count - 1) then
      (({ s with bitmap := s.bitmap.setRange i count }).statsAlloc count, some (pageToPhys i))
    else bitmapFallbackLoop s count n (i + 1)

def allocFromBitmapFallback (count : Nat) : Pmm × Option Nat :=
  bitmapFallbackLoop s count s.info.totalPages 0

def doAlloc (order : Nat) : Pmm × Option Nat :=
  if !s.initialized then
    if order = 0 then s.earlyAllocSingle else s.earlyAllocMultiple (2 ^ order)
  else if !s.buddyReady then s.allocFromBitmapFallback (2 ^ order)
  else match s.buddyAlloc order with
    | (s, none) => (s, none)
    | (s, some (pfn, _)) =>
      let npages := 2 ^ order
      (({ s with bitmap := s.bitmap.setRange pfn npages }).statsAlloc npages, some (pageToPhys pfn))

def doFree (addr order : Nat) : Pmm :=
  if !s.initialized then s
  else
    let pfn := physToPage addr
    if pfn ≥ s.info.totalPages then s
    else if !s.bitmap.testBit pfn then s
    else
      let npages := 2 ^ order
      let s := { s with bitmap := s.bitmap.clearRange pfn npages }
      if !s.buddyReady then s.statsFree npages
      else
        let (s, mergedPfn, mergedOrder) := s.buddyTryMerge pfn order s.info.totalPages
        let s := s.buddyListPush mergedPfn mergedOrder
        s.statsFree npages

/-- `usize::BITS - 1 - (remaining - 1).leading_zeros()`, which wraps to the
largest word when one page remains. -/
def initMaxOrder (remaining : Nat) : Nat :=
  min (if remaining - 1 = 0 then 2 ^ 32 - 1 else Nat.log2 (remaining - 1)) maxBuddyOrder

def initRun : (fuel : Nat) → Pmm → (cur remaining : Nat) → Pmm
  | 0, s, _, _ => s
  | fuel + 1, s, cur, remaining =>
    if remaining > 0 then
      let order := fitOrder cur remaining (initMaxOrder remaining)
      let s := s.writeMeta cur order
      let s := s.buddyListPush cur order
      initRun fuel s (cur + 2 ^ order) (remaining - 2 ^ order)
    else s

def scanFree (s : Pmm) (total : Nat) : (n pfn : Nat) → Nat
  | 0, pfn => pfn
  | n + 1, pfn =>
    if pfn < total ∧ s.bitmap.testBit pfn = false then scanFree s total n (pfn + 1) else pfn

def initLoop (total : Nat) : (fuel : Nat) → Pmm → (pfn : Nat) → Pmm
  | 0, s, _ => s
  | fuel + 1, s, pfn =>
    if pfn < total then
      if s.bitmap.testBit pfn then initLoop total fuel s (pfn + 1)
      else
        let runEnd := scanFree s total (total - pfn) pfn
        let s := initRun (runEnd - pfn) s pfn (runEnd - pfn)
        initLoop total fuel s runEnd
    else s

def buddyInitFreeLists (totalPages : Nat) : Pmm :=
  if !s.metaReady then s else initLoop totalPages totalPages s 0

def init (memSize kernelEnd : Nat) : Pmm :=
  { s with
    memSize, kernelEnd, earlyCurrent := pageUp kernelEnd
    info := { s.info with totalPages := memSize / pageSize } }

def divCeil (a b : Nat) : Nat := (a + b - 1) / b

def reservePages (b : Bitmap) (start stop total : Nat) : Bitmap :=
  b.setRange start (min stop total - start)

def markReserved (reservedAligned bitmapAligned buddyMetaPhys : Nat) : Bitmap :=
  let total := s.info.totalPages
  let bitmapWords := divCeil total 32
  let kernelPages := physToPage (wadd s.kernelEnd (pageSize - 1))
  let totalReserved := kernelPages + reservedAligned / pageSize
  let bitmap : Bitmap := { size := bitmapWords, bit := fun _ => false }
  let bitmap := reservePages bitmap 0 totalReserved total
  let bitmap := if total > 0 then bitmap.setBit 0 else bitmap
  let bmpStart := physToPage bitmapAligned
  let bitmap := reservePages bitmap bmpStart (bmpStart + divCeil (bitmapWords * 4) pageSize) total
  let bmStart := physToPage buddyMetaPhys
  reservePages bitmap bmStart (bmStart + divCeil total pageSize) total

/-- The addresses of the bitmap and of the metadata are those of physical memory,
so their null checks do not fail. -/
def initBitmap (reservedAfterKernel : Nat) : Pmm :=
  if s.initialized then s
  else
    let reservedAligned := pageUp reservedAfterKernel
    let total := s.info.totalPages
    let bitmapBytes := divCeil total 32 * 4
    let bitmapAligned := pageUp (wadd s.earlyCurrent reservedAligned)
    let buddyMetaPhys := pageUp (wadd bitmapAligned bitmapBytes)
    let buddyMetaPages := divCeil total pageSize
    let s := { s with
      earlyCurrent := wadd (wadd buddyMetaPhys (buddyMetaPages * pageSize)) pageSize
      bitmap := s.markReserved reservedAligned bitmapAligned buddyMetaPhys
      metaReady := true
      buddyMeta := fun _ => buddyAllocated }
    let s := s.buddyInitFreeLists total
    let s := { s with buddyReady := true, initialized := true }
    s.updateStats

def boot (memSize kernelEnd reservedAfterKernel : Nat) : Pmm :=
  (new.init memSize kernelEnd).initBitmap reservedAfterKernel

def allocPage : Pmm × Option Nat := s.doAlloc 0

def freePage (addr : Nat) : Pmm := if addr = 0 then s else s.doFree addr 0

def allocContext (npages : Nat) : AllocContext :=
  { requestedPages := npages
    freePages := if s.buddyReady then s.info.freePages else s.countFreePages
    totalPages := s.info.totalPages
    pressureLevel := 0
    preferredNode := none }

def allocPages (policy : AllocContext → AllocDecision) (s : Pmm) (count : Nat) : Pmm × Option Nat :=
  if count = 0 then (s, none)
  else
    let order := countToOrder count
    match policy (s.allocContext (2 ^ order)) with
    | .allow => s.doAlloc order
    | .deny => (s, none)
    | .retryAfterReclaim => (s, none)

def freePages (addr count : Nat) : Pmm :=
  if addr = 0 ∨ count = 0 then s else s.doFree addr (countToOrder count)

def reserveRange (base size : Nat) : Pmm × Except String Unit :=
  if size = 0 then (s, .error "PMM reserve_range: zero size")
  else if base % pageSize ≠ 0 then (s, .error "PMM reserve_range: base not page-aligned")
  else if size % pageSize ≠ 0 then (s, .error "PMM reserve_range: size not page-aligned")
  else
    let startPfn := physToPage base
    let npages := size / pageSize
    if startPfn + npages ≥ 2 ^ 64 then (s, .error "PMM reserve_range: overflow")
    else if startPfn + npages > s.info.totalPages then
      (s, .error "PMM reserve_range: range exceeds PMM size")
    else if !s.allFree startPfn npages then
      (s, .error "PMM reserve_range: range overlaps allocated/reserved page")
    else (s.buddyReservePfnRange startPfn npages, .ok ())

def unreserveRange (base size : Nat) : Pmm × Except String Unit :=
  if size = 0 then (s, .error "PMM unreserve_range: zero size")
  else if base % pageSize ≠ 0 then (s, .error "PMM unreserve_range: base not page-aligned")
  else if size % pageSize ≠ 0 then (s, .error "PMM unreserve_range: size not page-aligned")
  else
    let startPfn := physToPage base
    let npages := size / pageSize
    if startPfn + npages ≥ 2 ^ 64 then (s, .error "PMM unreserve_range: overflow")
    else if startPfn + npages > s.info.totalPages then
      (s, .error "PMM unreserve_range: range exceeds PMM size")
    else if (List.range npages).any (fun j => !s.bitmap.testBit (startPfn + j)) then
      (s, .error "PMM unreserve_range: range contains non-reserved page")
    else
      let s := { s with bitmap := s.bitmap.clearRange startPfn npages }
      let s := s.buddyFreeInsertRange startPfn npages
      (s.statsFree npages, .ok ())

def directAllocLoop (s : Pmm) (count alignPages : Nat) : (fuel i : Nat) → Pmm × Option Nat
  | 0, _ => (s, none)
  | fuel + 1, i =>
    if i + count ≤ s.info.totalPages then
      if i % alignPages = 0 ∧ s.allFree i count then
        (s.buddyReservePfnRange i count, some (pageToPhys i))
      else directAllocLoop s count alignPages fuel (i + alignPages)
    else (s, none)

def buddyDirectAllocAligned (count alignment : Nat) : Pmm × Option Nat :=
  let alignPages := alignment / pageSize
  directAllocLoop s count alignPages (s.info.totalPages + 1) alignPages

def allocHugePage (policy : AllocContext → AllocDecision) (s : Pmm) (sizeType : PageSize) :
    Pmm × Option Nat :=
  match sizeType with
  | .size4K => s.allocPage
  | .size2M => s.allocPages policy 512
  | .size1G => s.buddyDirectAllocAligned (PageSize.size1G.size / pageSize) PageSize.size1G.size

/-- The 1 GiB branch returns the pages but does not call `stats_free`. -/
def freeHugePage (addr : Nat) (sizeType : PageSize) : Pmm :=
  match sizeType with
  | .size4K => s.freePage addr
  | .size2M => s.freePages addr 512
  | .size1G =>
    let np := PageSize.size1G.size / pageSize
    let start := physToPage addr
    let s := { s with bitmap := s.bitmap.clearRange start np }
    s.buddyFreeInsertRange start np

end Pmm

end AntX.Mm
