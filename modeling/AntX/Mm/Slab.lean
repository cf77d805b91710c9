import AntX.Lib.Bits
import AntX.Lib.Links
import AntX.Lib.Run

/-! The slab allocator: objects of one size from slabs of one page, laid out as header, objects,
bitmap. Every slab is on one of three intrusive lists, and its header agrees with its bitmap. -/

namespace AntX.Mm

open Lib Lib.Links Function List

def slabDefaultSize : Nat := 4096

def slabMinObjectSize : Nat := 16

def slabMaxObjectSize : Nat := 2048

/-- `size_of::<SlabHeader>()`: two pointers of links, a start pointer, two `u32` and a flag. -/
def slabHeaderSize : Nat := 40

structure SlabHeader where
  startAddr : Nat
  objCount : Nat
  activeCount : Nat
  isFull : Bool
deriving DecidableEq, Repr

def SlabHeader.default : SlabHeader := ⟨0, 0, 0, false⟩

inductive SlabList where
  | slabsFull
  | slabsPartial
  | slabsFree
deriving DecidableEq, Repr

structure SlabMemory where
  header : Nat → SlabHeader
  links : Links Nat
  byte : Nat → BitVec 8

structure KmemCache extends SlabMemory where
  objectSize : Nat
  objectsPerSlab : Nat
  heads : SlabList → Option Nat
  slabCount : Nat
  totalAllocs : Nat
  totalFrees : Nat
  cacheHits : Nat
  cacheMisses : Nat

def normalizeObjectSize (objectSize : Nat) : Option Nat :=
  if objectSize = 0 ∨ objectSize > slabMaxObjectSize then none
  else some (max objectSize slabMinObjectSize)

def calculateObjectsPerSlab (slabSize headerSize objectSize : Nat) : Nat :=
  let usableSpace := slabSize - headerSize
  let estimatedObjects := usableSpace / objectSize
  let bitmapBytes := bytesFor estimatedObjects
  let actualUsable := usableSpace - bitmapBytes
  actualUsable / objectSize

namespace KmemCache

def create (mem : SlabMemory) (objectSize : Nat) : Except String KmemCache :=
  match normalizeObjectSize objectSize with
  | none => .error "Invalid object size (zero or exceeds maximum)"
  | some effectiveSize =>
    .ok { mem with
      objectSize := effectiveSize
      objectsPerSlab := calculateObjectsPerSlab slabDefaultSize slabHeaderSize effectiveSize
      heads := fun _ => none
      slabCount := 0
      totalAllocs := 0
      totalFrees := 0
      cacheHits := 0
      cacheMisses := 0 }

variable (c : KmemCache)

def bitmapPtr (slab : Nat) : Nat :=
  (c.header slab).startAddr + (c.header slab).objCount * c.objectSize

def objectPtr (slab idx : Nat) : Nat :=
  (c.header slab).startAddr + idx * c.objectSize

def setHeader (slab : Nat) (h : SlabHeader) : KmemCache :=
  { c with header := update c.header slab h }

def findFreeBit (slab : Nat) : Option Nat :=
  firstClear c.byte (c.bitmapPtr slab) (c.header slab).objCount

def setBit (slab bit : Nat) : KmemCache :=
  { c with byte := setBitAt c.byte (c.bitmapPtr slab) bit }

def clearBit (slab bit : Nat) : KmemCache :=
  { c with byte := clearBitAt c.byte (c.bitmapPtr slab) bit }

def listRemove (list : SlabList) (slab : Nat) : KmemCache :=
  match c.heads list with
  | none => c
  | some head =>
    let next := c.links.next slab
    let prev := c.links.prev slab
    let (heads, links) :=
      if head = slab then (update c.heads list next, c.links.setPrev? next none)
      else (c.heads, (c.links.setPrev? next prev).setNext? prev next)
    { c with heads := heads, links := (links.setPrev slab none).setNext slab none }

def listPushFront (list : SlabList) (slab : Nat) : KmemCache :=
  { c with
    links := ((c.links.setNext slab (c.heads list)).setPrev slab none).setPrev? (c.heads list) (some slab)
    heads := update c.heads list (some slab) }

def walkList (c : KmemCache) (obj : Nat) : Nat → Option Nat → Option Nat
  | 0, _ => none
  | _, none => none
  | fuel + 1, some slab =>
    let start := (c.header slab).startAddr
    let stop := start + (c.header slab).objCount * c.objectSize
    if start ≤ obj ∧ obj < stop then some slab else c.walkList obj fuel (c.links.next slab)

def findObjectSlab (obj : Nat) : Option Nat :=
  match c.walkList obj c.slabCount (c.heads .slabsPartial) with
  | some slab => some slab
  | none =>
    match c.walkList obj c.slabCount (c.heads .slabsFull) with
    | some slab => some slab
    | none => c.walkList obj c.slabCount (c.heads .slabsFree)

def allocFromSlab (slab : Nat) : KmemCache × Option Nat :=
  match c.findFreeBit slab with
  | none => (c, none)
  | some freeIdx =>
    let c := c.setBit slab freeIdx
    let h := { c.header slab with activeCount := (c.header slab).activeCount + 1 }
    let c := c.setHeader slab h
    let obj := c.objectPtr slab freeIdx
    if h.activeCount ≥ h.objCount then
      let c := c.setHeader slab { h with isFull := true }
      let c := (c.listRemove .slabsPartial slab).listRemove .slabsFree slab
      (c.listPushFront .slabsFull slab, some obj)
    else if h.activeCount = 1 then
      ((c.listRemove .slabsFree slab).listPushFront .slabsPartial slab, some obj)
    else (c, some obj)

/-- `page` is the answer of `pmm_alloc_pages`, `none` being the null pointer. -/
def newSlab (page : Option Nat) : KmemCache × Option Nat :=
  match page with
  | none => (c, none)
  | some slab =>
    let h := { SlabHeader.default with
      startAddr := slab + slabHeaderSize, objCount := c.objectsPerSlab }
    let c := { c.setHeader slab h with links := (c.links.setPrev slab none).setNext slab none }
    let bitmapBytes := bytesFor c.objectsPerSlab
    let bitmapStart := c.bitmapPtr slab
    if bitmapStart + bitmapBytes > slab + slabDefaultSize then (c, none)
    else
      ({ c with byte := fun x =>
          if bitmapStart ≤ x ∧ x < bitmapStart + bitmapBytes then 0#8 else c.byte x }, some slab)

/-- The push onto the free list that `allocate` does by itself: the back link of the new
slab is left as `new_slab` wrote it. -/
def linkNew (slab : Nat) : KmemCache :=
  let head := c.heads .slabsFree
  { c with
    links := (c.links.setNext slab head).setPrev? head (some slab)
    heads := update c.heads .slabsFree (some slab)
    slabCount := c.slabCount + 1 }

def allocate (page : Option Nat) : KmemCache × Option Nat :=
  let c := { c with totalAllocs := c.totalAllocs + 1 }
  match c.heads .slabsPartial with
  | some slab => allocFromSlab { c with cacheHits := c.cacheHits + 1 } slab
  | none =>
    match c.heads .slabsFree with
    | some slab => allocFromSlab { c with cacheHits := c.cacheHits + 1 } slab
    | none =>
      match newSlab { c with cacheMisses := c.cacheMisses + 1 } page with
      | (c, none) => (c, none)
      | (c, some slab) => (c.linkNew slab).allocFromSlab slab

def releaseObject (obj : Nat) : KmemCache :=
  match c.findObjectSlab obj with
  | none => c
  | some slab =>
    let idx := (obj - (c.header slab).startAddr) / c.objectSize
    if idx ≥ (c.header slab).objCount then c
    else
      let c := c.clearBit slab idx
      let h := { c.header slab with
        activeCount := ((c.header slab).activeCount + (2 ^ 32 - 1)) % 2 ^ 32 }
      let c := c.setHeader slab h
      if h.isFull then
        let c := c.setHeader slab { h with isFull := false }
        (c.listRemove .slabsFull slab).listPushFront .slabsPartial slab
      else if h.activeCount = 0 then
        (c.listRemove .slabsPartial slab).listPushFront .slabsFree slab
      else c

def deallocate (obj : Nat) : KmemCache :=
  if obj = 0 then c else { c with totalFrees := c.totalFrees + 1 }.releaseObject obj

end KmemCache

namespace KmemCache

structure Layout (c : KmemCache) : Prop where
  size_pos : 0 < c.objectSize
  count_pos : 0 < c.objectsPerSlab
  fits : slabHeaderSize + c.objectsPerSlab * c.objectSize + bytesFor c.objectsPerSlab ≤ slabDefaultSize

theorem calculateObjectsPerSlab_fits {size : Nat} (hmin : slabMinObjectSize ≤ size)
    (hmax : size ≤ slabMaxObjectSize) :
    let n := calculateObjectsPerSlab slabDefaultSize slabHeaderSize size
    0 < n ∧ slabHeaderSize + n * size + bytesFor n ≤ slabDefaultSize := by
  simp only [calculateObjectsPerSlab, slabDefaultSize, slabHeaderSize, slabMinObjectSize,
    slabMaxObjectSize, bytesFor, show 4096 - 40 = 4056 from rfl] at *
  have hest : 4056 / size ≤ 253 := (Nat.div_le_div_left hmin (by omega)).trans (by omega)
  generalize hest' : 4056 / size = est at *
  have hn := Nat.div_mul_le_self (4056 - (est + 7) / 8) size
  have hle : (4056 - (est + 7) / 8) / size ≤ est := by
    rw [← hest']
    exact Nat.div_le_div_right (by omega)
  have hpos : 0 < (4056 - (est + 7) / 8) / size := Nat.div_pos (by omega) (by omega)
  omega

theorem create_layout {mem : SlabMemory} {size : Nat} {c : KmemCache}
    (h : create mem size = .ok c) : c.Layout := by
  unfold create normalizeObjectSize at h
  by_cases hsize : size = 0 ∨ size > slabMaxObjectSize
  · rw [if_pos hsize] at h
    cases h
  · rw [if_neg hsize] at h
    obtain rfl := Except.ok.inj h
    simp only [not_or, Nat.not_lt] at hsize
    have hmin : slabMinObjectSize ≤ max size slabMinObjectSize := Nat.le_max_right _ _
    have hmax : max size slabMinObjectSize ≤ slabMaxObjectSize :=
      Nat.max_le.mpr ⟨hsize.2, by decide⟩
    have hspec := calculateObjectsPerSlab_fits hmin hmax
    exact ⟨Nat.lt_of_lt_of_le (by decide) hmin, hspec.1, hspec.2⟩

def usedBits (c : KmemCache) (slab : Nat) : Finset Nat :=
  setBits c.byte (c.bitmapPtr slab) (c.header slab).objCount

def Level : SlabList → Nat → Nat → Prop
  | .slabsFull, active, count => active = count
  | .slabsPartial, active, count => active < count ∧ (active = 0 → count = 1)
  | .slabsFree, active, _ => active = 0

structure HeaderOk (n : Nat) (bits : Finset Nat) (list : SlabList) (slab : Nat) (h : SlabHeader) : Prop where
  start : h.startAddr = slab + slabHeaderSize
  count : h.objCount = n
  used : ∀ k ∈ bits, k < n
  active : h.activeCount = bits.card
  full : h.isFull = true ↔ list = .slabsFull
  level : Level list h.activeCount n

def SlabOk (c : KmemCache) (list : SlabList) (slab : Nat) : Prop :=
  HeaderOk c.objectsPerSlab (c.usedBits slab) list slab (c.header slab)

def Apart (s t : Nat) : Prop := s + slabDefaultSize ≤ t ∨ t + slabDefaultSize ≤ s

structure Confined (c c' : KmemCache) (slab : Nat) : Prop where
  objectSize : c'.objectSize = c.objectSize
  objectsPerSlab : c'.objectsPerSlab = c.objectsPerSlab
  slabCount : c'.slabCount = c.slabCount
  header : ∀ t, t ≠ slab → c'.header t = c.header t
  byte : ∀ x, x < slab ∨ slab + slabDefaultSize ≤ x → c'.byte x = c.byte x

structure SlabsOk (c : KmemCache) (slabs : List Nat) (lists : SlabList → List Nat) : Prop where
  layout : c.Layout
  chains : Chains c.links c.heads lists
  listed : ∀ s, s ∈ slabs ↔ ∃ w, s ∈ lists w
  ok : ∀ w, ∀ s ∈ lists w, SlabOk c w s
  apart : ∀ s ∈ slabs, ∀ t ∈ slabs, s ≠ t → Apart s t
  count : c.slabCount = slabs.length

variable {c c' c'' : KmemCache} {slabs : List Nat} {lists : SlabList → List Nat} {w w' : SlabList}
  {s t k : Nat}

theorem SlabOk.bitmapPtr_eq (h : SlabOk c w s) :
    c.bitmapPtr s = s + slabHeaderSize + c.objectsPerSlab * c.objectSize := by
  rw [bitmapPtr, h.start, h.count]

theorem SlabOk.congr (hok : SlabOk c w s) (hh : c'.header s = c.header s)
    (hn : c'.objectsPerSlab = c.objectsPerSlab) (hu : c'.usedBits s = c.usedBits s) : SlabOk c' w s := by
  rw [SlabOk, hh, hn, hu]
  exact hok

namespace Confined

theorem trans (h : Confined c c' s) (h' : Confined c' c'' s) : Confined c c'' s :=
  ⟨h'.objectSize.trans h.objectSize, h'.objectsPerSlab.trans h.objectsPerSlab,
    h'.slabCount.trans h.slabCount, fun t ht => (h'.header t ht).trans (h.header t ht),
    fun x hx => (h'.byte x hx).trans (h.byte x hx)⟩

theorem layout (h : Confined c c' s) (hl : c.Layout) : c'.Layout := by
  refine ⟨h.objectSize ▸ hl.size_pos, h.objectsPerSlab ▸ hl.count_pos, ?_⟩
  rw [h.objectSize, h.objectsPerSlab]
  exact hl.fits

variable (h : Confined c c' s) (hl : c.Layout) (hst : Apart s t) (hne : t ≠ s)

include h hl hst hne

theorem usedBits (hok : SlabOk c w t) : c'.usedBits t = c.usedBits t := by
  rw [KmemCache.usedBits, KmemCache.usedBits, KmemCache.bitmapPtr, KmemCache.bitmapPtr,
    h.header t hne, h.objectSize]
  refine setBits_congr fun i hi => h.byte _ ?_
  have hfits := hl.fits
  rw [hok.count] at hi
  rw [hok.start, hok.count]
  rcases hst with hst | hst <;> omega

theorem slabOk (hok : SlabOk c w t) : SlabOk c' w t :=
  hok.congr (h.header t hne) h.objectsPerSlab (h.usedBits hl hst hne hok)

end Confined

def Relisted (c c' : KmemCache) : Prop :=
  ∃ heads links, c' = { c with heads := heads, links := links }

theorem Relisted.confined (h : Relisted c c') (s : Nat) : Confined c c' s := by
  obtain ⟨_, _, rfl⟩ := h
  exact ⟨rfl, rfl, rfl, fun _ _ => rfl, fun _ _ => rfl⟩

theorem Relisted.usedBits (h : Relisted c c') (s : Nat) : c'.usedBits s = c.usedBits s := by
  obtain ⟨_, _, rfl⟩ := h
  rfl

theorem Relisted.slabOk (h : Relisted c c') (hok : SlabOk c w s) : SlabOk c' w s := by
  obtain ⟨_, _, rfl⟩ := h
  exact hok.congr rfl rfl rfl

theorem listRemove_relisted (c : KmemCache) (w : SlabList) (s : Nat) : Relisted c (c.listRemove w s) := by
  unfold listRemove
  split <;> exact ⟨_, _, rfl⟩

theorem move_relisted (c : KmemCache) (w w' : SlabList) (s : Nat) :
    Relisted c ((c.listRemove w s).listPushFront w' s) := by
  obtain ⟨heads, links, h⟩ := listRemove_relisted c w s
  rw [h]
  exact ⟨_, _, rfl⟩

theorem listRemove_of_empty (h : c.heads w = none) (s : Nat) : c.listRemove w s = c := by
  unfold listRemove
  rw [h]

theorem listRemove_of_unlinked (hn : c.links.next s = none) (hp : c.links.prev s = none)
    (hh : c.heads w ≠ some s) : c.listRemove w s = c := by
  unfold listRemove
  cases hhead : c.heads w with
  | none => rfl
  | some head =>
    have hne : head ≠ s := by
      rintro rfl
      exact hh hhead
    have hlinks : (c.links.setPrev s none).setNext s none = c.links := by
      have hn' : update c.links.next s none = c.links.next := by
        rw [← hn, update_eq_self]
      have hp' : update c.links.prev s none = c.links.prev := by
        rw [← hp, update_eq_self]
      rw [setNext, setPrev, hn', hp']
    simp only [hne, if_false, hn, hp, setPrev?, setNext?, hlinks]

section

variable (h : Chains c.links c.heads lists) (hs : s ∈ lists w)

include h hs

theorem listRemove_eq : c.listRemove w s = { c with
      heads := if c.links.prev s = none then update c.heads w (c.links.next s)
        else c.heads
      links := ((c.links.relink s).setPrev s none).setNext s none } := by
  have hiff := (h.chain w).prev_eq_none_iff (h.nodup w) hs
  unfold listRemove
  cases hhead : c.heads w with
  | none =>
    have := (h.chain w).head_eq
    rw [hhead, eq_comm, head?_eq_none_iff] at this
    rw [this] at hs
    exact absurd hs not_mem_nil
  | some head =>
    rw [hhead, Option.some.injEq] at hiff
    by_cases hprev : c.links.prev s = none
    · simp [hiff.mp hprev, hprev, relink, setNext?]
    · simp only [mt hiff.mpr hprev, hprev, if_false, relink]
      cases c.links.next s <;> cases c.links.prev s <;> rfl

theorem listRemove_chains : Chains (c.listRemove w s).links (c.listRemove w s).heads
      (update lists w ((lists w).erase s)) := by
  rw [listRemove_eq h hs]
  refine (h.relink hs).frame ?_ ?_
  all_goals
    intro j y hy
    have hne := ((h.mem_erase_iff hs).mp hy).2
    simp [setNext, setPrev, update_of_ne hne]

theorem listRemove_unlinks :
    (c.listRemove w s).links.next s = none ∧ (c.listRemove w s).links.prev s = none := by
  rw [listRemove_eq h hs]
  simp [setNext, setPrev]

end

def moved (lists : SlabList → List Nat) (w w' : SlabList) (s : Nat) : SlabList → List Nat :=
  let rest := update lists w ((lists w).erase s)
  update rest w' (s :: rest w')

theorem mem_moved (h : Chains c.links c.heads lists) (hs : s ∈ lists w) {j : SlabList} :
    t ∈ moved lists w w' s j ↔ (j = w' ∧ t = s) ∨ (t ∈ lists j ∧ t ≠ s) := by
  rw [moved, Chains.mem_cons_iff, h.mem_erase_iff hs]

namespace SlabsOk

theorem mem_slabs (h : SlabsOk c slabs lists) (hs : s ∈ lists w) : s ∈ slabs :=
  (h.listed s).mpr ⟨w, hs⟩

section

variable (h : SlabsOk c slabs lists) (hs : s ∈ lists w) (hc : Confined c c' s)

include h hs hc

theorem others (ht : t ∈ lists w') (hne : t ≠ s) : SlabOk c' w' t :=
  hc.slabOk h.layout (h.apart s (h.mem_slabs hs) t (h.mem_slabs ht) hne.symm) hne (h.ok w' t ht)

theorem stay (hl : c'.links = c.links) (hh : c'.heads = c.heads) (hok : SlabOk c' w s) :
    SlabsOk c' slabs lists := by
  refine ⟨hc.layout h.layout, ?_, h.listed, fun w' t ht => ?_, h.apart, hc.slabCount.trans h.count⟩
  · rw [hl, hh]
    exact h.chains
  · by_cases hne : t = s
    · subst hne
      rw [h.chains.apart _ _ _ ht hs]
      exact hok
    · exact h.others hs hc ht hne

theorem move (hl : c'.links = c.links) (hh : c'.heads = c.heads) (hok : SlabOk c' w' s) :
    SlabsOk ((c'.listRemove w s).listPushFront w' s) slabs (moved lists w w' s) := by
  have hch : Chains c'.links c'.heads lists := by
    rw [hl, hh]
    exact h.chains
  have hre := move_relisted c' w w' s
  have hconf := hc.trans (hre.confined s)
  refine ⟨hconf.layout h.layout, (listRemove_chains hch hs).pushFront
      fun j hj => ((hch.mem_erase_iff hs).mp hj).2 rfl, fun t => ?_, fun j t ht => hre.slabOk ?_,
    h.apart, hconf.slabCount.trans h.count⟩
  · rw [h.listed t]
    constructor
    · rintro ⟨j, hj⟩
      by_cases hne : t = s
      · exact ⟨w', (mem_moved hch hs).mpr (.inl ⟨rfl, hne⟩)⟩
      · exact ⟨j, (mem_moved hch hs).mpr (.inr ⟨hj, hne⟩)⟩
    · rintro ⟨j, hj⟩
      rcases (mem_moved hch hs).mp hj with ⟨-, rfl⟩ | ⟨hj, -⟩
      · exact ⟨w, hs⟩
      · exact ⟨j, hj⟩
  · rcases (mem_moved hch hs).mp ht with ⟨rfl, rfl⟩ | ⟨ht, hne⟩
    · exact hok
    · exact h.others hs hc ht hne

theorem move_spec {used : Finset Nat} (hl : c'.links = c.links) (hh : c'.heads = c.heads)
    (hu : c'.usedBits s = used) (hok : SlabOk c' w' s) :
    SlabsOk ((c'.listRemove w s).listPushFront w' s) slabs (moved lists w w' s) ∧
      Confined c ((c'.listRemove w s).listPushFront w' s) s ∧
      ((c'.listRemove w s).listPushFront w' s).usedBits s = used := by
  have hre := move_relisted c' w w' s
  exact ⟨h.move hs hc hl hh hok, hc.trans (hre.confined s), (hre.usedBits s).trans hu⟩

end

end SlabsOk

theorem setHeader_setHeader (c : KmemCache) (s : Nat) (h h' : SlabHeader) :
    (c.setHeader s h).setHeader s h' = c.setHeader s h' := by
  simp [setHeader]

theorem SlabOk.rewrite {m : Nat → BitVec 8} {used : Finset Nat} {active : Nat}
    (hok : SlabOk c w s) (w' : SlabList) (full : Bool)
    (hm : ∀ x, x < s ∨ s + slabDefaultSize ≤ x → m x = c.byte x)
    (hused : setBits m (c.bitmapPtr s) (c.header s).objCount = used)
    (hlt : ∀ k ∈ used, k < c.objectsPerSlab) (ha : active = used.card)
    (hfull : full = true ↔ w' = .slabsFull) (hlevel : Level w' active c.objectsPerSlab) :
    let c' := { c with byte := m }.setHeader s { c.header s with activeCount := active, isFull := full }
    Confined c c' s ∧ c'.usedBits s = used ∧ SlabOk c' w' s := by
  intro c'
  have hh : c'.header s = { c.header s with activeCount := active, isFull := full } :=
    update_self ..
  have hu : c'.usedBits s = used := by
    rw [← hused, usedBits, bitmapPtr, bitmapPtr, hh]
    rfl
  refine ⟨⟨rfl, rfl, rfl, fun t ht => update_of_ne ht _ _, hm⟩, hu, ?_⟩
  rw [SlabOk, hh, hu]
  exact ⟨hok.start, hok.count, hlt, ha, hfull, hlevel⟩

theorem SlabOk.bitmap_inside (hok : SlabOk c w s) (hl : c.Layout) (hk : k < c.objectsPerSlab) {x : Nat}
    (hx : x < s ∨ s + slabDefaultSize ≤ x) : x ≠ c.bitmapPtr s + k / 8 := by
  have hfits := hl.fits
  have hbyte := lt_bytesFor hk
  rw [hok.bitmapPtr_eq]
  omega

theorem SlabOk.active_le (hok : SlabOk c w s) : (c.header s).activeCount ≤ c.objectsPerSlab := by
  rw [hok.active, ← Finset.card_range c.objectsPerSlab]
  exact Finset.card_le_card fun k hk => Finset.mem_range.mpr (hok.used k hk)

theorem SlabOk.findFreeBit_spec (hok : SlabOk c w s) (hroom : (c.header s).activeCount < c.objectsPerSlab) :
    ∃ k, c.findFreeBit s = some k ∧ k < c.objectsPerSlab ∧ k ∉ c.usedBits s := by
  rw [hok.active, ← Finset.card_range c.objectsPerSlab] at hroom
  obtain ⟨k, hk, hnot⟩ := Finset.exists_mem_notMem_of_card_lt_card hroom
  rw [Finset.mem_range, ← hok.count] at hk
  have hclear {j : Nat} (hj : j < (c.header s).objCount) :
      j ∉ c.usedBits s ↔ bitAt c.byte (c.bitmapPtr s) j = false := by
    have := lt_bytesFor hj
    rw [usedBits, mem_setBits, not_and, Bool.not_eq_true]
    exact ⟨fun h => h (by omega), fun h _ => h⟩
  obtain ⟨j, hj⟩ := firstClear_isSome hk ((hclear hk).mp hnot)
  have hspec := firstClear_some hj
  exact ⟨j, hj, hok.count ▸ hspec.1, (hclear hspec.1).mpr hspec.2⟩

theorem remove_both (h : Chains c.links c.heads lists) (hs : s ∈ lists w)
    (hw : w = .slabsPartial ∨ (w = .slabsFree ∧ c.heads .slabsPartial = none)) :
    (c.listRemove .slabsPartial s).listRemove .slabsFree s = c.listRemove w s := by
  rcases hw with rfl | ⟨rfl, hempty⟩
  · have hun := listRemove_unlinks h hs
    have hch := (listRemove_chains h hs).chain .slabsFree
    refine listRemove_of_unlinked hun.1 hun.2 (fun hhead => ?_)
    rw [hch.head_eq] at hhead
    exact ((h.mem_erase_iff hs).mp (mem_of_head? hhead)).2 rfl
  · rw [listRemove_of_empty hempty]

def grown (c : KmemCache) (s k : Nat) (full : Bool) : KmemCache :=
  { c with byte := setBitAt c.byte (c.bitmapPtr s) k }.setHeader s
    { c.header s with activeCount := (c.header s).activeCount + 1, isFull := full }

theorem allocFromSlab_eq (hok : SlabOk c w s) (hw : w ≠ .slabsFull) (hfind : c.findFreeBit s = some k) :
    c.allocFromSlab s = (if (c.header s).activeCount + 1 ≥ (c.header s).objCount then
        (((grown c s k true).listRemove .slabsPartial s).listRemove .slabsFree s).listPushFront .slabsFull s
      else if (c.header s).activeCount + 1 = 1 then
        ((grown c s k false).listRemove .slabsFree s).listPushFront .slabsPartial s
      else grown c s k false, some (s + slabHeaderSize + k * c.objectSize)) := by
  have hnotFull : (c.header s).isFull = false := by
    rw [← Bool.not_eq_true, hok.full]
    exact hw
  have hobj : (grown c s k false).objectPtr s k = s + slabHeaderSize + k * c.objectSize := by
    simp only [objectPtr, grown, setHeader, update_self, hok.start]
  have hset : (c.setBit s k).setHeader s
      { c.header s with activeCount := (c.header s).activeCount + 1 } = grown c s k false := by
    rw [← hnotFull]
    rfl
  unfold allocFromSlab
  simp only [hfind]
  rw [show (c.setBit s k).header s = c.header s from rfl, hset, hobj]
  have hset' (hd : SlabHeader) : (grown c s k false).setHeader s hd =
      (c.setBit s k).setHeader s hd := setHeader_setHeader ..
  rw [hset']
  split_ifs <;> rfl

theorem SlabOk.grow_one (hok : SlabOk c w s) (hl : c.Layout) (hk : k < c.objectsPerSlab)
    (hnew : k ∉ c.usedBits s) (w' : SlabList) (full : Bool) (hfull : full = true ↔ w' = .slabsFull)
    (hlevel : Level w' ((c.header s).activeCount + 1) c.objectsPerSlab) :
    Confined c (grown c s k full) s ∧ (grown c s k full).usedBits s = insert k (c.usedBits s) ∧
      SlabOk (grown c s k full) w' s := by
  have hbytes : ∀ x, x < s ∨ s + slabDefaultSize ≤ x →
      setBitAt c.byte (c.bitmapPtr s) k x = c.byte x := fun x hx =>
    update_of_ne (hok.bitmap_inside hl hk hx) _ _
  have hused : setBits (setBitAt c.byte (c.bitmapPtr s) k) (c.bitmapPtr s) (c.header s).objCount =
      insert k (c.usedBits s) := setBits_setBitAt (hok.count ▸ hk)
  have hlt : ∀ j ∈ insert k (c.usedBits s), j < c.objectsPerSlab := by
    intro j hj
    rcases Finset.mem_insert.mp hj with rfl | hj
    · exact hk
    · exact hok.used j hj
  have hcard : (c.header s).activeCount + 1 = (insert k (c.usedBits s)).card := by
    rw [Finset.card_insert_of_notMem hnew, hok.active]
  exact hok.rewrite w' full hbytes hused hlt hcard hfull hlevel

theorem allocFromSlab_spec (h : SlabsOk c slabs lists) (hs : s ∈ lists w)
    (hw : w = .slabsPartial ∨ (w = .slabsFree ∧ c.heads .slabsPartial = none)) :
    ∃ c' k lists', c.allocFromSlab s = (c', some (s + slabHeaderSize + k * c.objectSize)) ∧
      k < c.objectsPerSlab ∧ k ∉ c.usedBits s ∧ SlabsOk c' slabs lists' ∧ Confined c c' s ∧
      c'.usedBits s = insert k (c.usedBits s) := by
  have hok := h.ok w s hs
  have hl := h.layout
  have hlevel := hok.level
  have hroom : (c.header s).activeCount < c.objectsPerSlab := by
    rcases hw with rfl | ⟨rfl, -⟩
    · exact hlevel.1
    · have := hl.count_pos
      simp only [Level] at hlevel
      omega
  have hnotFull : w ≠ .slabsFull := by
    rcases hw with rfl | ⟨rfl, -⟩ <;> decide
  obtain ⟨k, hfind, hk, hnew⟩ := hok.findFreeBit_spec hroom
  rw [allocFromSlab_eq hok hnotFull hfind, hok.count]
  by_cases hfull : (c.header s).activeCount + 1 ≥ c.objectsPerSlab
  · obtain ⟨hconf, hu, hok'⟩ := hok.grow_one hl hk hnew .slabsFull true (by simp)
      (by simp only [Level]; omega)
    have hch : Chains (grown c s k true).links (grown c s k true).heads lists := h.chains
    rw [if_pos hfull, remove_both hch hs hw]
    exact ⟨_, k, _, rfl, hk, hnew, h.move_spec hs hconf rfl rfl hu hok'⟩
  · obtain ⟨hconf, hu, hok'⟩ := hok.grow_one hl hk hnew .slabsPartial false (by simp) ⟨by omega, by omega⟩
    rw [if_neg hfull]
    by_cases hone : (c.header s).activeCount + 1 = 1
    · have hfree : w = .slabsFree := by
        rcases hw with rfl | ⟨rfl, -⟩
        · have := hlevel.2 (by omega)
          omega
        · rfl
      subst hfree
      rw [if_pos hone]
      exact ⟨_, k, _, rfl, hk, hnew, h.move_spec hs hconf rfl rfl hu hok'⟩
    · have hpart : w = .slabsPartial := by
        rcases hw with rfl | ⟨rfl, -⟩
        · rfl
        · simp only [Level] at hlevel
          omega
      subst hpart
      rw [if_neg hone]
      exact ⟨_, k, _, rfl, hk, hnew, h.stay hs hconf rfl rfl hok', hconf, hu⟩

def opened (c : KmemCache) (p : Nat) : KmemCache :=
  { c with
    header := update c.header p ⟨p + slabHeaderSize, c.objectsPerSlab, 0, false⟩
    links := (c.links.setPrev p none).setNext p none
    byte := fun x =>
      if p + slabHeaderSize + c.objectsPerSlab * c.objectSize ≤ x ∧
          x < p + slabHeaderSize + c.objectsPerSlab * c.objectSize + bytesFor c.objectsPerSlab
      then 0#8 else c.byte x }

def joined (c : KmemCache) (p : Nat) : KmemCache :=
  { opened c p with
    links := (opened c p).links.pushFront (c.heads .slabsFree) p
    heads := update c.heads .slabsFree (some p)
    slabCount := c.slabCount + 1 }

theorem newSlab_eq (hl : c.Layout) (p : Nat) : c.newSlab (some p) = (opened c p, some p) := by
  have hfits := hl.fits
  simp only [newSlab, bitmapPtr, setHeader, update_self]
  rw [if_neg (by omega)]
  rfl

theorem linkNew_opened (c : KmemCache) (p : Nat) : (opened c p).linkNew p = joined c p := by
  have hprev : (opened c p).links.setPrev p none = (opened c p).links := by
    simp [opened, setPrev, setNext]
  rw [joined, pushFront, hprev]
  rfl

theorem opened_confined (hl : c.Layout) (p : Nat) : Confined c (opened c p) p := by
  have hfits := hl.fits
  refine ⟨rfl, rfl, rfl, fun t ht => update_of_ne ht _ _, fun x hx => if_neg ?_⟩
  omega

theorem opened_usedBits (c : KmemCache) (p : Nat) : (opened c p).usedBits p = ∅ := by
  refine Finset.eq_empty_of_forall_notMem fun k hk => ?_
  simp only [usedBits, bitmapPtr, opened, update_self, mem_setBits, bitAt] at hk
  rw [if_pos (by omega)] at hk
  simp at hk

theorem opened_slabOk (c : KmemCache) (p : Nat) : SlabOk (opened c p) .slabsFree p := by
  have hh : (opened c p).header p = ⟨p + slabHeaderSize, c.objectsPerSlab, 0, false⟩ :=
    update_self ..
  rw [SlabOk, hh, opened_usedBits]
  exact ⟨rfl, rfl, by simp, rfl, by simp, rfl⟩

theorem not_apart_self (p : Nat) : ¬Apart p p := by
  simp only [Apart, slabDefaultSize]
  omega

theorem joined_slabsOk (h : SlabsOk c slabs lists) {p : Nat} (hp : ∀ t ∈ slabs, Apart p t) :
    SlabsOk (joined c p) (p :: slabs) (update lists .slabsFree (p :: lists .slabsFree)) := by
  have hnew : ∀ t ∈ slabs, t ≠ p := by
    rintro t ht rfl
    exact not_apart_self t (hp t ht)
  have hout : ∀ w, p ∉ lists w := fun w hw => hnew p (h.mem_slabs hw) rfl
  have hconf := opened_confined h.layout p
  have hch : Chains (opened c p).links c.heads lists := by
    refine h.chains.frame ?_ ?_
    all_goals
      intro w y hy
      have hne := hnew y (h.mem_slabs hy)
      simp [opened, setNext, setPrev, update_of_ne hne]
  have hl := h.layout
  refine ⟨⟨hl.size_pos, hl.count_pos, hl.fits⟩, hch.pushFront hout, fun t => ?_, fun w t ht => ?_, ?_, ?_⟩
  · rw [mem_cons, h.listed]
    constructor
    · rintro (rfl | ⟨w, hw⟩)
      · exact ⟨.slabsFree, Chains.mem_cons_iff.mpr (.inl ⟨rfl, rfl⟩)⟩
      · exact ⟨w, Chains.mem_cons_iff.mpr (.inr hw)⟩
    · rintro ⟨w, hw⟩
      rcases Chains.mem_cons_iff.mp hw with ⟨-, rfl⟩ | hw
      · exact .inl rfl
      · exact .inr ⟨w, hw⟩
  · have hok : SlabOk (opened c p) w t := by
      rcases Chains.mem_cons_iff.mp ht with ⟨rfl, rfl⟩ | ht
      · exact opened_slabOk c t
      · have hmem := h.mem_slabs ht
        exact hconf.slabOk h.layout (hp t hmem) (hnew t hmem) (h.ok w t ht)
    exact hok.congr rfl rfl rfl
  · intro t ht t' ht' hne
    rcases mem_cons.mp ht with rfl | hold <;> rcases mem_cons.mp ht' with rfl | hold'
    · exact absurd rfl hne
    · exact hp t' hold'
    · exact Or.symm (hp t hold)
    · exact h.apart t hold t' hold' hne
  · exact congrArg (· + 1) h.count

theorem walkList_eq {prev head : Option Nat} {xs : List Nat} {obj fuel : Nat}
    (hch : Chain c.links prev head xs) (hfuel : xs.length ≤ fuel) :
    c.walkList obj fuel head = xs.find? (fun t =>
      decide ((c.header t).startAddr ≤ obj ∧
        obj < (c.header t).startAddr + (c.header t).objCount * c.objectSize)) := by
  induction xs generalizing prev head fuel with
  | nil =>
    obtain rfl : head = none := hch
    cases fuel <;> rfl
  | cons x xs ih =>
    obtain ⟨rfl, -, hrest⟩ := hch
    cases fuel with
    | zero => simp at hfuel
    | succ fuel =>
      rw [find?_cons, walkList]
      have hih := ih hrest (by simpa using hfuel)
      by_cases hx : (c.header x).startAddr ≤ obj ∧
          obj < (c.header x).startAddr + (c.header x).objCount * c.objectSize
      · simp [hx]
      · simp [hx, hih]

section

variable {obj : Nat} (h : SlabsOk c slabs lists) (hs : s ∈ slabs)
  (hobj : s + slabHeaderSize ≤ obj ∧ obj < s + slabHeaderSize + c.objectsPerSlab * c.objectSize)

include h hs hobj

theorem SlabsOk.walk (w : SlabList) :
    c.walkList obj c.slabCount (c.heads w) = if s ∈ lists w then some s else none := by
  have hlen : (lists w).length ≤ c.slabCount := by
    rw [h.count]
    exact ((h.chains.nodup w).subperm fun t ht => h.mem_slabs ht).length_le
  have hfits := h.layout.fits
  rw [walkList_eq (h.chains.chain w) hlen]
  have hiff : ∀ t ∈ lists w, ((c.header t).startAddr ≤ obj ∧
      obj < (c.header t).startAddr + (c.header t).objCount * c.objectSize) ↔ t = s := by
    intro t ht
    have hok := h.ok w t ht
    rw [hok.start, hok.count]
    constructor
    · intro hin
      by_contra hne
      rcases h.apart t (h.mem_slabs ht) s hs hne with hap | hap <;> omega
    · rintro rfl
      exact hobj
  by_cases hmem : s ∈ lists w
  · rw [if_pos hmem]
    cases hf : (lists w).find? _ with
    | none => exact absurd ((hiff s hmem).mpr rfl) (by simpa using find?_eq_none.mp hf s hmem)
    | some t =>
      have ht := find?_some hf
      rw [(hiff t (mem_of_find?_eq_some hf)).mp (of_decide_eq_true ht)]
  · rw [if_neg hmem, find?_eq_none]
    intro t ht hin
    exact hmem ((hiff t ht).mp (of_decide_eq_true hin) ▸ ht)

theorem SlabsOk.findObjectSlab_eq : c.findObjectSlab obj = some s := by
  obtain ⟨w, hw⟩ := (h.listed s).mp hs
  unfold findObjectSlab
  rw [h.walk hs hobj, h.walk hs hobj, h.walk hs hobj]
  cases w with
  | slabsFull => by_cases hp : s ∈ lists .slabsPartial <;> simp [hp, hw]
  | slabsPartial => simp [hw]
  | slabsFree =>
    by_cases hp : s ∈ lists .slabsPartial
    · simp [hp]
    · by_cases hf : s ∈ lists .slabsFull <;> simp [hp, hf, hw]

end

structure Holds (c : KmemCache) (slabs objs : List Nat) : Prop where
  nodup : objs.Nodup
  mem_iff : ∀ o, o ∈ objs ↔ ∃ s ∈ slabs, ∃ k ∈ c.usedBits s, o = s + slabHeaderSize + k * c.objectSize

variable {objs : List Nat} {o : Nat}

theorem SlabsOk.object_inj (h : SlabsOk c slabs lists) (hs : s ∈ slabs) (ht : t ∈ slabs) {j : Nat}
    (hk : k < c.objectsPerSlab) (hj : j < c.objectsPerSlab)
    (he : s + slabHeaderSize + k * c.objectSize = t + slabHeaderSize + j * c.objectSize) :
    s = t ∧ k = j := by
  have hfits := h.layout.fits
  have hpos := h.layout.size_pos
  have hk' := record_end hk c.objectSize
  have hj' := record_end hj c.objectSize
  have hst : s = t := by
    by_contra hne
    rcases h.apart s hs t ht hne with hap | hap <;> omega
  subst hst
  exact ⟨rfl, Nat.eq_of_mul_eq_mul_right hpos (by omega)⟩

theorem SlabsOk.used_lt (h : SlabsOk c slabs lists) (hs : s ∈ slabs) (hk : k ∈ c.usedBits s) :
    k < c.objectsPerSlab := by
  obtain ⟨w, hw⟩ := (h.listed s).mp hs
  exact (h.ok w s hw).used k hk

theorem SlabsOk.usedBits_other (h : SlabsOk c slabs lists) (hs : s ∈ slabs) (hc : Confined c c' s)
    (ht : t ∈ slabs) (hne : t ≠ s) : c'.usedBits t = c.usedBits t := by
  obtain ⟨w, hw⟩ := (h.listed t).mp ht
  exact hc.usedBits h.layout (h.apart s hs t ht hne.symm) hne (h.ok w t hw)

theorem allocFromSlab_holds (h : SlabsOk c slabs lists) (hh : Holds c slabs objs) (hs : s ∈ lists w)
    (hw : w = .slabsPartial ∨ (w = .slabsFree ∧ c.heads .slabsPartial = none)) :
    ∃ c' o lists', c.allocFromSlab s = (c', some o) ∧ SlabsOk c' slabs lists' ∧
      Holds c' slabs (o :: objs) := by
  obtain ⟨c', k, lists', heq, hk, hnew, hslabs, hconf, hu⟩ := allocFromSlab_spec h hs hw
  have hmem := h.mem_slabs hs
  refine ⟨c', _, lists', heq, hslabs, nodup_cons.mpr ⟨fun hold => ?_, hh.nodup⟩, fun o => ?_⟩
  · obtain ⟨t, ht, j, hj, he⟩ := (hh.mem_iff _).mp hold
    obtain ⟨rfl, rfl⟩ := h.object_inj hmem ht hk (h.used_lt ht hj) he
    exact hnew hj
  · rw [mem_cons, hh.mem_iff, hconf.objectSize]
    constructor
    · rintro (rfl | ⟨t, ht, j, hj, rfl⟩)
      · exact ⟨s, hmem, k, by simp [hu], rfl⟩
      · by_cases hne : t = s
        · subst hne
          exact ⟨t, ht, j, by simp [hu, hj], rfl⟩
        · exact ⟨t, ht, j, by rwa [h.usedBits_other hmem hconf ht hne], rfl⟩
    · rintro ⟨t, ht, j, hj, rfl⟩
      by_cases hne : t = s
      · subst hne
        rw [hu, Finset.mem_insert] at hj
        rcases hj with rfl | hj
        · exact .inl rfl
        · exact .inr ⟨t, ht, j, hj, rfl⟩
      · rw [h.usedBits_other hmem hconf ht hne] at hj
        exact .inr ⟨t, ht, j, hj, rfl⟩

end KmemCache

end AntX.Mm
