import AntX.Mm.Types

/-! The virtual memory areas of one address space: `framework/mm/vma.rs`. The
vector of areas is a list, scanned from the front as the source scans it. -/

namespace AntX.Mm

inductive VmaType
  | anonymous
  | fileBacked
  | stack
  | heap
  | vdso
  | vsvar
  | guard
  | device
deriving DecidableEq, Repr

abbrev VmFlags := BitVec 32

namespace VmFlags

def mlocked : VmFlags := 0x1#32
def madvDontneed : VmFlags := 0x10#32
def madvPageout : VmFlags := 0x20#32
def madvFree : VmFlags := 0x40#32
def madvRandom : VmFlags := 0x80#32
def madvSequential : VmFlags := 0x100#32
def madvWillneed : VmFlags := 0x200#32

def contains (f g : VmFlags) : Bool := f &&& g == g
def insert (f g : VmFlags) : VmFlags := f ||| g

end VmFlags

/-- The field `end` of the source is `stop`. -/
structure Vma where
  start : Nat
  stop : Nat
  flags : PageFlags
  vmaType : VmaType
  offset : Nat
  inodeId : Nat
  shared : Bool
  filePwm : Nat
  mountIdx : Option Nat
  vmFlags : VmFlags
deriving DecidableEq, Repr

def Vma.new (start stop : Nat) (flags : PageFlags) (vmaType : VmaType) : Vma :=
  { start, stop, flags, vmaType, offset := 0, inodeId := 0, shared := false, filePwm := 0,
    mountIdx := none, vmFlags := 0#32 }

def Vma.contains (v : Vma) (addr : Nat) : Bool := decide (v.start ≤ addr) && decide (addr < v.stop)

def Vma.isGuard (v : Vma) : Bool := v.vmaType = .guard

def Vma.isMlocked (v : Vma) : Bool := v.vmFlags.contains .mlocked

structure MmStruct where
  vmas : List Vma
  startBrk : Nat
  brk : Nat
  mmapBase : Nat
deriving DecidableEq, Repr

def MmStruct.new : MmStruct := { vmas := [], startBrk := 0, brk := 0, mmapBase := 0 }

def findVma (vmas : List Vma) (addr : Nat) : Option Vma := vmas.find? (·.contains addr)

def overlaps (vma existing : Vma) : Bool :=
  decide (vma.start < existing.stop) && decide (vma.stop > existing.start)

def sameMapping (existing vma : Vma) : Bool :=
  decide (existing.vmaType = vma.vmaType) && decide (existing.flags = vma.flags)

def mergeable (existing merged : Vma) : Bool :=
  sameMapping existing merged && decide (existing.filePwm = merged.filePwm)

/-- The merge loop: absorbed entries leave the vector, the others stay in place. -/
def mergeLoop (merged : Vma) : List Vma → Vma × List Vma
  | [] => (merged, [])
  | existing :: vmas =>
    if !mergeable existing merged then
      let result := mergeLoop merged vmas
      (result.1, existing :: result.2)
    else if merged.start ≤ existing.stop ∧ merged.stop ≥ existing.start then
      mergeLoop { merged with
        start := min merged.start existing.start
        stop := max merged.stop existing.stop } vmas
    else
      let result := mergeLoop merged vmas
      (result.1, existing :: result.2)

def insertAtPosition (merged : Vma) (vmas : List Vma) : List Vma :=
  vmas.takeWhile (fun v => !decide (v.start > merged.start)) ++
    merged :: vmas.dropWhile (fun v => !decide (v.start > merged.start))

def insertVma (vma : Vma) (vmas : List Vma) : Except String (List Vma) :=
  if vmas.any (fun existing => overlaps vma existing && !sameMapping existing vma) then
    .error "VMA overlap with incompatible mapping"
  else
    let result := mergeLoop vma vmas
    .ok (insertAtPosition result.1 result.2)

def removeRange (start stop : Nat) : List Vma → List Vma
  | [] => []
  | vma :: vmas =>
    if vma.stop ≤ start then vma :: removeRange start stop vmas
    else if vma.start ≥ stop then vma :: vmas
    else if start ≤ vma.start ∧ stop ≥ vma.stop then removeRange start stop vmas
    else if start ≤ vma.start then { vma with start := stop } :: removeRange start stop vmas
    else if stop ≥ vma.stop then { vma with stop := start } :: removeRange start stop vmas
    else
      Vma.new vma.start start vma.flags vma.vmaType ::
        Vma.new stop vma.stop vma.flags vma.vmaType :: removeRange start stop vmas

def findFreeLoop (size cursor : Nat) : List Vma → Option Nat
  | [] => if wadd cursor size ≤ userAddrMax then some cursor else none
  | vma :: vmas =>
    if wadd cursor size ≤ vma.start then some cursor else findFreeLoop size vma.stop vmas

def findFreeRange (mm : MmStruct) (size : Nat) : Option Nat :=
  findFreeLoop size mm.mmapBase mm.vmas

def protectPieces (start stop : Nat) (newFlags : PageFlags) (vma : Vma) : List Vma :=
  if vma.stop ≤ start ∨ vma.start ≥ stop then [vma]
  else
    (if vma.start < start then [{ vma with stop := start }] else []) ++
    [{ vma with start := max vma.start start, stop := min vma.stop stop, flags := newFlags }] ++
    (if vma.stop > stop then [{ vma with start := stop }] else [])

def protectTouches (start stop : Nat) : List Vma → Bool
  | [] => false
  | vma :: vmas =>
    if vma.stop ≤ start then protectTouches start stop vmas
    else if vma.start ≥ stop then false
    else true

def rangeEnd (start len : Nat) : Option Nat :=
  if start + len < 2 ^ 64 then some (pageUp (start + len)) else none

def mprotect (start len : Nat) (newFlags : PageFlags) (vmas : List Vma) : Except Errno (List Vma) :=
  if len = 0 then .error .einval
  else match rangeEnd start len with
    | none => .error .enomem
    | some stop =>
      if !protectTouches start stop vmas then .error .enomem
      else .ok (vmas.flatMap (protectPieces start stop newFlags))

def mremapMaymove : BitVec 32 := 1#32

def nextStart (boundary : Nat) (vmas : List Vma) : Nat :=
  vmas.foldl (fun next v => if v.start ≥ boundary ∧ v.start < next then v.start else next) (2 ^ 64 - 1)

def extendAt (oldAddr newStop : Nat) : List Vma → Option (List Vma)
  | [] => none
  | v :: vmas =>
    if v.start = oldAddr then some ({ v with stop := newStop } :: vmas)
    else (extendAt oldAddr newStop vmas).map (v :: ·)

section

variable (mm : MmStruct) (oldAddr oldSize newSize : Nat)

def extendInPlace : MmStruct × Except Errno Nat :=
  let boundary := wadd oldAddr oldSize
  let newStop := wadd boundary (newSize - oldSize)
  if nextStart boundary mm.vmas ≥ newStop then
    match extendAt oldAddr newStop mm.vmas with
    | some vmas => ({ mm with vmas }, .ok oldAddr)
    | none => (mm, .error .efault)
  else (mm, .error .efault)

/-- The growing branch with `MREMAP_MAYMOVE`: the old area is gone even when the
insertion of the new one fails. -/
def moveArea (oldVma : Vma) (oldAddr oldSize newSize : Nat) : MmStruct × Except Errno Nat :=
  match findFreeRange mm newSize with
  | none => (mm, .error .enomem)
  | some newStart =>
    let removed := removeRange oldAddr (wadd oldAddr oldSize) mm.vmas
    match insertVma { oldVma with start := newStart, stop := wadd newStart newSize } removed with
    | .error _ => ({ mm with vmas := removed }, .error .enomem)
    | .ok vmas => ({ mm with vmas }, .ok newStart)

def mremap (flags : BitVec 32) : MmStruct × Except Errno Nat :=
  if oldSize = 0 then (mm, .error .einval)
  else if flags &&& ~~~mremapMaymove ≠ 0#32 then (mm, .error .einval)
  else
    let oldAligned := pageUp oldSize
    match findVma mm.vmas oldAddr with
    | none => (mm, .error .efault)
    | some oldVma =>
      if oldVma.start ≠ oldAddr ∨ oldVma.stop ≠ wadd oldAddr oldAligned then (mm, .error .efault)
      else if newSize = 0 then
        ({ mm with vmas := removeRange oldAddr (wadd oldAddr oldAligned) mm.vmas }, .ok 0)
      else
        let newAligned := pageUp newSize
        if newAligned ≤ oldAligned then
          ({ mm with vmas :=
              removeRange (wadd oldAddr newAligned) (wadd oldAddr oldAligned) mm.vmas },
            .ok oldAddr)
        else if flags &&& mremapMaymove = 0#32 then extendInPlace mm oldAddr oldAligned newAligned
        else moveArea mm oldVma oldAddr oldAligned newAligned

end

def heapFlags : PageFlags := .present ||| .writable ||| .user

def setBrk (mm : MmStruct) (newBrk : Nat) : MmStruct × Except String Nat :=
  let pageAligned := pageUp newBrk
  if pageAligned > mm.startBrk then
    match insertVma (Vma.new mm.brk pageAligned heapFlags .heap) mm.vmas with
    | .error e => (mm, .error e)
    | .ok vmas => ({ mm with vmas, brk := pageAligned }, .ok pageAligned)
  else if pageAligned < mm.brk then
    ({ mm with brk := pageAligned, vmas := removeRange pageAligned mm.brk mm.vmas }, .ok pageAligned)
  else (mm, .ok mm.brk)

def adviceFlag : Nat → Option VmFlags
  | 4 => some .madvDontneed
  | 5 => some .madvPageout
  | 6 => some .madvFree
  | 1 => some .madvRandom
  | 2 => some .madvSequential
  | 3 => some .madvWillneed
  | _ => none

section

variable (start stop : Nat) (flag : VmFlags) (vma : Vma)

def adviseWhole : Vma :=
  if vma.stop ≤ start ∨ vma.start ≥ stop then vma
  else if vma.start ≥ start ∧ vma.stop ≤ stop then
    { vma with vmFlags := vma.vmFlags.insert flag }
  else vma

/-- The second loop: an area that sticks out is split. One that sticks out on
both sides is split at `start` only. -/
def advisePieces : List Vma :=
  if vma.stop ≤ start ∨ vma.start ≥ stop then [vma]
  else if vma.start < start then
    [{ vma with stop := start }, { vma with
        start
        offset := wadd vma.offset (start - vma.start)
        vmFlags := vma.vmFlags.insert flag }]
  else if vma.stop > stop then
    [{ vma with stop, vmFlags := vma.vmFlags.insert flag }, { vma with
        start := stop
        offset := wadd vma.offset (stop - vma.start) }]
  else [vma]

def touchedWhole (vma : Vma) : Option (Nat × Nat) :=
  if vma.stop ≤ start ∨ vma.start ≥ stop then none
  else if vma.start ≥ start ∧ vma.stop ≤ stop then
    some (max vma.start start, min vma.stop stop)
  else none

def touchedSplit (vma : Vma) : Option (Nat × Nat) :=
  if vma.stop ≤ start ∨ vma.start ≥ stop then none
  else if vma.start < start then some (start, vma.stop)
  else if vma.stop > stop then some (vma.start, stop)
  else none

end

def madviseEvictRange (vmas : List Vma) (range : Nat × Nat) : Except Errno Unit :=
  if vmas.any (fun v => decide (v.start ≤ range.1) && decide (v.stop ≥ range.2) && v.isMlocked) then
    .error .eagain
  else .ok ()

def madviseRange (start len advice : Nat) (vmas : List Vma) : List Vma × Except Errno Nat :=
  if len = 0 then (vmas, .error .einval)
  else match adviceFlag advice with
    | none => (vmas, .error .einval)
    | some flag =>
      match rangeEnd start len with
      | none => (vmas, .error .enomem)
      | some stop =>
        let whole := vmas.map (adviseWhole start stop flag)
        let split := whole.flatMap (advisePieces start stop flag)
        let touched := vmas.filterMap (touchedWhole start stop) ++ whole.filterMap (touchedSplit start stop)
        let locked := (touched.map fun r => r.2 - r.1).sum
        if flag = .madvPageout ∨ flag = .madvDontneed then
          match touched.forM (madviseEvictRange split) with
          | .error e => (split, .error e)
          | .ok _ => (split, .ok locked)
        else (split, .ok locked)

end AntX.Mm
