import AntX.Error
import AntX.Lib.FirstFit
import AntX.Lib.Memory

/-! Nodes, blocks and file data of services/fs/ramfs_core. Block number 0 in a pointer means that there
is no block; the outer `none` is an index out of bounds. -/

namespace AntX.Ramfs

open AntX.Lib Function

def ramfsMaxNodes : Nat := 256
def ramfsMaxBlocks : Nat := 2048
def ramfsBlockSize : Nat := 4096
def directBlocks : Nat := 12
def indirectBlocksPerBlock : Nat := 1024
def u32Max : Nat := 2 ^ 32 - 1

def dataLen : Nat := ramfsMaxBlocks * ramfsBlockSize

def indirectLimit : Nat := directBlocks + indirectBlocksPerBlock
def doubleIndirectLimit : Nat := indirectLimit + indirectBlocksPerBlock * indirectBlocksPerBlock

def fsCapRead : UInt64 := 1
def fsCapWrite : UInt64 := 2
def fsCapCreate : UInt64 := 8

inductive VfsFileType where
  | file
  | dir
  | dev
  | symlink
  deriving DecidableEq, Repr

def VfsFileType.toU8 : VfsFileType → UInt8
  | .file => 0
  | .dir => 1
  | .dev => 2
  | .symlink => 3

/-- Block numbers, sizes and counts are `u32`; `directBlocks` is read below `DIRECT_BLOCKS` only. -/
structure RamFsNode where
  nodeId : Nat
  fileType : VfsFileType
  sensitivity : UInt8
  ownerPwm : UInt64
  size : Nat
  directBlocks : Nat → Nat
  indirectBlock : Nat
  doubleIndirectBlock : Nat
  linkCount : Nat
  used : Bool

def RamFsNode.new : RamFsNode := ⟨0, .file, 0, 0, 0, fun _ => 0, 0, 0, 0, false⟩

structure RamFsACE where
  nodeId : Nat
  pwm : UInt64
  allowMask : UInt64
  denyMask : UInt64
  used : Bool

/-- A bit of `blockBitmap` that is set marks a used block. -/
structure RamFsData where
  nodes : Nat → RamFsNode
  dataArea : Memory
  blockBitmap : Nat → Bool
  aces : List RamFsACE
  rootNode : Nat

namespace RamFsData

variable (s : RamFsData)

def modifyNode (id : Nat) (f : RamFsNode → RamFsNode) : RamFsData :=
  { s with nodes := update s.nodes id (f (s.nodes id)) }

def blockIsFree (b : Nat) : Bool := b < ramfsMaxBlocks && !s.blockBitmap b

def blockSetUsed (b : Nat) : RamFsData :=
  if ramfsMaxBlocks ≤ b then s else { s with blockBitmap := update s.blockBitmap b true }

def blockSetFree (b : Nat) : RamFsData :=
  if ramfsMaxBlocks ≤ b then s else { s with blockBitmap := update s.blockBitmap b false }

def zeroBytes (start stop : Nat) : RamFsData :=
  { s with dataArea := s.dataArea.zero start stop }

def takeBlock (b : Nat) : RamFsData :=
  (s.blockSetUsed b).zeroBytes (b * ramfsBlockSize) (b * ramfsBlockSize + ramfsBlockSize)

/-- Takes the lowest free block and clears it; `u32::MAX` says that there is none. -/
def blockAlloc : Nat × RamFsData :=
  match firstFrom s.blockIsFree ramfsMaxBlocks 0 with
  | some b => (b, s.takeBlock b)
  | none => (u32Max, s)

/-- The same loop with the bit operations written out. -/
def allocBlockInternal : Nat × RamFsData := s.blockAlloc

def obtainBlock (current : Nat) (put : Nat → RamFsData → RamFsData) : Option Nat × RamFsData :=
  if current = 0 then
    let new := s.allocBlockInternal
    if new.1 = u32Max then (none, new.2) else (some new.1, put new.1 new.2)
  else (some current, s)

def ptrAddr (index i : Nat) : Nat := index * ramfsBlockSize + i * 4

def readU32 (addr : Nat) : Option Nat :=
  if addr + 4 ≤ dataLen then some (s.dataArea.word addr) else none

/-- Every address that is written was read before. -/
def writeU32 (addr v : Nat) : RamFsData :=
  { s with dataArea := s.dataArea.store addr (leBytes 4 v) }

def entryBlock (index i : Nat) : Option (Option Nat × RamFsData) :=
  (s.readU32 (ptrAddr index i)).map fun current =>
    s.obtainBlock current fun b s => s.writeU32 (ptrAddr index i) b

def follow (r : Option Nat × RamFsData) (next : Nat → RamFsData → Option (Option Nat × RamFsData)) :
    Option (Option Nat × RamFsData) :=
  match r with
  | (some b, s) => next b s
  | (none, s) => some (none, s)

def setDirect (id i b : Nat) (s : RamFsData) : RamFsData :=
  s.modifyNode id fun n => { n with directBlocks := update n.directBlocks i b }

def setIndirect (id b : Nat) (s : RamFsData) : RamFsData :=
  s.modifyNode id fun n => { n with indirectBlock := b }

def setDoubleIndirect (id b : Nat) (s : RamFsData) : RamFsData :=
  s.modifyNode id fun n => { n with doubleIndirectBlock := b }

def getOrAllocBlock (id idx : Nat) : Option (Option Nat × RamFsData) :=
  let node := s.nodes id
  if idx < directBlocks then some (s.obtainBlock (node.directBlocks idx) (setDirect id idx))
  else if idx < indirectLimit then
    follow (s.obtainBlock node.indirectBlock (setIndirect id)) fun index s =>
      s.entryBlock index (idx - directBlocks)
  else if idx < doubleIndirectLimit then
    let offset := idx - indirectLimit
    follow (s.obtainBlock node.doubleIndirectBlock (setDoubleIndirect id)) fun double s =>
      (s.entryBlock double (offset / indirectBlocksPerBlock)).bind fun r =>
        follow r fun index s => s.entryBlock index (offset % indirectBlocksPerBlock)
  else some (none, s)

def freePointer (index : Nat) (s : RamFsData) (i : Nat) : Option RamFsData :=
  (s.readU32 (ptrAddr index i)).map fun b => if b = 0 then s else s.blockSetFree b

/-- Frees what the pointers `start`, …, `stop - 1` of an index block lead to, and the index block. -/
def freeIndirectChain (index start stop : Nat) : Option RamFsData :=
  if index = 0 then some s
  else
    let idxs := List.range' start (min stop indirectBlocksPerBlock - start)
    (idxs.foldlM (freePointer index) s).map fun s => s.blockSetFree index

/-- The turn for pointer `i` of the double-indirect block, which covers the pointers `first`, …,
`last - 1`; the first and the last chain are freed in part. -/
def freeChainAt (double start stop first last : Nat) (s : RamFsData) (i : Nat) : Option RamFsData :=
  (s.readU32 (ptrAddr double i)).bind fun index =>
    let localStart := if i = first then start % indirectBlocksPerBlock else 0
    let localEnd := if i = last - 1 then stop % indirectBlocksPerBlock else indirectBlocksPerBlock
    if index ≠ 0 ∧ localStart < localEnd then s.freeIndirectChain index localStart localEnd else some s

def freeDoubleIndirectChain (double start stop : Nat) : Option RamFsData :=
  if double = 0 then some s
  else
    let first := start / indirectBlocksPerBlock
    let last := (stop + indirectBlocksPerBlock - 1) / indirectBlocksPerBlock
    let idxs := List.range' first (min last indirectBlocksPerBlock - first)
    (idxs.foldlM (freeChainAt double start stop first last) s).map fun s => s.blockSetFree double

/-- `blocks_to_free`: the direct blocks `first`, …, `stop - 1` that are there. -/
def directIn (node : RamFsNode) (first stop : Nat) : List Nat :=
  ((List.range' first (stop - first)).map node.directBlocks).filter (· ≠ 0)

def freeDirect (id first stop : Nat) : RamFsData :=
  ((directIn (s.nodes id) first stop).foldl blockSetFree s).modifyNode id fun n =>
    { n with directBlocks := fun i => if first ≤ i ∧ i < stop then 0 else n.directBlocks i }

end RamFsData

structure PwmApi where
  privilegeLevel : UInt64 → UInt8
  fsCapability : UInt64 → UInt64
  hasCapability : UInt64 → UInt16 → UInt64 → Bool

def clearance (level : UInt8) : UInt8 :=
  if level ≤ 1 then 255 else if level = 2 then 128 else 64

/-- The first entry for the node and the caller that speaks of the capability decides. -/
def aceVerdict (ino : Nat) (pwm cap : UInt64) : List RamFsACE → Option Bool
  | [] => none
  | ace :: aces =>
    if ace.used ∧ ace.nodeId = ino ∧ (ace.pwm = 0 ∨ ace.pwm = pwm) then
      if ace.denyMask &&& cap ≠ 0 then some false
      else if ace.allowMask &&& cap ≠ 0 then some true
      else aceVerdict ino pwm cap aces
    else aceVerdict ino pwm cap aces

namespace RamFsData

def checkPermission (api : PwmApi) (s : RamFsData) (node : RamFsNode) (pwm cap : UInt64) : Bool :=
  let level := api.privilegeLevel pwm
  if level = 0xFF then false
  else if 0 < level ∧ 0 < node.sensitivity ∧ clearance level < node.sensitivity then false
  else
    match aceVerdict node.nodeId pwm cap s.aces with
    | some verdict => verdict
    | none =>
      api.fsCapability pwm &&& cap == cap ||
        (node.ownerPwm != 0 && node.ownerPwm != pwm && api.hasCapability pwm 1 cap)

/-- Reads into the rest of the buffer; answers it, and how many bytes were counted as read. A turn that
gets no block leaves its part of the buffer as it is. -/
def readLoop (id size : Nat) :
    (fuel : Nat) → RamFsData → (offset : Nat) → List UInt8 → Option (List UInt8 × Nat × RamFsData)
  | 0, s, _, buf => some (buf, 0, s)
  | fuel + 1, s, offset, buf =>
    if buf = [] ∨ size ≤ offset then some (buf, 0, s)
    else
      let n := min (min (ramfsBlockSize - offset % ramfsBlockSize) buf.length) (size - offset)
      (s.getOrAllocBlock id (offset / ramfsBlockSize)).bind fun r =>
        let chunk :=
          match r.1 with
          | some b =>
            let start := b * ramfsBlockSize + offset % ramfsBlockSize
            if start + n ≤ dataLen then r.2.dataArea.load start n else buf.take n
          | none => buf.take n
        (readLoop id size fuel r.2 (offset + n) (buf.drop n)).map fun rest =>
          (chunk ++ rest.1, n + rest.2.1, rest.2.2)

/-- Every turn takes at least one byte, so the length of the buffer bounds the turns. -/
def read (api : PwmApi) (s : RamFsData) (id offset : Nat) (buf : List UInt8) (pwm : UInt64) :
    Option (Except KernelError Nat × List UInt8 × RamFsData) :=
  if ramfsMaxNodes ≤ id then none
  else if s.checkPermission api (s.nodes id) pwm fsCapRead then
    (readLoop id (s.nodes id).size buf.length s offset buf).map fun r => (.ok r.2.1, r.1, r.2.2)
  else some (.error .permissionDenied, buf, s)

variable (s : RamFsData)

def storeBytes (start : Nat) (bs : List UInt8) : RamFsData :=
  if start + bs.length ≤ dataLen then { s with dataArea := s.dataArea.store start bs } else s

def growSize (id offset : Nat) : RamFsData :=
  if (s.nodes id).size < offset then s.modifyNode id fun n => { n with size := offset % 2 ^ 32 } else s

def writeLoop (id : Nat) : (fuel : Nat) → RamFsData → (offset : Nat) → List UInt8 → Option (Nat × RamFsData)
  | 0, s, _, _ => some (0, s)
  | fuel + 1, s, offset, buf =>
    if buf = [] then some (0, s)
    else
      let n := min (ramfsBlockSize - offset % ramfsBlockSize) buf.length
      (s.getOrAllocBlock id (offset / ramfsBlockSize)).bind fun r =>
        match r.1 with
        | some b =>
          let start := b * ramfsBlockSize + offset % ramfsBlockSize
          let s := (r.2.storeBytes start (buf.take n)).growSize id (offset + n)
          (writeLoop id fuel s (offset + n) (buf.drop n)).map fun rest => (n + rest.1, rest.2)
        | none => some (0, r.2)

def write (api : PwmApi) (s : RamFsData) (id offset : Nat) (buf : List UInt8) (pwm : UInt64) :
    Option (Except KernelError Nat × RamFsData) :=
  if ramfsMaxNodes ≤ id then none
  else if s.checkPermission api (s.nodes id) pwm fsCapCreate then
    (writeLoop id buf.length s offset buf).map fun r => (.ok r.1, r.2)
  else some (.error .permissionDenied, s)

/-- Clears a block from the byte after `offset` on; a range that ends before it starts is no slice. -/
def zeroTail (b offset : Nat) : Option RamFsData :=
  let start := b * ramfsBlockSize + offset + 1
  let stop := min ((b + 1) * ramfsBlockSize) dataLen
  if start ≤ stop then some (s.zeroBytes start stop) else none

def blockCount (size : Nat) : Nat := (size + ramfsBlockSize - 1) / ramfsBlockSize

def clearLastBlock (id newSize : Nat) : Option RamFsData :=
  (s.getOrAllocBlock id ((newSize - 1) / ramfsBlockSize)).bind fun r =>
    match r.1 with
    | some b => if b = 0 then some r.2 else r.2.zeroTail b ((newSize - 1) % ramfsBlockSize)
    | none => some r.2

def shrinkIndirect (id first lastBlock : Nat) : Option RamFsData :=
  let index := (s.nodes id).indirectBlock
  if first < indirectLimit ∧ index ≠ 0 then
    let start := first - directBlocks
    (s.freeIndirectChain index start (min (lastBlock - directBlocks) indirectBlocksPerBlock)).map
      fun s => if start = 0 then setIndirect id 0 s else s
  else some s

def shrinkDouble (id first lastBlock : Nat) : Option RamFsData :=
  let double := (s.nodes id).doubleIndirectBlock
  if indirectLimit ≤ first ∧ double ≠ 0 then
    let start := first - indirectLimit
    (s.freeDoubleIndirectChain double start (lastBlock - indirectLimit)).map
      fun s => if start = 0 then setDoubleIndirect id 0 s else s
  else some s

def shrink (id newSize oldSize : Nat) : Option RamFsData :=
  let first := blockCount newSize + 1
  let lastBlock := blockCount oldSize
  (s.clearLastBlock id newSize).bind fun s =>
    ((s.freeDirect id first (min lastBlock directBlocks)).shrinkIndirect id first lastBlock).bind
      fun s => s.shrinkDouble id first lastBlock

def releaseAll (id : Nat) : Option RamFsData :=
  let index := (s.nodes id).indirectBlock
  let double := (s.nodes id).doubleIndirectBlock
  ((s.freeDirect id 0 directBlocks).freeIndirectChain index 0 indirectBlocksPerBlock).bind fun s =>
    ((setIndirect id 0 s).freeDoubleIndirectChain double 0
      (indirectBlocksPerBlock * indirectBlocksPerBlock)).map (setDoubleIndirect id 0)

def setSize (id size : Nat) : RamFsData :=
  s.modifyNode id fun n => { n with size := size % 2 ^ 32 }

def resize (id newSize : Nat) : Option RamFsData :=
  let oldSize := (s.nodes id).size
  (if newSize < oldSize ∧ 0 < newSize then s.shrink id newSize oldSize
    else if newSize = 0 then s.releaseAll id else some s).map fun s => s.setSize id newSize

def truncate (api : PwmApi) (s : RamFsData) (id newSize : Nat) (pwm : UInt64) :
    Option (Except KernelError Unit × RamFsData) :=
  if ramfsMaxNodes ≤ id then some (.error .invalidArgument, s)
  else if !(s.nodes id).used then some (.error .fileNotFound, s)
  else if !s.checkPermission api (s.nodes id) pwm fsCapWrite then some (.error .permissionDenied, s)
  else if newSize = (s.nodes id).size then some (.ok (), s)
  else (s.resize id newSize).map fun s => (.ok (), s)

end RamFsData

end AntX.Ramfs
