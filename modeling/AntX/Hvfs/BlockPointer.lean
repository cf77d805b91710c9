import AntX.Lib.Bytes

/-! Block pointers of services/fs/hvfs/bp.rs: up to two disk addresses with their properties, and
their layout in bytes. -/

namespace AntX.Hvfs

open AntX.Lib

structure HvDva where
  offset : UInt64
  asize : UInt32
  vdevId : UInt16
  gang : UInt8
  pad : UInt8
  deriving DecidableEq, Repr

namespace HvDva

def null : HvDva := ⟨0, 0, 0, 0, 0⟩

def isNull (d : HvDva) : Bool := d.vdevId == 0 && d.offset == 0 && d.asize == 0

def new (vdevId : UInt16) (offset : UInt64) (asize : UInt32) : HvDva := ⟨offset, asize, vdevId, 0, 0⟩

def asBytes (d : HvDva) : List UInt8 :=
  u64Bytes d.offset ++ (u32Bytes d.asize ++ (u16Bytes d.vdevId ++ (u8Bytes d.gang ++ u8Bytes d.pad)))

def take (bs : List UInt8) : HvDva × List UInt8 :=
  let (offset, bs) := takeU64 bs
  let (asize, bs) := takeU32 bs
  let (vdevId, bs) := takeU16 bs
  let (gang, bs) := takeU8 bs
  let (pad, bs) := takeU8 bs
  (⟨offset, asize, vdevId, gang, pad⟩, bs)

@[simp] theorem length_asBytes (d : HvDva) : d.asBytes.length = 16 := by simp [asBytes]

@[simp] theorem take_asBytes (d : HvDva) (rest : List UInt8) : take (d.asBytes ++ rest) = (d, rest) := by
  simp [take, asBytes]

end HvDva

inductive HvCompType where
  | off
  | lz4
  | zstd
  | gzip1
  | gzip9
  | zle
  deriving DecidableEq, Repr

def HvCompType.toU8 : HvCompType → UInt8
  | .off => 0
  | .lz4 => 1
  | .zstd => 2
  | .gzip1 => 3
  | .gzip9 => 4
  | .zle => 5

inductive HvCksumType where
  | off
  | fletcher2
  | fletcher4
  | sha256
  | edonR
  deriving DecidableEq, Repr

def HvCksumType.toU8 : HvCksumType → UInt8
  | .off => 0
  | .fletcher2 => 1
  | .fletcher4 => 2
  | .sha256 => 3
  | .edonR => 4

structure HvBpProp where
  logicalSize : UInt32
  physicalSize : UInt32
  level : UInt8
  compType : UInt8
  cksumType : UInt8
  encrypted : UInt8
  byteorder : UInt8
  pad : UInt8 × UInt8 × UInt8
  deriving DecidableEq, Repr

namespace HvBpProp

def default : HvBpProp :=
  ⟨0, 0, 0, HvCompType.off.toU8, HvCksumType.fletcher4.toU8, 0, 0, 0, 0, 0⟩

def asBytes (p : HvBpProp) : List UInt8 :=
  u32Bytes p.logicalSize ++ (u32Bytes p.physicalSize ++ (u8Bytes p.level ++ (u8Bytes p.compType ++
    (u8Bytes p.cksumType ++ (u8Bytes p.encrypted ++ (u8Bytes p.byteorder ++
      (u8Bytes p.pad.1 ++ (u8Bytes p.pad.2.1 ++ u8Bytes p.pad.2.2))))))))

def take (bs : List UInt8) : HvBpProp × List UInt8 :=
  let (logicalSize, bs) := takeU32 bs
  let (physicalSize, bs) := takeU32 bs
  let (level, bs) := takeU8 bs
  let (compType, bs) := takeU8 bs
  let (cksumType, bs) := takeU8 bs
  let (encrypted, bs) := takeU8 bs
  let (byteorder, bs) := takeU8 bs
  let (pad0, bs) := takeU8 bs
  let (pad1, bs) := takeU8 bs
  let (pad2, bs) := takeU8 bs
  (⟨logicalSize, physicalSize, level, compType, cksumType, encrypted, byteorder, pad0, pad1, pad2⟩, bs)

@[simp] theorem length_asBytes (p : HvBpProp) : p.asBytes.length = 16 := by simp [asBytes]

@[simp] theorem take_asBytes (p : HvBpProp) (rest : List UInt8) : take (p.asBytes ++ rest) = (p, rest) := by
  simp [take, asBytes]

end HvBpProp

structure Words4 where
  w0 : UInt64
  w1 : UInt64
  w2 : UInt64
  w3 : UInt64
  deriving DecidableEq, Repr

namespace Words4

def zero : Words4 := ⟨0, 0, 0, 0⟩

def asBytes (c : Words4) : List UInt8 :=
  u64Bytes c.w0 ++ (u64Bytes c.w1 ++ (u64Bytes c.w2 ++ u64Bytes c.w3))

def take (bs : List UInt8) : Words4 × List UInt8 :=
  let (w0, bs) := takeU64 bs
  let (w1, bs) := takeU64 bs
  let (w2, bs) := takeU64 bs
  let (w3, bs) := takeU64 bs
  (⟨w0, w1, w2, w3⟩, bs)

@[simp] theorem length_asBytes (c : Words4) : c.asBytes.length = 32 := by simp [asBytes]

@[simp] theorem take_asBytes (c : Words4) (rest : List UInt8) : take (c.asBytes ++ rest) = (c, rest) := by
  simp [take, asBytes]

end Words4

structure HvBlockPointer where
  dva0 : HvDva
  dva1 : HvDva
  prop : HvBpProp
  checksum : Words4
  birthTxg : UInt64
  fill : UInt64
  pad : UInt64 × UInt64
  deriving DecidableEq, Repr

namespace HvBlockPointer

def null : HvBlockPointer := ⟨.null, .null, .default, .zero, 0, 0, 0, 0⟩

def isNull (bp : HvBlockPointer) : Bool := bp.dva0.isNull && bp.dva1.isNull

def dvas (bp : HvBlockPointer) : List HvDva := [bp.dva0, bp.dva1].filter fun d => !d.isNull

def asBytes (bp : HvBlockPointer) : List UInt8 :=
  bp.dva0.asBytes ++ (bp.dva1.asBytes ++ (bp.prop.asBytes ++ (bp.checksum.asBytes ++
    (u64Bytes bp.birthTxg ++ (u64Bytes bp.fill ++ (u64Bytes bp.pad.1 ++ u64Bytes bp.pad.2))))))

/-- Reads a block pointer off the front; its padding is not read but set to zero. -/
def take (bs : List UInt8) : HvBlockPointer × List UInt8 :=
  let (dva0, bs) := HvDva.take bs
  let (dva1, bs) := HvDva.take bs
  let (prop, bs) := HvBpProp.take bs
  let (checksum, bs) := Words4.take bs
  let (birthTxg, bs) := takeU64 bs
  let (fill, bs) := takeU64 bs
  (⟨dva0, dva1, prop, checksum, birthTxg, fill, 0, 0⟩, bs.drop 16)

@[simp] theorem length_asBytes (bp : HvBlockPointer) : bp.asBytes.length = 112 := by simp [asBytes]

@[simp] theorem take_asBytes (bp : HvBlockPointer) (rest : List UInt8) :
    take (bp.asBytes ++ rest) = ({ bp with pad := (0, 0) }, rest) := by
  have hpad : List.drop 16 (u64Bytes bp.pad.1 ++ (u64Bytes bp.pad.2 ++ rest)) = rest := by
    rw [← List.append_assoc]
    exact List.drop_left' (by simp)
  simp [take, asBytes, hpad]

end HvBlockPointer

end AntX.Hvfs
