import AntX.Hvfs.Metaslab
import AntX.Hvfs.Zil

/-! The intent log on disk, from services/fs/hvfs/zil_persist.rs: a block with a header, places for
records and a trailer, under three layers of checksums. -/

namespace AntX.Hvfs

open AntX.Lib List

def zilMagic : UInt32 := 0x5A494C31
def zilTailMagic : UInt32 := 0x454E4400
def zilBlockSize : Nat := hvPoolBlockSize
def zilHeaderSize : Nat := 64
def zilTrailerSize : Nat := 8
def zilRecordDiskSize : Nat := 256
def zilMaxRecordsPerBlock : Nat := (zilBlockSize - zilHeaderSize - zilTrailerSize) / zilRecordDiskSize

inductive HvZilPersistError where
  | bufferTooShort (need got : Nat)
  | crcMismatch (expected computed : UInt32)
  | unknownRecordType (code : UInt8)
  deriving DecidableEq, Repr

def crcBit (crc : UInt32) : UInt32 := if crc &&& 1 ≠ 0 then (crc >>> 1) ^^^ 0xEDB88320 else crc >>> 1

def crcByte (crc : UInt32) (byte : UInt8) : UInt32 := Nat.repeat crcBit 8 (crc ^^^ byte.toUInt32)

def crc32Checksum (data : List UInt8) : UInt32 := ~~~ data.foldl crcByte 0xFFFFFFFF

def HvZilRecordType.code : HvZilRecordType → UInt8
  | .create => 1
  | .remove => 2
  | .link => 3
  | .rename => 4
  | .write => 5
  | .truncate => 6
  | .setAttr => 7
  | .acl => 8
  | .createAcl => 9
  | .mkdir => 10
  | .symlink => 11
  | .dedupRef => 12
  | .dedupUnref => 13

def HvZilRecordType.ofCode : UInt8 → Option HvZilRecordType
  | 1 => some .create
  | 2 => some .remove
  | 3 => some .link
  | 4 => some .rename
  | 5 => some .write
  | 6 => some .truncate
  | 7 => some .setAttr
  | 8 => some .acl
  | 9 => some .createAcl
  | 10 => some .mkdir
  | 11 => some .symlink
  | 12 => some .dedupRef
  | 13 => some .dedupUnref
  | _ => none

def ByteArr.ofList (n : Nat) (bs : List UInt8) : ByteArr n :=
  ⟨(bs ++ replicate n 0).take n, by simp⟩

variable (r : HvZilRecord)

def payload : List UInt8 :=
  u8Bytes r.recType.code ++ (u64Bytes r.txg ++ (u64Bytes r.objId ++ (u64Bytes r.parentObj ++
    (u64Bytes r.offset ++ (u32Bytes r.size ++ (u64Bytes r.seq ++ (r.name.1 ++ r.dataHash.asBytes)))))))

def serializeRecord (record : HvZilRecord) (buf : List UInt8) : List UInt8 :=
  splice 0 buf 0 (payload record ++ u32Bytes (crc32Checksum (payload record)))

def tryDeserializeRecord (buf : List UInt8) : Except HvZilPersistError HvZilRecord :=
  let actualSize := 173 + 32 + 4
  if buf.length < actualSize then .error (.bufferTooShort actualSize buf.length)
  else
    let recCrc := (takeU32 (buf.drop (actualSize - 4))).1
    let computed := crc32Checksum (buf.take (actualSize - 4))
    if recCrc ≠ computed then .error (.crcMismatch recCrc computed)
    else
      let (recType, bs) := takeU8 buf
      let (txg, bs) := takeU64 bs
      let (objId, bs) := takeU64 bs
      let (parentObj, bs) := takeU64 bs
      let (offset, bs) := takeU64 bs
      let (size, bs) := takeU32 bs
      let (seq, bs) := takeU64 bs
      let name := ByteArr.ofList 128 (bs.take 128)
      let dataHash := (Words4.take (bs.drop 128)).1
      match HvZilRecordType.ofCode recType with
      | some recType => .ok ⟨recType, txg, objId, parentObj, offset, size, name, dataHash, seq⟩
      | none => .error (.unknownRecordType recType)

structure ZilBlockHeader where
  magic : UInt32
  version : UInt16
  flags : UInt16
  txg : UInt64
  seqStart : UInt64
  recordCount : UInt16
  recordCapacity : UInt16
  totalSize : UInt32
  headerChecksum : UInt32
  dataChecksum : UInt32
  nextBlock : UInt64
  padding : ByteArr 16

namespace ZilBlockHeader

def new (txg seqStart : UInt64) : ZilBlockHeader :=
  ⟨zilMagic, 1, 0, txg, seqStart, 0, UInt16.ofNat zilMaxRecordsPerBlock, UInt32.ofNat zilBlockSize, 0, 0, 0, .zero 16⟩

variable (h : ZilBlockHeader)

def withCount (count : Nat) : ZilBlockHeader :=
  { h with recordCount := UInt16.ofNat count }

def withData (data : List UInt8) : ZilBlockHeader :=
  { h with dataChecksum := crc32Checksum data }

def isValid : Bool := h.magic == zilMagic && decide (1 ≤ h.version)

def asBytes : List UInt8 :=
  u32Bytes h.magic ++ (u16Bytes h.version ++ (u16Bytes h.flags ++ (u64Bytes h.txg ++ (u64Bytes h.seqStart ++
    (u16Bytes h.recordCount ++ (u16Bytes h.recordCapacity ++ (u32Bytes h.totalSize ++
    (u32Bytes h.headerChecksum ++ (u32Bytes h.dataChecksum ++ (u64Bytes h.nextBlock ++ h.padding.1))))))))))

def computeHeaderChecksum : ZilBlockHeader :=
  { h with headerChecksum := crc32Checksum { h with headerChecksum := 0 }.asBytes }

def verifyHeader : Bool := h.computeHeaderChecksum.headerChecksum == h.headerChecksum

def fromBlock (block : List UInt8) : Option ZilBlockHeader :=
  if block.length < zilHeaderSize then none
  else
    let (magic, bs) := takeU32 block
    let (version, bs) := takeU16 bs
    let (flags, bs) := takeU16 bs
    let (txg, bs) := takeU64 bs
    let (seqStart, bs) := takeU64 bs
    let (recordCount, bs) := takeU16 bs
    let (recordCapacity, bs) := takeU16 bs
    let (totalSize, bs) := takeU32 bs
    let (headerChecksum, bs) := takeU32 bs
    let (dataChecksum, bs) := takeU32 bs
    let (nextBlock, bs) := takeU64 bs
    some ⟨magic, version, flags, txg, seqStart, recordCount, recordCapacity, totalSize, headerChecksum,
      dataChecksum, nextBlock, .ofList 16 (bs.take 16)⟩

end ZilBlockHeader

structure ZilBlockTrailer where
  tailMagic : UInt32
  blockChecksum : UInt32

namespace ZilBlockTrailer

def new : ZilBlockTrailer := ⟨zilTailMagic, 0⟩

def isValid (t : ZilBlockTrailer) : Bool := t.tailMagic == zilTailMagic

def asBytes (t : ZilBlockTrailer) : List UInt8 := u32Bytes t.tailMagic ++ u32Bytes t.blockChecksum

end ZilBlockTrailer

def slice (block : List UInt8) (start len : Nat) : List UInt8 := (block.drop start).take len

def recordOffset (i : Nat) : Nat := zilHeaderSize + i * zilRecordDiskSize

def writeRecords (block : List UInt8) : Nat → List HvZilRecord → List UInt8
  | _, [] => block
  | i, r :: rs =>
    writeRecords (splice 0 block (recordOffset i)
      (serializeRecord r (slice block (recordOffset i) zilRecordDiskSize))) (i + 1) rs

def trailerOffset : Nat := zilBlockSize - zilTrailerSize

def sealBlock (block : List UInt8) : List UInt8 :=
  let block := splice 0 block trailerOffset ZilBlockTrailer.new.asBytes
  splice 0 block (trailerOffset + 4) (u32Bytes (crc32Checksum (block.take trailerOffset)))

def serializeZilToBlock (zil : HvZil) (txg : UInt64) : Option (List UInt8) :=
  match zil.records with
  | [] => none
  | first :: rest =>
    let count := min (first :: rest).length zilMaxRecordsPerBlock
    let block := replicate zilBlockSize 0
    let header := ((ZilBlockHeader.new txg first.seq).withCount count).computeHeaderChecksum
    let block := splice 0 block 0 header.asBytes
    let block := writeRecords block 0 ((first :: rest).take count)
    let header := (header.withData (slice block zilHeaderSize (count * zilRecordDiskSize))).computeHeaderChecksum
    some (sealBlock (splice 0 block 0 header.asBytes))

def readRecords (block : List UInt8) : Nat → Nat → List HvZilRecord
  | _, 0 => []
  | i, n + 1 =>
    match tryDeserializeRecord (slice block (recordOffset i) zilRecordDiskSize) with
    | .ok r => r :: readRecords block (i + 1) n
    | .error _ => readRecords block (i + 1) n

def sortBySeq (records : List HvZilRecord) : List HvZilRecord :=
  records.mergeSort fun r r' => decide (r.seq ≤ r'.seq)

/-- `none` stands for a panic, when the header counts more records than the block has bytes for. -/
def deserializeZilFromBlock (block : List UInt8) : Option (List HvZilRecord) :=
  if block.length < zilBlockSize then some []
  else
    match ZilBlockHeader.fromBlock block with
    | none => some []
    | some header =>
      if !header.isValid || !header.verifyHeader then some []
      else
        let (tailMagic, bs) := takeU32 (block.drop trailerOffset)
        let trailer : ZilBlockTrailer := ⟨tailMagic, (takeU32 bs).1⟩
        if !trailer.isValid then some []
        else if crc32Checksum (block.take trailerOffset) ≠ trailer.blockChecksum then some []
        else
          let count := header.recordCount.toNat
          -- `slice` and `takeU32` are total where the source's slices panic: past this check none is short
          if block.length < recordOffset count then none
          else if crc32Checksum (slice block zilHeaderSize (count * zilRecordDiskSize)) ≠ header.dataChecksum then
            some []
          else some (sortBySeq (readRecords block 0 count))

theorem ofCode_code (t : HvZilRecordType) : HvZilRecordType.ofCode t.code = some t := by
  cases t <;> rfl

theorem ofList_self {n : Nat} (bs : ByteArr n) : ByteArr.ofList n bs.1 = bs := by
  apply Subtype.ext
  exact take_left' bs.2

@[simp] theorem length_payload : (payload r).length = 205 := by
  simp [payload, r.name.2]

def recordBytes : List UInt8 :=
  payload r ++ (u32Bytes (crc32Checksum (payload r)) ++ replicate 47 0)

@[simp] theorem length_recordBytes : (recordBytes r).length = 256 := by
  simp [recordBytes]

theorem serializeRecord_zeros : serializeRecord r (replicate 256 0) = recordBytes r := by
  have hzeros : replicate 256 (0 : UInt8) = [] ++ (replicate 209 0 ++ replicate 47 0) := by
    rw [nil_append, replicate_append_replicate]
  rw [serializeRecord, hzeros, splice_middle 0 length_nil, nil_append, recordBytes, append_assoc]
  rw [length_replicate, length_append, length_payload, length_u32Bytes]

theorem tryDeserializeRecord_recordBytes : tryDeserializeRecord (recordBytes r) = .ok r := by
  have hcrc : (takeU32 ((recordBytes r).drop 205)).1 = crc32Checksum (payload r) := by
    rw [recordBytes, drop_left' (length_payload r), takeU32_u32Bytes]
  have hdata : (recordBytes r).take 205 = payload r := take_left' (length_payload r)
  have hhash : ∀ rest, ((r.name.1 ++ (r.dataHash.asBytes ++ rest)).drop 128) = r.dataHash.asBytes ++ rest :=
    fun rest => drop_left' r.name.2
  have hname : ∀ rest, ((r.name.1 ++ (r.dataHash.asBytes ++ rest)).take 128) = r.name.1 :=
    fun rest => take_left' r.name.2
  have hlong : ¬ (recordBytes r).length < 173 + 32 + 4 := by
    rw [length_recordBytes]
    decide
  rw [tryDeserializeRecord]
  rw [if_neg hlong, hcrc, hdata, if_neg (not_not.mpr rfl)]
  simp only [recordBytes, payload, append_assoc, takeU8_u8Bytes, takeU64_u64Bytes, takeU32_u32Bytes, hhash,
    hname, Words4.take_asBytes, ofCode_code, ofList_self]

theorem slice_middle {a b c : List UInt8} {start len : Nat} (ha : a.length = start) (hb : b.length = len) :
    slice (a ++ (b ++ c)) start len = b := by
  rw [slice, drop_left' ha, take_left' hb]

theorem zeros_split {n a b : Nat} (h : n = a + b) :
    replicate n (0 : UInt8) = replicate a 0 ++ replicate b 0 := by
  rw [h, replicate_append_replicate]

theorem recordDiskSize_eq : zilRecordDiskSize = 256 := rfl

theorem recordOffset_eq (i : Nat) : recordOffset i = 64 + i * 256 := rfl

theorem recordOffset_succ (i : Nat) : recordOffset (i + 1) = recordOffset i + 256 := by
  rw [recordOffset_eq, recordOffset_eq]
  omega

theorem writeRecords_zeros {front : List UInt8} {i : Nat} (hfront : front.length = recordOffset i)
    (rs : List HvZilRecord) (back : List UInt8) :
    writeRecords (front ++ (replicate (rs.length * 256) 0 ++ back)) i rs =
      front ++ (rs.flatMap recordBytes ++ back) := by
  induction rs generalizing front i with
  | nil => simp [writeRecords]
  | cons r rs ih =>
    have hsplit : (r :: rs).length * 256 = 256 + rs.length * 256 := by
      rw [length_cons]
      omega
    have hnext : (front ++ recordBytes r).length = recordOffset (i + 1) := by
      rw [length_append, length_recordBytes, recordOffset_succ, hfront]
    have hsize : (replicate 256 (0 : UInt8)).length = (recordBytes r).length := by
      rw [length_replicate, length_recordBytes]
    rw [zeros_split hsplit, append_assoc, writeRecords, recordDiskSize_eq, slice_middle hfront length_replicate,
      serializeRecord_zeros, splice_middle 0 hfront hsize, ← append_assoc, ih hnext, flatMap_cons,
      append_assoc, append_assoc]

theorem readRecords_recordBytes {front : List UInt8} {i : Nat} (hfront : front.length = recordOffset i)
    (rs : List HvZilRecord) (back : List UInt8) :
    readRecords (front ++ (rs.flatMap recordBytes ++ back)) i rs.length = rs := by
  induction rs generalizing front i with
  | nil => rfl
  | cons r rs ih =>
    have hnext : (front ++ recordBytes r).length = recordOffset (i + 1) := by
      rw [length_append, length_recordBytes, recordOffset_succ, hfront]
    have hrest := ih hnext
    rw [append_assoc] at hrest
    rw [flatMap_cons, append_assoc, length_cons, readRecords,
      recordDiskSize_eq, slice_middle hfront (length_recordBytes r), tryDeserializeRecord_recordBytes]
    exact congrArg (r :: ·) hrest

namespace ZilBlockHeader

@[simp] theorem length_asBytes (h : ZilBlockHeader) : h.asBytes.length = 64 := by
  simp [asBytes, h.padding.2]

theorem fromBlock_asBytes (h : ZilBlockHeader) (rest : List UInt8) :
    fromBlock (h.asBytes ++ rest) = some h := by
  have hlong : ¬ (h.asBytes ++ rest).length < zilHeaderSize := by
    have hsize : zilHeaderSize = 64 := rfl
    rw [length_append, length_asBytes]
    omega
  have hpadding : (h.padding.1 ++ rest).take 16 = h.padding.1 := take_left' h.padding.2
  rw [fromBlock, if_neg hlong]
  simp only [asBytes, append_assoc, takeU16_u16Bytes, takeU32_u32Bytes, takeU64_u64Bytes, hpadding,
    ofList_self]

theorem computeHeaderChecksum_withData (h : ZilBlockHeader) (data : List UInt8) :
    (h.computeHeaderChecksum.withData data).computeHeaderChecksum = (h.withData data).computeHeaderChecksum := rfl

theorem computeHeaderChecksum_verifies (h : ZilBlockHeader) : h.computeHeaderChecksum.verifyHeader = true := by
  exact beq_self_eq_true _

end ZilBlockHeader

def front (header : ZilBlockHeader) (rs : List HvZilRecord) : List UInt8 :=
  header.asBytes ++ (rs.flatMap recordBytes ++ replicate (4024 - rs.length * 256) 0)

def headerOf (txg : UInt64) (rs : List HvZilRecord) (first : HvZilRecord) : ZilBlockHeader :=
  (((ZilBlockHeader.new txg first.seq).withCount rs.length).withData
    (rs.flatMap recordBytes)).computeHeaderChecksum

theorem length_recordArea (rs : List HvZilRecord) : (rs.flatMap recordBytes).length = rs.length * 256 :=
  length_pieces fun r _ => length_recordBytes r

open ZilBlockHeader

theorem length_front (header : ZilBlockHeader) {rs : List HvZilRecord} (hfit : rs.length ≤ 15) :
    (front header rs).length = 4088 := by
  rw [front, length_append, length_append, length_asBytes, length_recordArea, length_replicate]
  omega

def sealed (header : ZilBlockHeader) (rs : List HvZilRecord) : List UInt8 :=
  front header rs ++ (u32Bytes zilTailMagic ++ u32Bytes (crc32Checksum (front header rs)))

theorem front_split (header : ZilBlockHeader) (rs : List HvZilRecord) (back : List UInt8) :
    front header rs ++ back =
      header.asBytes ++ (rs.flatMap recordBytes ++ (replicate (4024 - rs.length * 256) 0 ++ back)) := by
  rw [front, append_assoc, append_assoc]

theorem splice_header {b c : List UInt8} (hb : b.length = 64) (header : ZilBlockHeader) :
    splice 0 (b ++ c) 0 header.asBytes = header.asBytes ++ c := by
  have hmiddle := splice_middle (0 : UInt8) (a := []) (c := c) rfl (hb.trans header.length_asBytes.symm)
  rwa [nil_append, nil_append] at hmiddle

theorem sealBlock_eq {f : List UInt8} (hf : f.length = 4088) : sealBlock (f ++ replicate 8 0) =
    f ++ (u32Bytes zilTailMagic ++ u32Bytes (crc32Checksum f)) := by
  have hoffset : trailerOffset = 4088 := rfl
  have htrailer : splice 0 (f ++ replicate 8 0) trailerOffset ZilBlockTrailer.new.asBytes =
      (f ++ u32Bytes zilTailMagic) ++ (u32Bytes 0 ++ []) := by
    have hmiddle := splice_middle (0 : UInt8) (a := f) (b := replicate 8 0) (c := [])
      (d := ZilBlockTrailer.new.asBytes) (hf.trans hoffset.symm) rfl
    rw [append_nil, append_nil] at hmiddle
    rw [hmiddle, append_nil, append_assoc]
    rfl
  have hfirst : ((f ++ u32Bytes zilTailMagic) ++ (u32Bytes 0 ++ [])).take trailerOffset = f := by
    rw [append_assoc]
    exact take_left' (hf.trans hoffset.symm)
  have hplace : (f ++ u32Bytes zilTailMagic).length = trailerOffset + 4 := by
    rw [length_append, length_u32Bytes, hf, hoffset]
  have hsize : (u32Bytes 0).length = (u32Bytes (crc32Checksum f)).length := by
    rw [length_u32Bytes, length_u32Bytes]
  rw [sealBlock, htrailer, hfirst, splice_middle 0 hplace hsize, append_nil, append_assoc]

theorem blank_block {n : Nat} (hfit : n ≤ 15) : replicate zilBlockSize (0 : UInt8) =
    replicate 64 0 ++ (replicate (n * 256) 0 ++ (replicate (4024 - n * 256) 0 ++ replicate 8 0)) := by
  have hsize : zilBlockSize = 4096 := rfl
  rw [← zeros_split (n := 4032 - n * 256) (by omega), ← zeros_split (n := 4032) (by omega),
    ← zeros_split (by omega)]

theorem serializeZilToBlock_eq {zil : HvZil} {first : HvZilRecord} {rest : List HvZilRecord}
    (hrecords : zil.records = first :: rest) (txg : UInt64) :
    serializeZilToBlock zil txg = some (sealed (headerOf txg (zil.records.take 15) first) (zil.records.take 15)) := by
  generalize hrs : zil.records.take 15 = rs
  have hfit : rs.length ≤ 15 := by
    rw [← hrs, length_take]
    omega
  have hcount : min (first :: rest).length zilMaxRecordsPerBlock = rs.length := by
    rw [← hrs, hrecords, length_take, Nat.min_comm]
    rfl
  have htake : (first :: rest).take rs.length = rs := by
    rw [← hrs, hrecords, length_take, ← take_eq_take_min]
  have hzero : recordOffset 0 = 64 := rfl
  rw [serializeZilToBlock, hrecords]
  dsimp only
  rw [hcount, htake, blank_block hfit, splice_header length_replicate,
    writeRecords_zeros ((length_asBytes _).trans hzero.symm), recordDiskSize_eq,
    zilHeaderSize, slice_middle (length_asBytes _) (length_recordArea rs),
    splice_header (length_asBytes _), computeHeaderChecksum_withData, ← front_split,
    sealBlock_eq (length_front _ hfit)]
  rfl

structure Passes (block : List UInt8) (header : ZilBlockHeader) : Prop where
  long : zilBlockSize ≤ block.length
  read : fromBlock block = some header
  valid : header.isValid = true
  verified : header.verifyHeader = true
  tail : (takeU32 (block.drop trailerOffset)).1 = zilTailMagic
  checksum : crc32Checksum (block.take trailerOffset) = (takeU32 (takeU32 (block.drop trailerOffset)).2).1

variable {block : List UInt8} {header : ZilBlockHeader} {rs : List HvZilRecord}

theorem Passes.decode (h : Passes block header) : deserializeZilFromBlock block =
    if block.length < recordOffset header.recordCount.toNat then none
    else if crc32Checksum (slice block zilHeaderSize (header.recordCount.toNat * zilRecordDiskSize)) ≠
        header.dataChecksum then some []
    else some (sortBySeq (readRecords block 0 header.recordCount.toNat)) := by
  have htrailer : ∀ c, ZilBlockTrailer.isValid ⟨zilTailMagic, c⟩ = true := fun _ => rfl
  rw [deserializeZilFromBlock, if_neg (Nat.not_lt.mpr h.long), h.read]
  dsimp only
  rw [h.valid, h.verified, if_neg (by decide), h.tail, htrailer, if_neg (by decide), if_neg (not_not.mpr h.checksum)]

theorem deserializeZilFromBlock_eq_none_iff : deserializeZilFromBlock block = none ↔
    ∃ header, Passes block header ∧ block.length < recordOffset header.recordCount.toNat := by
  constructor
  · intro h
    rw [deserializeZilFromBlock] at h
    split_ifs at h with hlen
    cases hread : fromBlock block with
    | none =>
      rw [hread] at h
      cases h
    | some header =>
      rw [hread] at h
      dsimp only at h
      split_ifs at h with hvalid htail hsum hroom
      simp only [Bool.not_eq_true', Bool.or_eq_true, not_or, Bool.not_eq_false] at hvalid
      simp only [ZilBlockTrailer.isValid, Bool.not_eq_true', beq_eq_false_iff_ne, not_not] at htail
      exact ⟨header, ⟨Nat.not_lt.mp hlen, hread, hvalid.1, hvalid.2, htail, not_not.mp hsum⟩, hroom⟩
  · rintro ⟨header, hpasses, hroom⟩
    rw [hpasses.decode, if_pos hroom]

theorem length_sealed (header : ZilBlockHeader) (hfit : rs.length ≤ 15) : (sealed header rs).length = 4096 := by
  rw [sealed, length_append, length_front header hfit, length_append, length_u32Bytes, length_u32Bytes]

theorem sealed_passes (hvalid : header.isValid = true) (hverified : header.verifyHeader = true)
    (hfit : rs.length ≤ 15) : Passes (sealed header rs) header := by
  have hlen := length_front header hfit
  have hdrop : (sealed header rs).drop trailerOffset = u32Bytes zilTailMagic ++
      (u32Bytes (crc32Checksum (front header rs)) ++ []) := by
    rw [append_nil]
    exact drop_left' hlen
  have htake : (sealed header rs).take trailerOffset = front header rs := take_left' hlen
  refine ⟨(length_sealed header hfit).ge, ?_, hvalid, hverified, ?_, ?_⟩
  · rw [sealed, front_split, fromBlock_asBytes]
  · rw [hdrop, takeU32_u32Bytes]
  · rw [htake, hdrop, takeU32_u32Bytes, takeU32_u32Bytes]

theorem deserializeZilFromBlock_layout (hfit : rs.length ≤ 15) (txg : UInt64) (first : HvZilRecord) :
    deserializeZilFromBlock (sealed (headerOf txg rs first) rs) = some (sortBySeq rs) := by
  have hcount : (headerOf txg rs first).recordCount.toNat = rs.length := by
    change (UInt16.ofNat rs.length).toNat = rs.length
    rw [UInt16.toNat_ofNat']
    omega
  have hdata : (headerOf txg rs first).dataChecksum = crc32Checksum (rs.flatMap recordBytes) := rfl
  have hpasses : Passes (sealed (headerOf txg rs first) rs) (headerOf txg rs first) :=
    sealed_passes rfl (computeHeaderChecksum_verifies _) hfit
  have hroom : ¬ (sealed (headerOf txg rs first) rs).length < recordOffset rs.length := by
    rw [length_sealed _ hfit, recordOffset_eq]
    omega
  rw [hpasses.decode, hcount, if_neg hroom, sealed, front_split, zilHeaderSize, recordDiskSize_eq,
    slice_middle (length_asBytes _) (length_recordArea rs), hdata, if_neg (not_not.mpr rfl),
    readRecords_recordBytes (length_asBytes _) rs]

theorem deserialize_serialize {zil : HvZil} (hne : zil.records ≠ []) (txg : UInt64) :
    ∃ block, serializeZilToBlock zil txg = some block ∧
      deserializeZilFromBlock block = some (sortBySeq (zil.records.take 15)) := by
  obtain ⟨first, rest, hrecords⟩ := exists_cons_of_ne_nil hne
  have hfit : (zil.records.take 15).length ≤ 15 := by
    rw [length_take]
    omega
  exact ⟨_, serializeZilToBlock_eq hrecords txg, deserializeZilFromBlock_layout hfit txg first⟩

theorem length_sortBySeq (rs : List HvZilRecord) : (sortBySeq rs).length = rs.length :=
  length_mergeSort rs

theorem length_le_of_roundtrip {zil : HvZil} (hne : zil.records ≠ []) {txg : UInt64}
    (hblock : serializeZilToBlock zil txg = some block)
    (hall : deserializeZilFromBlock block = some (sortBySeq zil.records)) : zil.records.length ≤ 15 := by
  obtain ⟨block', hblock', hread⟩ := deserialize_serialize hne txg
  rw [hblock] at hblock'
  cases hblock'
  rw [hread] at hall
  have hlen := congrArg List.length (Option.some.inj hall)
  rw [length_sortBySeq, length_sortBySeq, length_take] at hlen
  omega

/-- All pending records come back, in the order of their numbers, just when a block has room for them. -/
theorem zil_roundtrip_iff (zil : HvZil) (hne : zil.records ≠ []) (txg : UInt64) :
    (∃ block, serializeZilToBlock zil txg = some block ∧
      deserializeZilFromBlock block = some (sortBySeq zil.records)) ↔
      zil.records.length ≤ zilMaxRecordsPerBlock := by
  have hmax : zilMaxRecordsPerBlock = 15 := rfl
  rw [hmax]
  constructor
  · rintro ⟨block, hblock, hall⟩
    exact length_le_of_roundtrip hne hblock hall
  · intro hfit
    obtain ⟨block, hblock, hread⟩ := deserialize_serialize hne txg
    rw [take_of_length_le hfit] at hread
    exact ⟨block, hblock, hread⟩

def plainRecord (seq : UInt64) : HvZilRecord := ⟨.write, 1, 0, 0, 0, 0, .zero 128, .zero, seq⟩

theorem zil_roundtrip_two :
    ∃ block, serializeZilToBlock { HvZil.new with records := [plainRecord 1, plainRecord 2] } 1 = some block ∧
      deserializeZilFromBlock block = some (sortBySeq [plainRecord 1, plainRecord 2]) :=
  (zil_roundtrip_iff { HvZil.new with records := [plainRecord 1, plainRecord 2] } (by simp) 1).mpr (by decide)

theorem sixteenth_record_lost : ¬ ∀ (zil : HvZil) (txg : UInt64), zil.records ≠ [] →
      ∃ block, serializeZilToBlock zil txg = some block ∧
        deserializeZilFromBlock block = some (sortBySeq zil.records) := by
  intro hall
  have hlen : (replicate 16 (plainRecord 1)).length = 16 := length_replicate
  have hne : replicate 16 (plainRecord 1) ≠ [] := ne_nil_of_length_pos (by omega)
  obtain ⟨block, hblock, hread⟩ := hall { HvZil.new with records := replicate 16 (plainRecord 1) } 1 hne
  have hle : (replicate 16 (plainRecord 1)).length ≤ 15 := length_le_of_roundtrip hne hblock hread
  omega

/-- A block is decoded, with all its slices inside it, just when the record area that a header with
correct checksums announces lies inside it. -/
theorem zil_decode_in_bounds_iff (block : List UInt8) : (∃ records, deserializeZilFromBlock block = some records) ↔
    ∀ header, Passes block header → recordOffset header.recordCount.toNat ≤ block.length := by
  rw [← Option.ne_none_iff_exists', ne_eq, deserializeZilFromBlock_eq_none_iff]
  simp only [not_exists, not_and, Nat.not_lt]

theorem announced_records_panic : ¬ ∀ block, ∃ records, deserializeZilFromBlock block = some records := by
  intro h
  obtain ⟨records, hrecords⟩ := h (sealed ((ZilBlockHeader.new 1 0).withCount 16).computeHeaderChecksum [])
  have hpasses := @sealed_passes _ [] rfl
    (computeHeaderChecksum_verifies ((ZilBlockHeader.new 1 0).withCount 16)) (by decide)
  have hnone := deserializeZilFromBlock_eq_none_iff.mpr ⟨_, hpasses, by rw [length_sealed _ (by decide)]; decide⟩
  rw [hrecords] at hnone
  cases hnone

end AntX.Hvfs
