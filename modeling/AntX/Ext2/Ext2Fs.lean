import AntX.Driver.Block
import AntX.Lib.FirstFit

/-! ext2 volumes of services/fs/ext2 (super_block.rs, inode.rs, alloc.rs, read.rs). The scan of
`create_dir_entry` goes on by the length of the entry it is at, which may be 0. -/

namespace AntX.Ext2

open AntX.Lib AntX.Driver

/-- A superblock whose blocks have at most 2 ^ 31 bits, so that the source's `u32` bit offsets do not wrap, with
groups that have inodes and inodes of 128 bytes or more. -/
structure Ext2SuperBlock where
  sLogBlockSize : Nat
  sBlocksPerGroup : Nat
  sInodesPerGroup : Nat
  sRevLevel : Nat
  sFirstIno : Nat
  sInodeSize : Nat
  log_lt : sLogBlockSize < 19
  inodes_pos : 0 < sInodesPerGroup
  inode_large : 1 ≤ sRevLevel → 128 ≤ sInodeSize

namespace Ext2SuperBlock

def blockSize (sb : Ext2SuperBlock) : Nat := 1024 * 2 ^ sb.sLogBlockSize

def inodeSize (sb : Ext2SuperBlock) : Nat := if 1 ≤ sb.sRevLevel then sb.sInodeSize else 128

def firstInode (sb : Ext2SuperBlock) : Nat := if 1 ≤ sb.sRevLevel then sb.sFirstIno else 1

end Ext2SuperBlock

structure Ext2BlockGroupDescriptor where
  bgBlockBitmap : Nat
  bgInodeBitmap : Nat
  bgInodeTable : Nat
  bgFreeBlocksCount : Nat
  bgFreeInodesCount : Nat

structure Ext2Inode where
  iMode : UInt16
  iUid : UInt16
  iSize : UInt32
  iAtime : UInt32
  iCtime : UInt32
  iMtime : UInt32
  iDtime : UInt32
  iGid : UInt16
  iLinksCount : UInt16
  iBlocks : UInt32
  iFlags : UInt32
  iOsd1 : UInt32
  iBlock : List UInt32
  iGeneration : UInt32
  iFileAcl : UInt32
  iDirAcl : UInt32
  iFaddr : UInt32
  iOsd2 : List UInt8
  block_length : iBlock.length = 15
  osd2_length : iOsd2.length = 12

namespace Ext2Inode

def isDir (i : Ext2Inode) : Bool := i.iMode &&& 0xF000 == 0x4000

def bytes (i : Ext2Inode) : List UInt8 :=
  u16Bytes i.iMode ++ (u16Bytes i.iUid ++ (u32Bytes i.iSize ++ (u32Bytes i.iAtime ++ (u32Bytes i.iCtime ++
    (u32Bytes i.iMtime ++ (u32Bytes i.iDtime ++ (u16Bytes i.iGid ++ (u16Bytes i.iLinksCount ++
    (u32Bytes i.iBlocks ++ (u32Bytes i.iFlags ++ (u32Bytes i.iOsd1 ++ (i.iBlock.flatMap u32Bytes ++
    (u32Bytes i.iGeneration ++ (u32Bytes i.iFileAcl ++ (u32Bytes i.iDirAcl ++ (u32Bytes i.iFaddr ++
    i.iOsd2))))))))))))))))

def takeBlocks : (k : Nat) → List UInt8 → List UInt32 × List UInt8
  | 0, bs => ([], bs)
  | k + 1, bs =>
    let first := takeU32 bs
    let rest := takeBlocks k first.2
    (first.1 :: rest.1, rest.2)

theorem length_takeBlocks (k : Nat) (bs : List UInt8) : (takeBlocks k bs).1.length = k := by
  induction k generalizing bs with
  | zero => rfl
  | succ k ih => rw [takeBlocks, List.length_cons, ih]

theorem length_osd2 {data : List UInt8} (h : ¬ data.length < 128) : ((data.drop 116).take 12).length = 12 := by
  rw [List.length_take, List.length_drop]
  omega

def fromBytes (data : List UInt8) : Option Ext2Inode :=
  if hlen : data.length < 128 then none
  else
    let (mode, r) := takeU16 data
    let (uid, r) := takeU16 r
    let (size, r) := takeU32 r
    let (atime, r) := takeU32 r
    let (ctime, r) := takeU32 r
    let (mtime, r) := takeU32 r
    let (dtime, r) := takeU32 r
    let (gid, r) := takeU16 r
    let (links, r) := takeU16 r
    let (blocks, r) := takeU32 r
    let (flags, r) := takeU32 r
    let (osd1, r) := takeU32 r
    let block := takeBlocks 15 r
    let (generation, r) := takeU32 block.2
    let (fileAcl, r) := takeU32 r
    let (dirAcl, r) := takeU32 r
    let (faddr, _) := takeU32 r
    some ⟨mode, uid, size, atime, ctime, mtime, dtime, gid, links, blocks, flags, osd1, block.1, generation, fileAcl,
      dirAcl, faddr, (data.drop 116).take 12, length_takeBlocks 15 _, length_osd2 hlen⟩

end Ext2Inode

structure Ext2Fs where
  superBlock : Ext2SuperBlock
  blockGroups : List Ext2BlockGroupDescriptor
  dev : BlockDevice
  inodeCache : List (Nat × Ext2Inode)

namespace Ext2Fs

/-- Inodes are numbered from 1 on; the number 0 wraps. -/
def inodeIndex (inodeNum : Nat) : Nat := (inodeNum + (2 ^ 32 - 1)) % 2 ^ 32

variable (fs : Ext2Fs)

def inodeSector (inodeNum : Nat) : Option Nat :=
  (fs.blockGroups[inodeIndex inodeNum / fs.superBlock.sInodesPerGroup]?).map fun bgd =>
    (bgd.bgInodeTable * fs.superBlock.blockSize +
      inodeIndex inodeNum % fs.superBlock.sInodesPerGroup * fs.superBlock.inodeSize) / 512

def inodeSectors (sb : Ext2SuperBlock) : Nat := max (sb.inodeSize / 512) 1

def readInode (inodeNum : Nat) : Ext2Fs × Except KernelError Ext2Inode :=
  match fs.inodeCache.find? fun e => e.1 == inodeNum with
  | some e => (fs, .ok e.2)
  | none =>
    match fs.inodeSector inodeNum with
    | none => (fs, .error .invalidArgument)
    | some sector =>
      match fs.dev.readSectors sector (inodeSectors fs.superBlock) (List.replicate fs.superBlock.inodeSize 0) with
      | .error _ => (fs, .error .io)
      | .ok inodeData =>
        match Ext2Inode.fromBytes inodeData with
        | none => (fs, .error .invalidArgument)
        | some inode => ({ fs with inodeCache := fs.inodeCache ++ [(inodeNum, inode)] }, .ok inode)

/-- Failed transfers of the device all count as `Io`. -/
def writeBack (sector count : Nat) (buf : List UInt8) : Ext2Fs × Except KernelError Unit :=
  match fs.dev.writeSectors sector count buf with
  | (dev, .ok ()) => ({ fs with dev := dev }, .ok ())
  | (dev, .error _) => ({ fs with dev := dev }, .error .io)

def saveInode (inodeNum : Nat) (inode : Ext2Inode) : Ext2Fs × Except KernelError Unit :=
  match fs.inodeSector inodeNum with
  | none => (fs, .error .invalidArgument)
  | some sector =>
    fs.writeBack sector (inodeSectors fs.superBlock)
      (inode.bytes ++ List.replicate (fs.superBlock.inodeSize - 128) 0)

def blockSectors : Nat := fs.superBlock.blockSize / 512

def blockSector (blockNum : Nat) : Nat := blockNum * fs.superBlock.blockSize / 512

def readBlock (blockNum : Nat) : Except KernelError (List UInt8) :=
  match fs.dev.readSectors (fs.blockSector blockNum) fs.blockSectors (List.replicate fs.superBlock.blockSize 0) with
  | .error _ => .error .io
  | .ok data => .ok data

def saveBlock (blockNum : Nat) (data : List UInt8) : Ext2Fs × Except KernelError Unit :=
  if fs.superBlock.blockSize < data.length then (fs, .error .invalidArgument)
  else fs.writeBack (fs.blockSector blockNum) fs.blockSectors
    (data ++ List.replicate (fs.superBlock.blockSize - data.length) 0)

def bitClear (bitmap : List UInt8) (k : Nat) : Bool :=
  bitmap.getD (k / 8) 0 &&& (1 <<< UInt8.ofNat (k % 8)) == 0

def setBit (bitmap : List UInt8) (k : Nat) : List UInt8 :=
  bitmap.modify (k / 8) (· ||| (1 <<< UInt8.ofNat (k % 8)))

/-- Both allocators: takes the first clear bit below `perGroup`, and answers `first` with its number added. -/
def allocInGroup (bitmapBlock perGroup first : Nat) : Ext2Fs × Except KernelError Nat :=
  match fs.readBlock bitmapBlock with
  | .error e => (fs, .error e)
  | .ok bitmap =>
    match firstFrom (fun k => k < perGroup && bitClear bitmap k) (8 * fs.superBlock.blockSize) 0 with
    | none => (fs, .error .noSpace)
    | some k =>
      match fs.writeBack (fs.blockSector bitmapBlock) fs.blockSectors (setBit bitmap k) with
      | (fs, .error e) => (fs, .error e)
      | (fs, .ok ()) => (fs, .ok ((first + k) % 2 ^ 32))

def firstGroup (free : Ext2BlockGroupDescriptor → Nat) (groups : List Ext2BlockGroupDescriptor) :
    Option (Ext2BlockGroupDescriptor × Nat) :=
  groups.zipIdx.find? fun g => 0 < free g.1

def allocateInode : Ext2Fs × Except KernelError Nat :=
  match firstGroup (·.bgFreeInodesCount) fs.blockGroups with
  | none => (fs, .error .noSpace)
  | some (bgd, i) =>
    fs.allocInGroup bgd.bgInodeBitmap fs.superBlock.sInodesPerGroup
      (i * fs.superBlock.sInodesPerGroup + fs.superBlock.firstInode)

def allocateBlock : Ext2Fs × Except KernelError Nat :=
  match firstGroup (·.bgFreeBlocksCount) fs.blockGroups with
  | none => (fs, .error .noSpace)
  | some (bgd, i) =>
    fs.allocInGroup bgd.bgBlockBitmap fs.superBlock.sBlocksPerGroup (i * fs.superBlock.sBlocksPerGroup)

def entryInode (data : List UInt8) (offset : Nat) : Nat := leNat ((data.drop offset).take 4)

def entryRecLen (data : List UInt8) (offset : Nat) : Nat := leNat ((data.drop (offset + 4)).take 2)

def recLenFor (name : List UInt8) : Nat := (min name.length 255 + 11) / 4 * 4

def dirEntry (name : List UInt8) (child : Nat) (fileType : UInt8) : List UInt8 :=
  leBytes 4 child ++ leBytes 2 (recLenFor name) ++ [UInt8.ofNat (min name.length 255), fileType] ++ name.take 255 ++
    List.replicate (recLenFor name - 8 - min name.length 255) 0

/-- The scan of one block for a free entry, for at most `fuel` turns. It goes on by the length that it
reads. -/
def scanLoop (blockSize : Nat) (data : List UInt8) : (fuel offset : Nat) → Option Nat
  | 0, _ => none
  | fuel + 1, offset =>
    if offset < blockSize then
      if data.length < offset + 8 then some offset
      else if entryInode data offset = 0 then some offset
      else scanLoop blockSize data fuel (offset + entryRecLen data offset)
    else some offset

/-- The search through the direct blocks: the last block looked at, with its index, and the offset of the
free entry in it, which stays 0 when all of them are full. -/
def searchLoop (fs : Ext2Fs) (fuel : Nat) :
    List UInt32 → (i lastIdx lastNum : Nat) → Option (Except KernelError (Nat × Nat × Nat))
  | [], _, lastIdx, lastNum => some (.ok (lastIdx, lastNum, 0))
  | b :: rest, i, lastIdx, lastNum =>
    if b = 0 then searchLoop fs fuel rest (i + 1) lastIdx lastNum
    else
      match fs.readBlock b.toNat with
      | .error e => some (.error e)
      | .ok data =>
        (scanLoop fs.superBlock.blockSize data fuel 0).bind fun offset =>
          if offset < fs.superBlock.blockSize then some (.ok (i, b.toNat, offset))
          else searchLoop fs fuel rest (i + 1) i b.toNat

def withBlock (inode : Ext2Inode) (i blockNum : Nat) : Ext2Inode :=
  { inode with
    iBlock := inode.iBlock.set i (UInt32.ofNat blockNum)
    block_length := by rw [List.length_set, inode.block_length] }

def andThen {α β : Type} (r : Ext2Fs × Except KernelError α) (next : Ext2Fs → α → Ext2Fs × Except KernelError β) :
    Ext2Fs × Except KernelError β :=
  match r with
  | (fs, .error e) => (fs, .error e)
  | (fs, .ok a) => next fs a

def firstBlock (inode : Ext2Inode) (lastNum offset : Nat) :
    Ext2Fs × Except KernelError (Ext2Inode × Nat × Nat) :=
  if lastNum = 0 then andThen fs.allocateBlock fun fs new => (fs, .ok (withBlock inode 0 new, new, 0))
  else (fs, .ok (inode, lastNum, offset))

/-- The block for the entry with its bytes: the one that was found, or a new one when the entry does not fit. -/
def blockFor (inode : Ext2Inode) (lastIdx lastNum offset len : Nat) :
    Ext2Fs × Except KernelError (Ext2Inode × Nat × Nat × List UInt8) :=
  match fs.readBlock lastNum with
  | .error e => (fs, .error e)
  | .ok data =>
    if fs.superBlock.blockSize < offset + len then
      andThen fs.allocateBlock fun fs new =>
        (fs, .ok (withBlock inode (lastIdx + 1) new, new, 0, List.replicate fs.superBlock.blockSize 0))
    else (fs, .ok (inode, lastNum, offset, data))

def insertEntry (parentInodeNum : Nat) (inode : Ext2Inode) (entry : List UInt8) (now : UInt32)
    (found : Nat × Nat × Nat) : Ext2Fs × Except KernelError Unit :=
  andThen (fs.firstBlock inode found.2.1 found.2.2) fun fs (inode, lastNum, offset) =>
    andThen (fs.blockFor inode found.1 lastNum offset entry.length) fun fs (inode, lastNum, offset, data) =>
      andThen (fs.saveBlock lastNum (data.take offset ++ entry ++ data.drop (offset + entry.length))) fun fs _ =>
        fs.saveInode parentInodeNum
          { inode with iSize := inode.iSize + UInt32.ofNat entry.length, iMtime := now }

def createDirEntry (fuel parentInodeNum : Nat) (name : List UInt8) (child : Nat) (fileType : UInt8)
    (now : UInt32) : Option (Ext2Fs × Except KernelError Unit) :=
  match fs.readInode parentInodeNum with
  | (fs, .error e) => some (fs, .error e)
  | (fs, .ok inode) =>
    if !inode.isDir then some (fs, .error .notADirectory)
    else
      (fs.searchLoop fuel (inode.iBlock.take 12) 0 0 0).map fun r =>
        match r with
        | .error e => (fs, .error e)
        | .ok found => fs.insertEntry parentInodeNum inode (dirEntry name child fileType) now found

def dotBlock (blockSize self parent : Nat) : List UInt8 :=
  leBytes 4 self ++ leBytes 2 8 ++ [1, 1, 46] ++ List.replicate 7 0 ++ leBytes 4 parent ++ leBytes 2 8 ++ [2, 1, 46, 46] ++
    List.replicate (blockSize - 26) 0

end Ext2Fs

namespace Ext2Fs

open List Option

variable {fs : Ext2Fs} {blockSize offset fuel i lastIdx lastNum : Nat} {data : List UInt8} {blocks : List UInt32}

def Passed (blockSize : Nat) (data : List UInt8) (offset : Nat) : Prop :=
  offset < blockSize ∧ offset + 8 ≤ data.length ∧ entryInode data offset ≠ 0

/-- The scan from this offset on comes to an entry in use that has length 0. -/
inductive Stalls (blockSize : Nat) (data : List UInt8) : Nat → Prop
  | here {offset : Nat} : Passed blockSize data offset → entryRecLen data offset = 0 → Stalls blockSize data offset
  | next {offset : Nat} : Passed blockSize data offset → Stalls blockSize data (offset + entryRecLen data offset) →
      Stalls blockSize data offset

inductive Full (blockSize : Nat) (data : List UInt8) : Nat → Prop
  | done {offset : Nat} : blockSize ≤ offset → Full blockSize data offset
  | next {offset : Nat} : Passed blockSize data offset → Full blockSize data (offset + entryRecLen data offset) →
      Full blockSize data offset

theorem scanLoop_passed (h : Passed blockSize data offset) (fuel : Nat) :
    scanLoop blockSize data (fuel + 1) offset = scanLoop blockSize data fuel (offset + entryRecLen data offset) := by
  rw [scanLoop, if_pos h.1, if_neg (Nat.not_lt.mpr h.2.1), if_neg h.2.2]

theorem scanLoop_stopped (h : ¬ Passed blockSize data offset) (fuel : Nat) :
    scanLoop blockSize data (fuel + 1) offset = some offset := by
  rw [scanLoop]
  split_ifs with hlt hend hfree
  · rfl
  · rfl
  · exact absurd ⟨hlt, Nat.not_lt.mp hend, hfree⟩ h
  · rfl

theorem Stalls.scanLoop (h : Stalls blockSize data offset) (fuel : Nat) :
    scanLoop blockSize data fuel offset = none := by
  induction fuel generalizing offset with
  | zero => rfl
  | succ fuel ih =>
    cases h with
    | here hpassed hzero =>
      rw [scanLoop_passed hpassed]
      exact ih (by rw [hzero]; exact .here hpassed hzero)
    | next hpassed hrest =>
      rw [scanLoop_passed hpassed]
      exact ih hrest

theorem scanLoop_returns (h : ¬ Stalls blockSize data offset) (hfuel : blockSize - offset < fuel) :
    ∃ o, scanLoop blockSize data fuel offset = some o := by
  induction fuel generalizing offset with
  | zero => omega
  | succ fuel ih =>
    by_cases hpassed : Passed blockSize data offset
    · rw [scanLoop_passed hpassed]
      have hlt := hpassed.1
      have hpos : entryRecLen data offset ≠ 0 := fun hzero => h (.here hpassed hzero)
      exact ih (fun hrest => h (.next hpassed hrest)) (by omega)
    · exact ⟨offset, scanLoop_stopped hpassed fuel⟩

theorem scanLoop_returns_iff :
    (∃ fuel o, scanLoop blockSize data fuel 0 = some o) ↔ ¬ Stalls blockSize data 0 := by
  constructor
  · rintro ⟨fuel, o, hscan⟩ hstalls
    rw [hstalls.scanLoop] at hscan
    cases hscan
  · intro h
    obtain ⟨o, ho⟩ := @scanLoop_returns blockSize 0 (blockSize + 1) data h (by omega)
    exact ⟨blockSize + 1, o, ho⟩

theorem scanLoop_mono {o fuel' : Nat} (h : scanLoop blockSize data fuel offset = some o) (hle : fuel ≤ fuel') :
    scanLoop blockSize data fuel' offset = some o := by
  induction fuel generalizing offset fuel' with
  | zero => cases h
  | succ fuel ih =>
    obtain ⟨fuel', rfl⟩ : ∃ m, fuel' = m + 1 := ⟨fuel' - 1, by omega⟩
    by_cases hpassed : Passed blockSize data offset
    · rw [scanLoop_passed hpassed] at h ⊢
      exact ih h (by omega)
    · rw [scanLoop_stopped hpassed] at h ⊢
      exact h

theorem scanLoop_unique {o o' fuel' : Nat} (h : scanLoop blockSize data fuel offset = some o)
    (h' : scanLoop blockSize data fuel' offset = some o') : o = o' := by
  have hmax := scanLoop_mono h (Nat.le_max_left fuel fuel')
  rw [scanLoop_mono h' (Nat.le_max_right fuel fuel')] at hmax
  exact (some.inj hmax).symm

theorem full_iff : Full blockSize data offset ↔
    ∃ fuel o, scanLoop blockSize data fuel offset = some o ∧ blockSize ≤ o := by
  constructor
  · intro h
    induction h with
    | @done offset hend => exact ⟨1, offset, scanLoop_stopped (fun hpassed => absurd hpassed.1 (by omega)) 0, hend⟩
    | next hpassed _ ih =>
      obtain ⟨fuel, o, hscan, hend⟩ := ih
      exact ⟨fuel + 1, o, by rw [scanLoop_passed hpassed, hscan], hend⟩
  · rintro ⟨fuel, o, hscan, hend⟩
    induction fuel generalizing offset with
    | zero => cases hscan
    | succ fuel ih =>
      by_cases hpassed : Passed blockSize data offset
      · rw [scanLoop_passed hpassed] at hscan
        exact .next hpassed (ih hscan)
      · rw [scanLoop_stopped hpassed] at hscan
        cases hscan
        exact .done hend

/-- Some block that the search comes to stalls the scan: the blocks before it are full. -/
def SearchStalls (fs : Ext2Fs) : List UInt32 → Prop
  | [] => False
  | b :: rest =>
    if b = 0 then SearchStalls fs rest
    else ∃ data, fs.readBlock b.toNat = .ok data ∧
      (Stalls fs.superBlock.blockSize data 0 ∨ Full fs.superBlock.blockSize data 0 ∧ SearchStalls fs rest)

theorem searchLoop_mono {fuel' : Nat} {r : Except KernelError (Nat × Nat × Nat)}
    (h : fs.searchLoop fuel blocks i lastIdx lastNum = some r) (hle : fuel ≤ fuel') :
    fs.searchLoop fuel' blocks i lastIdx lastNum = some r := by
  induction blocks generalizing i lastIdx lastNum with
  | nil => exact h
  | cons b rest ih =>
    rw [searchLoop] at h ⊢
    by_cases hb : b = 0
    · rw [if_pos hb] at h ⊢
      exact ih h
    · rw [if_neg hb] at h ⊢
      cases hread : fs.readBlock b.toNat with
      | error e => simpa only [hread] using h
      | ok data =>
        simp only [hread] at h ⊢
        obtain ⟨o, hscan, hrest⟩ := bind_eq_some_iff.mp h
        rw [scanLoop_mono hscan hle, bind_some]
        split_ifs at hrest ⊢
        · exact hrest
        · exact ih hrest

theorem searchLoop_returns_iff :
    (∃ fuel r, fs.searchLoop fuel blocks i lastIdx lastNum = some r) ↔ ¬ SearchStalls fs blocks := by
  induction blocks generalizing i lastIdx lastNum with
  | nil => simp [searchLoop, SearchStalls]
  | cons b rest ih =>
    simp only [searchLoop, SearchStalls]
    split_ifs with hb
    · exact ih
    · cases hread : fs.readBlock b.toNat with
      | error e => simp
      | ok data =>
        simp only [Except.ok.injEq, exists_eq_left', not_or, not_and]
        by_cases hstalls : Stalls fs.superBlock.blockSize data 0
        · simp [hstalls, hstalls.scanLoop]
        · obtain ⟨fuel, o, hscan⟩ := scanLoop_returns_iff.mpr hstalls
          by_cases ho : o < fs.superBlock.blockSize
          · have hroom : ¬ Full fs.superBlock.blockSize data 0 := by
              intro hfull
              obtain ⟨fuel', o', hscan', ho'⟩ := full_iff.mp hfull
              have heq := scanLoop_unique hscan hscan'
              omega
            refine iff_of_true ⟨fuel, .ok (i, b.toNat, o), ?_⟩ ⟨hstalls, fun hfull => absurd hfull hroom⟩
            rw [hscan, bind_some, if_pos ho]
          · have hfull : Full fs.superBlock.blockSize data 0 := full_iff.mpr ⟨fuel, o, hscan, Nat.le_of_not_lt ho⟩
            rw [show (¬ Stalls fs.superBlock.blockSize data 0 ∧
              (Full fs.superBlock.blockSize data 0 → ¬ SearchStalls fs rest)) ↔ ¬ SearchStalls fs rest by
                simp [hstalls, hfull], ← @ih (i + 1) i b.toNat]
            constructor
            · rintro ⟨fuel', r, hr⟩
              obtain ⟨o', hscan', hrest⟩ := bind_eq_some_iff.mp hr
              rw [← scanLoop_unique hscan hscan', if_neg ho] at hrest
              exact ⟨fuel', r, hrest⟩
            · rintro ⟨fuel', r, hr⟩
              refine ⟨max fuel fuel', r, ?_⟩
              rw [scanLoop_mono hscan (Nat.le_max_left ..), bind_some, if_neg ho]
              exact searchLoop_mono hr (Nat.le_max_right ..)

theorem createDirEntry_of_dir {fs' : Ext2Fs} {inode : Ext2Inode} {parent child : Nat} {name : List UInt8}
    {fileType : UInt8} {now : UInt32} (hread : fs.readInode parent = (fs', .ok inode)) (hdir : inode.isDir = true) :
    (∃ fuel r, fs.createDirEntry fuel parent name child fileType now = some r) ↔
      ¬ SearchStalls fs' (inode.iBlock.take 12) := by
  simp only [createDirEntry, hread, hdir, Bool.not_true, Bool.false_eq_true, if_false]
  rw [← @searchLoop_returns_iff fs' 0 0 0]
  constructor
  · rintro ⟨fuel, r, h⟩
    obtain ⟨found, hfound, -⟩ := map_eq_some_iff.mp h
    exact ⟨fuel, found, hfound⟩
  · rintro ⟨fuel, found, h⟩
    exact ⟨fuel, _, by rw [h]; rfl⟩

/-- The creation returns just when no block that its search comes to leads it to an entry in use of length 0. -/
theorem createDirEntry_returns_iff (fs : Ext2Fs) (parent : Nat) (name : List UInt8) (child : Nat) (fileType : UInt8)
    (now : UInt32) :
    (∃ fuel r, fs.createDirEntry fuel parent name child fileType now = some r) ↔
      ∀ fs' inode, fs.readInode parent = (fs', .ok inode) → inode.isDir = true →
        ¬ SearchStalls fs' (inode.iBlock.take 12) := by
  constructor
  · intro h fs' inode hread hdir
    exact (createDirEntry_of_dir hread hdir).mp h
  · intro h
    obtain ⟨fs', r, hread⟩ : ∃ fs' r, fs.readInode parent = (fs', r) := ⟨_, _, rfl⟩
    cases r with
    | error e => exact ⟨0, _, by rw [createDirEntry, hread]⟩
    | ok inode =>
      by_cases hdir : inode.isDir = true
      · exact (createDirEntry_of_dir hread hdir).mpr (h fs' inode hread hdir)
      · exact ⟨0, _, by simp only [createDirEntry, hread, hdir]; rfl⟩

theorem length_dotBlock {self parent : Nat} (hsize : 26 ≤ blockSize) :
    (dotBlock blockSize self parent).length = blockSize := by
  simp only [dotBlock, length_append, length_leBytes, length_cons, length_nil, length_replicate]
  omega

/-- The entry for `.` has length 8, so the scan goes on at the name of `.`, which it takes for an entry. -/
theorem dotBlock_stalls {self parent : Nat} (hsize : 26 ≤ blockSize) (hself : self % 256 ^ 4 ≠ 0) :
    Stalls blockSize (dotBlock blockSize self parent) 0 := by
  have hlen := @length_dotBlock blockSize self parent hsize
  have hfirst : entryInode (dotBlock blockSize self parent) 0 = self % 256 ^ 4 := leNat_leBytes 4 self
  refine .next ⟨by omega, by omega, by rwa [hfirst]⟩ (.here ⟨?_, ?_, ?_⟩ rfl)
  · exact show 8 < blockSize by omega
  · exact show 16 ≤ (dotBlock blockSize self parent).length by omega
  · exact show 46 ≠ 0 by decide

def madeDir : Ext2Inode where
  iMode := 0x41ED
  iUid := 0
  iSize := 1024
  iAtime := 0
  iCtime := 0
  iMtime := 0
  iDtime := 0
  iGid := 0
  iLinksCount := 2
  iBlocks := 2
  iFlags := 0
  iOsd1 := 0
  iBlock := 12 :: List.replicate 14 0
  iGeneration := 0
  iFileAcl := 0
  iDirAcl := 0
  iFaddr := 0
  iOsd2 := List.replicate 12 0
  block_length := rfl
  osd2_length := rfl

/-- Inode 12, cached and in the table, is a directory as `mkdir` makes it, in block 12. -/
def madeFs : Ext2Fs where
  superBlock := ⟨0, 8192, 16, 1, 1, 512, by decide, by decide, by decide⟩
  blockGroups := [⟨2, 3, 4, 100, 4⟩]
  dev := ⟨40, Memory.store (Memory.store (fun _ => 0) 9728 madeDir.bytes) 12288 (dotBlock 1024 12 2)⟩
  inodeCache := [(12, madeDir)]

theorem entry_in_made_dir_hangs : ¬ ∀ (fs : Ext2Fs) (parent : Nat) (name : List UInt8) (child : Nat) (fileType : UInt8)
    (now : UInt32), ∃ fuel r, fs.createDirEntry fuel parent name child fileType now = some r := by
  intro h
  have hread : madeFs.readBlock 12 = .ok (dotBlock 1024 12 2) := by
    have hdata : madeFs.dev.mem.load 12288 1024 = dotBlock 1024 12 2 := by
      have hload := @Memory.load_store (Memory.store (fun _ => 0) 9728 madeDir.bytes) 12288 (dotBlock 1024 12 2)
      rwa [length_dotBlock (by decide)] at hload
    have hfill : 512 * madeFs.blockSectors = (List.replicate madeFs.superBlock.blockSize (0 : UInt8)).length := by
      rw [length_replicate]
      decide
    rw [readBlock, BlockDevice.readSectors_ok (by decide) hfill.le, hfill, drop_length, append_nil, ← hfill]
    exact congrArg Except.ok hdata
  have hdir : madeFs.readInode 12 = (madeFs, .ok madeDir) := rfl
  refine (createDirEntry_of_dir hdir rfl).mp (h madeFs 12 [] 13 1 0) ?_
  exact ⟨_, hread, .inl (dotBlock_stalls (by decide) (by decide))⟩

end Ext2Fs

end AntX.Ext2
