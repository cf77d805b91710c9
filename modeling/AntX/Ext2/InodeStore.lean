import AntX.Ext2.Ext2Fs
import AntX.Lib.Bits

/-! Blocks and inodes of services/fs/ext2: an inode that is saved and read again, the inodes beside
it, and the bit that `allocate_inode` takes. -/

namespace AntX.Ext2

open AntX.Lib AntX.Driver List Option

namespace Ext2Fs

open Memory

variable {fs : Ext2Fs} {n b b' start k : Nat} {data : List UInt8}

def stored (fs : Ext2Fs) (start : Nat) (bs : List UInt8) : Ext2Fs :=
  { fs with dev := { fs.dev with mem := fs.dev.mem.store start bs } }

@[simp] theorem stored_superBlock (start : Nat) (bs : List UInt8) : (fs.stored start bs).superBlock = fs.superBlock := rfl

@[simp] theorem stored_inodeSector (start : Nat) (bs : List UInt8) :
    (fs.stored start bs).inodeSector n = fs.inodeSector n := rfl

theorem writeBack_ok {count : Nat} (hdev : start + count ≤ fs.dev.sectors) (hlen : data.length = 512 * count) :
    fs.writeBack start count data = (fs.stored (512 * start) data, .ok ()) := by
  rw [writeBack, BlockDevice.writeSectors_ok hdev hlen.ge, ← hlen, take_length]
  rfl

def OnDevice (fs : Ext2Fs) (b : Nat) : Prop := (b + 1) * fs.superBlock.blockSize ≤ 512 * fs.dev.sectors

def contents (fs : Ext2Fs) (b : Nat) : List UInt8 :=
  fs.dev.mem.load (b * fs.superBlock.blockSize) fs.superBlock.blockSize

theorem length_contents (b : Nat) : (fs.contents b).length = fs.superBlock.blockSize := length_load

theorem blockSectors_bytes (fs : Ext2Fs) : 512 * fs.blockSectors = fs.superBlock.blockSize :=
  Nat.mul_div_cancel' (Nat.dvd_mul_right_of_dvd (by decide) _)

theorem blockSector_bytes (fs : Ext2Fs) (b : Nat) : 512 * fs.blockSector b = b * fs.superBlock.blockSize :=
  Nat.mul_div_cancel' (Nat.dvd_mul_left_of_dvd (Nat.dvd_mul_right_of_dvd (by decide) _) _)

theorem OnDevice.sectors (h : fs.OnDevice b) : fs.blockSector b + fs.blockSectors ≤ fs.dev.sectors := by
  have hsize := fs.blockSectors_bytes
  have hbytes := fs.blockSector_bytes b
  rw [OnDevice, Nat.succ_mul] at h
  omega

theorem OnDevice.readBlock (h : fs.OnDevice b) : fs.readBlock b = .ok (fs.contents b) := by
  have hlen : 512 * fs.blockSectors = (replicate fs.superBlock.blockSize (0 : UInt8)).length := by
    rw [blockSectors_bytes, length_replicate]
  rw [Ext2Fs.readBlock, BlockDevice.readSectors_ok h.sectors hlen.le, hlen, drop_length, append_nil,
    length_replicate, blockSector_bytes]
  rfl

theorem OnDevice.writeBack (h : fs.OnDevice b) (hlen : data.length = fs.superBlock.blockSize) :
    fs.writeBack (fs.blockSector b) fs.blockSectors data = (fs.stored (b * fs.superBlock.blockSize) data, .ok ()) := by
  rw [writeBack_ok h.sectors (by rw [hlen, blockSectors_bytes]), blockSector_bytes]

theorem contents_stored_self (hlen : data.length = fs.superBlock.blockSize) :
    (fs.stored (b * fs.superBlock.blockSize) data).contents b = data := by
  rw [contents, stored_superBlock, ← hlen]
  exact load_store

theorem contents_stored_of_ne (hne : b' ≠ b) (hlen : data.length = fs.superBlock.blockSize) :
    (fs.stored (b * fs.superBlock.blockSize) data).contents b' = fs.contents b' := by
  refine load_congr fun o ho => store_outside ?_
  rw [stored_superBlock] at ho ⊢
  have := records_apart hne fs.superBlock.blockSize
  omega

theorem byte_bit (x : UInt8) (k : Fin 8) : (x &&& (1 <<< UInt8.ofNat k) == 0) = !x.toBitVec.getLsbD k := by
  have hall : ∀ (b : BitVec 8) (k : Fin 8), (UInt8.ofBitVec b &&& (1 <<< UInt8.ofNat k) == 0) = !b.getLsbD k := by
    decide +kernel
  exact hall x.toBitVec k

theorem toBitVec_mask : ∀ k : Fin 8, ((1 : UInt8) <<< UInt8.ofNat k).toBitVec = 1#8 <<< k.val := by decide

theorem bitClear_setBit (hk : k / 8 < data.length) (j : Nat) :
    bitClear (setBit data k) j = (bitClear data j && decide (j ≠ k)) := by
  have hbit := fun x j => byte_bit x ⟨j % 8, Nat.mod_lt j (by decide)⟩
  have hmask := toBitVec_mask ⟨k % 8, Nat.mod_lt k (by decide)⟩
  rw [bitClear, bitClear, hbit, hbit, setBit, getD_eq_getElem?_getD, getD_eq_getElem?_getD, getElem?_modify]
  by_cases hb : k / 8 = j / 8
  · have hjk : j = k ↔ j % 8 = k % 8 := by omega
    rw [← hb, getElem?_eq_getElem hk, Option.map_eq_map, Option.map_some, Option.getD_some, Option.getD_some,
      if_pos rfl, UInt8.toBitVec_or, hmask, BitVec.getLsbD_or, mask_bit]
    simp only [ne_eq, hjk, Bool.not_or, decide_not]
  · have hne : j ≠ k := fun h => hb (by rw [h])
    simp [hb, hne]

def taken (fs : Ext2Fs) (b k : Nat) : Ext2Fs := fs.stored (b * fs.superBlock.blockSize) (setBit (fs.contents b) k)

theorem length_setBit_contents (b k : Nat) : (setBit (fs.contents b) k).length = fs.superBlock.blockSize := by
  rw [setBit, length_modify, length_contents]

/-- An allocator takes a clear bit of its group, or it fails because there is none. -/
theorem OnDevice.allocInGroup_cases (h : fs.OnDevice b) (perGroup first : Nat) :
    ((∀ k < perGroup, k < 8 * fs.superBlock.blockSize → bitClear (fs.contents b) k = false) ∧
        fs.allocInGroup b perGroup first = (fs, .error .noSpace)) ∨
      ∃ k < perGroup, bitClear (fs.contents b) k = true ∧
        fs.allocInGroup b perGroup first = (fs.taken b k, .ok ((first + k) % 2 ^ 32)) := by
  rw [allocInGroup, h.readBlock]
  dsimp only
  cases hfind : firstFrom (fun k => decide (k < perGroup) && bitClear (fs.contents b) k) (8 * fs.superBlock.blockSize) 0 with
  | none =>
    refine .inl ⟨fun k hk hlt => ?_, rfl⟩
    simpa [hk] using firstFrom_none hfind k (Nat.zero_le k) (by omega)
  | some k =>
    have hsome := (firstFrom_some hfind).2.2
    simp only [Bool.and_eq_true, decide_eq_true_eq] at hsome
    refine .inr ⟨k, hsome.1, hsome.2, ?_⟩
    dsimp only
    rw [h.writeBack (length_setBit_contents b k)]
    rfl

end Ext2Fs

namespace Ext2Inode

theorem length_bytes (i : Ext2Inode) : i.bytes.length = 128 := by
  simp [bytes, i.block_length, i.osd2_length]

theorem takeBlocks_flatMap (l : List UInt32) (rest : List UInt8) :
    takeBlocks l.length (l.flatMap u32Bytes ++ rest) = (l, rest) := by
  induction l with
  | nil => rfl
  | cons x l ih => simp [takeBlocks, ih]

theorem fromBytes_bytes (i : Ext2Inode) (rest : List UInt8) : fromBytes (i.bytes ++ rest) = some i := by
  have hlen : ¬ (i.bytes ++ rest).length < 128 := by
    rw [length_append, length_bytes]
    omega
  have hblocks := takeBlocks_flatMap i.iBlock
  rw [i.block_length] at hblocks
  have hosd : ((i.bytes ++ rest).drop 116).take 12 = i.iOsd2 := by
    have htail : (i.bytes ++ rest).drop 116 = i.iOsd2 ++ rest := by
      simp [bytes, drop_append, drop_eq_nil_of_le, i.block_length]
    rw [htail, take_left' i.osd2_length]
  rw [fromBytes, dif_neg hlen]
  simp only [hosd]
  simp [bytes, hblocks]

end Ext2Inode

namespace Ext2Fs

variable {fs : Ext2Fs} {n m s s' : Nat} {i : Ext2Inode}

variable (sb : Ext2SuperBlock)

def tableStart (bgd : Ext2BlockGroupDescriptor) : Nat := bgd.bgInodeTable * sb.blockSize

def tableLen : Nat := sb.sInodesPerGroup * sb.inodeSize

def GroupsApart (a b : Ext2BlockGroupDescriptor) : Prop :=
  a.bgInodeBitmap ≠ b.bgInodeBitmap ∧
    (tableStart sb a + tableLen sb ≤ tableStart sb b ∨ tableStart sb b + tableLen sb ≤ tableStart sb a)

/-- A volume as it is made: the size of an inode is a power of 2, a bitmap has a bit for every inode of its group,
and the groups lie on the device, each with a table and a bitmap of its own. -/
structure Laid (fs : Ext2Fs) : Prop where
  size : ∃ k, fs.superBlock.inodeSize = 2 ^ k
  first : fs.superBlock.firstInode < 2 ^ 32
  total : fs.blockGroups.length * fs.superBlock.sInodesPerGroup < 2 ^ 32
  bits : fs.superBlock.sInodesPerGroup ≤ 8 * fs.superBlock.blockSize
  table : ∀ bgd ∈ fs.blockGroups, tableStart fs.superBlock bgd + tableLen fs.superBlock ≤ 512 * fs.dev.sectors
  bitmap : ∀ bgd ∈ fs.blockGroups, fs.OnDevice bgd.bgInodeBitmap
  apart : ∀ (g g' : Nat) a b, g ≠ g' → fs.blockGroups[g]? = some a → fs.blockGroups[g']? = some b →
    GroupsApart fs.superBlock a b

theorem Laid.sectors (h : Laid fs) (hsize : 512 ≤ fs.superBlock.inodeSize) :
    512 * inodeSectors fs.superBlock = fs.superBlock.inodeSize := by
  obtain ⟨k, hk⟩ := h.size
  have hk9 : 9 ≤ k := (Nat.pow_le_pow_iff_right (by decide : 1 < 2)).mp (hk ▸ hsize)
  have hdvd : 512 ∣ fs.superBlock.inodeSize := hk ▸ Nat.pow_dvd_pow 2 hk9
  rw [inodeSectors, Nat.max_eq_left (by omega), Nat.mul_div_cancel' hdvd]

theorem Laid.place (h : Laid fs) (hsize : 512 ≤ fs.superBlock.inodeSize) (hs : fs.inodeSector n = some s) :
    ∃ bgd, fs.blockGroups[inodeIndex n / fs.superBlock.sInodesPerGroup]? = some bgd ∧
      512 * s = tableStart fs.superBlock bgd +
        inodeIndex n % fs.superBlock.sInodesPerGroup * fs.superBlock.inodeSize := by
  obtain ⟨bgd, hbgd, rfl⟩ := map_eq_some_iff.mp hs
  refine ⟨bgd, hbgd, Nat.mul_div_cancel' (Nat.dvd_add ?_ ?_)⟩
  · exact Nat.dvd_mul_left_of_dvd (Nat.dvd_mul_right_of_dvd (by decide) _) _
  · exact Nat.dvd_mul_left_of_dvd ⟨_, (h.sectors hsize).symm⟩ _

theorem table_end (n : Nat) : inodeIndex n % sb.sInodesPerGroup * sb.inodeSize + sb.inodeSize ≤ tableLen sb :=
  record_end (Nat.mod_lt _ sb.inodes_pos) _

theorem Laid.onDevice (h : Laid fs) (hsize : 512 ≤ fs.superBlock.inodeSize) (hs : fs.inodeSector n = some s) :
    s + inodeSectors fs.superBlock ≤ fs.dev.sectors := by
  obtain ⟨bgd, hbgd, hplace⟩ := h.place hsize hs
  have htable := h.table bgd (mem_of_getElem? hbgd)
  have hend := table_end fs.superBlock n
  have hsectors := h.sectors hsize
  omega

theorem inodeIndex_inj (hn : n < 2 ^ 32) (hm : m < 2 ^ 32) (h : inodeIndex n = inodeIndex m) : n = m := by
  simp only [inodeIndex] at h
  omega

theorem Laid.disjoint (h : Laid fs) (hsize : 512 ≤ fs.superBlock.inodeSize) (hne : inodeIndex n ≠ inodeIndex m)
    (hs : fs.inodeSector n = some s) (hs' : fs.inodeSector m = some s') :
    512 * s + fs.superBlock.inodeSize ≤ 512 * s' ∨ 512 * s' + fs.superBlock.inodeSize ≤ 512 * s := by
  obtain ⟨a, ha, hplace⟩ := h.place hsize hs
  obtain ⟨b, hb, hplace'⟩ := h.place hsize hs'
  by_cases hgroup : inodeIndex n / fs.superBlock.sInodesPerGroup = inodeIndex m / fs.superBlock.sInodesPerGroup
  · rw [← hgroup, ha] at hb
    cases hb
    have hmod : inodeIndex n % fs.superBlock.sInodesPerGroup ≠ inodeIndex m % fs.superBlock.sInodesPerGroup := by
      intro heq
      exact hne (by rw [← Nat.div_add_mod (inodeIndex n), hgroup, heq, Nat.div_add_mod])
    have := records_apart hmod fs.superBlock.inodeSize
    omega
  · have hend := table_end fs.superBlock n
    have hend' := table_end fs.superBlock m
    have hapart := (h.apart _ _ a b hgroup ha hb).2
    omega

def entryBytes (i : Ext2Inode) : List UInt8 := i.bytes ++ replicate (sb.inodeSize - 128) 0

theorem length_entryBytes (hsize : 128 ≤ fs.superBlock.inodeSize) :
    (entryBytes fs.superBlock i).length = fs.superBlock.inodeSize := by
  rw [entryBytes, length_append, length_replicate, i.length_bytes]
  omega

theorem Laid.saveInode_cases (h : Laid fs) (n : Nat) (i : Ext2Inode) :
    (fs.saveInode n i).1 = fs ∧ (fs.superBlock.inodeSize < 512 ∨ fs.inodeSector n = none) ∨
      ∃ s, 512 ≤ fs.superBlock.inodeSize ∧ fs.inodeSector n = some s ∧
        (fs.saveInode n i).1 = fs.stored (512 * s) (entryBytes fs.superBlock i) := by
  rw [saveInode]
  cases hs : fs.inodeSector n with
  | none => exact .inl ⟨rfl, .inr rfl⟩
  | some s =>
    rw [← entryBytes]
    dsimp only
    by_cases hsize : fs.superBlock.inodeSize < 512
    · refine .inl ⟨?_, .inl hsize⟩
      simp only [writeBack]
      rw [BlockDevice.writeSectors, if_pos]
      simp only [entryBytes, length_append, length_replicate, i.length_bytes, inodeSectors]
      omega
    · have hlen := @length_entryBytes fs i (by omega)
      rw [← h.sectors (by omega)] at hlen
      exact .inr ⟨s, by omega, rfl, by rw [writeBack_ok (h.onDevice (by omega) hs) hlen]⟩

def fetch (fs : Ext2Fs) (n : Nat) : Except KernelError Ext2Inode := ({ fs with inodeCache := [] }.readInode n).2

theorem readInode_snd (fs : Ext2Fs) (n : Nat) :
    (fs.readInode n).2 = ((fs.inodeCache.find? fun e => e.1 == n).map (·.2)).elim (fs.fetch n) .ok := by
  cases hcache : fs.inodeCache.find? fun e => e.1 == n with
  | some e => simp only [readInode, hcache, map_some, elim_some]
  | none =>
    simp only [fetch, readInode, hcache, find?_nil, map_none, elim_none, inodeSector]
    split
    · rfl
    · split
      · rfl
      · split <;> rfl

theorem Laid.fetch (h : Laid fs) (hsize : 512 ≤ fs.superBlock.inodeSize) (hs : fs.inodeSector n = some s) :
    fs.fetch n = (Ext2Inode.fromBytes (fs.dev.mem.load (512 * s) fs.superBlock.inodeSize)).elim
      (.error .invalidArgument) .ok := by
  have hlen : 512 * inodeSectors fs.superBlock = (replicate fs.superBlock.inodeSize (0 : UInt8)).length := by
    rw [h.sectors hsize, length_replicate]
  have hread := BlockDevice.readSectors_ok (h.onDevice hsize hs) hlen.le
  rw [hlen, drop_length, append_nil, length_replicate] at hread
  have hsector : { fs with inodeCache := [] }.inodeSector n = some s := hs
  simp only [Ext2Fs.fetch, readInode, find?_nil, hsector, hread]
  cases Ext2Inode.fromBytes (fs.dev.mem.load (512 * s) fs.superBlock.inodeSize) <;> rfl

theorem fetch_small (hsize : fs.superBlock.inodeSize < 512) : ∃ e, fs.fetch n = .error e := by
  have hshort : (replicate fs.superBlock.inodeSize (0 : UInt8)).length < 512 * inodeSectors fs.superBlock := by
    rw [length_replicate, inodeSectors]
    omega
  simp only [Ext2Fs.fetch, readInode, find?_nil, BlockDevice.readSectors_short hshort]
  split <;> exact ⟨_, rfl⟩

theorem fetch_none (hs : fs.inodeSector n = none) : fs.fetch n = .error .invalidArgument := by
  have hsector : { fs with inodeCache := [] }.inodeSector n = none := hs
  simp only [Ext2Fs.fetch, readInode, find?_nil, hsector]

theorem Laid.stored (h : Laid fs) (start : Nat) (bs : List UInt8) : Laid (fs.stored start bs) :=
  ⟨h.size, h.first, h.total, h.bits, h.table, h.bitmap, h.apart⟩

/-- The cache has this very inode under the number, or nothing; then the inode is one of the volume, and inodes
take up whole sectors. -/
def SaveVisible (fs : Ext2Fs) (n : Nat) (i : Ext2Inode) : Prop :=
  ((fs.inodeCache.find? fun e => e.1 == n).map (·.2)).elim
    (512 ≤ fs.superBlock.inodeSize ∧ (fs.inodeSector n).isSome) (· = i)

theorem Laid.read_saved_iff (h : Laid fs) : ((fs.saveInode n i).1.readInode n).2 = .ok i ↔ SaveVisible fs n i := by
  rw [readInode_snd, SaveVisible]
  rcases h.saveInode_cases n i with ⟨heq, hfail⟩ | ⟨s, hsize, hs, heq⟩
  · rw [heq]
    cases (fs.inodeCache.find? fun e => e.1 == n).map (·.2) with
    | some j => simp
    | none =>
      rcases hfail with hsize | hs
      · obtain ⟨e, he⟩ := @fetch_small fs n hsize
        simp [he, Nat.not_le.mpr hsize]
      · simp [fetch_none hs, hs]
  · rw [heq]
    change (((fs.inodeCache.find? fun e => e.1 == n).map (·.2)).elim _ _ = _ ↔ _)
    cases (fs.inodeCache.find? fun e => e.1 == n).map (·.2) with
    | some j => simp
    | none =>
      have hload : (fs.stored (512 * s) (entryBytes fs.superBlock i)).dev.mem.load (512 * s)
          fs.superBlock.inodeSize = entryBytes fs.superBlock i := by
        rw [← @length_entryBytes fs i (by omega)]
        exact Memory.load_store
      have hfetch := (h.stored (512 * s) (entryBytes fs.superBlock i)).fetch hsize hs
      refine iff_of_true (hfetch.trans ?_) ⟨hsize, by rw [hs]; rfl⟩
      rw [stored_superBlock, hload, entryBytes, Ext2Inode.fromBytes_bytes]
      rfl

theorem Laid.read_other (h : Laid fs) (i : Ext2Inode) (hne : inodeIndex n ≠ inodeIndex m) :
    ((fs.saveInode n i).1.readInode m).2 = (fs.readInode m).2 := by
  rcases h.saveInode_cases n i with ⟨heq, -⟩ | ⟨s, hsize, hs, heq⟩
  · rw [heq]
  · rw [heq, readInode_snd, readInode_snd]
    have hfetch : (fs.stored (512 * s) (entryBytes fs.superBlock i)).fetch m = fs.fetch m := by
      cases hs' : fs.inodeSector m with
      | none => rw [fetch_none hs', fetch_none (by rw [stored_inodeSector, hs'])]
      | some s' =>
        rw [h.fetch hsize hs', (h.stored _ _).fetch hsize hs']
        have hload : (fs.stored (512 * s) (entryBytes fs.superBlock i)).dev.mem.load (512 * s')
            fs.superBlock.inodeSize = fs.dev.mem.load (512 * s') fs.superBlock.inodeSize := by
          refine Memory.load_congr fun o ho => Memory.store_outside ?_
          have happart := h.disjoint hsize hne hs hs'
          rw [length_entryBytes (by omega)]
          omega
        rw [stored_superBlock, hload]
    rw [hfetch]
    rfl

def groupBit (fs : Ext2Fs) (g k : Nat) : Option Bool :=
  (fs.blockGroups[g]?).bind fun bgd => (fs.readBlock bgd.bgInodeBitmap).toOption.map fun data => !bitClear data k

def inodeBit (fs : Ext2Fs) (n : Nat) : Option Bool :=
  fs.groupBit (inodeIndex n / fs.superBlock.sInodesPerGroup) (inodeIndex n % fs.superBlock.sInodesPerGroup)

def HasFreeInode (fs : Ext2Fs) : Prop :=
  ∃ bgd g, firstGroup (·.bgFreeInodesCount) fs.blockGroups = some (bgd, g) ∧
    ∃ k < fs.superBlock.sInodesPerGroup, fs.groupBit g k = some false

variable {bgd : Ext2BlockGroupDescriptor} {g k : Nat}

theorem Laid.groupBit (h : Laid fs) (hg : fs.blockGroups[g]? = some bgd) (k : Nat) :
    fs.groupBit g k = some (!bitClear (fs.contents bgd.bgInodeBitmap) k) := by
  rw [Ext2Fs.groupBit, hg, bind_some, (h.bitmap bgd (mem_of_getElem? hg)).readBlock]
  rfl

theorem Laid.groupBit_taken (h : Laid fs) (hg : fs.blockGroups[g]? = some bgd) (hk : k < fs.superBlock.sInodesPerGroup)
    (g' j : Nat) : (fs.taken bgd.bgInodeBitmap k).groupBit g' j =
      if g' = g ∧ j = k then some true else fs.groupBit g' j := by
  cases hg' : fs.blockGroups[g']? with
  | none =>
    have hne : g' ≠ g := by
      rintro rfl
      rw [hg] at hg'
      cases hg'
    have hnone : (fs.taken bgd.bgInodeBitmap k).blockGroups[g']? = none := hg'
    rw [if_neg fun heq => hne heq.1, Ext2Fs.groupBit, Ext2Fs.groupBit, hg', hnone]
    rfl
  | some bgd' =>
    rw [h.groupBit hg', taken, (h.stored _ _).groupBit hg', ← taken]
    by_cases hgroup : g' = g
    · subst hgroup
      rw [hg] at hg'
      cases hg'
      have hin : k / 8 < (fs.contents bgd.bgInodeBitmap).length := by
        have hbits := h.bits
        rw [length_contents]
        omega
      rw [taken, contents_stored_self (length_setBit_contents _ _), bitClear_setBit hin]
      by_cases hjk : j = k <;> simp [hjk]
    · rw [if_neg fun heq => hgroup heq.1, taken,
        contents_stored_of_ne (h.apart _ _ _ _ hgroup hg' hg).1 (length_setBit_contents _ _)]

theorem Laid.allocateInode_cases (h : Laid fs) : (¬ HasFreeInode fs ∧ ∃ e, fs.allocateInode.2 = .error e) ∨
      ∃ bgd g k, fs.blockGroups[g]? = some bgd ∧ k < fs.superBlock.sInodesPerGroup ∧ fs.groupBit g k = some false ∧
        HasFreeInode fs ∧ fs.allocateInode = (fs.taken bgd.bgInodeBitmap k,
          .ok ((g * fs.superBlock.sInodesPerGroup + fs.superBlock.firstInode + k) % 2 ^ 32)) := by
  rw [allocateInode, HasFreeInode]
  cases hfirst : firstGroup (·.bgFreeInodesCount) fs.blockGroups with
  | none => exact .inl ⟨by simp, _, rfl⟩
  | some r =>
    obtain ⟨bgd, g⟩ := r
    have hmem := mem_of_find?_eq_some hfirst
    have hg : fs.blockGroups[g]? = some bgd := by simpa using mem_zipIdx_iff_getElem?.mp hmem
    dsimp only
    rcases (h.bitmap bgd (mem_of_getElem? hg)).allocInGroup_cases fs.superBlock.sInodesPerGroup
      (g * fs.superBlock.sInodesPerGroup + fs.superBlock.firstInode) with ⟨hfull, heq⟩ | ⟨k, hk, hclear, heq⟩
    · refine .inl ⟨?_, _, by rw [heq]⟩
      rintro ⟨bgd', g', hsome, k, hk, hbit⟩
      cases hsome
      have hbits := h.bits
      rw [h.groupBit hg, hfull k hk (by omega)] at hbit
      cases hbit
    · have hbit : fs.groupBit g k = some false := by
        rw [h.groupBit hg, hclear]
        rfl
      exact .inr ⟨bgd, g, k, hg, hk, hbit, ⟨bgd, g, rfl, k, hk, hbit⟩, heq⟩

/-- The number that is answered for bit `k` of group `g` is the one of that bit just when numbers start at 1. -/
theorem Laid.index_iff (h : Laid fs) (hg : fs.blockGroups[g]? = some bgd) (hk : k < fs.superBlock.sInodesPerGroup) {n : Nat}
    (hn : n = (g * fs.superBlock.sInodesPerGroup + fs.superBlock.firstInode + k) % 2 ^ 32) :
    (inodeIndex n / fs.superBlock.sInodesPerGroup = g ∧ inodeIndex n % fs.superBlock.sInodesPerGroup = k) ↔
      fs.superBlock.firstInode = 1 := by
  have hlt : g * fs.superBlock.sInodesPerGroup + k < 2 ^ 32 := by
    have hle := record_end (List.getElem?_eq_some_iff.mp hg).1 fs.superBlock.sInodesPerGroup
    have htotal := h.total
    omega
  have hindex : inodeIndex n = g * fs.superBlock.sInodesPerGroup + k ↔ fs.superBlock.firstInode = 1 := by
    have hfirst := h.first
    rw [inodeIndex, hn]
    omega
  rw [← hindex, Nat.div_mod_unique fs.superBlock.inodes_pos]
  constructor
  · rintro ⟨heq, -⟩
    rw [← heq, Nat.mul_comm, Nat.add_comm]
  · intro heq
    exact ⟨by rw [heq, Nat.mul_comm, Nat.add_comm], hk⟩

/-- An inode that is saved is read back, the others are read as before, and the allocator answers an inode whose
own bit it has just set. -/
def InodeStoreCorrect (fs : Ext2Fs) (n : Nat) (i : Ext2Inode) : Prop :=
  ((fs.saveInode n i).1.readInode n).2 = .ok i ∧
    (∀ m < 2 ^ 32, m ≠ n → ((fs.saveInode n i).1.readInode m).2 = (fs.readInode m).2) ∧
    ∀ num, fs.allocateInode.2 = .ok num →
      fs.inodeBit num = some false ∧ fs.allocateInode.1.inodeBit num = some true

theorem Laid.allocated_iff (h : Laid fs) : (∀ num, fs.allocateInode.2 = .ok num →
      fs.inodeBit num = some false ∧ fs.allocateInode.1.inodeBit num = some true) ↔
      fs.superBlock.firstInode = 1 ∨ ¬ HasFreeInode fs := by
  rcases h.allocateInode_cases with ⟨hfull, e, he⟩ | ⟨bgd, g, k, hg, hk, hbit, hfree, heq⟩
  · exact iff_of_true (fun num hnum => by rw [he] at hnum; cases hnum) (.inr hfull)
  · have hiff := h.index_iff hg hk rfl
    simp only [heq, Except.ok.injEq, forall_eq', hfree, not_true_eq_false, or_false]
    rw [← hiff, inodeBit, inodeBit, taken, stored_superBlock, ← taken, h.groupBit_taken hg hk]
    constructor
    · rintro ⟨hclear, hset⟩
      by_contra hne
      rw [if_neg hne, hclear] at hset
      cases hset
    · intro hown
      rw [if_pos hown, hown.1, hown.2]
      exact ⟨hbit, rfl⟩

/-- On a volume as it is made, the inode store is correct just when the save can be seen by the read and the
numbers of inodes start at 1, unless there is no inode to allocate. -/
theorem inodeStore_correct_iff (h : Laid fs) (hn : n < 2 ^ 32) (i : Ext2Inode) : InodeStoreCorrect fs n i ↔
      SaveVisible fs n i ∧ (fs.superBlock.firstInode = 1 ∨ ¬ HasFreeInode fs) := by
  rw [InodeStoreCorrect, h.read_saved_iff, h.allocated_iff]
  exact and_congr_right fun _ =>
    and_iff_right fun m hm hne => h.read_other i fun heq => hne (inodeIndex_inj hm hn heq.symm)

def oneGroup (large : Bool) : Ext2Fs where
  superBlock := ⟨0, 8192, 8, 1, 1, cond large 512 128, Nat.succ_pos _, by decide, by cases large <;> decide⟩
  blockGroups := [⟨2, 3, 4, 100, 8⟩]
  dev := ⟨100, fun _ => 0⟩
  inodeCache := []

theorem oneGroup_laid (large : Bool) : Laid (oneGroup large) where
  size := ⟨cond large 9 7, by cases large <;> rfl⟩
  first := show 1 < 2 ^ 32 by decide
  total := show 8 < 2 ^ 32 by decide
  bits := show 8 ≤ 8 * 1024 by decide
  table bgd hbgd := by
    obtain rfl : bgd = _ := mem_singleton.mp hbgd
    cases large <;> decide
  bitmap bgd hbgd := by
    obtain rfl : bgd = _ := mem_singleton.mp hbgd
    exact show 4 * 1024 ≤ 51200 by decide
  apart g g' a b hne ha hb := by
    have hg : g < 1 := (List.getElem?_eq_some_iff.mp ha).1
    have hg' : g' < 1 := (List.getElem?_eq_some_iff.mp hb).1
    omega

theorem inodeStore_correct_large : Laid (oneGroup true) ∧ InodeStoreCorrect (oneGroup true) 3 madeDir :=
  ⟨oneGroup_laid true, (inodeStore_correct_iff (oneGroup_laid true) (by decide) madeDir).mpr
    ⟨show 512 ≤ 512 ∧ _ from ⟨le_rfl, rfl⟩, .inl rfl⟩⟩

theorem small_inode_not_saved : ¬ ∀ (fs : Ext2Fs) (n : Nat) (i : Ext2Inode), Laid fs → n < 2 ^ 32 →
    (fs.inodeSector n).isSome → InodeStoreCorrect fs n i := by
  intro hall
  have hsaved := (hall (oneGroup false) 3 madeDir (oneGroup_laid false) (by decide) rfl).1
  have hvisible : 512 ≤ 128 ∧ _ := (oneGroup_laid false).read_saved_iff.mp hsaved
  exact absurd hvisible.1 (by decide)

end Ext2Fs

end AntX.Ext2
