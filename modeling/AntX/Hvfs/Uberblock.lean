import AntX.Lib.Run
import AntX.Lib.Rotation
import AntX.Hvfs.BlockPointer

/-! Uberblocks of services/fs/hvfs/spa.rs: layout, checksum, the 128 sectors they are written to in
rotation, and the one that a mount comes upon. -/

namespace AntX.Hvfs

open AntX.Lib Function

def words : List UInt8 → List UInt64
  | a :: b :: c :: d :: e :: f :: g :: h :: rest =>
    UInt64.ofNat (leNat [a, b, c, d, e, f, g, h]) :: words rest
  | [] => []
  | rest => [UInt64.ofNat (leNat rest)]

def fletcher4 (data : List UInt8) : Words4 :=
  (words data).foldl (fun s w =>
      let a := s.w0 + w
      let b := s.w1 + a
      let c := s.w2 + b
      ⟨a, b, c, s.w3 + c⟩) .zero

def hvSpaMagic : UInt32 := 0x48564653
def hvUberblockCount : Nat := 128
def hvUberblockSector : Nat := 0

structure HvUberblock where
  txg : UInt64
  rootBp : HvBlockPointer
  timestamp : UInt64
  rootDatasetObj : UInt64
  poolGuid : UInt64
  checkpointTxg : UInt64
  checksum : Words4
  magic : UInt32
  pwmDomainId : UInt16
  deriving DecidableEq, Repr

variable {ub : HvUberblock} {s : SyncState}

namespace HvUberblock

def null : HvUberblock := ⟨0, .null, 0, 0, 0, 0, .zero, 0, 0⟩

def isValid (ub : HvUberblock) : Bool := ub.magic == hvSpaMagic

def asBytes (ub : HvUberblock) : List UInt8 :=
  u64Bytes ub.txg ++ (ub.rootBp.asBytes ++ (u64Bytes ub.timestamp ++ (u64Bytes ub.rootDatasetObj ++
    (u64Bytes ub.poolGuid ++ (u64Bytes ub.checkpointTxg ++ (ub.checksum.asBytes ++
      (u32Bytes ub.magic ++ (u16Bytes ub.pwmDomainId ++ [0, 0]))))))))

def fromBytesUnaligned (bs : List UInt8) : Option HvUberblock :=
  if bs.length < 192 then none
  else
    let (txg, bs) := takeU64 bs
    let (rootBp, bs) := HvBlockPointer.take bs
    let (timestamp, bs) := takeU64 bs
    let (rootDatasetObj, bs) := takeU64 bs
    let (poolGuid, bs) := takeU64 bs
    let (checkpointTxg, bs) := takeU64 bs
    let (checksum, bs) := Words4.take bs
    let (magic, bs) := takeU32 bs
    let (pwmDomainId, _) := takeU16 bs
    some ⟨txg, rootBp, timestamp, rootDatasetObj, poolGuid, checkpointTxg, checksum, magic, pwmDomainId⟩

def computeChecksum (ub : HvUberblock) : HvUberblock :=
  { ub with checksum := fletcher4 { ub with checksum := .zero }.asBytes }

def verifyChecksum (ub : HvUberblock) : Bool :=
  fletcher4 { ub with checksum := .zero }.asBytes == ub.checksum

theorem length_asBytes (ub : HvUberblock) : ub.asBytes.length = 192 := by simp [asBytes]

theorem fromBytesUnaligned_asBytes (hpad : ub.rootBp.pad = (0, 0)) (rest : List UInt8) :
    fromBytesUnaligned (ub.asBytes ++ rest) = some ub := by
  have hlen : ¬ (ub.asBytes ++ rest).length < 192 := by
    rw [List.length_append, length_asBytes]
    omega
  rw [fromBytesUnaligned, if_neg hlen]
  simp [asBytes, ← hpad]

@[simp] theorem computeChecksum_txg (ub : HvUberblock) : ub.computeChecksum.txg = ub.txg := by
  rw [computeChecksum]

@[simp] theorem computeChecksum_rootBp (ub : HvUberblock) :
    ub.computeChecksum.rootBp = ub.rootBp := by rw [computeChecksum]

@[simp] theorem computeChecksum_isValid (ub : HvUberblock) :
    ub.computeChecksum.isValid = ub.isValid := by rw [computeChecksum, isValid, isValid]

theorem computeChecksum_verifies (ub : HvUberblock) : ub.computeChecksum.verifyChecksum = true := by
  rw [verifyChecksum, computeChecksum, beq_iff_eq]

end HvUberblock

abbrev Disk := Nat → List UInt8

def uberblockSector (ub : HvUberblock) : List UInt8 :=
  ub.asBytes ++ List.replicate (512 - ub.asBytes.length) 0

def writeUberblockToDisk (ub : HvUberblock) (txgCurrent : Nat) (disk : Disk) : Disk :=
  if ub.isValid then
    update disk (hvUberblockSector + txgCurrent % 2 ^ 32 % hvUberblockCount)
      (uberblockSector ub.computeChecksum)
  else disk

def readSlot (bs : List UInt8) : Option HvUberblock :=
  (HvUberblock.fromBytesUnaligned bs).filter fun ub => ub.isValid && ub.verifyChecksum

def readUberblockFromDisk (disk : Disk) : Option HvUberblock :=
  scanDown (fun i => readSlot (disk (hvUberblockSector + i))) hvUberblockCount

open HvUberblock

theorem readSlot_written (hvalid : ub.isValid = true) (hpad : ub.rootBp.pad = (0, 0)) :
    readSlot (uberblockSector ub.computeChecksum) = some ub.computeChecksum := by
  have hpad' : ub.computeChecksum.rootBp.pad = (0, 0) := by
    rw [computeChecksum_rootBp, hpad]
  rw [readSlot, uberblockSector, fromBytesUnaligned_asBytes hpad']
  simp [hvalid, computeChecksum_verifies]

theorem readSlot_some {bs : List UInt8} (h : readSlot bs = some ub) :
    ub.isValid = true ∧ ub.rootBp.pad = (0, 0) := by
  obtain ⟨hread, hok⟩ := Option.filter_eq_some_iff.mp h
  rw [Bool.and_eq_true] at hok
  refine ⟨hok.1, ?_⟩
  rw [HvUberblock.fromBytesUnaligned] at hread
  split_ifs at hread
  cases hread
  rfl

/-- The pool between two syncs in disk mode: the uberblock in memory has the magic of `init` and a root
block pointer that `allocate` or a mount made, whose padding is zero. -/
@[ext] structure SyncState where
  uberblock : HvUberblock
  txgCurrent : Nat
  disk : Disk
  valid : uberblock.isValid = true
  pad : uberblock.rootBp.pad = (0, 0)

/-- What a sync meets: the clock, the block pointer that `serialize_dataset_metadata` returns, and the
sectors it writes, all of them behind the label. -/
structure SyncInput where
  timestamp : UInt64
  metaBp : Option HvBlockPointer
  written : Nat → Option (List UInt8)
  pad : ∀ bp, metaBp = some bp → bp.pad = (0, 0)

def firstDataSector : Nat := 512

theorem slot_lt {j : Nat} (hj : j < hvUberblockCount) : hvUberblockSector + j < firstDataSector := by
  rw [hvUberblockCount] at hj
  rw [hvUberblockSector, firstDataSector]
  omega

def SyncInput.writeData (i : SyncInput) (disk : Disk) : Disk :=
  fun n => if firstDataSector ≤ n then (i.written n).getD (disk n) else disk n

def stamped (ub : HvUberblock) (txg now : UInt64) (metaBp : Option HvBlockPointer) : HvUberblock :=
  { ub with txg := txg, timestamp := now, rootBp := metaBp.getD ub.rootBp }

def SyncInput.updateUberblock (i : SyncInput) (ub : HvUberblock) (txg : Nat) : HvUberblock :=
  stamped ub (UInt64.ofNat txg) i.timestamp i.metaBp

theorem SyncInput.updateUberblock_pad (i : SyncInput) (h : ub.rootBp.pad = (0, 0)) (txg : Nat) :
    (i.updateUberblock ub txg).rootBp.pad = (0, 0) := by
  rw [updateUberblock, stamped]
  cases hm : i.metaBp with
  | none => exact h
  | some bp => exact i.pad bp hm

def sync (s : SyncState) (i : SyncInput) : SyncState where
  uberblock := i.updateUberblock s.uberblock (s.txgCurrent + 1)
  txgCurrent := s.txgCurrent + 1
  disk := writeUberblockToDisk (i.updateUberblock s.uberblock (s.txgCurrent + 1)) (s.txgCurrent + 1)
    (i.writeData s.disk)
  valid := s.valid
  pad := i.updateUberblock_pad s.pad _

def ring (disk : Disk) : Nat → Option HvUberblock := fun i => readSlot (disk (hvUberblockSector + i))

theorem sync_disk (s : SyncState) (i : SyncInput) : (sync s i).disk = update (i.writeData s.disk)
      (hvUberblockSector + (s.txgCurrent + 1) % hvUberblockCount)
      (uberblockSector (sync s i).uberblock.computeChecksum) := by
  have hslot : (s.txgCurrent + 1) % 2 ^ 32 % hvUberblockCount = (s.txgCurrent + 1) % hvUberblockCount := by
    rw [hvUberblockCount]
    omega
  have hvalid : (i.updateUberblock s.uberblock (s.txgCurrent + 1)).isValid = true := s.valid
  rw [sync]
  rw [writeUberblockToDisk, if_pos hvalid, hslot]

theorem ring_sync_other (s : SyncState) (i : SyncInput) {j : Nat} (hj : j < hvUberblockCount)
    (hne : j ≠ (s.txgCurrent + 1) % hvUberblockCount) : ring (sync s i).disk j = ring s.disk j := by
  rw [ring, ring, sync_disk, update_of_ne (by omega), SyncInput.writeData,
    if_neg (Nat.not_le.mpr (slot_lt hj))]

theorem read_sync_top (s : SyncState) (i : SyncInput)
    (habove : ∀ j, (s.txgCurrent + 1) % hvUberblockCount < j → j < hvUberblockCount → ring s.disk j = none) :
    readUberblockFromDisk (sync s i).disk = some (sync s i).uberblock.computeChecksum := by
  apply scanDown_of_top (Nat.mod_lt (s.txgCurrent + 1) (by decide))
  · rw [sync_disk, update_self]
    exact readSlot_written (sync s i).valid (sync s i).pad
  · intro j hlt hj
    exact (ring_sync_other s i hj (Nat.ne_of_gt hlt)).trans (habove j hlt hj)

structure Ringed (first count : Nat) (s : SyncState) : Prop where
  txg : s.txgCurrent + 1 = first + count
  rotated : ∃ hist : Nat → HvUberblock, Rotated hvUberblockCount first count hist (ring s.disk) ∧
    (∀ t, (hist t).txg = UInt64.ofNat t) ∧
    (count ≠ 0 → hist s.txgCurrent = s.uberblock.computeChecksum)

theorem Ringed.initial (h : ∀ i, i < hvUberblockCount → ring s.disk i = none) :
    Ringed (s.txgCurrent + 1) 0 s where
  txg := rfl
  rotated := ⟨fun t => { HvUberblock.null with txg := UInt64.ofNat t }, Rotated.zero h,
    fun _ => rfl, fun h0 => absurd rfl h0⟩

variable {first count : Nat}

theorem Ringed.sync (h : Ringed first count s) (i : SyncInput) : Ringed first (count + 1) (sync s i) := by
  obtain ⟨hist, hrot, hstamp, -⟩ := h.rotated
  have htxg : first + count = s.txgCurrent + 1 := h.txg.symm
  have hstep : (Hvfs.sync s i).txgCurrent = s.txgCurrent + 1 := rfl
  refine ⟨by rw [hstep]; omega, ?_⟩
  refine ⟨update hist (s.txgCurrent + 1) (Hvfs.sync s i).uberblock.computeChecksum, ?_, ?_, ?_⟩
  · apply hrot.write
    · intro t ht
      exact update_of_ne (by omega) _ _
    · rw [htxg, update_self, ring, sync_disk, update_self]
      exact readSlot_written (Hvfs.sync s i).valid (Hvfs.sync s i).pad
    · intro j hj hne
      rw [htxg] at hne
      exact ring_sync_other s i hj hne
  · intro t
    by_cases ht : t = s.txgCurrent + 1
    · rw [ht, update_self, computeChecksum_txg]
      rfl
    · rw [update_of_ne ht]
      exact hstamp t
  · intro _
    rw [hstep, update_self]

theorem Ringed.run (h : Ringed first count s) (is : List SyncInput) :
    Ringed first (count + is.length) (run Hvfs.sync s is) := by
  induction is generalizing s count with
  | nil => exact h
  | cons i is ih =>
    have hrun := ih (h.sync i)
    rw [List.length_cons, Nat.add_comm is.length 1, ← Nat.add_assoc]
    exact hrun

theorem Ringed.read_newest_iff (h : Ringed first (count + 1) s) :
    readUberblockFromDisk s.disk = some s.uberblock.computeChecksum ↔
      s.txgCurrent % hvUberblockCount = hvUberblockCount - 1 ∨
        s.txgCurrent / hvUberblockCount = first / hvUberblockCount := by
  obtain ⟨hist, hrot, hstamp, hnewest⟩ := h.rotated
  have htxg : s.txgCurrent = first + count := by
    have htxg := h.txg
    omega
  have hcount : hvUberblockCount = 128 := rfl
  rw [← hnewest (Nat.succ_ne_zero count), htxg]
  apply hrot.scanDown_newest_iff (by decide)
  -- Two versions less than a turn apart differ in their transaction group.
  intro t hlt hclose heq
  have hsame := congrArg (fun ub => ub.txg.toNat) heq
  simp only [hstamp, UInt64.toNat_ofNat'] at hsame
  omega

/-- From a disk without uberblocks, after at least one sync, the scan returns the newest uberblock
just when it is in the last sector of the ring, or all of them went into one turn of it. -/
theorem sync_read_newest_iff (s : SyncState)
    (hblank : ∀ i, i < hvUberblockCount → readSlot (s.disk (hvUberblockSector + i)) = none)
    (i : SyncInput) (is : List SyncInput) :
    readUberblockFromDisk (run sync s (i :: is)).disk =
        some (run sync s (i :: is)).uberblock.computeChecksum ↔
      (s.txgCurrent + 1 + is.length) % hvUberblockCount = hvUberblockCount - 1 ∨
        (s.txgCurrent + 1 + is.length) / hvUberblockCount = (s.txgCurrent + 1) / hvUberblockCount := by
  have h := (Ringed.initial hblank).run (i :: is)
  rw [Nat.zero_add, List.length_cons] at h
  have htxg : (run sync s (i :: is)).txgCurrent = s.txgCurrent + 1 + is.length := by
    have htxg := h.txg
    omega
  rw [h.read_newest_iff, htxg]

def freshSync : SyncState where
  uberblock := { HvUberblock.null with magic := hvSpaMagic, txg := 1 }
  txgCurrent := 1
  disk _ := List.replicate 512 0
  valid := rfl
  pad := rfl

theorem freshSync_blank (i : Nat) : readSlot (freshSync.disk (hvUberblockSector + i)) = none := by
  have hzero : readSlot (List.replicate 512 0) = none := by decide +kernel
  exact hzero

def plainSync : SyncInput := ⟨0, none, fun _ => none, fun _ h => by cases h⟩

theorem sync_read_newest_first : readUberblockFromDisk (run sync freshSync [plainSync]).disk =
      some (run sync freshSync [plainSync]).uberblock.computeChecksum :=
  (sync_read_newest_iff freshSync (fun i _ => freshSync_blank i) plainSync []).mpr (.inr (by decide))

/-- The sync with number 128 goes to sector 0, below the older uberblock in sector 127. -/
theorem sync_read_older : ¬ ∀ s : SyncState,
      (∀ i, i < hvUberblockCount → readSlot (s.disk (hvUberblockSector + i)) = none) →
      ∀ is : List SyncInput, is ≠ [] → readUberblockFromDisk (run sync s is).disk =
          some (run sync s is).uberblock.computeChecksum := by
  intro h
  have hread := h freshSync (fun i _ => freshSync_blank i) (List.replicate 127 plainSync) (by simp)
  have hring := (Ringed.initial fun i _ => freshSync_blank i).run (List.replicate 127 plainSync)
  rw [Nat.zero_add, List.length_replicate] at hring
  have htxg : (run sync freshSync (List.replicate 127 plainSync)).txgCurrent = 128 := by
    have htxg := hring.txg
    have hfirst : freshSync.txgCurrent = 1 := rfl
    omega
  have hpos := hring.read_newest_iff.mp hread
  rw [htxg] at hpos
  revert hpos
  decide

end AntX.Hvfs
