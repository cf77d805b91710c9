import AntX.Hvfs.Mount

/-! Allocations after a mount, from services/fs/hvfs/hvfs_data.rs and spa.rs: what lies on the disk
is handed out again. -/

namespace AntX.Hvfs

open AntX.Lib Function HvBlockPointer List

variable {bp : HvBlockPointer} {buf : List UInt8} {spa : HvSpa} {obj : HvDmuObject}

namespace HvfsData

variable {c : HvVdevConfig} {h : HvfsData} {api : PwmApi} {i : Nat}

def Apart (bp old : HvBlockPointer) : Prop := ∀ v byte, bp.Occupies v byte → ¬ old.Occupies v byte

def live (h : HvfsData) : List HvBlockPointer :=
  h.uberblock.rootBp :: h.ds.objset.objects.map HvDmuObject.bp

def Spared (h : HvfsData) : Prop :=
  ∀ rs, ∀ bp ∈ h.spa.handedOut rs, ∀ old ∈ h.live, Apart bp old

def recorded (dev : Device) (disk : Disk) (ub : HvUberblock) : List HvBlockPointer :=
  ub.rootBp :: (mounted dev disk ub).restoredDataset.objset.objects.map HvDmuObject.bp

def OutOfReach (dev : Device) (disk : Disk) (ub : HvUberblock) : Prop :=
  ∀ old ∈ recorded dev disk ub, ∀ byte, old.Occupies dev.config.vdevId byte → ¬ HvSpa.Lendable dev.config byte

variable {dev : Device} {guid : UInt64} {disk : Disk} {ub : HvUberblock} {m : HvfsData}

theorem mount_found (hm : mountDrive dev (boot dev guid disk) = (true, m)) :
    ∃ ub, readUberblockFromDisk disk = some ub ∧ m.spa = (HvSpa.new.addVdev dev.config).2 ∧
      m.live = recorded dev disk ub := by
  rw [mountDrive_boot] at hm
  split at hm
  · cases hm
  · next ub hread =>
    cases hm
    exact ⟨ub, readUberblock_boot hread, rfl, rfl⟩

theorem spared_iff (hspa : m.spa = (HvSpa.new.addVdev dev.config).2)
    (hlive : m.live = recorded dev disk ub) : Spared m ↔ OutOfReach dev disk ub := by
  have hreach := fun v byte => @HvSpa.handedOut_fresh_iff dev.config v byte dev.asize.toNat_lt
  rw [Spared, OutOfReach, hlive, hspa]
  constructor
  · intro hs old hold byte hocc hlend
    obtain ⟨rs, bp, hbp, hbyte⟩ := (hreach dev.config.vdevId byte).mpr ⟨rfl, hlend⟩
    exact hs rs bp hbp old hold dev.config.vdevId byte hbyte hocc
  · intro hout rs bp hbp old hold v byte hbyte hocc
    obtain ⟨rfl, hlend⟩ := (hreach v byte).mp ⟨rs, bp, hbp, hbyte⟩
    exact hout old hold byte hocc hlend

theorem not_occupies_of_isNull (hnull : bp.isNull = true) {v : UInt16} {byte : Nat} :
    ¬ bp.Occupies v byte := by
  rw [HvBlockPointer.isNull, Bool.and_eq_true] at hnull
  intro hocc
  rcases occupies_iff.mp hocc with hspans | hspans
  · exact Bool.false_ne_true (hspans.not_null.symm.trans hnull.1)
  · exact Bool.false_ne_true (hspans.not_null.symm.trans hnull.2)

theorem outOfReach_of_null (hnull : ub.rootBp.isNull = true) : OutOfReach dev disk ub := by
  have hds : (mounted dev disk ub).restoredDataset = HvDataset.new.init 0 := if_pos hnull
  intro old hold byte hocc
  rw [recorded, hds] at hold
  simp only [HvDataset.init, HvObjSet.init, map_cons, map_nil, mem_cons, not_mem_nil, or_false] at hold
  rcases hold with rfl | rfl | rfl
  · exact absurd hocc (not_occupies_of_isNull hnull)
  · exact absurd hocc not_occupies_null
  · exact absurd hocc not_occupies_null

theorem not_outOfReach (hroot : Rooted dev.config ub.rootBp) (hnull : ub.rootBp.isNull = false)
    (hfull : HvSpa.fullCount dev.asize.toNat < 2 ^ 32) : ¬ OutOfReach dev disk ub := by
  intro hout
  rcases hroot with hnull' | ⟨byte, hocc, i, hi, hhoused⟩
  · rw [hnull] at hnull'
    cases hnull'
  · exact hout ub.rootBp mem_cons_self byte hocc ⟨i, ⟨hi, .inl hfull⟩, hhoused⟩

theorem Kept.found (hk : Kept dev.config h) (hread : readUberblockFromDisk h.disk = some ub) :
    Rooted dev.config ub.rootBp := by
  obtain ⟨j, hj, hslot⟩ := scanDown_some hread
  exact hk.slots j ub hj hslot

theorem mountDrive_found (hdrive : dev.drive = 0) (guid : UInt64)
    (hread : readUberblockFromDisk disk = some ub) :
    ∃ m, mountDrive dev (boot dev guid disk) = (true, m) := by
  have hub : (boot dev guid disk).readUberblock dev = some ub := by
    rw [readUberblock, if_pos]
    · exact hread
    · rw [hdrive]
      rfl
  rw [mountDrive_boot, hub]
  exact ⟨_, rfl⟩

theorem storeMetadata_kept (h : HvfsData) :
    h.storeMetadata.2.mode = h.mode ∧ h.storeMetadata.2.txgCurrent = h.txgCurrent + 1 := by
  rw [storeMetadata, serializeDatasetMetadata]
  split
  · exact ⟨rfl, rfl⟩
  · split
    · exact ⟨rfl, rfl⟩
    · split
      · exact ⟨rfl, rfl⟩
      · split <;> exact ⟨rfl, rfl⟩

def Kept.syncState (hk : Kept c h) : SyncState := ⟨h.uberblock, h.txgCurrent, h.disk, hk.valid, hk.pad⟩

def Kept.syncInput (hk : Kept c h) (now : UInt64) : SyncInput :=
  ⟨now, h.storeMetadata.1, fun n => some (h.storeMetadata.2.disk n),
    fun bp hbp => ((storeMetadata_aside hk.laid).2 bp hbp).1⟩

/-- In disk mode, a sync of the file system is one of the pool. -/
theorem Kept.sync_refines (hk : Kept c h) (hinit : h.initialized = true) (hmode : h.mode = .disk)
    (now : UInt64) : (hk.sync now).syncState = Hvfs.sync hk.syncState (hk.syncInput now) := by
  obtain ⟨hkept, htxg⟩ := h.storeMetadata_kept
  have haside := (storeMetadata_aside hk.laid).1
  have hdisk : h.storeMetadata.2.isDiskMode = true := by
    rw [isDiskMode, hkept]
    exact beq_iff_eq.mpr hmode
  have hdata : (hk.syncInput now).writeData h.disk = h.storeMetadata.2.disk := by
    funext n
    rw [SyncInput.writeData]
    split_ifs with hn
    · rfl
    · exact (haside.disk n (Nat.not_le.mp hn)).symm
  have hub : (hk.syncInput now).updateUberblock h.uberblock (h.txgCurrent + 1) = h.nextUberblock now := by
    rw [HvfsData.nextUberblock, haside.uberblock]
    rfl
  have heq := congrArg Prod.snd (sync_eq hinit now)
  rw [if_pos hdisk] at heq
  refine SyncState.ext ?_ ?_ ?_
  · exact (congrArg HvfsData.uberblock heq).trans hub.symm
  · exact (congrArg HvfsData.txgCurrent heq).trans htxg
  · refine (congrArg HvfsData.disk heq).trans ?_
    rw [← hub, ← hdata]
    rfl

theorem sync_found (hk : Kept c h) (hinit : h.initialized = true) (hmode : h.mode = .disk) (now : UInt64)
    (habove : ∀ j, (h.txgCurrent + 1) % hvUberblockCount < j → j < hvUberblockCount →
      ring h.disk j = none) :
    readUberblockFromDisk (h.sync now).2.disk = some (h.nextUberblock now).computeChecksum := by
  have hread := read_sync_top hk.syncState (hk.syncInput now) habove
  have hub : (h.sync now).2.uberblock = h.nextUberblock now := by rw [sync_eq hinit]
  rw [← hk.sync_refines hinit hmode now] at hread
  exact hub ▸ hread

theorem writeBp_present {s : HvSpa} {sectors : Nat} {d : HvDva} (hd : bp.dvas = [d])
    (hdev : onDevice s d = true) (hlen : sectorsOf d * 512 ≤ buf.length)
    (hin : d.offset.toNat / 512 + sectorsOf d ≤ sectors) (disk : Disk) :
    ∃ disk', writeBp s sectors bp buf disk = (true, disk') := by
  have hpresent : present sectors (d.offset.toNat / 512) (sectorsOf d) = sectorsOf d := by
    rw [present]
    omega
  rw [writeBp, hd, writeDvas, if_pos hdev, writeSectors, if_neg (Nat.not_lt.mpr hlen), hpresent,
    beq_self_eq_true]
  exact ⟨_, rfl⟩

theorem serialize_stored {txg : UInt64} (hbuf : serializeBuffer h.ds = some buf)
    (hmode : h.mode = .disk) (ha : h.spa.allocate buf.length .fletcher4 .off txg = some (bp, spa))
    (hw : writeBp spa h.sectors bp buf h.disk = (true, disk)) :
    (h.serializeDatasetMetadata txg).1 = some bp := by
  have hdisk : ¬ (!h.isDiskMode) = true := by simp [isDiskMode, hmode]
  rw [serializeDatasetMetadata, hbuf]
  dsimp only
  rw [if_neg hdisk, ha]
  dsimp only
  rw [hw]

/-- After any calls on a formatted disk and a mount of it, allocations keep clear of all the disk
records just when no metadata was stored; on devices with more metaslabs than 32 bits count, also when
all of it lies outside the last metaslab. -/
theorem remount_spares_iff {env : HvfsEnv} (guid guid' : UInt64) (disk : Disk)
    (hblank : ∀ j, j < hvUberblockCount → ring disk j = none) (calls : List HvfsCall)
    (hrun : runOpt (hvfsStep env) (initFormatted env.dev guid disk) calls = some h)
    (hmount : mountDrive env.dev (boot env.dev guid' h.disk) = (true, m)) :
    Spared m ↔ ∀ ub, readUberblockFromDisk h.disk = some ub → ub.rootBp.isNull = true ∨
      2 ^ 32 ≤ HvSpa.fullCount env.dev.asize.toNat ∧ OutOfReach env.dev h.disk ub := by
  have hk := (Kept.format guid hblank).run hrun
  obtain ⟨ub, hread, hspa, hlive⟩ := mount_found hmount
  rw [spared_iff hspa hlive]
  constructor
  · intro hout ub' hread'
    obtain rfl := Option.some.inj (hread.symm.trans hread')
    by_cases hnull : ub.rootBp.isNull = true
    · exact .inl hnull
    · refine .inr ⟨?_, hout⟩
      by_contra hfull
      exact not_outOfReach (hk.found hread) (Bool.not_eq_true _ ▸ hnull) (Nat.not_le.mp hfull) hout
  · intro hcond
    rcases hcond ub hread with hnull | ⟨-, hout⟩
    · exact outOfReach_of_null hnull
    · exact hout

def smallDisk : HvfsEnv := ⟨⟨0, 1048576, 2048⟩, oneAdmin, fun _ => 0⟩

def formatted : HvfsData := initFormatted smallDisk.dev 1 freshSync.disk

theorem formatted_kept : Kept smallDisk.dev.config formatted := .format 1 fun j _ => freshSync_blank j

theorem formatted_ring {j : Nat} (hj : 1 < j) : ring formatted.disk j = none := by
  have hslot : hvUberblockSector + j ≠ hvUberblockSector + 1 := by omega
  have hdisk : formatted.disk (hvUberblockSector + j) = freshSync.disk (hvUberblockSector + j) :=
    update_of_ne hslot _ _
  rw [ring, hdisk]
  exact freshSync_blank j

theorem remount_spares_empty : ∃ h m, runOpt (hvfsStep smallDisk) formatted [.sync 5] = some h ∧
      mountDrive smallDisk.dev (boot smallDisk.dev 1 h.disk) = (true, m) ∧ Spared m := by
  have hread := sync_found formatted_kept rfl rfl 5 fun j hj _ => formatted_ring (Nat.lt_of_succ_lt hj)
  have hdrive : smallDisk.dev.drive = 0 := rfl
  obtain ⟨m, hm⟩ := mountDrive_found hdrive 1 hread
  have hrun : runOpt (hvfsStep smallDisk) (initFormatted smallDisk.dev 1 freshSync.disk) [.sync 5] =
      some (formatted.sync 5).2 := rfl
  refine ⟨_, m, hrun, hm, ?_⟩
  rw [remount_spares_iff 1 1 freshSync.disk (fun j _ => freshSync_blank j) [.sync 5] hrun hm]
  intro ub hub
  obtain rfl := Option.some.inj (hread.symm.trans hub)
  -- The metadata is shorter than the block for it, so that it was not written.
  have hnull : (formatted.nextUberblock 5).rootBp.isNull = true := by decide +kernel
  rw [HvUberblock.computeChecksum_rootBp]
  exact .inl hnull

def fileName (k : Nat) : List UInt8 :=
  List.replicate (if k < 10 then 8 else 9) 0x61 ++ [UInt8.ofNat (0x61 + k)]

def creates : List HvfsCall := (List.range 15).map fun k => .open (fileName k) 0x0100 7

def populated : HvfsData :=
  (List.range 15).foldl (fun h k => (h.open oneAdmin (fileName k) 0x0100 7).2) formatted

theorem run_creates : runOpt (hvfsStep smallDisk) (initFormatted smallDisk.dev 1 freshSync.disk) creates =
    some populated := rfl

theorem populated_metadata : ∃ buf, serializeBuffer populated.ds = some buf ∧ buf.length = 4096 := by
  have hobjects : populated.ds.usedObjects.length = 17 := by decide +kernel
  have hnames : populated.ds.names.length = 15 := by decide +kernel
  have hentries : (entries populated.ds.names).length = 170 := by decide +kernel
  have hlimited : Limited populated.ds := by
    have hmax : maxSerialize = 65536 := rfl
    rw [HvDataset.usedObjects] at hobjects
    rw [HvDataset.names, length_map] at hnames
    exact ⟨by omega, by omega⟩
  refine ⟨_, serializeBuffer_eq hlimited, ?_⟩
  rw [length_metadataBytes, slack, hobjects, hnames, hentries]

theorem populated_root : (populated.nextUberblock 5).rootBp.isNull = false := by
  obtain ⟨bp, spa, ha, hd, hdev, hnull⟩ : ∃ bp spa,
      populated.spa.allocate 4096 .fletcher4 .off 2 = some (bp, spa) ∧
        bp.dvas = [HvDva.new 0 262144 4096] ∧ onDevice spa (HvDva.new 0 262144 4096) = true ∧
        bp.isNull = false := ⟨_, _, rfl, rfl, rfl, rfl⟩
  obtain ⟨buf, hbuf, hlen⟩ := populated_metadata
  have hcount : sectorsOf (HvDva.new 0 262144 4096) = 8 := by
    change ((4096 : UInt32).toNat + 511) / 512 = 8
    decide
  have hsectors : populated.sectors = 2048 := rfl
  obtain ⟨disk, hw⟩ : ∃ disk, writeBp spa populated.sectors bp buf populated.disk = (true, disk) := by
    apply writeBp_present hd hdev
    · rw [hcount, hlen]
    · rw [hcount, hsectors]
      decide
  have hstored : populated.storeMetadata.1 = some bp := by
    rw [← hlen] at ha
    exact serialize_stored hbuf rfl ha hw
  rw [nextUberblock, stamped, hstored]
  exact hnull

/-- Fifteen files and a sync: the next mount finds a root, and its pool lends the block of it again. -/
theorem remount_hands_out_again :
    ¬ ∀ (env : HvfsEnv) (guid guid' now : UInt64) (disk : Disk) (calls : List HvfsCall)
      (h h' m : HvfsData), (∀ j, j < hvUberblockCount → ring disk j = none) →
      runOpt (hvfsStep env) (initFormatted env.dev guid disk) calls = some h → h.mode = .disk →
      h.sync now = (.ok (), h') → mountDrive env.dev (boot env.dev guid' h'.disk) = (true, m) →
      Spared m := by
  intro hall
  have hkept : Kept smallDisk.dev.config populated := formatted_kept.run run_creates
  have hread : readUberblockFromDisk (populated.sync 5).2.disk =
      some (populated.nextUberblock 5).computeChecksum := by
    apply sync_found hkept rfl rfl
    intro j hj _
    exact formatted_ring (Nat.lt_of_succ_lt hj)
  have hdrive : smallDisk.dev.drive = 0 := rfl
  obtain ⟨m, hm⟩ := mountDrive_found hdrive 1 hread
  have hinit : populated.initialized = true := rfl
  have hsync : populated.sync 5 = (.ok (), (populated.sync 5).2) := by rw [sync_eq hinit]
  have hspared := hall smallDisk 1 1 5 freshSync.disk creates _ _ m (fun j _ => freshSync_blank j)
    run_creates rfl hsync hm
  obtain ⟨ub, hub, hspa, hlive⟩ := mount_found hm
  obtain rfl := Option.some.inj (hread.symm.trans hub)
  refine not_outOfReach ((hkept.sync 5).found hread) ?_ (by decide) ((spared_iff hspa hlive).mp hspared)
  rw [HvUberblock.computeChecksum_rootBp]
  exact populated_root

/-- Whatever other calls and mounts come after a sync, every sector in front of the data is as the
sync left it, and the next mount reads the same uberblock. -/
theorem labels_change_by_sync_only (env : HvfsEnv) {h' : HvfsData} (guid : UInt64) (disk : Disk)
    (hblank : ∀ j, j < hvUberblockCount → ring disk j = none) (calls later : List HvfsCall)
    (hrun : runOpt (hvfsStep env) (initFormatted env.dev guid disk) calls = some h)
    (hlater : Along (hvfsStep env) (fun _ call => ∀ now, call ≠ .sync now) h later)
    (hr : runOpt (hvfsStep env) h later = some h') :
    (∀ n < firstDataSector, h'.disk n = h.disk n) ∧
      readUberblockFromDisk h'.disk = readUberblockFromDisk h.disk := by
  have hk : Kept env.dev.config h := (Kept.format guid hblank).run hrun
  refine ⟨fun n hn => hk.labels_run hlater hr hn, scanDown_congr fun j hj => ?_⟩
  rw [hk.labels_run hlater hr (slot_lt hj)]

theorem labels_kept_after_first_sync : ∃ h h', runOpt (hvfsStep smallDisk) formatted [.sync 5] = some h ∧
      runOpt (hvfsStep smallDisk) h [.open (fileName 0) 0x0100 7, .remount 1] = some h' ∧
      (∀ n < firstDataSector, h'.disk n = h.disk n) ∧
      readUberblockFromDisk h'.disk = readUberblockFromDisk h.disk :=
  ⟨_, _, rfl, rfl, labels_change_by_sync_only smallDisk 1 _ (fun j _ => freshSync_blank j) [.sync 5]
    [.open (fileName 0) 0x0100 7, .remount 1] rfl ⟨by simp, fun _ _ => ⟨by simp, fun _ _ => trivial⟩⟩ rfl⟩

end HvfsData

end AntX.Hvfs
