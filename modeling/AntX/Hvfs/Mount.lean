import AntX.Hvfs.HvfsData
import AntX.Hvfs.Metadata
import AntX.Hvfs.FreshPool

/-! Formatting, syncing and mounting a disk, from services/fs/hvfs/hvfs_data.rs. A mount adds the
device with all its metaslabs free; the uberblocks change by syncs alone. -/

namespace AntX.Hvfs

open AntX.Lib Option HvSpa

structure Device where
  drive : UInt8
  asize : UInt64
  sectors : Nat

def Device.config (dev : Device) : HvVdevConfig := ⟨dev.drive.toUInt16, dev.asize.toNat⟩

namespace HvfsData

def boot (dev : Device) (guid : UInt64) (disk : Disk) : HvfsData where
  initialized := false
  mode := .memory
  ds := .new
  spa := .new
  arc := .init 256
  uberblock := { HvUberblock.null with magic := hvSpaMagic, txg := 1, poolGuid := guid }
  txgCurrent := 1
  disk := disk
  sectors := dev.sectors
  fds _ := ⟨0, 0, 0, 0, false⟩

def formatDrive (dev : Device) (h : HvfsData) : HvfsData :=
  { h with
    spa := (h.spa.addVdev dev.config).2
    mode := .disk
    disk := writeUberblockToDisk h.uberblock h.txgCurrent h.disk }

def initFormatted (dev : Device) (guid : UInt64) (disk : Disk) : HvfsData :=
  { formatDrive dev (boot dev guid disk) with ds := HvDataset.new.init 0, initialized := true }

def serializeDatasetMetadata (h : HvfsData) (txg : UInt64) : Option HvBlockPointer × HvfsData :=
  match serializeBuffer h.ds with
  | none => (none, h)
  | some buf =>
    if !h.isDiskMode then (none, h)
    else
      match h.spa.allocate buf.length .fletcher4 .off txg with
      | none => (none, h)
      | some (bp, spa) =>
        match writeBp spa h.sectors bp buf h.disk with
        | (true, disk) => (some bp, { h with spa := spa, disk := disk })
        | (false, disk) => (none, { h with spa := spa.free bp, disk := disk })

-- The result does not tell whether the metadata was stored.
def sync (now : UInt64) (h : HvfsData) : Except KernelError Unit × HvfsData :=
  if !h.initialized then (.error .notInitialized, h)
  else
    let txg := h.txgCurrent + 1
    let (metaBp, h) := { h with txgCurrent := txg }.serializeDatasetMetadata (UInt64.ofNat txg)
    let ub := stamped h.uberblock (UInt64.ofNat txg) now metaBp
    let disk := if h.isDiskMode then writeUberblockToDisk ub txg h.disk else h.disk
    (.ok (), { h with uberblock := ub, disk := disk })

def deserializeDatasetMetadata (h : HvfsData) (bp : HvBlockPointer) : Option HvDataset :=
  if bp.isNull || !h.isDiskMode then none
  else
    (readBp h.spa h.sectors bp h.disk (List.replicate bp.prop.physicalSize.toNat 0)).bind
      (deserializeBuffer .new)

def vdev0DriveId (s : HvSpa) : UInt8 := (s.vdevs.head?.map fun v => v.vdevId.toUInt8).getD 0

-- On another drive the source reads drive 0, which is taken to hold no uberblock.
def readUberblock (dev : Device) (h : HvfsData) : Option HvUberblock :=
  if vdev0DriveId h.spa = dev.drive then readUberblockFromDisk h.disk else none

def restoredDataset (h : HvfsData) : HvDataset :=
  if h.uberblock.rootBp.isNull then HvDataset.new.init 0
  else (h.deserializeDatasetMetadata h.uberblock.rootBp).getD (HvDataset.new.init 0)

def mountDrive (dev : Device) (h : HvfsData) : Bool × HvfsData :=
  match h.readUberblock dev with
  | none => (false, h)
  | some ub =>
    let h := { h with
      uberblock := ub
      txgCurrent := ub.txg.toNat
      mode := .disk
      spa := (h.spa.addVdev dev.config).2 }
    (true, { h with ds := h.restoredDataset, initialized := true })

inductive HvfsCall where
  | open (path : List UInt8) (flags : UInt32) (pwm : UInt64)
  | close (i : Nat)
  | read (i : Nat) (buf : List UInt8) (count : UInt32)
  | write (i : Nat) (buf : List UInt8) (count : UInt32) (now : UInt64)
  | seek (i : Nat) (offset : Int64) (whence : UInt32)
  | link (oldPath newPath : List UInt8) (pwm : UInt64)
  | unlink (path : List UInt8) (pwm : UInt64)
  | sync (now : UInt64)
  | remount (guid : UInt64)

structure HvfsEnv where
  dev : Device
  api : PwmApi
  beyond : Nat → UInt8

def hvfsStep (env : HvfsEnv) (h : HvfsData) : HvfsCall → Option HvfsData
  | .open path flags pwm => some (h.open env.api path flags pwm).2
  | .close i => some (h.close i).2
  | .read i buf count => (h.read env.api env.beyond i buf count).map fun r => r.2.2
  | .write i buf count now => (h.write env.api now i buf count).map Prod.snd
  | .seek i offset whence => some (h.seek i offset whence).2
  | .link oldPath newPath pwm => some (h.link env.api oldPath newPath pwm).2
  | .unlink path pwm => some (h.unlink env.api path pwm).2
  | .sync now => some (h.sync now).2
  | .remount guid => some (mountDrive env.dev (boot env.dev guid h.disk)).2

end HvfsData

open List

namespace HvSpa

open HvMetaslab

variable {c : HvVdevConfig} {s s' : HvSpa} {size : Nat} {kind : HvCksumType} {comp : HvCompType}
  {txg : UInt64} {bp : HvBlockPointer}

structure Laid (c : HvVdevConfig) (s : HvSpa) : Prop where
  placed : s.AllPlaced
  member : ∀ ms ∈ s.metaslabs, ∃ i, i < metaslabCount c.asize ∧ SamePlace (layout c i) ms

theorem laid_new (c : HvVdevConfig) : Laid c new where
  placed _ h := absurd h not_mem_nil
  member _ h := absurd h not_mem_nil

theorem laid_fresh (c : HvVdevConfig) : Laid c (new.addVdev c).2 where
  placed := (drawn_fresh c).placed
  member ms hms := by
    obtain ⟨i, hi⟩ := getElem?_of_mem hms
    exact ⟨i, (drawn_fresh c).index hi, ((drawn_fresh c).member i ms hi).1⟩

theorem Laid.same (h : Laid c s) (hplaced : s'.AllPlaced)
    (hms : ∀ ms' ∈ s'.metaslabs, ∃ ms ∈ s.metaslabs, SamePlace ms ms') : Laid c s' where
  placed := hplaced
  member ms' hmem := by
    obtain ⟨ms, hin, hsame⟩ := hms ms' hmem
    obtain ⟨i, hi, hlayout⟩ := h.member ms hin
    exact ⟨i, hi, hlayout.trans hsame⟩

theorem Laid.free (h : Laid c s) (bp : HvBlockPointer) : Laid c (s.free bp) :=
  h.same (h.placed.free bp) fun _ hms => freeDvas_mem hms

theorem Laid.allocate (h : Laid c s) (ha : s.allocate size kind comp txg = some (bp, s')) :
    Laid c s' := by
  refine h.same (h.placed.allocate ha) ?_
  obtain ⟨idx, ms, offset, ms', hch, halloc, -, rfl⟩ := allocate_some ha
  obtain ⟨-, -, first, -, -, rfl⟩ := alloc_some halloc
  intro m hm
  rcases mem_or_eq_of_mem_set hm with hm | rfl
  · exact ⟨m, hm, samePlace_refl m⟩
  · exact ⟨ms, mem_of_getElem? hch.get, samePlace_taken⟩

def Housed (c : HvVdevConfig) (byte : Nat) : Prop :=
  ∃ i, i < metaslabCount c.asize ∧ (layout c i).start ≤ byte ∧
    byte < (layout c i).start + (layout c i).maxBlock * hvPoolBlockSize

theorem allocate_single (ha : s.allocate size kind comp txg = some (bp, s')) :
    bp.dva1 = .null ∧ bp.pad = (0, 0) := by
  obtain ⟨_, _, _, _, _, _, hbp, _⟩ := allocate_some ha
  rw [hbp]
  exact ⟨rfl, rfl⟩

theorem Laid.allocate_housed (h : Laid c s) (ha : s.allocate size kind comp txg = some (bp, s'))
    (hsize : 0 < roundUp size % 2 ^ 32) : ∃ byte, bp.Occupies c.vdevId byte ∧ Housed c byte := by
  obtain ⟨idx, ms, first, hch, hfind, hid, hoff, hasize⟩ := allocate_offset h.placed ha
  obtain ⟨i, hi, hsame⟩ := h.member ms (mem_of_getElem? hch.get)
  obtain ⟨-, hle, -⟩ := findContiguous_some hfind
  have hpos : 1 ≤ wanted (roundUp size) := Nat.le_max_right _ _
  refine ⟨bp.dva0.offset.toNat, HvBlockPointer.occupies_iff.mpr (.inl ?_), i, hi, ?_⟩
  · refine ⟨hid.trans hsame.vdevId, Nat.le_refl _, ?_⟩
    omega
  · rw [hoff, ← hsame.start, ← hsame.maxBlock, hvPoolBlockSize]
    omega

theorem Laid.allocate_behind (h : Laid c s) (ha : s.allocate size kind comp txg = some (bp, s')) :
    ∀ d ∈ bp.dvas, firstDataSector ≤ d.offset.toNat / 512 := by
  obtain ⟨idx, ms, first, hch, -, -, hoff, -⟩ := allocate_offset h.placed ha
  have hlabel := (h.placed ms (mem_of_getElem? hch.get)).1.label
  have hsize : hvVdevLabelSize = 262144 := rfl
  have hfirst : firstDataSector = 512 := rfl
  intro d hd
  obtain ⟨hmem, hnull⟩ := mem_filter.mp hd
  simp only [mem_cons, not_mem_nil, or_false] at hmem
  rcases hmem with rfl | rfl
  · omega
  · rw [(allocate_single ha).1] at hnull
    cases hnull

end HvSpa

variable {n : Nat} {beyond : Nat → UInt8} {obj : HvDmuObject} {fd : HvfsFd} {buf : List UInt8}
  {bp : HvBlockPointer} {now : UInt64} {ub : HvUberblock} {disk : Disk} {dev : Device}
  {env : HvfsEnv}

namespace HvfsData

variable {c : HvVdevConfig} {h h' h'' : HvfsData}

theorem writeSectors_below (sectors : Nat) {sector : Nat} (count : Nat) (buf : List UInt8)
    (disk : Disk) (hn : n < sector) :
    (writeSectors sectors sector count buf disk).2 n = disk n := by
  rw [writeSectors]
  split_ifs
  · rfl
  · exact if_neg (by omega)

theorem writeDvas_below (s : HvSpa) (sectors : Nat) (buf : List UInt8) {ds : List HvDva}
    (disk : Disk) (hds : ∀ d ∈ ds, firstDataSector ≤ d.offset.toNat / 512)
    (hn : n < firstDataSector) : (writeDvas s sectors buf ds disk).2 n = disk n := by
  induction ds generalizing disk with
  | nil => rfl
  | cons d ds ih =>
    have hd := hds d mem_cons_self
    have hrest := fun disk => ih disk fun d' hd' => hds d' (mem_cons_of_mem d hd')
    have hbelow := writeSectors_below sectors (sectorsOf d) buf disk (Nat.lt_of_lt_of_le hn hd)
    rw [writeDvas]
    split_ifs
    · cases hw : writeSectors sectors (d.offset.toNat / 512) (sectorsOf d) buf disk with
      | mk ok disk' =>
        rw [hw] at hbelow
        cases ok with
        | true => exact (hrest disk').trans hbelow
        | false => exact hbelow
    · exact hrest disk

structure Aside (c : HvVdevConfig) (h h' : HvfsData) : Prop where
  uberblock : h'.uberblock = h.uberblock
  disk : ∀ n, n < firstDataSector → h'.disk n = h.disk n
  laid : HvSpa.Laid c h'.spa

def pool (h : HvfsData) : HvUberblock × Disk × HvSpa := (h.uberblock, h.disk, h.spa)

theorem pool_eq {ub : HvUberblock} {disk : Disk} {spa : HvSpa} (hp : h.pool = (ub, disk, spa)) :
    h.uberblock = ub ∧ h.disk = disk ∧ h.spa = spa := by
  simpa [pool] using hp

theorem Aside.same (hl : Laid c h.spa) (hp : h'.pool = h.pool) : Aside c h h' := by
  obtain ⟨hub, hdisk, hspa⟩ := pool_eq hp
  exact ⟨hub, fun n _ => by rw [hdisk], hspa ▸ hl⟩

variable {api : PwmApi} {i : Nat} {pwm : UInt64}

theorem resolve_pool {name : List UInt8} {flags : UInt32} {id : UInt64}
    (hr : h.resolve name flags pwm = some (id, h')) : h'.pool = h.pool := by
  rw [resolve] at hr
  split at hr
  · cases hr
    rfl
  · split_ifs at hr
    obtain ⟨⟨objId, ds⟩, -, heq⟩ := map_eq_some_iff.mp hr
    cases heq
    rfl

theorem open_pool (path : List UInt8) (flags : UInt32) : (h.open api path flags pwm).2.pool = h.pool := by
  rw [HvfsData.open]
  split
  · rfl
  · split
    · rfl
    · next id h₁ hr =>
      have hp := resolve_pool hr
      repeat' split
      all_goals exact hp

theorem close_pool : (h.close i).2.pool = h.pool := by
  rw [close]
  split <;> rfl

theorem seek_pool (offset : Int64) (whence : UInt32) : (h.seek i offset whence).2.pool = h.pool := by
  rw [seek]
  repeat' split
  all_goals rfl

theorem link_pool (oldPath newPath : List UInt8) : (h.link api oldPath newPath pwm).2.pool = h.pool := by
  simp only [link]
  repeat' split
  all_goals rfl

theorem fill_pool {toRead : Nat} {buf' : List UInt8}
    (hf : h.fill beyond obj fd toRead buf = some (buf', h')) : h'.pool = h.pool := by
  rw [fill] at hf
  dsimp only at hf
  split at hf
  · cases hf
    rfl
  · split_ifs at hf
    · split at hf
      · cases hf
        rfl
      · split_ifs at hf
        obtain ⟨arc, -, heq⟩ := map_eq_some_iff.mp hf
        cases heq
        rfl
    · cases hf
      rfl

theorem read_pool {count : UInt32} {r : Except KernelError Nat × List UInt8 × HvfsData}
    (hr : h.read api beyond i buf count = some r) : r.2.2.pool = h.pool := by
  rw [read] at hr
  cases hfd : h.openFd i with
  | none =>
    rw [hfd] at hr
    cases hr
    rfl
  | some fd =>
    rw [hfd] at hr
    dsimp only at hr
    cases hobj : h.ds.objset.getObj fd.objId with
    | none =>
      rw [hobj] at hr
      cases hr
      rfl
    | some obj =>
      rw [hobj] at hr
      dsimp only at hr
      split_ifs at hr
      · cases hr
        rfl
      · cases hr
        rfl
      · obtain ⟨⟨buf', h₁⟩, hfill, heq⟩ := map_eq_some_iff.mp hr
        cases heq
        have hp := fill_pool hfill
        exact hp

theorem unlink_aside (hl : Laid c h.spa) (path : List UInt8) : Aside c h (h.unlink api path pwm).2 := by
  rw [unlink]
  split
  · exact .same hl rfl
  · split
    · exact .same hl rfl
    · split
      · exact .same hl rfl
      · split
        · exact .same hl rfl
        · split
          · refine ⟨rfl, fun _ _ => rfl, ?_⟩
            split_ifs
            · exact hl
            · exact hl.free _
          · exact .same hl rfl

theorem stored_aside {size : Nat} {txg : UInt64} {spa : HvSpa} (hl : Laid c h.spa)
    (ha : h.spa.allocate size .fletcher4 .off txg = some (bp, spa))
    (hub : h'.uberblock = h.uberblock)
    (hdisk : h'.disk = h.disk ∨ ∃ buf, h'.disk = (writeBp spa h.sectors bp buf h.disk).2)
    (hspa : h'.spa = spa ∨ h'.spa = spa.free bp) : Aside c h h' where
  uberblock := hub
  disk n hn := by
    rcases hdisk with hdisk | ⟨buf, hdisk⟩
    · rw [hdisk]
    · rw [hdisk]
      exact writeDvas_below _ _ _ _ (hl.allocate_behind ha) hn
  laid := by
    rcases hspa with hspa | hspa
    · rw [hspa]
      exact hl.allocate ha
    · rw [hspa]
      exact (hl.allocate ha).free bp

theorem store_pool {data : List UInt8} (hs : h.store fd obj bp data now = some h') : h'.pool = h.pool := by
  rw [store] at hs
  split_ifs at hs
  · cases hs
    rfl
  · obtain ⟨arc, -, heq⟩ := map_eq_some_iff.mp hs
    cases heq
    rfl

theorem write_aside (hl : Laid c h.spa) {count : UInt32}
    {r : Except KernelError Nat × HvfsData} (hw : h.write api now i buf count = some r) :
    Aside c h r.2 := by
  rw [write] at hw
  split at hw
  · cases hw
    exact .same hl rfl
  · split at hw
    · cases hw
      exact .same hl rfl
    · split at hw
      · cases hw
        exact .same hl rfl
      · split at hw
        · cases hw
          exact .same hl rfl
        · dsimp only at hw
          split at hw
          · cases hw
            exact .same hl rfl
          · split at hw
            · cases hw
              exact .same hl rfl
            · next bp spa ha =>
              split at hw
              · split at hw
                · next disk hdisk =>
                  obtain ⟨h₁, hstore, rfl⟩ := map_eq_some_iff.mp hw
                  obtain ⟨hub, hd, hspa⟩ := pool_eq (store_pool hstore)
                  exact stored_aside hl ha hub (.inr ⟨_, by rw [hdisk]; exact hd⟩) (.inl hspa)
                · next disk hdisk =>
                  cases hw
                  exact stored_aside hl ha rfl (.inr ⟨_, by rw [hdisk]⟩) (.inr rfl)
              · obtain ⟨h₁, hstore, rfl⟩ := map_eq_some_iff.mp hw
                obtain ⟨hub, hd, hspa⟩ := pool_eq (store_pool hstore)
                exact stored_aside hl ha hub (.inl hd) (.inl hspa)

def Rooted (c : HvVdevConfig) (bp : HvBlockPointer) : Prop :=
  bp.isNull = true ∨ ∃ byte, bp.Occupies c.vdevId byte ∧ HvSpa.Housed c byte

theorem length_serializeBuffer {ds : HvDataset} (hs : serializeBuffer ds = some buf) :
    32 ≤ buf.length ∧ buf.length < 2 ^ 25 := by
  obtain ⟨hlimited, rfl⟩ := serializeBuffer_limited hs
  have hobjects : ds.usedObjects.length ≤ 65536 := hlimited.objects
  have hnames : ds.names.length ≤ 65536 := by
    rw [HvDataset.names, length_map]
    exact hlimited.names
  have hsizes := entrySizes_le fun n hn => @name_length ds n hn
  have hentries := length_entries ds.names
  have hslack : slack ds = ds.usedObjects.length * 20 + ds.names.length * 8 := rfl
  rw [length_metadataBytes]
  omega

theorem serialize_aside (hl : Laid c h.spa) (txg : UInt64) : Aside c h (h.serializeDatasetMetadata txg).2 ∧
      ∀ bp, (h.serializeDatasetMetadata txg).1 = some bp → bp.pad = (0, 0) ∧ Rooted c bp := by
  rw [serializeDatasetMetadata]
  split
  · exact ⟨.same hl rfl, fun _ h0 => by cases h0⟩
  · next buf hbuf =>
    split
    · exact ⟨.same hl rfl, fun _ h0 => by cases h0⟩
    · split
      · exact ⟨.same hl rfl, fun _ h0 => by cases h0⟩
      · next bp spa ha =>
        split
        · next disk hdisk =>
          refine ⟨stored_aside hl ha rfl (.inr ⟨_, by rw [hdisk]⟩) (.inl rfl), fun bp' heq => ?_⟩
          cases heq
          refine ⟨(allocate_single ha).2, .inr (hl.allocate_housed ha ?_)⟩
          have hlen := length_serializeBuffer hbuf
          rw [roundUp, hvPoolBlockSize]
          omega
        · next disk hdisk =>
          exact ⟨stored_aside hl ha rfl (.inr ⟨_, by rw [hdisk]⟩) (.inr rfl), fun _ h0 => by cases h0⟩

structure Kept (c : HvVdevConfig) (h : HvfsData) : Prop where
  laid : HvSpa.Laid c h.spa
  valid : h.uberblock.isValid = true
  pad : h.uberblock.rootBp.pad = (0, 0)
  root : Rooted c h.uberblock.rootBp
  slots : ∀ j ub, j < hvUberblockCount → ring h.disk j = some ub → Rooted c ub.rootBp

theorem Kept.aside (hk : Kept c h) (ha : Aside c h h') : Kept c h' where
  laid := ha.laid
  valid := by
    rw [ha.uberblock]
    exact hk.valid
  pad := by
    rw [ha.uberblock]
    exact hk.pad
  root := by
    rw [ha.uberblock]
    exact hk.root
  slots j ub hj hub := by
    rw [ring, ha.disk _ (slot_lt hj)] at hub
    exact hk.slots j ub hj hub

theorem ring_writeUberblock {ub' : HvUberblock} {txg j : Nat} (hvalid : ub.isValid = true)
    (hpad : ub.rootBp.pad = (0, 0)) (hread : ring (writeUberblockToDisk ub txg disk) j = some ub') :
    ub'.rootBp = ub.rootBp ∨ ring disk j = some ub' := by
  rw [ring, writeUberblockToDisk, if_pos hvalid] at hread
  by_cases hj : hvUberblockSector + j = hvUberblockSector + txg % 2 ^ 32 % hvUberblockCount
  · rw [hj, Function.update_self, readSlot_written hvalid hpad] at hread
    cases hread
    exact .inl ub.computeChecksum_rootBp
  · rw [Function.update_of_ne hj] at hread
    exact .inr hread

theorem Kept.stamp (hk : Kept c h) (hvalid : ub.isValid = true) (hpad : ub.rootBp.pad = (0, 0))
    (hroot : Rooted c ub.rootBp) (txg : Nat)
    (hdisk : disk = h.disk ∨ disk = writeUberblockToDisk ub txg h.disk) :
    Kept c { h with uberblock := ub, disk := disk } where
  laid := hk.laid
  valid := hvalid
  pad := hpad
  root := hroot
  slots j ub' hj hub := by
    rcases hdisk with rfl | rfl
    · exact hk.slots j ub' hj hub
    · rcases ring_writeUberblock hvalid hpad hub with heq | hold
      · rw [heq]
        exact hroot
      · exact hk.slots j ub' hj hold

def storeMetadata (h : HvfsData) : Option HvBlockPointer × HvfsData :=
  serializeDatasetMetadata { h with txgCurrent := h.txgCurrent + 1 } (UInt64.ofNat (h.txgCurrent + 1))

def nextUberblock (h : HvfsData) (now : UInt64) : HvUberblock :=
  stamped h.storeMetadata.2.uberblock (UInt64.ofNat (h.txgCurrent + 1)) now h.storeMetadata.1

theorem sync_eq (hinit : h.initialized = true) (now : UInt64) : h.sync now = (.ok (), { h.storeMetadata.2 with
      uberblock := h.nextUberblock now
      disk :=
        if h.storeMetadata.2.isDiskMode then
          writeUberblockToDisk (h.nextUberblock now) (h.txgCurrent + 1) h.storeMetadata.2.disk
        else h.storeMetadata.2.disk }) := by
  rw [HvfsData.sync, if_neg (by simp [hinit])]
  rfl

theorem storeMetadata_aside (hl : Laid c h.spa) : Aside c h h.storeMetadata.2 ∧
      ∀ bp, h.storeMetadata.1 = some bp → bp.pad = (0, 0) ∧ Rooted c bp := by
  obtain ⟨haside, hbp⟩ := @serialize_aside c { h with txgCurrent := h.txgCurrent + 1 } hl
    (UInt64.ofNat (h.txgCurrent + 1))
  exact ⟨⟨haside.uberblock, haside.disk, haside.laid⟩, hbp⟩

theorem Kept.nextUberblock (hk : Kept c h) (now : UInt64) :
    (h.nextUberblock now).isValid = true ∧ (h.nextUberblock now).rootBp.pad = (0, 0) ∧
      Rooted c (h.nextUberblock now).rootBp := by
  obtain ⟨haside, hbp⟩ := storeMetadata_aside hk.laid
  have hkept := hk.aside haside
  refine ⟨hkept.valid, ?_⟩
  rw [HvfsData.nextUberblock, stamped]
  cases hr : h.storeMetadata.1 with
  | none => exact ⟨hkept.pad, hkept.root⟩
  | some bp => exact hbp bp hr

theorem Kept.sync (hk : Kept c h) (now : UInt64) : Kept c (h.sync now).2 := by
  cases hinit : h.initialized with
  | false =>
    rw [HvfsData.sync, if_pos (by simp [hinit])]
    exact hk
  | true =>
    have hkept := hk.aside (storeMetadata_aside hk.laid).1
    obtain ⟨hvalid, hpad, hroot⟩ := hk.nextUberblock now
    rw [sync_eq hinit]
    refine hkept.stamp hvalid hpad hroot (h.txgCurrent + 1) ?_
    split_ifs
    · exact .inr rfl
    · exact .inl rfl

theorem readUberblock_boot {guid : UInt64} (hread : (boot dev guid disk).readUberblock dev = some ub) :
    readUberblockFromDisk disk = some ub := by
  rw [readUberblock] at hread
  split_ifs at hread
  exact hread

def mounted (dev : Device) (disk : Disk) (ub : HvUberblock) : HvfsData :=
  { boot dev 0 disk with
    uberblock := ub
    txgCurrent := ub.txg.toNat
    mode := .disk
    spa := (HvSpa.new.addVdev dev.config).2 }

theorem mountDrive_boot (dev : Device) (guid : UInt64) (disk : Disk) : mountDrive dev (boot dev guid disk) =
      match (boot dev guid disk).readUberblock dev with
      | none => (false, boot dev guid disk)
      | some ub =>
        (true, { mounted dev disk ub with
          ds := (mounted dev disk ub).restoredDataset
          initialized := true }) := rfl

theorem Kept.boot (guid : UInt64)
    (hslots : ∀ j ub, j < hvUberblockCount → ring disk j = some ub → Rooted dev.config ub.rootBp) :
    Kept dev.config (boot dev guid disk) where
  laid := laid_new _
  valid := rfl
  pad := rfl
  root := .inl rfl
  slots := hslots

theorem Kept.mount (hk : Kept dev.config h) (guid : UInt64) :
    Kept dev.config (mountDrive dev (HvfsData.boot dev guid h.disk)).2 := by
  rw [mountDrive_boot]
  split
  · exact .boot guid hk.slots
  · next ub hread =>
    obtain ⟨j, hj, hslot⟩ := scanDown_some (readUberblock_boot hread)
    obtain ⟨hvalid, hpad⟩ := readSlot_some hslot
    exact ⟨laid_fresh _, hvalid, hpad, hk.slots j ub hj hslot, hk.slots⟩

theorem Kept.format (guid : UInt64) (hblank : ∀ j, j < hvUberblockCount → ring disk j = none) :
    Kept dev.config (initFormatted dev guid disk) := by
  have hslots : ∀ j ub, j < hvUberblockCount → ring disk j = some ub → Rooted dev.config ub.rootBp := by
    intro j ub hj hub
    rw [hblank j hj] at hub
    cases hub
  have hb := Kept.boot guid hslots
  have hs := hb.stamp hb.valid hb.pad hb.root 1 (.inr rfl)
  exact ⟨laid_fresh _, hs.valid, hs.pad, hs.root, hs.slots⟩

theorem step_cases (hl : Laid env.dev.config h.spa) {call : HvfsCall}
    (hs : hvfsStep env h call = some h') : Aside env.dev.config h h' ∨
      (∃ now, call = .sync now) ∨ ∃ guid, call = .remount guid := by
  cases call with
  | «open» path flags pwm =>
    cases hs
    exact .inl (.same hl (open_pool path flags))
  | close i =>
    cases hs
    exact .inl (.same hl close_pool)
  | read i buf count =>
    obtain ⟨r, hr, rfl⟩ := map_eq_some_iff.mp hs
    exact .inl (.same hl (read_pool hr))
  | write i buf count now =>
    obtain ⟨r, hr, rfl⟩ := map_eq_some_iff.mp hs
    exact .inl (write_aside hl hr)
  | seek i offset whence =>
    cases hs
    exact .inl (.same hl (seek_pool offset whence))
  | link oldPath newPath pwm =>
    cases hs
    exact .inl (.same hl (link_pool oldPath newPath))
  | unlink path pwm =>
    cases hs
    exact .inl (unlink_aside hl path)
  | sync now => exact .inr (.inl ⟨now, rfl⟩)
  | remount guid => exact .inr (.inr ⟨guid, rfl⟩)

theorem Kept.step (hk : Kept env.dev.config h) {call : HvfsCall}
    (hs : hvfsStep env h call = some h') : Kept env.dev.config h' := by
  rcases step_cases hk.laid hs with ha | ⟨now, rfl⟩ | ⟨guid, rfl⟩
  · exact hk.aside ha
  · cases hs
    exact hk.sync now
  · cases hs
    exact hk.mount guid

/-- A mount reads the uberblocks only, and every other call works behind them. -/
theorem Kept.labels (hk : Kept env.dev.config h) {call : HvfsCall} (hcall : ∀ now, call ≠ .sync now)
    (hs : hvfsStep env h call = some h') {n : Nat} (hn : n < firstDataSector) :
    h'.disk n = h.disk n := by
  rcases step_cases hk.laid hs with ha | ⟨now, rfl⟩ | ⟨guid, rfl⟩
  · exact ha.disk n hn
  · exact absurd rfl (hcall now)
  · cases hs
    rw [mountDrive_boot]
    split <;> rfl

theorem Kept.run (hk : Kept env.dev.config h) {calls : List HvfsCall}
    (hr : runOpt (hvfsStep env) h calls = some h') : Kept env.dev.config h' :=
  runOpt_invariant (fun _ _ _ hs hstep => Kept.step hs hstep) hk hr

theorem Kept.labels_run (hk : Kept env.dev.config h) {calls : List HvfsCall}
    (hcalls : Along (hvfsStep env) (fun _ call => ∀ now, call ≠ .sync now) h calls)
    (hr : runOpt (hvfsStep env) h calls = some h') {n : Nat} (hn : n < firstDataSector) :
    h'.disk n = h.disk n := by
  induction calls generalizing h with
  | nil =>
    cases hr
    rfl
  | cons call calls ih =>
    obtain ⟨s, hs, hrest⟩ := bind_eq_some_iff.mp hr
    exact (ih (hk.step hs) (hcalls.2 s hs) hrest).trans (hk.labels hcalls.1 hs hn)

end HvfsData

end AntX.Hvfs
