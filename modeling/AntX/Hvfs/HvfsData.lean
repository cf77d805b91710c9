import AntX.Error
import AntX.Hvfs.Arc
import AntX.Hvfs.Dmu
import AntX.Hvfs.Spa
import AntX.Hvfs.Uberblock

/-! The file system of services/fs/hvfs/hvfs_data.rs. A read looks at one block only, through a slice
of 4096 bytes. `unlink` clears the `used` flag whatever link count is left. -/

namespace AntX.Hvfs

open AntX.Lib

def hvfsMaxFds : Nat := 256

inductive HvfsMode where
  | memory
  | disk
  deriving DecidableEq, Repr

structure HvfsFd where
  objId : UInt64
  offset : UInt64
  flags : UInt32
  pwm : UInt64
  used : Bool
  deriving DecidableEq

structure HvfsData where
  initialized : Bool
  mode : HvfsMode
  ds : HvDataset
  spa : HvSpa
  arc : HvArc
  uberblock : HvUberblock
  txgCurrent : Nat
  disk : Disk
  sectors : Nat
  fds : Nat → HvfsFd

def HvfsData.initMemory : HvfsData where
  initialized := true
  mode := .memory
  ds := HvDataset.new.init 0
  spa := (HvSpa.new.addVdev ⟨0, 32 * 2 ^ 20⟩).2
  arc := .init 256
  uberblock := { HvUberblock.null with magic := hvSpaMagic, txg := 1 }
  txgCurrent := 1
  disk _ := List.replicate 512 0
  sectors := 0
  fds _ := ⟨0, 0, 0, 0, false⟩

structure PwmApi where
  privilegeLevel : UInt64 → UInt8
  hasCapability : UInt64 → UInt16 → UInt64 → Bool

namespace HvfsData

variable (h : HvfsData)

def isDiskMode : Bool := h.mode == .disk

def currentTxg : UInt64 := UInt64.ofNat h.txgCurrent

def checkPermission (api : PwmApi) (obj : HvDmuObject) (pwm cap : UInt64) : Bool :=
  if pwm = 0 then false
  else if api.privilegeLevel pwm = 0xFF then false
  else if api.privilegeLevel pwm = 0 then true
  else if obj.ownerPwm = pwm then true
  else api.hasCapability pwm 3 cap

def trimmed (path : List UInt8) : List UInt8 := path.dropWhile (· == 0x2F)

def allocFd : Option Nat := (List.range hvfsMaxFds).find? fun i => !(h.fds i).used

def setFd (i : Nat) (fd : HvfsFd) : HvfsData :=
  { h with fds := Function.update h.fds i fd }

def setOffset (i : Nat) (offset : UInt64) : HvfsData :=
  h.setFd i { h.fds i with offset := offset }

def openFd (i : Nat) : Option HvfsFd :=
  if i < hvfsMaxFds ∧ (h.fds i).used then some (h.fds i) else none

def close (i : Nat) : Except KernelError Unit × HvfsData :=
  match h.openFd i with
  | none => (.error .invalidArgument, h)
  | some fd => (.ok (), h.setFd i { fd with used := false, offset := 0 })

def resolve (name : List UInt8) (flags : UInt32) (pwm : UInt64) : Option (UInt64 × HvfsData) :=
  match h.ds.lookup name with
  | some objId => some (objId, h)
  | none =>
    if flags &&& 0x0100 ≠ 0 then
      (h.ds.createFile name pwm).map fun (objId, ds) => (objId, { h with ds := ds })
    else none

def «open» (api : PwmApi) (h : HvfsData) (path : List UInt8) (flags : UInt32) (pwm : UInt64) :
    Except KernelError Nat × HvfsData :=
  if !h.initialized then (.error .notInitialized, h)
  else
    match h.resolve (trimmed path) flags pwm with
    | none => (.error .fileNotFound, h)
    | some (objId, h) =>
      match h.ds.objset.getObj objId with
      | none => (.error .fileNotFound, h)
      | some obj =>
        if checkPermission api obj pwm 0x01 then
          match h.allocFd with
          | none => (.error .noSpace, h)
          | some i =>
            let offset := if flags &&& 0x0400 ≠ 0 then obj.size else 0
            (.ok i, h.setFd i ⟨objId, offset, flags, pwm, true⟩)
        else (.error .permissionDenied, h)

def oneAdmin : PwmApi := ⟨fun pwm => if pwm = 7 then 0 else 3, fun _ _ _ => false⟩

def oneFile : HvfsData := (HvfsData.open oneAdmin .initMemory [0x61] 0x0100 7).2

theorem oneFile_distinct : oneFile.ds.objset.Distinct := by
  have hids : oneFile.ds.objset.ids = [2, 1, 4] := rfl
  rw [HvObjSet.Distinct, hids]
  decide

theorem oneFile_getObj : oneFile.ds.objset.getObj 4 = some (.newFile 4 7) := rfl

def sectorsOf (d : HvDva) : Nat := (d.asize.toNat + 511) / 512

def present (sectors sector count : Nat) : Nat := min count (sectors - sector)

def writeSectors (sectors sector count : Nat) (buf : List UInt8) (disk : Disk) : Bool × Disk :=
  if buf.length < count * 512 then (false, disk)
  else (present sectors sector count == count, fun n =>
    if sector ≤ n ∧ n < sector + present sectors sector count then
      (buf.drop ((n - sector) * 512)).take 512
    else disk n)

def readSectors (sectors sector count : Nat) (disk : Disk) (buf : List UInt8) : Bool × List UInt8 :=
  if buf.length < count * 512 then (false, buf)
  else (present sectors sector count == count,
    ((List.range (present sectors sector count)).flatMap fun i => disk (sector + i)) ++
      buf.drop (present sectors sector count * 512))

def onDevice (s : HvSpa) (d : HvDva) : Bool := s.vdevs.any fun v => v.vdevId == d.vdevId

/-- Writes every copy up to the first that fails; addresses on unknown devices are passed over. -/
def writeDvas (s : HvSpa) (sectors : Nat) (buf : List UInt8) : List HvDva → Disk → Bool × Disk
  | [], disk => (true, disk)
  | d :: ds, disk =>
    if onDevice s d then
      match writeSectors sectors (d.offset.toNat / 512) (sectorsOf d) buf disk with
      | (true, disk) => writeDvas s sectors buf ds disk
      | (false, disk) => (false, disk)
    else writeDvas s sectors buf ds disk

def writeBp (s : HvSpa) (sectors : Nat) (bp : HvBlockPointer) (buf : List UInt8) (disk : Disk) :
    Bool × Disk :=
  writeDvas s sectors buf bp.dvas disk

/-- Reads the first copy that can be read; one that fails may have filled part of the buffer. -/
def readDvas (s : HvSpa) (sectors : Nat) (disk : Disk) : List HvDva → List UInt8 → Option (List UInt8)
  | [], _ => none
  | d :: ds, buf =>
    if onDevice s d then
      match readSectors sectors (d.offset.toNat / 512) (sectorsOf d) disk buf with
      | (true, buf) => some buf
      | (false, buf) => readDvas s sectors disk ds buf
    else readDvas s sectors disk ds buf

def readBp (s : HvSpa) (sectors : Nat) (bp : HvBlockPointer) (disk : Disk) (buf : List UInt8) :
    Option (List UInt8) :=
  readDvas s sectors disk bp.dvas buf

end HvfsData

def blockKey (objId offset txg : UInt64) : HvArcKey :=
  ⟨0, (objId <<< 40) ||| (offset / 4096 * 4096), txg⟩

/-- The slice of `len` bytes from the start of a buffer: what follows the buffer in memory is `beyond`. -/
def rawSlice (beyond : Nat → UInt8) (data : List UInt8) (len : Nat) : List UInt8 :=
  (List.range len).map fun i => data.getD i (beyond i)

def copyInto (buf bytes : List UInt8) : List UInt8 := bytes ++ buf.drop bytes.length

namespace HvfsData

/-- Fills the caller's buffer for `read`. `none` stands for a call that does not return: the slice of the
disk buffer would end before it starts, or the cache does not come to an end evicting. -/
def fill (beyond : Nat → UInt8) (h : HvfsData) (obj : HvDmuObject) (fd : HvfsFd) (toRead : Nat)
    (buf : List UInt8) : Option (List UInt8 × HvfsData) :=
  let key := blockKey fd.objId fd.offset obj.birthTxg
  match h.arc.lookup key with
  | (some data, arc) =>
    let start := fd.offset.toNat % hvPoolBlockSize
    let stop := min (start + toRead) hvPoolBlockSize
    let bytes := ((rawSlice beyond data hvPoolBlockSize).drop start).take (stop - start)
    some (copyInto buf bytes, { h with arc := arc.release key })
  | (none, arc) =>
    let h := { h with arc := arc }
    if h.isDiskMode && !obj.bp.isNull then
      match readBp h.spa h.sectors obj.bp h.disk
          (List.replicate obj.bp.prop.physicalSize.toNat 0) with
      | none => some (buf, h)
      | some diskBuf =>
        let start := fd.offset.toNat
        let stop := min (start + toRead) diskBuf.length
        if stop < start then none
        else
          (arc.insert key diskBuf).map fun arc =>
            (copyInto buf ((diskBuf.drop start).take (stop - start)), { h with arc := arc })
    else some (buf, h)

def read (api : PwmApi) (beyond : Nat → UInt8) (h : HvfsData) (i : Nat) (buf : List UInt8)
    (count : UInt32) : Option (Except KernelError Nat × List UInt8 × HvfsData) :=
  match h.openFd i with
  | none => some (.error .invalidArgument, buf, h)
  | some fd =>
    match h.ds.objset.getObj fd.objId with
    | none => some (.error .fileNotFound, buf, h)
    | some obj =>
      if !checkPermission api obj fd.pwm 0x01 then some (.error .permissionDenied, buf, h)
      else
        let available := obj.size.toNat - fd.offset.toNat
        let toRead := min (min count.toNat available) buf.length
        if toRead = 0 then some (.ok 0, buf, h)
        else
          (h.fill beyond obj fd toRead buf).map fun (buf, h) =>
            (.ok toRead, buf, h.setOffset i (fd.offset + UInt64.ofNat toRead))

def written (obj : HvDmuObject) (bp : HvBlockPointer) (txg offset len now : UInt64) : HvDmuObject :=
  { obj.cowBp bp txg with size := max (offset + len) obj.size, mtime := now }

def store (h : HvfsData) (fd : HvfsFd) (obj : HvDmuObject) (bp : HvBlockPointer) (data : List UInt8)
    (now : UInt64) : Option HvfsData :=
  let obj := written obj bp h.currentTxg fd.offset (UInt64.ofNat data.length) now
  let update := fun h : HvfsData =>
    { h with ds := { h.ds with objset := (h.ds.objset.updateObj obj).2 } }
  if h.isDiskMode then some (update h)
  else
    (h.arc.insert (blockKey fd.objId fd.offset h.currentTxg) data).map fun arc =>
      update { h with arc := arc }

def write (api : PwmApi) (now : UInt64) (h : HvfsData) (i : Nat) (buf : List UInt8) (count : UInt32) :
    Option (Except KernelError Nat × HvfsData) :=
  match h.openFd i with
  | none => some (.error .invalidArgument, h)
  | some fd =>
    if fd.flags &&& 0x0001 ≠ 0 ∧ fd.flags &&& 0x0002 = 0 then some (.error .permissionDenied, h)
    else
      match h.ds.objset.getObj fd.objId with
      | none => some (.error .fileNotFound, h)
      | some obj =>
        if !checkPermission api obj fd.pwm 0x02 then some (.error .permissionDenied, h)
        else
          let data := buf.take count.toNat
          if data = [] then some (.ok 0, h)
          else
            match h.spa.allocate data.length .fletcher4 .off h.currentTxg with
            | none => some (.error .noSpace, h)
            | some (bp, spa) =>
              let done := fun h : HvfsData =>
                (h.store fd obj bp data now).map fun h =>
                  (Except.ok data.length, h.setOffset i (fd.offset + UInt64.ofNat data.length))
              if h.isDiskMode then
                match writeBp spa h.sectors bp data h.disk with
                | (true, disk) => done { h with spa := spa, disk := disk }
                | (false, disk) => some (.error .io, { h with spa := spa.free bp, disk := disk })
              else done { h with spa := spa }

/-- The offset is a signed number; adding it to a position wraps. -/
def seek (h : HvfsData) (i : Nat) (offset : Int64) (whence : UInt32) : Except KernelError UInt64 × HvfsData :=
  match h.openFd i with
  | none => (.error .invalidArgument, h)
  | some fd =>
    match h.ds.objset.getObj fd.objId with
    | none => (.error .fileNotFound, h)
    | some obj =>
      let place := fun base : UInt64 =>
        (Except.ok (base + offset.toUInt64), h.setOffset i (base + offset.toUInt64))
      if whence = 0 then place 0
      else if whence = 1 then place fd.offset
      else if whence = 2 then place obj.size
      else (.error .invalidArgument, h)

end HvfsData

open HvObjSet HvZapEntry
open List hiding any_eq_false
open Option hiding any_eq_false

def HvDmuObject.linked (o : HvDmuObject) : HvDmuObject :=
  { o with linkCount := o.linkCount + 1, dirty := true }

namespace HvZap

variable {z : HvZap} {name other : List UInt8} {value : UInt64}

theorem lookupU64_none (h : z.lookupU64 name = none) : z.entries.any (HvZapEntry.named name) = false := by
  rw [lookupU64, Option.map_eq_none_iff, List.find?_eq_none] at h
  rw [List.any_eq_false]
  exact h

theorem lookupU64_insert_other {v : UInt64} (hnew : z.lookupU64 name = none)
    (hold : z.lookupU64 other = some v) : (z.insertU64 name value).2.lookupU64 other = some v := by
  rw [insertU64, insert, lookupU64_none hnew]
  split_ifs
  · exact hold
  · contradiction
  · rw [lookupU64, map_eq_some_iff] at hold ⊢
    obtain ⟨e, he, hv⟩ := hold
    refine ⟨e, ?_, hv⟩
    rw [find?_append, he]
    rfl

theorem lookupU64_insert_iff (hvalid : validUtf8 name = true) (hnew : z.lookupU64 name = none) :
    (z.insertU64 name value).2.lookupU64 name = some value ↔
      z.entries.length < z.capacity ∧ name.length ≤ hvZapMaxName ∧ nonzero name = name.length := by
  have hany := lookupU64_none hnew
  have hfits : (HvZapEntry.new name (u64Bytes value)).getName = name ↔
      name.length ≤ hvZapMaxName ∧ nonzero name = name.length := by
    constructor
    · intro hname
      have hlen := (HvZapEntry.new name (u64Bytes value)).getName_length
      have hzero := (HvZapEntry.new name (u64Bytes value)).getName_nonzero
      rw [hname] at hlen hzero
      exact ⟨hlen, hzero⟩
    · intro ⟨hlen, hzero⟩
      exact getName_new _ hlen hzero hvalid
  by_cases hcap : z.entries.length < z.capacity
  · have hlast : (z.insertU64 name value).2.lookupU64 name =
        ([HvZapEntry.new name (u64Bytes value)].find? (named name)).map
          getValueU64 := by
      have hnone : z.entries.find? (named name) = none := by
        rw [List.find?_eq_none]
        exact List.any_eq_false.mp hany
      rw [insertU64_new hcap hany, lookupU64, find?_append, hnone, none_or]
    have hnamed : (HvZapEntry.new name (u64Bytes value)).named name = true ↔
        (HvZapEntry.new name (u64Bytes value)).getName = name := by
      rw [named_iff]
      exact ⟨fun hn => hn.2.2, fun hn => ⟨rfl, rfl, hn⟩⟩
    rw [hlast, ← hfits, ← hnamed]
    cases hn : (HvZapEntry.new name (u64Bytes value)).named name with
    | true =>
      rw [find?_cons_of_pos hn, map_some, new_getValueU64]
      simp [hcap]
    | false => simp [hn]
  · have hfull : (z.insertU64 name value).2 = z := by
      rw [insertU64, insert, if_pos (Nat.le_of_not_lt hcap)]
    rw [hfull, hnew]
    simp [hcap]

end HvZap

namespace HvfsData

-- On a dataset that is not writeable the link count has gone up all the same.
def link (api : PwmApi) (h : HvfsData) (oldPath newPath : List UInt8) (pwm : UInt64) :
    Except KernelError Unit × HvfsData :=
  if !h.initialized then (.error .notInitialized, h)
  else
    match h.ds.lookup (trimmed oldPath) with
    | none => (.error .fileNotFound, h)
    | some objId =>
      match h.ds.objset.getObj objId with
      | none => (.error .fileNotFound, h)
      | some obj =>
        if obj.isDir then (.error .isDirectory, h)
        else if !checkPermission api obj pwm 0x02 then (.error .permissionDenied, h)
        else if (h.ds.lookup (trimmed newPath)).isSome then (.error .alreadyExists, h)
        else
          let ds := { h.ds with objset := (h.ds.objset.updateObj obj.linked).2 }
          match ds.link (trimmed newPath) objId with
          | (true, ds) => (.ok (), { h with ds := ds })
          | (false, ds) => (.error .io, { h with ds := ds })

def unlink (api : PwmApi) (h : HvfsData) (path : List UInt8) (pwm : UInt64) :
    Except KernelError Unit × HvfsData :=
  if !h.initialized then (.error .notInitialized, h)
  else
    match h.ds.lookup (trimmed path) with
    | none => (.error .fileNotFound, h)
    | some objId =>
      match h.ds.objset.getObj objId with
      | none => (.error .fileNotFound, h)
      | some obj =>
        if !checkPermission api obj pwm 0x02 then (.error .permissionDenied, h)
        else
          match h.ds.unlink (trimmed path) with
          | (true, ds) =>
            let spa := if obj.bp.isNull then h.spa else h.spa.free obj.bp
            (.ok (), { h with ds := ds, spa := spa })
          | (false, _) => (.error .io, h)

variable {api : PwmApi} {h : HvfsData} {oldPath newPath : List UInt8} {pwm pwm' id : UInt64} {obj : HvDmuObject}

def linkedState (h : HvfsData) (newPath : List UInt8) (id : UInt64) (obj : HvDmuObject) : HvfsData :=
  { h with ds := { h.ds with
      objset := (h.ds.objset.updateObj obj.linked).2
      dirZap := (h.ds.dirZap.insertU64 (trimmed newPath) id).2 } }

theorem link_objset (ds : HvDataset) (objset : HvObjSet) (name : List UInt8) :
    HvDataset.link { ds with objset := objset } name id =
      if ds.isWriteable then
        (true, { ds with objset := objset, dirZap := (ds.dirZap.insertU64 name id).2 })
      else (false, { ds with objset := objset }) := by
  rfl

section

variable (hname : h.ds.lookup (trimmed oldPath) = some id) (hget : h.ds.objset.getObj id = some obj)

include hname hget

theorem link_ok (hlink : (link api h oldPath newPath pwm).1 = .ok ()) :
    h.initialized = true ∧ h.ds.lookup (trimmed newPath) = none ∧ h.ds.isWriteable = true ∧
      (link api h oldPath newPath pwm).2 = linkedState h newPath id obj := by
  rw [link, hname] at hlink ⊢
  dsimp only at hlink ⊢
  rw [hget] at hlink ⊢
  dsimp only at hlink ⊢
  split_ifs at hlink ⊢ with hinit hdir hperm hexists
  have hwrite : h.ds.isWriteable = true := by
    by_contra hnot
    rw [link_objset, if_neg hnot] at hlink
    cases hlink
  refine ⟨by simpa using hinit, by simpa using hexists, hwrite, ?_⟩
  rw [link_objset, if_pos hwrite]
  rfl

theorem unlink_denied (hperm : checkPermission api obj pwm 0x02 = false) :
    (unlink api h oldPath pwm).2 = h := by
  rw [unlink, hname]
  dsimp only
  rw [hget]
  dsimp only
  rw [hperm, Bool.not_false, if_pos rfl]
  split_ifs <;> rfl

theorem unlink_frees (hd : h.ds.objset.Distinct) (hinit : h.initialized = true)
    (hwrite : h.ds.isWriteable = true) (hperm : checkPermission api obj pwm 0x02 = true) :
    (unlink api h oldPath pwm).2.ds.objset.getObj id = none := by
  have hds : h.ds.unlink (trimmed oldPath) = (true, { h.ds with
      objset := (h.ds.objset.freeObj id).2, dirZap := (h.ds.dirZap.remove (trimmed oldPath)).2 }) := by
    rw [HvDataset.lookup] at hname
    rw [HvDataset.unlink, if_pos hwrite, hname]
  rw [unlink, hinit, hname]
  dsimp only
  rw [hget]
  dsimp only
  rw [hperm, hds]
  exact getObj_freeObj hd hget

end

theorem trimmed_valid (hvalid : validUtf8 newPath = true) : validUtf8 (trimmed newPath) = true := by
  induction newPath with
  | nil => rfl
  | cons b bs ih =>
    rw [trimmed, dropWhile_cons]
    split_ifs with hb
    · have hslash : b = 0x2F := beq_iff_eq.mp hb
      subst hslash
      apply ih
      rwa [validUtf8.eq_def] at hvalid
    · exact hvalid

def Covers (bp : HvBlockPointer) (ms : HvMetaslab) (k : Nat) : Prop :=
  ∃ d ∈ bp.dvas, d.vdevId = ms.vdevId ∧ d.offset.toNat ≤ ms.start + k * hvPoolBlockSize ∧
    ms.start + k * hvPoolBlockSize < d.offset.toNat + d.asize.toNat

structure KeptAlive (before after : HvfsData) (name : List UInt8) (id : UInt64)
    (bp : HvBlockPointer) : Prop where
  resolves : after.ds.lookup name = some id
  found : (after.ds.objset.getObj id).isSome = true
  held : ∀ (i : Nat) (ms ms' : HvMetaslab), before.spa.metaslabs[i]? = some ms → after.spa.metaslabs[i]? = some ms' →
    ∀ k, Covers bp ms k → ms'.bitmap k = true → ms.bitmap k = true

/-- The directory has room for the new name, which fits into the name field as a whole. -/
def Enters (h : HvfsData) (newPath : List UInt8) : Prop :=
  h.ds.dirZap.entries.length < h.ds.dirZap.capacity ∧ (trimmed newPath).length ≤ hvZapMaxName ∧
    nonzero (trimmed newPath) = (trimmed newPath).length

theorem linked_getObj (hd : h.ds.objset.Distinct) (hget : h.ds.objset.getObj id = some obj) :
    (linkedState h newPath id obj).ds.objset.getObj id = some obj.linked := by
  obtain ⟨hid, hused⟩ := getObj_objId hget
  exact getObj_updateObj hd hget hid hused

theorem link_unlink_gone (hd : h.ds.objset.Distinct)
    (hname : h.ds.lookup (trimmed oldPath) = some id) (hget : h.ds.objset.getObj id = some obj)
    (hlink : (link api h oldPath newPath pwm).1 = .ok ())
    (hperm : checkPermission api obj pwm' 0x02 = true) :
    (unlink api (link api h oldPath newPath pwm).2 oldPath pwm').2.ds.objset.getObj id = none := by
  obtain ⟨hinit, hnew, hwrite, hstate⟩ := link_ok hname hget hlink
  rw [hstate]
  have hd' : (linkedState h newPath id obj).ds.objset.Distinct := by
    change (h.ds.objset.updateObj obj.linked).2.ids.Nodup
    rw [updateObj_ids]
    exact hd
  have hname' : (linkedState h newPath id obj).ds.lookup (trimmed oldPath) = some id :=
    HvZap.lookupU64_insert_other hnew hname
  exact unlink_frees hname' (linked_getObj hd hget) hd' hinit hwrite hperm

/-- Once `link` has succeeded, the object outlives an `unlink` of the old name just when that call is
refused, and the directory really took the new name. -/
theorem link_unlink_alive_iff (hd : h.ds.objset.Distinct) (hvalid : validUtf8 newPath = true)
    (hname : h.ds.lookup (trimmed oldPath) = some id) (hget : h.ds.objset.getObj id = some obj)
    (hlink : (link api h oldPath newPath pwm).1 = .ok ()) :
    KeptAlive (link api h oldPath newPath pwm).2
        (unlink api (link api h oldPath newPath pwm).2 oldPath pwm').2 (trimmed newPath) id obj.bp ↔
      checkPermission api obj pwm' 0x02 = false ∧ Enters h newPath := by
  by_cases hperm : checkPermission api obj pwm' 0x02 = true
  · constructor
    · intro halive
      have hfound := halive.found
      rw [link_unlink_gone hd hname hget hlink hperm] at hfound
      cases hfound
    · intro ⟨hdenied, _⟩
      rw [hperm] at hdenied
      cases hdenied
  · rw [Bool.not_eq_true] at hperm
    obtain ⟨hinit, hnew, hwrite, hstate⟩ := link_ok hname hget hlink
    have hname' : (linkedState h newPath id obj).ds.lookup (trimmed oldPath) = some id :=
      HvZap.lookupU64_insert_other hnew hname
    have hsame : (unlink api (linkedState h newPath id obj) oldPath pwm').2 =
        linkedState h newPath id obj := unlink_denied hname' (linked_getObj hd hget) hperm
    have hfinds := @HvZap.lookupU64_insert_iff _ _ id (trimmed_valid hvalid) hnew
    rw [hstate, hsame]
    constructor
    · intro halive
      exact ⟨hperm, hfinds.mp halive.resolves⟩
    · intro ⟨_, henters⟩
      refine ⟨hfinds.mpr henters, ?_, ?_⟩
      · rw [linked_getObj hd hget]
        rfl
      · intro i ms ms' hms hms' k _ hfree
        obtain rfl := some.inj (hms.symm.trans hms')
        exact hfree

theorem oneFile_lookup : oneFile.ds.lookup (trimmed [0x61]) = some 4 := rfl

theorem oneFile_link : (link oneAdmin oneFile [0x61] [0x62] 7).1 = .ok () := rfl

theorem link_unlink_alive_refused : KeptAlive (link oneAdmin oneFile [0x61] [0x62] 7).2
      (unlink oneAdmin (link oneAdmin oneFile [0x61] [0x62] 7).2 [0x61] 9).2 [0x62] 4 .null :=
  (link_unlink_alive_iff oneFile_distinct rfl oneFile_lookup oneFile_getObj oneFile_link).mpr
    ⟨rfl, by decide, by decide, rfl⟩

theorem link_unlink_loses :
    ¬ ∀ (api : PwmApi) (h : HvfsData) (oldPath newPath : List UInt8) (pwm pwm' id : UInt64)
      (obj : HvDmuObject), h.ds.objset.Distinct → validUtf8 newPath = true →
      h.ds.lookup (trimmed oldPath) = some id → h.ds.objset.getObj id = some obj →
      (link api h oldPath newPath pwm).1 = .ok () →
      KeptAlive (link api h oldPath newPath pwm).2
        (unlink api (link api h oldPath newPath pwm).2 oldPath pwm').2 (trimmed newPath) id obj.bp := by
  intro hall
  have halive := hall oneAdmin oneFile [0x61] [0x62] 7 7 4 _ oneFile_distinct rfl oneFile_lookup
    oneFile_getObj oneFile_link
  have hfound := halive.found
  cases hfound

end HvfsData

end AntX.Hvfs
