import AntX.Hvfs.Dmu

/-! Dataset metadata on disk, from services/fs/hvfs/hvfs_data.rs. The objects survive the round trip
in every case. -/

namespace AntX.Hvfs

open AntX.Lib List

def objRecordSize : Nat := 222
def maxSerialize : Nat := 65536
def maxNameLen : Nat := 4096

def metaMagic : List UInt8 := [0x48, 0x56, 0x4D, 0x31]

variable (o : HvDmuObject)

def recordFields : List (List UInt8) :=
  [u64Bytes o.objId, u8Bytes o.objType.toU8, u32Bytes o.blockSize, u64Bytes o.nblocks,
    u64Bytes o.size, o.bp.asBytes, u64Bytes o.atime, u64Bytes o.mtime, u64Bytes o.ctime,
    u64Bytes o.ownerPwm, u64Bytes o.groupPwm, u8Bytes o.sensitivity, u16Bytes o.pwmPerm,
    u32Bytes o.linkCount, u32Bytes o.flags, u64Bytes o.birthTxg, u8Bytes (if o.used then 1 else 0)]

def putObject (w : Writer) (o : HvDmuObject) : Option Writer :=
  if w.buf.length < w.off + objRecordSize then none
  else (w.puts (recordFields o)).map fun w => w.skip 1

-- The place of the object id is filled with zeros, and the offset does not move past it.
def putEntry (w : Writer) (name : List UInt8) : Option Writer :=
  if w.buf.length < w.off + 2 + name.length + 8 then none
  else do
    let w ← w.put (u16Bytes (UInt16.ofNat name.length))
    let w ← w.put name
    w.poke (u64Bytes 0)

def entrySizes (names : List (List UInt8)) : Nat := (names.map fun n => 2 + n.length + 8).sum

variable (objects : List HvDmuObject)

def metadataSize (names : List (List UInt8)) : Nat :=
  (32 + objects.length * objRecordSize + entrySizes names) % 2 ^ 32

def headerFields (names : List (List UInt8)) (nextId : UInt64) : List (List UInt8) :=
  [metaMagic, u32Bytes 1, u32Bytes (UInt32.ofNat objects.length),
    u32Bytes (UInt32.ofNat names.length), u64Bytes nextId,
    u32Bytes (UInt32.ofNat (metadataSize objects names))]

def serializeBuffer (ds : HvDataset) : Option (List UInt8) :=
  let objects := ds.objset.objects.filter HvDmuObject.used
  let names := ds.dirZap.pairs.map Prod.fst
  if maxSerialize < objects.length ∨ maxSerialize < names.length then none
  else do
    let w : Writer := ⟨replicate (metadataSize objects names) 0, 0⟩
    let w ← w.puts (headerFields objects names ds.objset.nextObjId)
    let w ← objects.foldlM putObject (w.skip 4)
    let w ← names.foldlM putEntry w
    return w.buf

def takeObject (bs : List UInt8) : Option (HvDmuObject × List UInt8) :=
  if bs.length < objRecordSize then none
  else
    let (objId, bs) := takeU64 bs
    let (objType, bs) := takeU8 bs
    let (_, bs) := takeU32 bs
    let (nblocks, bs) := takeU64 bs
    let (size, bs) := takeU64 bs
    let (bp, bs) := HvBlockPointer.take bs
    let (atime, bs) := takeU64 bs
    let (mtime, bs) := takeU64 bs
    let (ctime, bs) := takeU64 bs
    let (ownerPwm, bs) := takeU64 bs
    let (groupPwm, bs) := takeU64 bs
    let (sensitivity, bs) := takeU8 bs
    let (pwmPerm, bs) := takeU16 bs
    let (linkCount, bs) := takeU32 bs
    let (flags, bs) := takeU32 bs
    let (birthTxg, bs) := takeU64 bs
    let (used, bs) := takeU8 bs
    some ({ objId := objId, objType := .fromU8 objType, blockSize := 4096, nblocks := nblocks,
            size := size, bp := bp, atime := atime, mtime := mtime, ctime := ctime,
            ownerPwm := ownerPwm, groupPwm := groupPwm, sensitivity := sensitivity,
            pwmPerm := pwmPerm, linkCount := linkCount, flags := flags, birthTxg := birthTxg,
            dataHash := .zero, fill := 0, dirty := false, used := used != 0 }, bs.drop 1)

def takeObjects : Nat → List UInt8 → Option (List HvDmuObject × List UInt8)
  | 0, bs => some ([], bs)
  | n + 1, bs => do
    let (o, bs) ← takeObject bs
    let (os, bs) ← takeObjects n bs
    return (o :: os, bs)

def nameOf (bs : List UInt8) : List UInt8 := if validUtf8 bs then bs else [0x3F]

def takeEntries : Nat → List UInt8 → HvZap → Option HvZap
  | 0, _, z => some z
  | n + 1, bs, z =>
    if bs.length < 2 then none
    else
      let len := (takeU16 bs).1.toNat
      let rest := (takeU16 bs).2
      if maxNameLen < len then none
      else if rest.length < len + 8 then none
      else
        let (objId, next) := takeU64 (rest.drop len)
        takeEntries n next (z.insertU64 (nameOf (rest.take len)) objId).2

/-- `none` stands for the answer `false`; the dataset is the one that the mount has just made. -/
def deserializeBuffer (ds : HvDataset) (buf : List UInt8) : Option HvDataset :=
  if buf.length < 32 then none
  else if buf.take 4 ≠ metaMagic then none
  else
    let (objCount, bs) := takeU32 (buf.drop 8)
    let (zapCount, bs) := takeU32 bs
    let (nextObjId, _) := takeU64 bs
    if maxSerialize < objCount.toNat ∨ maxSerialize < zapCount.toNat then none
    else if buf.length < 32 + objCount.toNat * objRecordSize + zapCount.toNat * (2 + 8) then none
    else do
      let (objects, rest) ← takeObjects objCount.toNat (buf.drop 32)
      let dirZap ← takeEntries zapCount.toNat rest ds.dirZap.clear
      return { ds with objset := ⟨objects, nextObjId⟩, dirZap := dirZap }

def record : List UInt8 := (recordFields o).flatten ++ [0]

def records : List UInt8 := (objects.map record).flatten

def entryBytes (name : List UInt8) : List UInt8 := u16Bytes (UInt16.ofNat name.length) ++ name

def entries (names : List (List UInt8)) : List UInt8 := (names.map entryBytes).flatten

def header (names : List (List UInt8)) (nextId : UInt64) : List UInt8 :=
  (headerFields objects names nextId).flatten ++ replicate 4 0

theorem length_recordFields : (recordFields o).flatten.length = 201 := by
  simp [recordFields]

theorem length_record : (record o).length = 202 := by
  rw [record, length_append, length_recordFields, length_singleton]

theorem length_records : (records objects).length = objects.length * 202 := by
  induction objects with
  | nil => rfl
  | cons o os ih =>
    have hcons : records (o :: os) = record o ++ records os := rfl
    rw [hcons, length_append, length_record, ih, length_cons]
    omega

theorem length_entryBytes (name : List UInt8) : (entryBytes name).length = 2 + name.length := by
  rw [entryBytes, length_append, length_u16Bytes]

theorem length_entries (names : List (List UInt8)) :
    (entries names).length + names.length * 8 = entrySizes names := by
  induction names with
  | nil => rfl
  | cons n ns ih =>
    have hcons : entries (n :: ns) = entryBytes n ++ entries ns := rfl
    have hsizes : entrySizes (n :: ns) = 2 + n.length + 8 + entrySizes ns := rfl
    rw [hcons, hsizes, length_append, length_entryBytes, length_cons]
    omega

theorem length_headerFields (names : List (List UInt8))
    (nextId : UInt64) : (headerFields objects names nextId).flatten.length = 28 := by
  simp [headerFields, metaMagic]

theorem length_header (names : List (List UInt8)) (nextId : UInt64) :
    (header objects names nextId).length = 32 := by
  rw [header, length_append, length_headerFields, length_replicate]

variable {objects : List HvDmuObject} {ds : HvDataset}

section
variable {w : Writer} {front : List UInt8} {room : Nat}

theorem putObjects_filled (h : w.Filled front room) (hroom : objects.length * 222 ≤ room) :
    ∃ w', objects.foldlM putObject w = some w' ∧
      w'.Filled (front ++ records objects) (room - objects.length * 202) := by
  induction objects generalizing w front room with
  | nil => exact ⟨w, rfl, by simpa [records] using h⟩
  | cons o os ih =>
    rw [length_cons] at hroom
    have hlen := length_recordFields o
    obtain ⟨w₁, hputs, hw₁⟩ := h.puts (show (recordFields o).flatten.length ≤ room by omega)
    have hskip := hw₁.skip (n := 1) (by omega)
    obtain ⟨w₂, hrest, hw₂⟩ := ih hskip (by omega)
    have hput : putObject w o = some (w₁.skip 1) := by
      rw [putObject, objRecordSize, if_neg (by rw [h.length]; omega), hputs]
      rfl
    refine ⟨w₂, ?_, ?_⟩
    · rw [foldlM_cons, hput]
      exact hrest
    · have hfront : front ++ records (o :: os) =
          front ++ (recordFields o).flatten ++ replicate 1 0 ++ records os := by
        simp [records, record]
      have hleft : room - (o :: os).length * 202 =
          room - (recordFields o).flatten.length - 1 - os.length * 202 := by
        rw [length_cons]
        omega
      rw [hfront, hleft]
      exact hw₂

theorem putEntry_filled {name : List UInt8} (h : w.Filled front room) (hroom : 2 + name.length + 8 ≤ room) :
    ∃ w', putEntry w name = some w' ∧ w'.Filled (front ++ entryBytes name) (room - (2 + name.length)) := by
  have h16 := length_u16Bytes (UInt16.ofNat name.length)
  obtain ⟨w₁, hput₁, hw₁⟩ := h.put (show (u16Bytes (UInt16.ofNat name.length)).length ≤ room by omega)
  obtain ⟨w₂, hput₂, hw₂⟩ := hw₁.put (show name.length ≤ _ by omega)
  have hpoke : w₂.poke (u64Bytes 0) = some w₂ := by
    have hzero : u64Bytes 0 = replicate 8 0 := leBytes_zero 8
    rw [hzero]
    exact hw₂.poke_zero (by omega)
  refine ⟨w₂, ?_, ?_⟩
  · rw [putEntry, if_neg (by rw [h.length]; omega), hput₁]
    change (w₁.put name).bind _ = _
    rw [hput₂]
    exact hpoke
  · rw [entryBytes, ← append_assoc, Nat.sub_add_eq, ← h16]
    exact hw₂

theorem putEntries_filled {names : List (List UInt8)} (h : w.Filled front room)
    (hroom : entrySizes names ≤ room) :
    ∃ w', names.foldlM putEntry w = some w' ∧
      w'.Filled (front ++ entries names) (room - (entries names).length) := by
  induction names generalizing w front room with
  | nil => exact ⟨w, rfl, by simpa [entries] using h⟩
  | cons n ns ih =>
    have hsizes : entrySizes (n :: ns) = 2 + n.length + 8 + entrySizes ns := rfl
    obtain ⟨w₁, hput, hw₁⟩ := putEntry_filled h (show 2 + n.length + 8 ≤ room by omega)
    obtain ⟨w₂, hrest, hw₂⟩ := ih hw₁ (by omega)
    refine ⟨w₂, ?_, ?_⟩
    · rw [foldlM_cons, hput]
      exact hrest
    · have hcons : entries (n :: ns) = entryBytes n ++ entries ns := rfl
      rw [hcons, length_append, length_entryBytes, ← append_assoc, Nat.sub_add_eq]
      exact hw₂

end

def HvDmuObject.restored : HvDmuObject :=
  { o with blockSize := 4096, dataHash := .zero, fill := 0, dirty := false }

theorem takeObject_record {o : HvDmuObject} (hused : o.used = true) (hpad : o.bp.pad = (0, 0))
    {rest : List UInt8} (hrest : 20 ≤ rest.length) :
    takeObject (record o ++ rest) = some (o.restored, rest) := by
  have hlen : ¬ (record o ++ rest).length < objRecordSize := by
    have hsize : objRecordSize = 222 := rfl
    rw [length_append, length_record]
    omega
  have hbp : { o.bp with pad := (0, 0) } = o.bp := by rw [← hpad]
  rw [takeObject, if_neg hlen]
  simp [record, recordFields, hused, hbp, HvDmuObject.restored]

theorem takeObjects_records (hobj : ∀ o ∈ objects, o.used = true ∧ o.bp.pad = (0, 0))
    {rest : List UInt8} (hrest : objects.length * 20 ≤ rest.length) :
    takeObjects objects.length (records objects ++ rest) = some (objects.map HvDmuObject.restored, rest) := by
  induction objects with
  | nil => rfl
  | cons o os ih =>
    rw [length_cons] at hrest
    have hcons : records (o :: os) ++ rest = record o ++ (records os ++ rest) := by
      simp [records]
    obtain ⟨hused, hpad⟩ := hobj o mem_cons_self
    have htail := ih (fun x hx => hobj x (mem_cons_of_mem o hx)) (by omega)
    have hlong : 20 ≤ (records os ++ rest).length := by
      rw [length_append]
      omega
    rw [hcons, length_cons, takeObjects, takeObject_record hused hpad hlong]
    change (takeObjects os.length (records os ++ rest)).bind _ = _
    rw [htail]
    rfl

/-- Within the limits of the format, and with the padding of every stored block pointer zero. -/
structure Storable (ds : HvDataset) : Prop where
  objects : (ds.objset.objects.filter HvDmuObject.used).length ≤ maxSerialize
  names : ds.dirZap.pairs.length ≤ maxSerialize
  pad : ∀ o ∈ ds.objset.objects, o.used = true → o.bp.pad = (0, 0)

structure Limited (ds : HvDataset) : Prop where
  objects : (ds.objset.objects.filter HvDmuObject.used).length ≤ maxSerialize
  names : ds.dirZap.pairs.length ≤ maxSerialize

theorem Storable.limited (h : Storable ds) : Limited ds := ⟨h.objects, h.names⟩

def HvDataset.usedObjects (ds : HvDataset) : List HvDmuObject := ds.objset.objects.filter HvDmuObject.used

def HvDataset.names (ds : HvDataset) : List (List UInt8) := ds.dirZap.pairs.map Prod.fst

def slack (ds : HvDataset) : Nat := ds.usedObjects.length * 20 + ds.names.length * 8

theorem name_length {n : List UInt8} (h : n ∈ ds.names) : n.length ≤ hvZapMaxName := by
  obtain ⟨p, hp, rfl⟩ := mem_map.mp h
  obtain ⟨e, -, rfl⟩ := mem_map.mp hp
  exact e.getName_length

theorem entrySizes_le {names : List (List UInt8)} (h : ∀ n ∈ names, n.length ≤ hvZapMaxName) :
    entrySizes names ≤ names.length * 74 := by
  have hmax : hvZapMaxName = 64 := rfl
  induction names with
  | nil => exact le_rfl
  | cons n ns ih =>
    have hn := h n mem_cons_self
    have htail := ih fun m hm => h m (mem_cons_of_mem n hm)
    have hsizes : entrySizes (n :: ns) = 2 + n.length + 8 + entrySizes ns := rfl
    rw [hsizes, length_cons]
    omega

theorem le_entrySizes (names : List (List UInt8)) : names.length * 10 ≤ entrySizes names := by
  induction names with
  | nil => exact le_rfl
  | cons n ns ih =>
    have hsizes : entrySizes (n :: ns) = 2 + n.length + 8 + entrySizes ns := rfl
    rw [hsizes, length_cons]
    omega

theorem Limited.size (h : Limited ds) : metadataSize ds.usedObjects ds.names =
      32 + ds.usedObjects.length * 202 + (entries ds.names).length + slack ds := by
  have hobjects : ds.usedObjects.length ≤ 65536 := h.objects
  have hnames : ds.names.length ≤ 65536 := by
    rw [HvDataset.names, length_map]
    exact h.names
  have hentries := entrySizes_le fun n hn => @name_length ds n hn
  have hlen := length_entries ds.names
  rw [metadataSize, slack, objRecordSize, Nat.mod_eq_of_lt (by omega)]
  omega

def metadataBytes (ds : HvDataset) : List UInt8 :=
  header ds.usedObjects ds.names ds.objset.nextObjId ++
    (records ds.usedObjects ++ (entries ds.names ++ replicate (slack ds) 0))

theorem length_metadataBytes (ds : HvDataset) : (metadataBytes ds).length =
    32 + ds.usedObjects.length * 202 + (entries ds.names).length + slack ds := by
  rw [metadataBytes, length_append, length_append, length_append, length_header,
    length_records, length_replicate]
  omega

theorem serializeBuffer_eq (h : Limited ds) : serializeBuffer ds = some (metadataBytes ds) := by
  have hnames : ¬ maxSerialize < ds.names.length := by
    rw [HvDataset.names, length_map]
    exact Nat.not_lt.mpr h.names
  have hsize := h.size
  have hslack : slack ds = ds.usedObjects.length * 20 + ds.names.length * 8 := rfl
  have hentries := length_entries ds.names
  have hfields := length_headerFields ds.usedObjects ds.names ds.objset.nextObjId
  have hw : Writer.Filled ⟨replicate (metadataSize ds.usedObjects ds.names) 0, 0⟩ []
      (metadataSize ds.usedObjects ds.names) := ⟨rfl, rfl⟩
  obtain ⟨w₁, hputs, hw₁⟩ := hw.puts
    (show (headerFields ds.usedObjects ds.names ds.objset.nextObjId).flatten.length ≤ _ by omega)
  obtain ⟨w₂, hobjects, hw₂⟩ := putObjects_filled (hw₁.skip (show 4 ≤ _ by omega))
    (show ds.usedObjects.length * 222 ≤ _ by omega)
  obtain ⟨w₃, hdir, hw₃⟩ := putEntries_filled hw₂ (show entrySizes ds.names ≤ _ by omega)
  have hroom : metadataSize ds.usedObjects ds.names -
      (headerFields ds.usedObjects ds.names ds.objset.nextObjId).flatten.length - 4 -
      ds.usedObjects.length * 202 - (entries ds.names).length = slack ds := by omega
  have hbuf : w₃.buf = metadataBytes ds := by
    rw [hw₃.buf, hroom, metadataBytes, header, nil_append]
    simp only [append_assoc]
  have hdef : serializeBuffer ds = (Writer.puts ⟨replicate (metadataSize ds.usedObjects ds.names) 0, 0⟩
        (headerFields ds.usedObjects ds.names ds.objset.nextObjId)).bind fun w =>
      (ds.usedObjects.foldlM putObject (w.skip 4)).bind fun w =>
      (ds.names.foldlM putEntry w).bind fun w => some w.buf :=
    if_neg (not_or.mpr ⟨Nat.not_lt.mpr h.objects, hnames⟩)
  rw [hdef, hputs, Option.bind_some, hobjects, Option.bind_some, hdir, Option.bind_some, hbuf]

theorem serializeBuffer_limited {buf : List UInt8} (h : serializeBuffer ds = some buf) :
    Limited ds ∧ buf = metadataBytes ds := by
  have hlimited : Limited ds := by
    rw [serializeBuffer] at h
    split_ifs at h with hmax
    rw [not_or, length_map] at hmax
    exact ⟨Nat.not_lt.mp hmax.1, Nat.not_lt.mp hmax.2⟩
  rw [serializeBuffer_eq hlimited] at h
  exact ⟨hlimited, (Option.some.inj h).symm⟩

theorem deserializeBuffer_eq {into : HvDataset} (h : Storable ds) :
    deserializeBuffer into (metadataBytes ds) =
      (takeEntries ds.names.length (entries ds.names ++ replicate (slack ds) 0)
        into.dirZap.clear).map fun z =>
          { into with objset := ⟨ds.usedObjects.map HvDmuObject.restored, ds.objset.nextObjId⟩
                      dirZap := z } := by
  have hobjects : ds.usedObjects.length ≤ 65536 := h.objects
  have hnames : ds.names.length ≤ 65536 := by
    rw [HvDataset.names, length_map]
    exact h.names
  have hslack : slack ds = ds.usedObjects.length * 20 + ds.names.length * 8 := rfl
  have hentries := length_entries ds.names
  have hmin := le_entrySizes ds.names
  have hlen := length_metadataBytes ds
  have hmagic : (metadataBytes ds).take 4 = metaMagic := by
    simp [metadataBytes, header, headerFields, metaMagic]
  obtain ⟨tail, htail⟩ : ∃ tail, metadataBytes ds = (metaMagic ++ u32Bytes 1) ++
      (u32Bytes (UInt32.ofNat ds.usedObjects.length) ++
        (u32Bytes (UInt32.ofNat ds.names.length) ++ (u64Bytes ds.objset.nextObjId ++ tail))) := by
    refine ⟨u32Bytes (UInt32.ofNat (metadataSize ds.usedObjects ds.names)) ++ (replicate 4 0 ++
      (records ds.usedObjects ++ (entries ds.names ++ replicate (slack ds) 0))), ?_⟩
    rfl
  have hcounts : (metadataBytes ds).drop 8 = u32Bytes (UInt32.ofNat ds.usedObjects.length) ++
        (u32Bytes (UInt32.ofNat ds.names.length) ++ (u64Bytes ds.objset.nextObjId ++ tail)) := by
    rw [htail]
    exact drop_left' rfl
  have hbody : (metadataBytes ds).drop 32 =
      records ds.usedObjects ++ (entries ds.names ++ replicate (slack ds) 0) :=
    drop_left' (length_header _ _ _)
  have hn : (UInt32.ofNat ds.usedObjects.length).toNat = ds.usedObjects.length := by
    rw [UInt32.toNat_ofNat', Nat.mod_eq_of_lt (by omega)]
  have hk : (UInt32.ofNat ds.names.length).toNat = ds.names.length := by
    rw [UInt32.toNat_ofNat', Nat.mod_eq_of_lt (by omega)]
  have hobj : ∀ o ∈ ds.usedObjects, o.used = true ∧ o.bp.pad = (0, 0) := by
    intro o ho
    obtain ⟨hmem, hused⟩ := mem_filter.mp ho
    exact ⟨hused, h.pad o hmem hused⟩
  have hlong : ds.usedObjects.length * 20 ≤ (entries ds.names ++ replicate (slack ds) 0).length := by
    rw [length_append, length_replicate]
    omega
  have hrecords := takeObjects_records hobj hlong
  have hmax : maxSerialize = 65536 := rfl
  rw [deserializeBuffer, if_neg (by omega), if_neg (not_not.mpr hmagic), hcounts]
  simp only [takeU32_u32Bytes, takeU64_u64Bytes, hn, hk]
  rw [if_neg (by omega), objRecordSize, if_neg (by omega), hbody, hrecords]
  change Option.bind (some _) _ = _
  rw [Option.bind_some]
  cases takeEntries ds.names.length (entries ds.names ++ replicate (slack ds) 0) into.dirZap.clear <;> rfl

end AntX.Hvfs
