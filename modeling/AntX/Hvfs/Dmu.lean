import Mathlib.Data.List.Nodup
import AntX.Hvfs.BlockPointer
import AntX.Hvfs.Zap
import AntX.Lib.Run

/-! Objects and datasets of services/fs/hvfs/dmu.rs and dataset.rs, with the directory that names
them. The ids of objects come from a counter, so that no two objects share one. -/

namespace AntX.Hvfs

open AntX.Lib

inductive HvObjType where
  | none
  | file
  | dir
  | snapshot
  | zap
  | zapMicro
  | volume
  | spaceMap
  | objSet
  | symlink
  deriving DecidableEq, Repr

namespace HvObjType

def toU8 : HvObjType → UInt8
  | .none => 0
  | .file => 1
  | .dir => 2
  | .snapshot => 3
  | .zap => 4
  | .zapMicro => 5
  | .volume => 6
  | .spaceMap => 7
  | .objSet => 8
  | .symlink => 9

def fromU8 (v : UInt8) : HvObjType :=
  if v = 1 then .file
  else if v = 2 then .dir
  else if v = 3 then .snapshot
  else if v = 4 then .zap
  else if v = 5 then .zapMicro
  else if v = 6 then .volume
  else if v = 7 then .spaceMap
  else if v = 8 then .objSet
  else if v = 9 then .symlink
  else .none

@[simp] theorem fromU8_toU8 (t : HvObjType) : fromU8 t.toU8 = t := by cases t <;> rfl

end HvObjType

structure HvDmuObject where
  objId : UInt64
  objType : HvObjType
  blockSize : UInt32
  nblocks : UInt64
  size : UInt64
  bp : HvBlockPointer
  atime : UInt64
  mtime : UInt64
  ctime : UInt64
  ownerPwm : UInt64
  groupPwm : UInt64
  sensitivity : UInt8
  pwmPerm : UInt16
  linkCount : UInt32
  flags : UInt32
  birthTxg : UInt64
  dataHash : Words4
  fill : UInt64
  dirty : Bool
  used : Bool
  deriving DecidableEq, Repr

namespace HvDmuObject

def fresh (objId ownerPwm : UInt64) (objType : HvObjType) (pwmPerm : UInt16) (linkCount : UInt32) :
    HvDmuObject where
  objId := objId
  objType := objType
  blockSize := 4096
  nblocks := 0
  size := 0
  bp := .null
  atime := 0
  mtime := 0
  ctime := 0
  ownerPwm := ownerPwm
  groupPwm := 0
  sensitivity := 0
  pwmPerm := pwmPerm
  linkCount := linkCount
  flags := 0
  birthTxg := 0
  dataHash := .zero
  fill := 0
  dirty := false
  used := true

def newFile (objId ownerPwm : UInt64) : HvDmuObject := fresh objId ownerPwm .file 0o644 1
def newDir (objId ownerPwm : UInt64) : HvDmuObject := fresh objId ownerPwm .dir 0o755 2
def newZap (objId : UInt64) : HvDmuObject := fresh objId 0 .zap 0o644 1
def newSymlink (objId ownerPwm : UInt64) : HvDmuObject := fresh objId ownerPwm .symlink 0o777 1

def isDir (o : HvDmuObject) : Bool := o.objType == .dir

def cowBp (o : HvDmuObject) (bp : HvBlockPointer) (txg : UInt64) : HvDmuObject :=
  { o with bp := bp, birthTxg := txg, dirty := true }

end HvDmuObject

def hvDmuObjMeta : UInt64 := 1
def hvDmuObjRoot : UInt64 := 2

structure HvObjSet where
  objects : List HvDmuObject
  nextObjId : UInt64

namespace HvObjSet

def new : HvObjSet := ⟨[], hvDmuObjRoot + 1⟩

def init (ownerPwm : UInt64) : HvObjSet where
  objects := [{ HvDmuObject.newDir hvDmuObjRoot ownerPwm with birthTxg := 1 }, .newZap hvDmuObjMeta]
  nextObjId := hvDmuObjRoot + 2

section

variable (s : HvObjSet) (objId : UInt64)

/-- The counter moves on even when there is no object of this type. -/
def allocObj (objType : HvObjType) (ownerPwm : UInt64) : Option UInt64 × HvObjSet :=
  let objId := s.nextObjId
  let next := { s with nextObjId := s.nextObjId + 1 }
  let push := fun o : HvDmuObject => (some objId, { next with objects := s.objects ++ [o] })
  match objType with
  | .file => push (.newFile objId ownerPwm)
  | .dir => push (.newDir objId ownerPwm)
  | .zap | .zapMicro => push (.newZap objId)
  | .symlink => push (.newSymlink objId ownerPwm)
  | _ => (none, next)

def modifyFirst (f : HvDmuObject → HvDmuObject) : HvObjSet :=
  { s with objects := s.objects.modify (s.objects.findIdx fun o => o.objId == objId) f }

def freeObj : Bool × HvObjSet :=
  (s.objects.any fun o => o.objId == objId, s.modifyFirst objId fun o =>
      let linkCount := if o.linkCount = 0 then 0 else o.linkCount - 1
      { o with linkCount := linkCount, used := false })

def getObj : Option HvDmuObject :=
  s.objects.find? fun o => o.objId == objId && o.used

def updateObj (obj : HvDmuObject) : Bool × HvObjSet :=
  (s.objects.any fun o => o.objId == obj.objId, s.modifyFirst obj.objId fun _ => obj)

end

end HvObjSet

inductive HvDsState where
  | uninit
  | creating
  | active
  | destroying
  | suspended
  | readOnly
  deriving DecidableEq, Repr

structure HvDataset where
  objset : HvObjSet
  dirZap : HvZap
  state : HvDsState
  writeable : Bool

namespace HvDataset

def new : HvDataset := ⟨.new, .new, .creating, true⟩

def init (ds : HvDataset) (ownerPwm : UInt64) : HvDataset :=
  { ds with objset := .init ownerPwm, state := .active }

def isWriteable (ds : HvDataset) : Bool := ds.writeable && ds.state == .active

def lookup (ds : HvDataset) (name : List UInt8) : Option UInt64 := ds.dirZap.lookupU64 name

-- Whether the name went into the directory is not looked at.
def createFile (ds : HvDataset) (name : List UInt8) (ownerPwm : UInt64) : Option (UInt64 × HvDataset) :=
  if ds.isWriteable then
    match ds.objset.allocObj .file ownerPwm with
    | (some objId, objset) =>
      some (objId, { ds with objset := objset, dirZap := (ds.dirZap.insertU64 name objId).2 })
    | (none, _) => none
  else none

def unlink (ds : HvDataset) (name : List UInt8) : Bool × HvDataset :=
  if ds.isWriteable then
    match ds.dirZap.lookupU64 name with
    | some objId =>
      (true, { ds with objset := (ds.objset.freeObj objId).2, dirZap := (ds.dirZap.remove name).2 })
    | none => (false, ds)
  else (false, ds)

def link (ds : HvDataset) (name : List UInt8) (objId : UInt64) : Bool × HvDataset :=
  if ds.isWriteable then (true, { ds with dirZap := (ds.dirZap.insertU64 name objId).2 })
  else (false, ds)

end HvDataset

open List

namespace HvObjSet

def ids (s : HvObjSet) : List UInt64 := s.objects.map HvDmuObject.objId

def Distinct (s : HvObjSet) : Prop := s.ids.Nodup

structure Numbered (s : HvObjSet) : Prop where
  distinct : s.Distinct
  below : ∀ id ∈ s.ids, id.toNat < s.nextObjId.toNat

variable {s : HvObjSet} {id : UInt64} {o : HvDmuObject} {f : HvDmuObject → HvDmuObject}

theorem modifyFirst_ids (hf : ∀ x, x.objId = id → (f x).objId = id) : (s.modifyFirst id f).ids = s.ids := by
  rw [ids, ids, modifyFirst]
  induction s.objects with
  | nil => rfl
  | cons x xs ih =>
    by_cases hx : x.objId = id
    · rw [findIdx_cons, beq_iff_eq.mpr hx, cond_true, modify_zero_cons, map_cons, map_cons, hf x hx, hx]
    · rw [findIdx_cons, beq_eq_false_iff_ne.mpr hx, cond_false, modify_succ_cons, map_cons, map_cons, ih]

theorem getObj_objId (h : s.getObj id = some o) : o.objId = id ∧ o.used = true := by
  have hfound := find?_some h
  rwa [Bool.and_eq_true, beq_iff_eq] at hfound

theorem getObj_modifyFirst (h : s.Distinct) (hget : s.getObj id = some o) (hf : (f o).objId = id) :
    (s.modifyFirst id f).getObj id = if (f o).used then some (f o) else none := by
  obtain ⟨objects, next⟩ := s
  rw [Distinct, ids] at h
  rw [getObj] at hget
  rw [getObj, modifyFirst]
  induction objects with
  | nil => cases hget
  | cons x xs ih =>
    rw [map_cons, nodup_cons] at h
    by_cases hx : x.objId = id
    · have hrest : ∀ y ∈ xs, y.objId ≠ id := by
        intro y hy hid
        exact h.1 (mem_map.mpr ⟨y, hy, hid.trans hx.symm⟩)
      have hnone : xs.find? (fun y => y.objId == id && y.used) = none := by
        rw [find?_eq_none]
        intro y hy
        simp [hrest y hy]
      have hox : x = o := by
        rw [find?_cons] at hget
        split at hget
        · exact Option.some.inj hget
        · rw [hnone] at hget
          cases hget
      subst hox
      rw [findIdx_cons, beq_iff_eq.mpr hx, cond_true, modify_zero_cons, find?_cons, hf, hnone]
      cases (f x).used <;> simp
    · have hskip : (x.objId == id && x.used) = false := by simp [hx]
      rw [find?_cons, hskip] at hget
      rw [findIdx_cons, beq_eq_false_iff_ne.mpr hx, cond_false, modify_succ_cons, find?_cons, hskip]
      exact ih h.2 hget

theorem getObj_updateObj (h : s.Distinct) (hget : s.getObj id = some o) {o' : HvDmuObject}
    (hid : o'.objId = id) (hused : o'.used = true) : (s.updateObj o').2.getObj id = some o' := by
  rw [updateObj]
  rw [hid, getObj_modifyFirst h hget hid, if_pos hused]

theorem getObj_freeObj (h : s.Distinct) (hget : s.getObj id = some o) :
    (s.freeObj id).2.getObj id = none := by
  rw [freeObj]
  rw [getObj_modifyFirst h hget (getObj_objId hget).1]
  rfl

theorem updateObj_ids (s : HvObjSet) (o : HvDmuObject) : (s.updateObj o).2.ids = s.ids :=
  modifyFirst_ids fun _ _ => rfl

inductive ObjCall where
  | alloc (objType : HvObjType) (ownerPwm : UInt64)
  | free (objId : UInt64)
  | update (obj : HvDmuObject)

def objStep (s : HvObjSet) : ObjCall → HvObjSet
  | .alloc objType ownerPwm => (s.allocObj objType ownerPwm).2
  | .free objId => (s.freeObj objId).2
  | .update obj => (s.updateObj obj).2

theorem numbered_init (ownerPwm : UInt64) : (init ownerPwm).Numbered where
  distinct := by
    have hids : (init ownerPwm).ids = [2, 1] := rfl
    rw [Distinct, hids]
    decide
  below := by
    have hids : (init ownerPwm).ids = [2, 1] := rfl
    have hnext : (init ownerPwm).nextObjId = 4 := rfl
    intro id hid
    rw [hids, mem_pair] at hid
    rw [hnext]
    rcases hid with rfl | rfl <;> decide

theorem allocObj_cases (s : HvObjSet) (objType : HvObjType) (ownerPwm : UInt64) :
    (s.allocObj objType ownerPwm).2.nextObjId = s.nextObjId + 1 ∧
      ((s.allocObj objType ownerPwm).2.ids = s.ids ∨
        (s.allocObj objType ownerPwm).2.ids = s.ids ++ [s.nextObjId]) := by
  have hpush : ∀ o : HvDmuObject, (s.objects ++ [o]).map HvDmuObject.objId = s.ids ++ [o.objId] := by
    intro o
    rw [map_append]
    rfl
  cases objType with
  | file | dir | zap | zapMicro | symlink => exact ⟨rfl, .inr (hpush _)⟩
  | none | snapshot | volume | spaceMap | objSet => exact ⟨rfl, .inl rfl⟩

theorem Numbered.same_ids {s' : HvObjSet} (h : s.Numbered) (hids : s'.ids = s.ids)
    (hnext : s.nextObjId.toNat ≤ s'.nextObjId.toNat) : s'.Numbered where
  distinct := by
    rw [Distinct, hids]
    exact h.distinct
  below := by
    rw [hids]
    exact fun id hid => (h.below id hid).trans_le hnext

theorem Numbered.step (h : s.Numbered) (hroom : s.nextObjId.toNat + 1 < 2 ^ 64) (c : ObjCall) :
    (objStep s c).Numbered ∧ (objStep s c).nextObjId.toNat ≤ s.nextObjId.toNat + 1 := by
  cases c with
  | alloc objType ownerPwm =>
    obtain ⟨hnext, hids⟩ := s.allocObj_cases objType ownerPwm
    have hnat : (s.allocObj objType ownerPwm).2.nextObjId.toNat = s.nextObjId.toNat + 1 := by
      rw [hnext, UInt64.toNat_add]
      exact Nat.mod_eq_of_lt hroom
    refine ⟨?_, Nat.le_of_eq hnat⟩
    rcases hids with hids | hids
    · exact h.same_ids hids (Nat.le_of_succ_le hnat.ge)
    · constructor
      · change (s.allocObj objType ownerPwm).2.ids.Nodup
        rw [hids]
        apply List.Nodup.append h.distinct (nodup_singleton _)
        rw [disjoint_singleton]
        intro hmem
        exact Nat.lt_irrefl _ (h.below _ hmem)
      · change ∀ id ∈ (s.allocObj objType ownerPwm).2.ids, id.toNat < _
        rw [hids]
        intro id hid
        apply Nat.lt_of_lt_of_eq _ hnat.symm
        rcases mem_append.mp hid with hid | hid
        · exact Nat.lt_succ_of_lt (h.below id hid)
        · rw [mem_singleton.mp hid]
          exact Nat.lt_succ_self _
  | free objId => exact ⟨h.same_ids (modifyFirst_ids fun _ hx => hx) le_rfl, Nat.le_succ _⟩
  | update obj => exact ⟨h.same_ids (s.updateObj_ids obj) le_rfl, Nat.le_succ _⟩

theorem Numbered.run (h : s.Numbered) {cs : List ObjCall}
    (hroom : s.nextObjId.toNat + cs.length < 2 ^ 64) : (run objStep s cs).Numbered := by
  induction cs generalizing s with
  | nil => exact h
  | cons c cs ih =>
    rw [length_cons] at hroom
    obtain ⟨hstep, hnext⟩ := h.step (by omega) c
    exact ih hstep (by omega)

/-- No object number is given twice, so an updated object is read back and a freed one is gone. -/
theorem reached_objects_distinct (ownerPwm : UInt64) {cs : List ObjCall} (hroom : 4 + cs.length < 2 ^ 64) :
    let s := run objStep (init ownerPwm) cs
    s.Distinct ∧ ∀ id o, s.getObj id = some o → (s.freeObj id).2.getObj id = none ∧
      ∀ o' : HvDmuObject, o'.objId = id → o'.used = true → (s.updateObj o').2.getObj id = some o' := by
  have hd := ((numbered_init ownerPwm).run hroom).distinct
  exact ⟨hd, fun id o hget => ⟨getObj_freeObj hd hget, fun o' => getObj_updateObj hd hget⟩⟩

theorem created_object_freed : ((run objStep (init 0) [.alloc .file 7]).freeObj 4).2.getObj 4 = none :=
  ((reached_objects_distinct 0 (by decide)).2 4 _ rfl).1

end HvObjSet

end AntX.Hvfs
