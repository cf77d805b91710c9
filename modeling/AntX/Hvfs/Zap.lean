import Mathlib.Data.List.TakeWhile
import AntX.Lib.Bytes

/-! Attribute tables of services/fs/hvfs/zap.rs: entries with a name field of 64 bytes and the hash
of the whole name. Strings are their bytes. -/

namespace AntX.Hvfs

open AntX.Lib List

def hvZapMaxName : Nat := 64
def hvZapMaxValue : Nat := 128
def hvZapMaxEntries : Nat := 256

def hashName (name : List UInt8) : UInt64 :=
  name.foldl (fun h b => (h ^^^ b.toUInt64) * 1099511628211) 14695981039346656037

/-- Of the value field only its first `value_len` bytes are read; they are the value here. -/
structure HvZapEntry where
  name : List UInt8
  value : List UInt8
  hash : UInt64
  used : Bool
  name_length : name.length = hvZapMaxName

namespace HvZapEntry

def padName (name : List UInt8) : List UInt8 :=
  name.take hvZapMaxName ++ replicate (hvZapMaxName - (name.take hvZapMaxName).length) 0

theorem length_padName (name : List UInt8) : (padName name).length = hvZapMaxName := by
  have hle : (name.take hvZapMaxName).length ≤ hvZapMaxName := length_take_le _ _
  rw [padName, length_append, length_replicate]
  omega

def new (name value : List UInt8) : HvZapEntry where
  name := padName name
  value := value.take hvZapMaxValue
  hash := hashName name
  used := true
  name_length := length_padName name

def getName (e : HvZapEntry) : List UInt8 :=
  if validUtf8 (e.name.takeWhile (· != 0)) then e.name.takeWhile (· != 0) else []

def getValueU64 (e : HvZapEntry) : UInt64 :=
  if 8 ≤ e.value.length then UInt64.ofNat (leNat (e.value.take 8)) else 0

def named (name : List UInt8) (e : HvZapEntry) : Bool :=
  e.used && e.hash == hashName name && e.getName == name

end HvZapEntry

structure HvZap where
  entries : List HvZapEntry
  capacity : Nat

namespace HvZap

open HvZapEntry

def new : HvZap := ⟨[], hvZapMaxEntries⟩

section

variable (z : HvZap) (name : List UInt8)

def insert (name value : List UInt8) : Bool × HvZap :=
  if z.capacity ≤ z.entries.length then (false, z)
  else if z.entries.any (HvZapEntry.named name) then
    let idx := z.entries.findIdx (HvZapEntry.named name)
    let replaced := fun e : HvZapEntry => { e with value := value.take hvZapMaxValue }
    (true, { z with entries := z.entries.modify idx replaced })
  else (true, { z with entries := z.entries ++ [.new name value] })

def insertU64 (value : UInt64) : Bool × HvZap :=
  z.insert name (u64Bytes value)

def lookupU64 : Option UInt64 :=
  (z.entries.find? (HvZapEntry.named name)).map getValueU64

def remove : Bool × HvZap :=
  if z.entries.any (HvZapEntry.named name) then
    (true, { z with entries := z.entries.eraseP (HvZapEntry.named name) })
  else (false, z)

def clear : HvZap := { z with entries := [] }

def pairs : List (List UInt8 × UInt64) :=
  (z.entries.filter HvZapEntry.used).map fun e => (e.getName, e.getValueU64)

end

end HvZap

namespace HvZapEntry

theorem getName_sub (e : HvZapEntry) : e.getName.Sublist (e.name.takeWhile (· != 0)) := by
  rw [getName]
  split_ifs
  · exact List.Sublist.refl _
  · exact nil_sublist _

theorem getName_length (e : HvZapEntry) : e.getName.length ≤ hvZapMaxName := by
  have hsub := e.getName_sub.trans (takeWhile_sublist _)
  rw [← e.name_length]
  exact hsub.length_le

theorem getName_nonzero (e : HvZapEntry) : nonzero e.getName = e.getName.length := by
  rw [nonzero, countP_eq_length]
  intro b hb
  exact mem_takeWhile_imp (p := (· != 0)) (e.getName_sub.subset hb)

theorem getName_valid (e : HvZapEntry) : validUtf8 e.getName = true := by
  rw [getName]
  split_ifs with h
  · exact h
  · rfl

theorem takeWhile_padName (name : List UInt8) :
    (padName name).takeWhile (· != 0) = (name.take hvZapMaxName).takeWhile (· != 0) := by
  rw [padName, takeWhile_append]
  split_ifs with h
  · have hzero : List.takeWhile (· != 0)
        (replicate (hvZapMaxName - (name.take hvZapMaxName).length) (0 : UInt8)) = [] := by
      cases hvZapMaxName - (name.take hvZapMaxName).length <;> rfl
    rw [hzero, append_nil]
    exact ((takeWhile_sublist _).eq_of_length h).symm
  · rfl

theorem getName_new_sub (name value : List UInt8) : (new name value).getName.Sublist name := by
  have hsub := (new name value).getName_sub
  have heq : (new name value).name = padName name := rfl
  rw [heq, takeWhile_padName] at hsub
  exact hsub.trans ((takeWhile_sublist _).trans (take_sublist _ _))

theorem getName_new {name : List UInt8} (value : List UInt8) (hlen : name.length ≤ hvZapMaxName)
    (hzero : nonzero name = name.length) (hvalid : validUtf8 name = true) :
    (new name value).getName = name := by
  have hwhole : (padName name).takeWhile (· != 0) = name := by
    rw [takeWhile_padName, take_of_length_le hlen]
    apply takeWhile_eq_self_iff.mpr
    exact countP_eq_length.mp hzero
  have heq : (new name value).name = padName name := rfl
  rw [getName, heq, hwhole, if_pos hvalid]

theorem new_getValueU64 (name : List UInt8) (value : UInt64) :
    (new name (u64Bytes value)).getValueU64 = value := by
  have htake := congrArg Prod.fst (takeU64_u64Bytes [] value)
  rw [append_nil] at htake
  exact htake

theorem named_iff {name : List UInt8} {e : HvZapEntry} :
    e.named name = true ↔ e.used = true ∧ e.hash = hashName name ∧ e.getName = name := by
  rw [HvZapEntry.named, Bool.and_eq_true, Bool.and_eq_true, beq_iff_eq, beq_iff_eq, and_assoc]

end HvZapEntry

namespace HvZap

open HvZapEntry

variable {z : HvZap} {name : List UInt8} {value : UInt64}

theorem insertU64_cases (z : HvZap) (name : List UInt8) (value : UInt64) :
    (z.insertU64 name value).2.entries.length = z.entries.length ∨
    z.entries.any (HvZapEntry.named name) = false ∧
      (z.insertU64 name value).2 = { z with entries := z.entries ++ [.new name (u64Bytes value)] } := by
  rw [insertU64, insert]
  split_ifs with hcap hany
  · exact .inl rfl
  · exact .inl (length_modify _ _ _)
  · exact .inr ⟨by simpa using hany, rfl⟩

theorem insertU64_new (hcap : z.entries.length < z.capacity)
    (hany : z.entries.any (HvZapEntry.named name) = false) :
    z.insertU64 name value = (true, { z with entries := z.entries ++ [.new name (u64Bytes value)] }) := by
  rw [insertU64, insert, if_neg (by omega), if_neg (by simp [hany])]

theorem pairs_push (z : HvZap) (name : List UInt8) (value : UInt64) :
    pairs { z with entries := z.entries ++ [.new name (u64Bytes value)] } =
      z.pairs ++ [((HvZapEntry.new name (u64Bytes value)).getName, value)] := by
  have hused : (HvZapEntry.new name (u64Bytes value)).used = true := rfl
  rw [pairs, pairs, filter_append, map_append, filter_cons_of_pos hused,
    filter_nil, map_singleton, new_getValueU64]

end HvZap

end AntX.Hvfs
