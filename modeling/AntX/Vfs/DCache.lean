import AntX.Lib.Bytes
import AntX.Lib.CacheTable
import AntX.Lib.Run

/-! The cache of directory entries of framework/fs/vfs/dcache.rs: a Robin Hood table with 127 slots.
Strings are their bytes. -/

namespace AntX.Vfs

open AntX.Lib Function

def dcacheSize : Nat := 127
def dcacheNameLen : Nat := 64
def emptyIno : UInt32 := 0xFFFFFFFF

/-- The name is the part of the array that `name_len` counts; a probe distance stays below 127. -/
structure DCacheEntry where
  parentIno : UInt32
  name : List UInt8
  ino : UInt32
  fileType : UInt8
  valid : Bool
  probeDistance : Nat
  deriving DecidableEq

def DCacheEntry.default : DCacheEntry := ⟨emptyIno, [], emptyIno, 0, false, 0⟩

def DCacheEntry.hasKey (e : DCacheEntry) (parentIno : UInt32) (name : List UInt8) : Bool :=
  e.parentIno == parentIno && e.name == name

structure DCache where
  entries : Fin dcacheSize → DCacheEntry

namespace DCache

def new : DCache := ⟨fun _ => .default⟩

def setEntry (c : DCache) (i : Fin dcacheSize) (e : DCacheEntry) : DCache := ⟨update c.entries i e⟩

def slot (n : Nat) : Fin dcacheSize := ⟨n % dcacheSize, Nat.mod_lt n (by decide)⟩

variable (c : DCache) (parentIno : UInt32) (name : List UInt8)

/-- FNV-1a over the bytes of the number and of the name. -/
def hashKey : UInt64 :=
  (leBytes 4 parentIno.toNat ++ name).foldl (fun h b => (h ^^^ b.toUInt64) * 1099511628211) 14695981039346656037

def startOf : Nat := (hashKey parentIno name).toNat % dcacheSize

def badName : Bool := name.isEmpty || dcacheNameLen < name.length

def lookupLoop (start : Nat) : (k distance : Nat) → Option (UInt32 × UInt8)
  | 0, _ => none
  | k + 1, distance =>
    let entry := c.entries (slot (start + distance))
    if !entry.valid && entry.parentIno == emptyIno then none
    else if entry.probeDistance < distance then none
    else if entry.valid && entry.hasKey parentIno name then some (entry.ino, entry.fileType)
    else lookupLoop start k (distance + 1)

def lookup : Option (UInt32 × UInt8) :=
  if badName name then none
  else c.lookupLoop parentIno name (startOf parentIno name) dcacheSize 0

/-- The loop of `insert`. The entry that is carried along changes with every swap, the key that is looked
for does not. -/
def insertLoop (ino : UInt32) (fileType : UInt8) :
    (k : Nat) → DCache → DCacheEntry → (pos distance : Nat) → DCache
  | 0, c, _, _, _ => c
  | k + 1, c, newEntry, pos, distance =>
    let entry := c.entries (slot pos)
    if !entry.valid || entry.parentIno == emptyIno then
      c.setEntry (slot pos) { newEntry with probeDistance := distance }
    else if entry.hasKey parentIno name then
      c.setEntry (slot pos) { entry with ino := ino, fileType := fileType, valid := true }
    else if entry.probeDistance < distance then
      insertLoop ino fileType k (c.setEntry (slot pos) { newEntry with probeDistance := distance }) entry
        ((pos + 1) % dcacheSize) (entry.probeDistance + 1)
    else insertLoop ino fileType k c newEntry ((pos + 1) % dcacheSize) (distance + 1)

def insert (ino : UInt32) (fileType : UInt8) : DCache :=
  if badName name then c
  else insertLoop parentIno name ino fileType dcacheSize c ⟨parentIno, name, ino, fileType, true, 0⟩
    (startOf parentIno name) 0

def invalidateParent : DCache where
  entries i :=
    let entry := c.entries i
    if entry.valid && entry.parentIno == parentIno then { entry with valid := false, parentIno := emptyIno }
    else entry

end DCache

inductive DCacheCall where
  | insert (parentIno : UInt32) (name : List UInt8) (ino : UInt32) (fileType : UInt8)
  | invalidateParent (parentIno : UInt32)

def dcacheStep (c : DCache) : DCacheCall → DCache
  | .insert parentIno name ino fileType => c.insert parentIno name ino fileType
  | .invalidateParent parentIno => c.invalidateParent parentIno

abbrev DCacheKey : Type := UInt32 × List UInt8

/-- For every key what was inserted last, unless the parent has been invalidated since. -/
def latestStep (latest : DCacheKey → Option (UInt32 × UInt8)) : DCacheCall → DCacheKey → Option (UInt32 × UInt8)
  | .insert parentIno name ino fileType => update latest (parentIno, name) (some (ino, fileType))
  | .invalidateParent parentIno => fun k => if k.1 == parentIno then none else latest k

def latest (calls : List DCacheCall) : DCacheKey → Option (UInt32 × UInt8) := run latestStep (fun _ => none) calls

namespace DCache

def Holds (c : DCache) (parentIno : UInt32) (name : List UInt8) : Prop :=
  ∃ i, (c.entries i).valid = true ∧ (c.entries i).hasKey parentIno name = true

instance (c : DCache) (parentIno : UInt32) (name : List UInt8) : Decidable (c.Holds parentIno name) :=
  inferInstanceAs (Decidable (∃ _, _))

def FromFs : DCacheCall → Prop
  | .insert parentIno _ _ _ => parentIno ≠ emptyIno
  | .invalidateParent parentIno => parentIno ≠ emptyIno

/-- A key that the table holds is found at the time it is inserted again. -/
def Reached (c : DCache) : DCacheCall → Prop
  | .insert parentIno name _ _ => c.Holds parentIno name → (c.lookup parentIno name).isSome = true
  | .invalidateParent _ => True

instance : (call : DCacheCall) → Decidable (FromFs call)
  | .insert .. | .invalidateParent _ => inferInstanceAs (Decidable (_ ≠ _))

instance (c : DCache) : (call : DCacheCall) → Decidable (c.Reached call)
  | .insert .. => inferInstanceAs (Decidable (_ → _))
  | .invalidateParent _ => isTrue trivial

end DCache

def DCacheEntry.content (e : DCacheEntry) : Option (DCacheKey × (UInt32 × UInt8)) :=
  if e.valid then some ((e.parentIno, e.name), (e.ino, e.fileType)) else none

theorem DCacheEntry.content_valid {e : DCacheEntry} (h : e.valid = true) :
    e.content = some ((e.parentIno, e.name), (e.ino, e.fileType)) := if_pos h

theorem DCacheEntry.content_some {e : DCacheEntry} {k : DCacheKey} {v : UInt32 × UInt8} (h : e.content = some (k, v)) :
    e.valid = true ∧ k = (e.parentIno, e.name) ∧ v = (e.ino, e.fileType) := by
  by_cases hv : e.valid = true
  · rw [content_valid hv, Option.some.injEq, Prod.mk.injEq] at h
    exact ⟨hv, h.1.symm, h.2.symm⟩
  · rw [content, if_neg hv] at h
    cases h

theorem DCacheEntry.hasKey_iff {e : DCacheEntry} {parentIno : UInt32} {name : List UInt8} :
    e.hasKey parentIno name = true ↔ (e.parentIno, e.name) = (parentIno, name) := by
  simp [hasKey]

namespace DCache

variable {c : DCache} {f : DCacheKey → Option (UInt32 × UInt8)} {parentIno ino : UInt32} {name : List UInt8}
  {fileType : UInt8} {e : DCacheEntry} {i : Fin dcacheSize} {k pos start distance : Nat} {v : UInt32 × UInt8}

def content (c : DCache) : Fin dcacheSize → Option (DCacheKey × (UInt32 × UInt8)) := DCacheEntry.content ∘ c.entries

theorem content_update (c : DCache) (i : Fin dcacheSize) (e : DCacheEntry) :
    (c.setEntry i e).content = update c.content i e.content :=
  comp_update _ c.entries i e

open DCacheEntry

theorem absent_of_not_holds (h : ¬ c.Holds parentIno name) : Absent c.content (parentIno, name) := by
  intro i v hi
  obtain ⟨hvalid, hkey, -⟩ := content_some hi
  exact h ⟨i, hvalid, hasKey_iff.mpr hkey.symm⟩

/-- The table agrees with the map, and just the empty slots bear the mark. -/
structure Coherent (c : DCache) (f : DCacheKey → Option (UInt32 × UInt8)) : Prop where
  agrees : Agrees c.content f
  marked : ∀ i, (c.entries i).valid = true ↔ (c.entries i).parentIno ≠ emptyIno

theorem Coherent.update (h : c.Coherent f) {f' : DCacheKey → Option (UInt32 × UInt8)} (hvalid : e.valid = true)
    (hparent : e.parentIno ≠ emptyIno) (ha : Agrees (Function.update c.content i e.content) f') :
    (c.setEntry i e).Coherent f' := by
  refine ⟨by rwa [content_update], fun j => ?_⟩
  by_cases hj : j = i
  · simp [setEntry, hj, hvalid, hparent]
  · simp [setEntry, hj, h.marked j]

structure Carried (c : DCache) (f : DCacheKey → Option (UInt32 × UInt8)) (e : DCacheEntry) : Prop where
  valid : e.valid = true
  parent : e.parentIno ≠ emptyIno
  current : f (e.parentIno, e.name) = some (e.ino, e.fileType)
  absent : Absent c.content (e.parentIno, e.name)

theorem Carried.put (h : c.Coherent f) (he : c.Carried f e) (i : Fin dcacheSize) (distance : Nat) :
    (c.setEntry i { e with probeDistance := distance }).Coherent f := by
  refine h.update he.valid he.parent ?_
  rw [content_valid (show (({ e with probeDistance := distance } : DCacheEntry)).valid = true from he.valid)]
  exact h.agrees.put (fun j v _ => he.absent j v) he.current

theorem Carried.swap (h : c.Coherent f) (he : c.Carried f e) (hvalid : (c.entries i).valid = true) (distance : Nat) :
    (c.setEntry i { e with probeDistance := distance }).Carried f (c.entries i) := by
  have hi : c.content i = some (((c.entries i).parentIno, (c.entries i).name), ((c.entries i).ino, (c.entries i).fileType)) :=
    content_valid hvalid
  refine ⟨hvalid, (h.marked i).mp hvalid, h.agrees.current i _ _ hi, fun j v hj => ?_⟩
  rw [content_update] at hj
  by_cases hji : j = i
  · rw [hji, update_self] at hj
    obtain ⟨-, hkey, -⟩ := content_some hj
    exact he.absent i _ (hkey ▸ hi)
  · rw [update_of_ne hji] at hj
    exact hji (h.agrees.unique j i _ v _ hj hi)

theorem insertLoop_coherent (h : c.Coherent f) (he : c.Carried f e) (hf : f (parentIno, name) = some (ino, fileType)) :
    Coherent (insertLoop parentIno name ino fileType k c e pos distance) f := by
  induction k generalizing c e pos distance with
  | zero => exact h
  | succ k ih =>
    rw [insertLoop]
    split_ifs with hfree hkey hrich
    · exact he.put h _ _
    · rw [Bool.or_eq_true, not_or, Bool.not_eq_true', Bool.not_eq_false, beq_iff_eq] at hfree
      have hmatch := hasKey_iff.mp hkey
      have hslot : c.content (slot pos) = some ((parentIno, name), ((c.entries (slot pos)).ino, (c.entries (slot pos)).fileType)) := by
        rw [← hmatch]
        exact content_valid hfree.1
      refine h.update rfl hfree.2 ?_
      rw [content_valid rfl, hmatch]
      refine h.agrees.put (fun j v hj hold => hj ?_) hf
      exact h.agrees.unique j _ _ v _ hold hslot
    · rw [Bool.or_eq_true, not_or, Bool.not_eq_true', Bool.not_eq_false] at hfree
      exact ih (he.put h _ _) (he.swap h hfree.1 _)
    · exact ih h he

theorem lookupLoop_some (h : c.lookupLoop parentIno name start k distance = some v) :
    ∃ i, c.content i = some ((parentIno, name), v) := by
  induction k generalizing distance with
  | zero => cases h
  | succ k ih =>
    rw [lookupLoop] at h
    split_ifs at h with hempty hrich hkey
    · rw [Bool.and_eq_true] at hkey
      cases h
      refine ⟨slot (start + distance), ?_⟩
      rw [← hasKey_iff.mp hkey.2]
      exact content_valid hkey.1
    · exact ih h

theorem slot_next (pos : Nat) (h : slot pos = slot (start + distance)) :
    slot ((pos + 1) % dcacheSize) = slot (start + (distance + 1)) := by
  have hmod : pos % dcacheSize = (start + distance) % dcacheSize := congrArg Fin.val h
  apply Fin.ext
  simp only [slot, dcacheSize] at hmod ⊢
  omega

theorem insertLoop_of_lookup (hm : ∀ i, (c.entries i).valid = true ↔ (c.entries i).parentIno ≠ emptyIno)
    (h : c.lookupLoop parentIno name start k distance = some v) (hpos : slot pos = slot (start + distance)) :
    ∃ i, (c.entries i).valid = true ∧ (c.entries i).hasKey parentIno name = true ∧
      insertLoop parentIno name ino fileType k c e pos distance =
        c.setEntry i { c.entries i with ino := ino, fileType := fileType, valid := true } := by
  induction k generalizing distance pos with
  | zero => cases h
  | succ k ih =>
    have hmark := hm (slot (start + distance))
    have hfree (hv : (c.entries (slot (start + distance))).valid = true) :
        ¬ (!(c.entries (slot (start + distance))).valid ||
          (c.entries (slot (start + distance))).parentIno == emptyIno) = true := by
      simpa [hv] using hmark.mp hv
    rw [lookupLoop] at h
    rw [insertLoop, hpos]
    split_ifs at h with hempty hrich hkey
    · rw [Bool.and_eq_true] at hkey
      exact ⟨_, hkey.1, hkey.2, by rw [if_neg (hfree hkey.1), if_pos hkey.2]⟩
    · have hvalid : (c.entries (slot (start + distance))).valid = true := by
        by_contra hv
        have hempty' : (c.entries (slot (start + distance))).parentIno = emptyIno := by simpa [hv] using hmark
        exact hempty (by simp [hv, hempty'])
      have hother : ¬ (c.entries (slot (start + distance))).hasKey parentIno name = true := by
        simpa [hvalid] using hkey
      rw [if_neg (hfree hvalid), if_neg hother, if_neg hrich]
      exact ih h (slot_next pos hpos)

theorem Coherent.insert (h : c.Coherent f) (hp : parentIno ≠ emptyIno)
    (hr : c.Holds parentIno name → (c.lookup parentIno name).isSome = true) :
    (c.insert parentIno name ino fileType).Coherent (Function.update f (parentIno, name) (some (ino, fileType))) := by
  rw [DCache.insert]
  by_cases hheld : c.Holds parentIno name
  · obtain ⟨v, hloop⟩ := Option.isSome_iff_exists.mp (hr hheld)
    rw [lookup] at hloop
    split_ifs at hloop with hbad
    have hname : badName name = false := by simpa using hbad
    obtain ⟨i, hvalid, hkey, hset⟩ := @insertLoop_of_lookup c parentIno ino name fileType
      ⟨parentIno, name, ino, fileType, true, 0⟩ _ (startOf parentIno name) _ 0 v h.marked hloop rfl
    have hmatch := hasKey_iff.mp hkey
    have hi : c.content i = some ((parentIno, name), ((c.entries i).ino, (c.entries i).fileType)) := by
      rw [← hmatch]
      exact content_valid hvalid
    rw [hname, if_neg (by decide), hset]
    refine h.update rfl ((h.marked i).mp hvalid) ?_
    rw [content_valid rfl, hmatch]
    exact h.agrees.renew hi _
  · have habsent := absent_of_not_holds hheld
    have hnoted : c.Coherent (Function.update f (parentIno, name) (some (ino, fileType))) :=
      ⟨h.agrees.note habsent _, h.marked⟩
    split_ifs
    · exact hnoted
    · exact insertLoop_coherent hnoted ⟨rfl, hp, update_self .., habsent⟩ (update_self ..)

theorem content_invalidateParent (c : DCache) (parentIno : UInt32) (i : Fin dcacheSize) :
    (c.invalidateParent parentIno).content i = (c.content i).filter fun x => !(x.1.1 == parentIno) := by
  by_cases hv : (c.entries i).valid = true
  · by_cases hp : (c.entries i).parentIno = parentIno <;>
      simp [content, DCacheEntry.content, invalidateParent, hv, hp, Option.filter]
  · simp [content, DCacheEntry.content, invalidateParent, hv]

theorem Coherent.invalidateParent (h : c.Coherent f) (parentIno : UInt32) :
    (c.invalidateParent parentIno).Coherent fun k => if k.1 == parentIno then none else f k := by
  refine ⟨?_, fun i => ?_⟩
  · rw [show (c.invalidateParent parentIno).content = _ from funext (content_invalidateParent c parentIno)]
    exact h.agrees.drop fun k => k.1 == parentIno
  · have hmark := h.marked i
    rw [DCache.invalidateParent]
    dsimp only
    split_ifs
    · simp
    · exact hmark

theorem Coherent.step (h : c.Coherent f) {call : DCacheCall} (hp : FromFs call) (hr : c.Reached call) :
    (dcacheStep c call).Coherent (latestStep f call) := by
  cases call with
  | insert parentIno name ino fileType => exact h.insert hp hr
  | invalidateParent parentIno => exact h.invalidateParent parentIno

theorem new_coherent : Coherent new fun _ => none := by
  refine ⟨agrees_empty _, fun i => ?_⟩
  simp [new, DCacheEntry.default]

theorem Coherent.lookup (h : c.Coherent f) (hv : c.lookup parentIno name = some v) : f (parentIno, name) = some v := by
  rw [DCache.lookup] at hv
  split_ifs at hv
  obtain ⟨i, hi⟩ := lookupLoop_some hv
  exact h.agrees.current i _ v hi

/-- In every run whose insertions find the keys that the table already holds, a lookup answers nothing but
what was inserted last and not invalidated since. -/
theorem lookup_latest {calls : List DCacheCall}
    (hcalls : Guarded dcacheStep (fun c call => FromFs call ∧ c.Reached call) new calls) (parentIno : UInt32)
    (name : List UInt8) (v : UInt32 × UInt8) (hv : (run dcacheStep new calls).lookup parentIno name = some v) :
    latest calls (parentIno, name) = some v :=
  (hcalls.run_simulates new_coherent fun _ _ _ h hok => h.step hok.1 hok.2).lookup hv

theorem lookup_latest_renewed :
    latest [.insert 2 [119] 9 0, .insert 1 [97] 5 0, .insert 1 [97] 6 1, .invalidateParent 3] (1, [97]) =
      some (6, 1) :=
  lookup_latest (by decide +kernel) 1 [97] (6, 1) (by decide +kernel)

/-- Now `w` goes before the second insertion, which takes its slot in front of the first copy of `a`. The
names `aa` and `ml` start one slot before; the second of them moves the new copy behind the old one. -/
def staleCalls : List DCacheCall :=
  [.insert 1 [97, 97] 7 0, .insert 2 [119] 9 0, .insert 1 [97] 5 0, .invalidateParent 2, .insert 1 [97] 6 1,
    .insert 1 [109, 108] 8 0]

theorem stale_entry_found : ¬ ∀ calls, (∀ call ∈ calls, FromFs call) → ∀ parentIno name v,
      (run dcacheStep new calls).lookup parentIno name = some v → latest calls (parentIno, name) = some v := by
  intro hall
  have hlatest := hall staleCalls (by decide +kernel) 1 [97] (5, 0) (by decide +kernel)
  exact absurd hlatest (by decide +kernel)

end DCache

end AntX.Vfs
