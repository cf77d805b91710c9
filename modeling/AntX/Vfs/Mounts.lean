import AntX.Error
import AntX.Lib.FirstFit
import AntX.Lib.Run
import AntX.Lib.Bytes

/-! The mount table of framework/fs/vfs/vfs.rs: eight slots that are recycled. Strings are their
bytes. -/

namespace AntX.Vfs

open AntX.Lib Function Option

def vfsMaxPath : Nat := 128

def vfsMaxMounts : Nat := 8

inductive FsType where
  | ramFs
  | hvFs
  | devFs
  | ext2
  | exFat
  | tmpFs
  | overlayFs
  | unknown
  deriving DecidableEq, Repr

def FsType.fromName : String → FsType
  | "ramfs" => .ramFs
  | "hvfs" => .hvFs
  | "devfs" => .devFs
  | "ext2" => .ext2
  | "exfat" => .exFat
  | "tmpfs" => .tmpFs
  | "overlay" => .overlayFs
  | _ => .unknown

structure VfsMount (F : Type*) where
  path : List UInt8
  fsType : FsType
  fs : Option F
  used : Bool
  deriving DecidableEq, Repr

variable {F : Type*}

namespace VfsMount

def new : VfsMount F := ⟨List.replicate vfsMaxPath 0, .unknown, none, false⟩

/-- What an earlier, longer path left behind the end mark stays in the buffer. -/
def setPath (m : VfsMount F) (path : List UInt8) : VfsMount F :=
  let len := min path.length (vfsMaxPath - 1)
  { m with path := path.take len ++ 0 :: m.path.drop (len + 1) }

def getPath (m : VfsMount F) : List UInt8 :=
  let name := m.path.takeWhile (· != 0)
  if validUtf8 name then name else []

def setFsType (m : VfsMount F) (name : String) : VfsMount F := { m with fsType := .fromName name }

def setFs (m : VfsMount F) (fs : F) : VfsMount F := { m with fs := some fs }

end VfsMount

structure VfsManager (F : Type*) where
  mounts : Nat → VfsMount F

namespace VfsManager

def new : VfsManager F := ⟨fun _ => .new⟩

variable (v : VfsManager F)

def setMount (i : Nat) (m : VfsMount F) : VfsManager F := ⟨update v.mounts i m⟩

def covers (mountPath path : List UInt8) : Bool :=
  path == mountPath ||
    (mountPath.isPrefixOf path && (mountPath == [0x2F] || path[mountPath.length]? == some 0x2F))

def findMountLoop (v : VfsManager F) (path : List UInt8) : (k i : Nat) → Option Nat → Nat → Option Nat
  | 0, _, bestIdx, _ => bestIdx
  | k + 1, i, bestIdx, bestLen =>
    let mountPath := (v.mounts i).getPath
    if (v.mounts i).used && covers mountPath path && bestLen < mountPath.length then
      v.findMountLoop path k (i + 1) (some i) mountPath.length
    else v.findMountLoop path k (i + 1) bestIdx bestLen

def findMount (path : List UInt8) : Option Nat := v.findMountLoop path vfsMaxMounts 0 none 0

def slotFs (mountIdx : Nat) : FsType × Option F :=
  if mountIdx < vfsMaxMounts ∧ (v.mounts mountIdx).used then
    ((v.mounts mountIdx).fsType, (v.mounts mountIdx).fs)
  else (.unknown, none)

section

variable (path : List UInt8) (fsName : String)

def resolveMountFs : Option (Nat × FsType × Option F) :=
  match v.findMount path with
  | none => none
  | some mountIdx =>
    let (fsType, fs) := v.slotFs mountIdx
    if fsType = .unknown ∧ fs.isNone then none else some (mountIdx, fsType, fs)

def mountedAt : Option Nat :=
  firstFrom (fun i => (v.mounts i).used && (v.mounts i).getPath == path) vfsMaxMounts 0

def mountSlot : Except KernelError Nat :=
  if (v.mountedAt path).isSome then .error .alreadyExists
  else match firstFrom (fun i => !(v.mounts i).used) vfsMaxMounts 0 with
    | some i => .ok i
    | none => .error .noSpace

/-- The two mount calls; they differ in what they do with the object of the slot. -/
def mountInto (setObject : VfsMount F → VfsMount F) : VfsManager F × Except KernelError Unit :=
  match v.mountSlot path with
  | .error e => (v, .error e)
  | .ok i =>
    (v.setMount i { setObject (((v.mounts i).setPath path).setFsType fsName) with used := true }, .ok ())

def mount : VfsManager F × Except KernelError Unit :=
  v.mountInto path fsName id

def mountWithFs (fs : F) : VfsManager F × Except KernelError Unit :=
  v.mountInto path fsName fun m => m.setFs fs

def unmount : VfsManager F × Except KernelError Unit :=
  match v.mountedAt path with
  | none => (v, .error .fileNotFound)
  | some i => (v.setMount i { v.mounts i with used := false }, .ok ())

end

variable {v : VfsManager F} {path : List UInt8} {i : Nat}

def Above (v : VfsManager F) (path : List UInt8) (i : Nat) : Prop :=
  (v.mounts i).used = true ∧ covers (v.mounts i).getPath path = true

structure Scanned (v : VfsManager F) (path : List UInt8) (i : Nat) (bestIdx : Option Nat) (bestLen : Nat) : Prop where
  best : ∀ j, bestIdx = some j → j < i ∧ v.Above path j ∧ bestLen = (v.mounts j).getPath.length
  longest : ∀ j, j < i → v.Above path j → (v.mounts j).getPath.length ≤ bestLen

theorem findMountLoop_spec {k bestLen : Nat} {bestIdx : Option Nat} (h : v.Scanned path i bestIdx bestLen) :
    ∃ len, v.Scanned path (i + k) (v.findMountLoop path k i bestIdx bestLen) len := by
  induction k generalizing i bestIdx bestLen with
  | zero => exact ⟨bestLen, h⟩
  | succ k ih =>
    have hsplit : ∀ j, j < i + 1 → j < i ∨ j = i := fun j hj => by omega
    rw [findMountLoop, show i + (k + 1) = i + 1 + k by omega]
    split_ifs with htest
    · simp only [Bool.and_eq_true, decide_eq_true_eq] at htest
      refine ih ⟨fun j hj => ?_, fun j hj habove => ?_⟩
      · obtain rfl := some.inj hj
        exact ⟨Nat.lt_succ_self i, htest.1, rfl⟩
      · rcases hsplit j hj with hlt | rfl
        · exact Nat.le_trans (h.longest j hlt habove) (Nat.le_of_lt htest.2)
        · exact le_rfl
    · simp only [Bool.and_eq_true, decide_eq_true_eq, not_and, Nat.not_lt] at htest
      refine ih ⟨fun j hj => ?_, fun j hj habove => ?_⟩
      · obtain ⟨hlt, hrest⟩ := h.best j hj
        exact ⟨by omega, hrest⟩
      · rcases hsplit j hj with hlt | rfl
        · exact h.longest j hlt habove
        · exact htest habove

theorem findMount_some (h : v.findMount path = some i) : i < vfsMaxMounts ∧ v.Above path i ∧
      ∀ j, j < vfsMaxMounts → v.Above path j → (v.mounts j).getPath.length ≤ (v.mounts i).getPath.length := by
  have hstart : v.Scanned path 0 none 0 := ⟨by simp, by simp⟩
  obtain ⟨len, hspec⟩ := findMountLoop_spec (k := vfsMaxMounts) hstart
  obtain ⟨hlt, habove, hlen⟩ := hspec.best i h
  exact ⟨hlt, habove, fun j hj hj' => hlen ▸ hspec.longest j hj hj'⟩

theorem resolveMountFs_some {fsType : FsType} {fs : Option F} : v.resolveMountFs path = some (i, fsType, fs) ↔
      v.findMount path = some i ∧ (v.mounts i).fsType = fsType ∧ (v.mounts i).fs = fs ∧
        ¬ (fsType = .unknown ∧ fs = none) := by
  rw [resolveMountFs]
  cases hf : v.findMount path with
  | none => simp
  | some j =>
    obtain ⟨hj, habove, -⟩ := findMount_some hf
    have hslot : v.slotFs j = ((v.mounts j).fsType, (v.mounts j).fs) := if_pos ⟨hj, habove.1⟩
    simp only [hslot]
    split_ifs with hnone
    · simp only [isNone_iff_eq_none] at hnone
      constructor
      · intro h
        cases h
      · rintro ⟨hij, rfl, rfl, hsome⟩
        obtain rfl := some.inj hij
        exact absurd hnone hsome
    · simp only [isNone_iff_eq_none] at hnone
      constructor
      · intro h
        cases h
        exact ⟨rfl, rfl, rfl, hnone⟩
      · rintro ⟨hij, rfl, rfl, -⟩
        obtain rfl := some.inj hij
        rfl

end VfsManager

inductive MountCall (F : Type*) where
  | mount (path : List UInt8) (fsName : String)
  | mountWithFs (path : List UInt8) (fsName : String) (fs : F)
  | unmount (path : List UInt8)

/-- The manager, and for every slot in use what the call that mounted it supplied. -/
structure MountTable (F : Type*) where
  manager : VfsManager F
  supplied : Nat → Option (FsType × Option F)

namespace MountTable

def new : MountTable F := ⟨.new, fun _ => none⟩

def record (t : MountTable F) (slot : Except KernelError Nat) (entry : FsType × Option F) :
    Nat → Option (FsType × Option F) :=
  match slot with
  | .error _ => t.supplied
  | .ok i => update t.supplied i (some entry)

def step (t : MountTable F) : MountCall F → MountTable F
  | .mount path fsName =>
    ⟨(t.manager.mount path fsName).1, t.record (t.manager.mountSlot path) (.fromName fsName, none)⟩
  | .mountWithFs path fsName fs =>
    ⟨(t.manager.mountWithFs path fsName fs).1, t.record (t.manager.mountSlot path) (.fromName fsName, some fs)⟩
  | .unmount path =>
    ⟨(t.manager.unmount path).1,
      match t.manager.mountedAt path with
      | some i => update t.supplied i none
      | none => t.supplied⟩

/-- A `mount` without an object takes no slot in which an earlier mount left one. -/
def FreshSlot (t : MountTable F) : MountCall F → Prop
  | .mount path _ => ∀ i, t.manager.mountSlot path = .ok i → (t.manager.mounts i).fs = none
  | .mountWithFs .. => True
  | .unmount _ => True

def Own (t : MountTable F) : Prop :=
  ∀ i, (t.manager.mounts i).used = true →
    t.supplied i = some ((t.manager.mounts i).fsType, (t.manager.mounts i).fs)

variable {t : MountTable F} {i : Nat}

theorem Own.update (h : t.Own) {m : VfsMount F} {entry : Option (FsType × Option F)}
    (hm : m.used = true → entry = some (m.fsType, m.fs)) :
    Own ⟨t.manager.setMount i m, Function.update t.supplied i entry⟩ := by
  intro j
  show (Function.update t.manager.mounts i m j).used = true → Function.update t.supplied i entry j =
    some ((Function.update t.manager.mounts i m j).fsType, (Function.update t.manager.mounts i m j).fs)
  by_cases hj : j = i
  · subst hj
    rw [update_self, update_self]
    exact hm
  · rw [update_of_ne hj, update_of_ne hj]
    exact h j

theorem Own.mountInto (h : t.Own) {path : List UInt8} {fsName : String} {setObject : VfsMount F → VfsMount F}
    {fs : Option F} (htype : ∀ m, (setObject m).fsType = m.fsType)
    (hfs : ∀ i, t.manager.mountSlot path = .ok i →
      (setObject (((t.manager.mounts i).setPath path).setFsType fsName)).fs = fs) :
    Own ⟨(t.manager.mountInto path fsName setObject).1,
      t.record (t.manager.mountSlot path) (.fromName fsName, fs)⟩ := by
  rw [VfsManager.mountInto]
  cases hslot : t.manager.mountSlot path with
  | error e => exact h
  | ok i =>
    refine h.update fun _ => ?_
    rw [htype, hfs i hslot]
    rfl

theorem Own.step (h : t.Own) {c : MountCall F} (hc : t.FreshSlot c) : (t.step c).Own := by
  cases c with
  | mount path fsName => exact h.mountInto (fun _ => rfl) hc
  | mountWithFs path fsName fs => exact h.mountInto (fun _ => rfl) fun _ _ => rfl
  | unmount path =>
    rw [MountTable.step, VfsManager.unmount]
    cases t.manager.mountedAt path with
    | none => exact h
    | some i => exact h.update fun hused => by cases hused

/-- In every run whose `mount` calls take slots without an object left in them, a path resolves to the
type and the object of the call that made the mount it selects, and to nothing only if that call
supplied neither. -/
theorem resolve_supplied {calls : List (MountCall F)} (hok : Guarded step FreshSlot new calls)
    (path : List UInt8) (i : Nat) (fsType : FsType) (fs : Option F) :
    (run step new calls).manager.resolveMountFs path = some (i, fsType, fs) ↔
      (run step new calls).manager.findMount path = some i ∧
        (run step new calls).supplied i = some (fsType, fs) ∧ ¬ (fsType = .unknown ∧ fs = none) := by
  have hown : (run step new calls).Own := hok.run_invariant (fun _ hused => nomatch hused) fun _ _ h hc => h.step hc
  rw [VfsManager.resolveMountFs_some]
  constructor
  · rintro ⟨hf, rfl, rfl, hsome⟩
    exact ⟨hf, hown i (VfsManager.findMount_some hf).2.1.1, hsome⟩
  · rintro ⟨hf, hsupplied, hsome⟩
    rw [hown i (VfsManager.findMount_some hf).2.1.1] at hsupplied
    obtain ⟨rfl, rfl⟩ := Prod.mk.inj (some.inj hsupplied)
    exact ⟨hf, rfl, rfl, hsome⟩

def remounting : List (MountCall Nat) :=
  [.mount [0x2F] "ramfs", .unmount [0x2F], .mountWithFs [0x2F] "hvfs" 8]

theorem remounting_resolves :
    (run step new remounting).manager.resolveMountFs [0x2F] = some (0, .hvFs, some 8) ↔
      (run step new remounting).manager.findMount [0x2F] = some 0 ∧
        (run step new remounting).supplied 0 = some (.hvFs, some 8) ∧
        ¬ (FsType.hvFs = .unknown ∧ (some 8 : Option Nat) = none) :=
  have hok : Guarded step FreshSlot new remounting := ⟨fun _ _ => rfl, trivial, trivial, trivial⟩
  resolve_supplied hok [0x2F] 0 .hvFs (some 8)

/-- A mount without an object resolves to the object of the mount that had the slot before. -/
theorem stale_object_resolved : ¬ ∀ (calls : List (MountCall Nat)) path i fsType fs,
      (run step new calls).manager.resolveMountFs path = some (i, fsType, fs) →
        (run step new calls).supplied i = some (fsType, fs) := by
  intro hall
  have hresolve : (run step new [.mountWithFs [0x2F] "ramfs" 7, .unmount [0x2F], .mount [0x2F] "devfs"]
      : MountTable Nat).manager.resolveMountFs [0x2F] = some (0, .devFs, some 7) := by decide +kernel
  have hsupplied := hall _ _ _ _ _ hresolve
  exact absurd hsupplied (by decide +kernel)

end MountTable

end AntX.Vfs
