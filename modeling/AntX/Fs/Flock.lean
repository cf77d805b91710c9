import AntX.Lib.Run
import AntX.Lib.Slots

/-! Whole-file locks of services/fs/flock.rs, with the exclusion that its calls maintain. -/

namespace AntX.Fs

open AntX.Lib Slots

def flockTableSize : Nat := 64

inductive LockType where
  | sh
  | ex
  deriving DecidableEq, Repr

structure FlockEntry where
  ino : UInt32
  ownerPid : UInt32
  ownerFd : Int32
  lockType : LockType
  count : Nat
  deriving DecidableEq, Repr

/-- A slot without entry is one whose `valid` flag is off; such slots hold the default entry. -/
abbrev FlockTable := Counted flockTableSize FlockEntry

inductive FlockResult where
  | ok
  | wouldBlock
  | invalid
  | noSpace
  | notHeld
  deriving DecidableEq, Repr

namespace FlockTable

variable (t : FlockTable)

def findConflictShared (ino excludePid : UInt32) : Option UInt32 :=
  (t.entries.find? fun e =>
    e.ino == ino && e.ownerPid != excludePid && e.lockType == .ex).map fun r => r.2.ownerPid

def findConflictExclusive (ino excludePid : UInt32) : Option UInt32 :=
  (t.entries.find? fun e => e.ino == ino && e.ownerPid != excludePid).map fun r => r.2.ownerPid

def conflict (ino pid : UInt32) : LockType → Option UInt32
  | .sh => t.findConflictShared ino pid
  | .ex => t.findConflictExclusive ino pid

def findEntry (ino pid : UInt32) (fd : Int32) : Option (Fin flockTableSize × FlockEntry) :=
  t.entries.find? fun e => e.ino == ino && e.ownerPid == pid && e.ownerFd == fd

def findFree : Option (Fin flockTableSize) := t.entries.free?

def sharedCount (ino excludePid : UInt32) : Nat :=
  t.entries.count fun e => e.ino == ino && e.ownerPid != excludePid && e.lockType == .sh

end FlockTable

variable (t : FlockTable)

def flockLock (fd : Int32) (pid ino : UInt32) (lockType : LockType)
    (nonblock : Bool) : FlockResult × FlockTable :=
  match t.findEntry ino pid fd with
  | some (idx, e) =>
    if e.lockType = lockType then
      (.ok, t.replace idx { e with count := min (e.count + 1) (2 ^ 32 - 1) })
    else if e.lockType = .sh ∧ lockType = .ex then
      if 0 < t.sharedCount ino pid then
        (if nonblock then .wouldBlock else .wouldBlock, t)
      else (.ok, t.replace idx { e with lockType := .ex })
    else if e.lockType = .ex ∧ lockType = .sh then
      (.ok, t.replace idx { e with lockType := .sh })
    else (.ok, t)
  | none =>
    match t.conflict ino pid lockType with
    | some _ => (if nonblock then .wouldBlock else .wouldBlock, t)
    | none =>
      match t.findFree with
      | none => (.noSpace, t)
      | some idx => (.ok, t.insert idx ⟨ino, pid, fd, lockType, 1⟩)

def flockUnlock (fd : Int32) (pid ino : UInt32) : FlockResult × FlockTable :=
  match t.findEntry ino pid fd with
  | none => (.notHeld, t)
  | some (idx, e) =>
    if 1 < e.count then (.ok, t.replace idx { e with count := e.count - 1 })
    else (.ok, t.remove idx)

def lockSh : BitVec 32 := 1
def lockEx : BitVec 32 := 2
def lockNb : BitVec 32 := 4
def lockUn : BitVec 32 := 8

def sysFlock (fd : Int32) (operation : BitVec 32) (pid ino : UInt32) : FlockResult × FlockTable :=
  if ino = 0 then (.invalid, t)
  else
    let nonblock := operation &&& lockNb != 0
    let op := operation &&& ~~~lockNb
    if op = lockSh then flockLock t fd pid ino .sh nonblock
    else if op = lockEx then flockLock t fd pid ino .ex nonblock
    else if op = lockUn then flockUnlock t fd pid ino
    else (.invalid, t)

def flockReleaseFd (pid : UInt32) (fd : Int32) : FlockTable :=
  t.clear fun e => e.ownerPid == pid && e.ownerFd == fd

def flockReleasePid (pid : UInt32) : FlockTable :=
  t.clear fun e => e.ownerPid == pid

inductive FlockCall where
  | sysFlock (fd : Int32) (operation : BitVec 32) (pid ino : UInt32)
  | releaseFd (pid : UInt32) (fd : Int32)
  | releasePid (pid : UInt32)

def flockStep : FlockCall → FlockTable
  | .sysFlock fd operation pid ino => (sysFlock t fd operation pid ino).2
  | .releaseFd pid fd => flockReleaseFd t pid fd
  | .releasePid pid => flockReleasePid t pid

namespace FlockEntry

def key (e : FlockEntry) : UInt32 × UInt32 × Int32 := (e.ino, e.ownerPid, e.ownerFd)

def Compatible (a b : FlockEntry) : Prop :=
  a.ino = b.ino → a.ownerPid ≠ b.ownerPid → a.lockType = .sh ∧ b.lockType = .sh

def Apart (a b : FlockEntry) : Prop := a.key ≠ b.key ∧ a.Compatible b

theorem Apart.symm (a b : FlockEntry) (h : a.Apart b) : b.Apart a :=
  ⟨h.1.symm, fun hino hpid => (h.2 hino.symm hpid.symm).symm⟩

end FlockEntry

open FlockEntry (Apart)

namespace FlockTable

structure Sound (t : FlockTable) : Prop where
  apart : Slots.Mutual Apart t.entries
  exact : t.Exact

variable {t : FlockTable} {idx : Fin flockTableSize} {e x : FlockEntry}

theorem Sound.empty : Sound Counted.empty := ⟨Slots.Mutual.empty, Counted.Exact.empty⟩

theorem Sound.insert (h : t.Sound) (hi : t.entries idx = none)
    (hx : ∀ j, j ≠ idx → ∀ b, t.entries j = some b → b.Apart x) : Sound (t.insert idx x) :=
  ⟨h.apart.set Apart.symm hx, h.exact.insert (by decide) hi⟩

theorem Sound.replace (h : t.Sound) (hi : t.entries idx = some e) (hkey : x.key = e.key)
    (hx : ∀ b, t.entries.Has b → b.Compatible e → b.Compatible x) : Sound (t.replace idx x) := by
  refine ⟨h.apart.set Apart.symm ?_, h.exact.replace hi⟩
  intro j hj b hb
  obtain ⟨hne, hcomp⟩ := h.apart j idx b e hj hb hi
  rw [← hkey] at hne
  exact ⟨hne, hx b ⟨j, hb⟩ hcomp⟩

theorem Sound.remove (h : t.Sound) (hi : t.entries idx = some e) : Sound (t.remove idx) :=
  ⟨h.apart.remove, h.exact.remove (by decide) hi⟩

theorem Sound.clear (h : t.Sound) (p : FlockEntry → Bool) : Sound (t.clear p) :=
  ⟨h.apart.clear, h.exact.clear (by decide)⟩

end FlockTable

open FlockTable

variable {t : FlockTable}

variable {ino pid : UInt32} {fd : Int32} {e b : FlockEntry}

theorem findEntry_some {idx : Fin flockTableSize} (h : t.findEntry ino pid fd = some (idx, e)) :
    t.entries idx = some e ∧ e.ino = ino ∧ e.ownerPid = pid := by
  obtain ⟨hi, hp⟩ := find?_some h
  simp only [Bool.and_eq_true, beq_iff_eq] at hp
  exact ⟨hi, hp.1.1, hp.1.2⟩

/-- With no other shared holder there is no other holder at all: an exclusive one would not be
compatible with the entry that is upgraded. -/
theorem upgrade_compatible (hino : e.ino = ino) (hpid : e.ownerPid = pid)
    (hshared : ¬ 0 < t.sharedCount ino pid) (hb : t.entries.Has b) (hbe : b.Compatible e) :
    b.Compatible { e with lockType := .ex } := by
  intro hbi hbp
  have hsh := (hbe hbi hbp).1
  refine absurd (count_pos hb ?_) hshared
  have hbi' : b.ino = e.ino := hbi
  have hbp' : b.ownerPid ≠ e.ownerPid := hbp
  rw [hino] at hbi'
  rw [hpid] at hbp'
  simp [hbi', hbp', hsh]

theorem downgrade_compatible (hex : e.lockType = .ex) (hbe : b.Compatible e) :
    b.Compatible { e with lockType := .sh } := by
  intro hbi hbp
  have hsh := (hbe hbi hbp).2
  rw [hex] at hsh
  cases hsh

theorem new_compatible {ty : LockType} (hb : t.entries.Has b)
    (hconf : t.conflict ino pid ty = none) : b.Compatible ⟨ino, pid, fd, ty, 1⟩ := by
  intro hbi hbp
  have hbi' : b.ino = ino := hbi
  have hbp' : b.ownerPid ≠ pid := hbp
  cases ty with
  | sh =>
    have hp := find?_none (Option.map_eq_none_iff.mp hconf) hb
    cases hty : b.lockType with
    | sh => exact ⟨rfl, rfl⟩
    | ex => simp [hbi', hbp', hty] at hp
  | ex =>
    have hp := find?_none (Option.map_eq_none_iff.mp hconf) hb
    simp [hbi', hbp'] at hp

theorem flockLock_sound (h : t.Sound) (fd : Int32) (pid ino : UInt32) (ty : LockType)
    (nonblock : Bool) : Sound (flockLock t fd pid ino ty nonblock).2 := by
  rw [flockLock]
  cases hfind : t.findEntry ino pid fd with
  | some r =>
    obtain ⟨hi, hino, hpid⟩ := findEntry_some hfind
    dsimp only
    split_ifs with hsame hup hshared _ hdown
    · exact h.replace hi rfl fun _ _ hbe => hbe
    · exact h
    · exact h
    · exact h.replace hi rfl fun _ hb => upgrade_compatible hino hpid hshared hb
    · exact h.replace hi rfl fun _ _ => downgrade_compatible hdown.1
    · exact h
  | none =>
    dsimp only
    cases hconf : t.conflict ino pid ty with
    | some _ => exact h
    | none =>
      cases hfree : t.findFree with
      | none => exact h
      | some idx =>
        apply h.insert (free?_some hfree)
        intro j _ b hb
        constructor
        · intro hk
          have hp := find?_none hfind ⟨j, hb⟩
          simp only [FlockEntry.key, Prod.mk.injEq] at hk
          simp [hk] at hp
        · exact new_compatible ⟨j, hb⟩ hconf

theorem flockUnlock_sound (h : t.Sound) (fd : Int32) (pid ino : UInt32) :
    Sound (flockUnlock t fd pid ino).2 := by
  rw [flockUnlock]
  cases hfind : t.findEntry ino pid fd with
  | none => exact h
  | some r =>
    have hi := (findEntry_some hfind).1
    dsimp only
    split_ifs
    · exact h.replace hi rfl fun _ _ hbe => hbe
    · exact h.remove hi

theorem flockStep_sound (h : t.Sound) (c : FlockCall) : Sound (flockStep t c) := by
  cases c with
  | sysFlock fd operation pid ino =>
    rw [flockStep, sysFlock]
    dsimp only
    split_ifs
    · exact h
    · exact flockLock_sound h fd pid ino .sh _
    · exact flockLock_sound h fd pid ino .ex _
    · exact flockUnlock_sound h fd pid ino
    · exact h
  | releaseFd pid fd | releasePid pid => exact h.clear _

/-- In every table that calls can reach, an exclusive holder is alone on its inode, each
`(ino, pid, fd)` has one entry and the counter is the number of entries. -/
theorem flock_mutual_exclusion (cs : List FlockCall) : let t := run flockStep Counted.empty cs
    (∀ a b, t.entries.Has a → t.entries.Has b → a.ino = b.ino → a.lockType = .ex → a.ownerPid = b.ownerPid) ∧
    (∀ i j a b, t.entries i = some a → t.entries j = some b → a.ino = b.ino →
      a.ownerPid = b.ownerPid → a.ownerFd = b.ownerFd → i = j) ∧
    t.count = t.entries.occupied := by
  intro t
  have h : Sound t := run_invariant (P := Sound) (fun _ c h => flockStep_sound h c) .empty cs
  refine ⟨?_, ?_, h.exact⟩
  · intro a b ⟨i, hi⟩ ⟨j, hj⟩ hino hex
    by_contra hpid
    have hij : i ≠ j := by
      intro hij
      rw [hij, hj] at hi
      cases hi
      exact hpid rfl
    have hsh := ((h.apart i j a b hij hi hj).2 hino hpid).1
    rw [hex] at hsh
    cases hsh
  · intro i j a b hi hj hino hpid hfd
    by_contra hij
    apply (h.apart i j a b hij hi hj).1
    simp [FlockEntry.key, hino, hpid, hfd]

end AntX.Fs
