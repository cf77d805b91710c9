import AntX.Lib.Run
import AntX.Lib.Slots

/-! Byte-range locks of services/fs/flock.rs: ranges with saturating ends, and what a successful
`F_SETLK` does to each byte of the file. -/

namespace AntX.Fs

open AntX.Lib Slots

def posixLockTableSize : Nat := 64

def fRdlck : BitVec 32 := 0
def fWrlck : BitVec 32 := 1
def fUnlck : BitVec 32 := 2
def fGetlk : BitVec 32 := 5
def fSetlk : BitVec 32 := 6
def fSetlkw : BitVec 32 := 7

def u64Max : Nat := 2 ^ 64 - 1

structure PosixLockEntry where
  ino : UInt32
  ownerPid : UInt32
  start : UInt64
  len : UInt64
  lockType : BitVec 32
  deriving DecidableEq, Repr

abbrev PosixLockTable := Counted posixLockTableSize PosixLockEntry

inductive PosixLockResult where
  | wouldBlock
  | invalid
  | noSpace
  deriving DecidableEq, Repr

structure PosixLockConflict where
  pid : UInt32
  lockType : BitVec 32
  start : UInt64
  len : UInt64
  deriving DecidableEq, Repr

abbrev PosixLockReply := Except PosixLockResult (Option PosixLockConflict)

def rangeEnd (start len : UInt64) : Nat :=
  if len = 0 then u64Max else min (start.toNat + len.toNat) u64Max

def rangesOverlap (aStart aLen bStart bLen : UInt64) : Bool :=
  aStart.toNat < rangeEnd bStart bLen && bStart.toNat < rangeEnd aStart aLen

namespace PosixLockEntry

def conflicts (pid ino : UInt32) (start len : UInt64) (lockType : BitVec 32) (e : PosixLockEntry) : Bool :=
  e.ino == ino && e.ownerPid != pid && rangesOverlap start len e.start e.len &&
    !(lockType == fRdlck && e.lockType == fRdlck)

def ownOverlapping (pid ino : UInt32) (start len : UInt64) (e : PosixLockEntry) : Bool :=
  e.ino == ino && e.ownerPid == pid && rangesOverlap start len e.start e.len

end PosixLockEntry

open PosixLockEntry

namespace PosixLockTable

section

variable (t : PosixLockTable) (ino pid : UInt32) (start len : UInt64)

def findConflict (lockType : BitVec 32) : Option (UInt32 × BitVec 32) :=
  (t.entries.find? (conflicts pid ino start len lockType)).map fun r =>
    (r.2.ownerPid, r.2.lockType)

def findOverlapping : Option (Fin posixLockTableSize × PosixLockEntry) :=
  t.entries.find? (ownOverlapping pid ino start len)

def findFree : Option (Fin posixLockTableSize) := t.entries.free?

end

end PosixLockTable

variable (t : PosixLockTable)

-- The second search does not look at the inode, so the reported range may be one of another file.
def posixGetlk (pid ino : UInt32) (lockType : BitVec 32) (start len : UInt64) : PosixLockReply :=
  if lockType = fUnlck then .ok none
  else
    match t.findConflict ino pid start len lockType with
    | none => .ok none
    | some (conflictPid, conflictType) =>
      match t.entries.find? fun e =>
          e.ownerPid == conflictPid && rangesOverlap start len e.start e.len with
      | some (_, e) => .ok (some ⟨conflictPid, conflictType, e.start, e.len⟩)
      | none => .ok (some ⟨conflictPid, conflictType, 0, 0⟩)

def posixSetlk (pid ino : UInt32) (lockType : BitVec 32)
    (start len : UInt64) (_wait : Bool) : PosixLockReply × PosixLockTable :=
  if lockType = fUnlck then (.ok none, t.clear (ownOverlapping pid ino start len))
  else if lockType = fRdlck ∨ lockType = fWrlck then
    match t.findConflict ino pid start len lockType with
    | some (conflictPid, conflictType) => (.ok (some ⟨conflictPid, conflictType, 0, 0⟩), t)
    | none =>
      match t.findOverlapping ino pid start len with
      | some (idx, e) =>
        (.ok none, t.replace idx { e with lockType := lockType, start := start, len := len })
      | none =>
        match t.findFree with
        | none => (.error .noSpace, t)
        | some idx => (.ok none, t.insert idx ⟨ino, pid, start, len, lockType⟩)
  else (.error .invalid, t)

def sysPosixLock (pid ino : UInt32) (cmd lockType : BitVec 32)
    (start len : UInt64) : PosixLockReply × PosixLockTable :=
  if ino = 0 then (.error .invalid, t)
  else if cmd = fGetlk then (posixGetlk t pid ino lockType start len, t)
  else if cmd = fSetlk ∨ cmd = fSetlkw then
    posixSetlk t pid ino lockType start len (cmd == fSetlkw)
  else (.error .invalid, t)

def posixLockReleasePid (pid : UInt32) : PosixLockTable :=
  t.clear fun e => e.ownerPid == pid

def posixLockReleaseInode (ino : UInt32) : PosixLockTable :=
  t.clear fun e => e.ino == ino

inductive PosixLockCall where
  | sysPosixLock (pid ino : UInt32) (cmd lockType : BitVec 32) (start len : UInt64)
  | releasePid (pid : UInt32)
  | releaseInode (ino : UInt32)

def posixLockStep : PosixLockCall → PosixLockTable
  | .sysPosixLock pid ino cmd lockType start len =>
    (sysPosixLock t pid ino cmd lockType start len).2
  | .releasePid pid => posixLockReleasePid t pid
  | .releaseInode ino => posixLockReleaseInode t ino

/-- The byte lies in the range; length zero reaches to the end of the file. -/
def Covers (start len : UInt64) (b : Nat) : Prop :=
  start.toNat ≤ b ∧ (len = 0 ∨ b < start.toNat + len.toNat)

variable {start len : UInt64} {t : PosixLockTable} {pid ino : UInt32}

theorem covers_iff {b : Nat} (hb : b < u64Max) :
    Covers start len b ↔ start.toNat ≤ b ∧ b < rangeEnd start len := by
  rw [Covers, rangeEnd]
  by_cases hlen : len = 0
  · simp [hlen, hb]
  · simp only [hlen, false_or, if_false]
    omega

theorem start_lt_rangeEnd (h : start.toNat < u64Max) : start.toNat < rangeEnd start len := by
  rw [rangeEnd]
  split_ifs with hlen
  · exact h
  · have hpos : len.toNat ≠ 0 := fun h0 => hlen (UInt64.toNat_inj.mp h0)
    omega

theorem rangeEnd_le (start len : UInt64) : rangeEnd start len ≤ u64Max := by
  rw [rangeEnd]
  split_ifs <;> omega

theorem rangesOverlap_iff {aStart aLen bStart bLen : UInt64} : rangesOverlap aStart aLen bStart bLen = true ↔
      ∃ b, b < u64Max ∧ Covers aStart aLen b ∧ Covers bStart bLen b := by
  have ha := rangeEnd_le aStart aLen
  have hb := rangeEnd_le bStart bLen
  rw [rangesOverlap, Bool.and_eq_true, decide_eq_true_eq, decide_eq_true_eq]
  constructor
  · intro ⟨hab, hba⟩
    have haa : aStart.toNat < rangeEnd aStart aLen := start_lt_rangeEnd (Nat.lt_of_lt_of_le hab hb)
    have hbb : bStart.toNat < rangeEnd bStart bLen := start_lt_rangeEnd (Nat.lt_of_lt_of_le hba ha)
    have hmax : max aStart.toNat bStart.toNat < u64Max := by omega
    refine ⟨max aStart.toNat bStart.toNat, hmax, (covers_iff hmax).mpr ?_, (covers_iff hmax).mpr ?_⟩
    · omega
    · omega
  · rintro ⟨b, hlt, hca, hcb⟩
    rw [covers_iff hlt] at hca hcb
    omega

theorem posixSetlk_cases (t : PosixLockTable) (pid ino : UInt32) (ty : BitVec 32)
    (start len : UInt64) (wait : Bool) :
    (ty = fUnlck ∧ posixSetlk t pid ino ty start len wait =
      (.ok none, t.clear (ownOverlapping pid ino start len))) ∨
    ((posixSetlk t pid ino ty start len wait).1 ≠ .ok none ∧ (posixSetlk t pid ino ty start len wait).2 = t) ∨
    (ty ≠ fUnlck ∧ t.findConflict ino pid start len ty = none ∧
      ((∃ idx e, t.findOverlapping ino pid start len = some (idx, e) ∧
        posixSetlk t pid ino ty start len wait =
          (.ok none, t.replace idx { e with lockType := ty, start := start, len := len })) ∨
      (t.findOverlapping ino pid start len = none ∧ ∃ idx, t.findFree = some idx ∧
        posixSetlk t pid ino ty start len wait = (.ok none, t.insert idx ⟨ino, pid, start, len, ty⟩)))) := by
  rw [posixSetlk]
  by_cases hun : ty = fUnlck
  · exact .inl ⟨hun, if_pos hun⟩
  rw [if_neg hun]
  by_cases hty : ty = fRdlck ∨ ty = fWrlck
  · rw [if_pos hty]
    cases hconf : t.findConflict ino pid start len ty with
    | some c => exact .inr (.inl ⟨by simp, rfl⟩)
    | none =>
      cases hown : t.findOverlapping ino pid start len with
      | some r => exact .inr (.inr ⟨hun, rfl, .inl ⟨r.1, r.2, rfl, rfl⟩⟩)
      | none =>
        cases hfree : t.findFree with
        | none => exact .inr (.inl ⟨by simp, rfl⟩)
        | some idx => exact .inr (.inr ⟨hun, rfl, .inr ⟨rfl, idx, rfl, rfl⟩⟩)
  · rw [if_neg hty]
    exact .inr (.inl ⟨by simp, rfl⟩)

theorem findOverlapping_some {idx : Fin posixLockTableSize} {e : PosixLockEntry}
    (h : t.findOverlapping ino pid start len = some (idx, e)) :
    t.entries idx = some e ∧ e.ino = ino ∧ e.ownerPid = pid := by
  obtain ⟨hi, hp⟩ := find?_some h
  simp only [ownOverlapping, Bool.and_eq_true, beq_iff_eq] at hp
  exact ⟨hi, hp.1.1, hp.1.2⟩

namespace PosixLockEntry

/-- Overlapping entries of different processes on one inode are both read locks. -/
def Compatible (a b : PosixLockEntry) : Prop :=
  a.ino = b.ino → a.ownerPid ≠ b.ownerPid → rangesOverlap a.start a.len b.start b.len = true →
    a.lockType = fRdlck ∧ b.lockType = fRdlck

theorem Compatible.symm (a b : PosixLockEntry) (h : a.Compatible b) : b.Compatible a := by
  intro hino hpid hmeet
  rw [rangesOverlap, Bool.and_comm, ← rangesOverlap] at hmeet
  exact (h hino.symm hpid.symm hmeet).symm

theorem Compatible.refl (a : PosixLockEntry) : a.Compatible a :=
  fun _ hpid => absurd rfl hpid

end PosixLockEntry

namespace PosixLockTable

structure Sound (t : PosixLockTable) : Prop where
  compatible : Slots.Mutual Compatible t.entries
  exact : t.Exact

theorem Sound.empty : Sound Counted.empty := ⟨Slots.Mutual.empty, Counted.Exact.empty⟩

theorem Sound.clear (h : t.Sound) (p : PosixLockEntry → Bool) : Sound (t.clear p) :=
  ⟨h.compatible.clear, h.exact.clear (by decide)⟩

theorem compatible_of_findConflict {ty : BitVec 32}
    (h : t.findConflict ino pid start len ty = none) {b : PosixLockEntry} (hb : t.entries.Has b) :
    b.Compatible ⟨ino, pid, start, len, ty⟩ := by
  apply Compatible.symm
  intro hino hpid hmeet
  have hp := find?_none (Option.map_eq_none_iff.mp h) hb
  have hino' : ino = b.ino := hino
  have hpid' : b.ownerPid ≠ pid := hpid.symm
  have hmeet' : rangesOverlap start len b.start b.len = true := hmeet
  simpa [conflicts, hino', hpid', hmeet'] using hp

end PosixLockTable

open PosixLockTable

theorem posixSetlk_sound (h : t.Sound) (pid ino : UInt32) (ty : BitVec 32) (start len : UInt64)
    (wait : Bool) : Sound (posixSetlk t pid ino ty start len wait).2 := by
  rcases posixSetlk_cases t pid ino ty start len wait with
    ⟨-, hr⟩ | ⟨-, hr⟩ | ⟨-, hconf, ⟨idx, e, hown, hr⟩ | ⟨-, idx, hfree, hr⟩⟩
  · rw [hr]
    exact h.clear _
  · rw [hr]
    exact h
  · rw [hr]
    obtain ⟨hi, rfl, rfl⟩ := findOverlapping_some hown
    refine ⟨h.compatible.set Compatible.symm ?_, h.exact.replace hi⟩
    intro j _ b hb
    exact compatible_of_findConflict hconf ⟨j, hb⟩
  · rw [hr]
    refine ⟨h.compatible.set Compatible.symm ?_, h.exact.insert (by decide) (free?_some hfree)⟩
    intro j _ b hb
    exact compatible_of_findConflict hconf ⟨j, hb⟩

theorem posixLockStep_sound (h : t.Sound) (c : PosixLockCall) : Sound (posixLockStep t c) := by
  cases c with
  | sysPosixLock pid ino cmd ty start len =>
    rw [posixLockStep, sysPosixLock]
    split_ifs
    · exact h
    · exact h
    · exact posixSetlk_sound h pid ino ty start len _
    · exact h
  | releasePid pid | releaseInode ino => exact h.clear _

/-- In every table that calls can reach, no byte is under a write lock of one process and any lock
of another one, and the counter is the number of entries. -/
theorem posixLock_exclusion (cs : List PosixLockCall) : let t := run posixLockStep Counted.empty cs
    (∀ a b, t.entries.Has a → t.entries.Has b → a.ino = b.ino → a.lockType = fWrlck →
      ∀ byte, byte < u64Max → Covers a.start a.len byte → Covers b.start b.len byte →
        a.ownerPid = b.ownerPid) ∧
    t.count = t.entries.occupied := by
  intro t
  have h : Sound t := run_invariant (P := Sound) (fun _ c h => posixLockStep_sound h c) .empty cs
  refine ⟨?_, h.exact⟩
  intro a b ha hb hino hwr byte hlt hca hcb
  by_contra hpid
  have hcomp := h.compatible.of_has Compatible.refl ha hb
  have hrd := (hcomp hino hpid (rangesOverlap_iff.mpr ⟨byte, hlt, hca, hcb⟩)).1
  rw [hwr] at hrd
  cases hrd

def Held (t : PosixLockTable) (ino pid : UInt32) (b : Nat) (ty : BitVec 32) : Prop :=
  ∃ i e, t.entries i = some e ∧ e.ino = ino ∧ e.ownerPid = pid ∧ e.lockType = ty ∧ Covers e.start e.len b

/-- Bytes outside the range keep their locks, bytes inside have just the requested one. -/
def ByteExact (t t' : PosixLockTable) (pid ino : UInt32) (req : BitVec 32) (start len : UInt64) :
    Prop :=
  ∀ b, b < u64Max → (¬ Covers start len b → ∀ p ty, Held t' ino p b ty ↔ Held t ino p b ty) ∧
    (Covers start len b → ∀ ty, Held t' ino pid b ty ↔ req ≠ fUnlck ∧ ty = req)

section

variable (t : PosixLockTable) (pid ino : UInt32) (req : BitVec 32) (start len : UInt64)

/-- Every byte of the entry outside the range is under another entry of the same process and type
that `keep` admits. -/
def SpareOutside (e : PosixLockEntry) (keep : Fin posixLockTableSize → PosixLockEntry → Prop) : Prop :=
  ∀ b, b < u64Max → ¬ Covers start len b → Covers e.start e.len b →
    ∃ j e', t.entries j = some e' ∧ keep j e' ∧ e'.ino = e.ino ∧ e'.ownerPid = e.ownerPid ∧
      e'.lockType = e.lockType ∧ Covers e'.start e'.len b

def UnlockFits : Prop :=
  ∀ i e, t.entries i = some e → ownOverlapping pid ino start len e = true →
    SpareOutside t start len e fun _ e' => ownOverlapping pid ino start len e' = false

/-- A lock that rewrites an entry needs a spare for it, and every other overlapping entry of the
process already has the requested type. -/
def LockFits : Prop :=
  ∀ idx e, t.findOverlapping ino pid start len = some (idx, e) →
    (∀ j e', j ≠ idx → t.entries j = some e' → ownOverlapping pid ino start len e' = true →
      e'.lockType = req) ∧
    SpareOutside t start len e fun j _ => j ≠ idx

def SetlkFits : Prop :=
  if req = fUnlck then UnlockFits t pid ino start len else LockFits t pid ino req start len

end

variable {req ty : BitVec 32} {e : PosixLockEntry} {q : UInt32} {b : Nat} {t' : PosixLockTable}
  {idx : Fin posixLockTableSize}

theorem ownOverlapping_iff : ownOverlapping pid ino start len e = true ↔ e.ino = ino ∧ e.ownerPid = pid ∧
      ∃ b, b < u64Max ∧ Covers start len b ∧ Covers e.start e.len b := by
  rw [ownOverlapping, Bool.and_eq_true, Bool.and_eq_true, beq_iff_eq, beq_iff_eq,
    rangesOverlap_iff, and_assoc]

def PosixLockEntry.Gives (e : PosixLockEntry) (ino pid : UInt32) (b : Nat) (ty : BitVec 32) : Prop :=
  e.ino = ino ∧ e.ownerPid = pid ∧ e.lockType = ty ∧ Covers e.start e.len b

theorem held_clear {p : PosixLockEntry → Bool} :
    Held (t.clear p) ino q b ty ↔ ∃ i e, t.entries i = some e ∧ p e = false ∧ e.Gives ino q b ty := by
  simp only [Held, Gives, Counted.clear, clear_eq_some, and_assoc]

theorem unlock_inside (hb : b < u64Max) (hin : Covers start len b) (ty : BitVec 32) :
    ¬ Held (t.clear (ownOverlapping pid ino start len)) ino pid b ty := by
  intro h
  obtain ⟨i, e, -, hp, hino, hpid, -, hc⟩ := held_clear.mp h
  rw [ownOverlapping_iff.mpr ⟨hino, hpid, b, hb, hin, hc⟩] at hp
  cases hp

theorem unlock_exact_iff : ByteExact t (t.clear (ownOverlapping pid ino start len)) pid ino fUnlck start len ↔
      UnlockFits t pid ino start len := by
  constructor
  · intro h i e hi hown b hb hout hc
    obtain ⟨rfl, rfl, -⟩ := ownOverlapping_iff.mp hown
    exact held_clear.mp (((h b hb).1 hout _ _).mpr ⟨i, e, hi, rfl, rfl, rfl, hc⟩)
  · intro h b hb
    constructor
    · intro hout q ty
      constructor
      · intro hheld
        obtain ⟨i, e, hi, -, hrest⟩ := held_clear.mp hheld
        exact ⟨i, e, hi, hrest⟩
      · rintro ⟨i, e, hi, rfl, rfl, rfl, hc⟩
        rw [held_clear]
        cases hown : ownOverlapping pid e.ino start len e with
        | false => exact ⟨i, e, hi, hown, rfl, rfl, rfl, hc⟩
        | true => exact h i e hi hown b hb hout hc
    · intro hin ty
      constructor
      · intro hheld
        exact absurd hheld (unlock_inside hb hin ty)
      · intro hreq
        exact absurd rfl hreq.1

theorem held_set {x : PosixLockEntry} (ht : t'.entries = t.entries.set idx (some x)) :
    Held t' ino q b ty ↔ x.Gives ino q b ty ∨ ∃ j e, t.entries j = some e ∧ j ≠ idx ∧ e.Gives ino q b ty := by
  constructor
  · rintro ⟨j, e, hj, hrest⟩
    rw [ht] at hj
    by_cases hji : j = idx
    · rw [hji, set_self] at hj
      cases hj
      exact .inl hrest
    · rw [set_of_ne hji] at hj
      exact .inr ⟨j, e, hj, hji, hrest⟩
  · rintro (hx | ⟨j, e, hj, hji, hrest⟩)
    · exact ⟨idx, x, by rw [ht, set_self], hx⟩
    · exact ⟨j, e, by rw [ht, set_of_ne hji, hj], hrest⟩

/-- The entry for the requested range, written into a slot, leaves the bytes exact when the other
slots agree inside the range and make up for the slot's old entry outside. -/
theorem lock_exact_iff (ht : t'.entries = t.entries.set idx (some ⟨ino, pid, start, len, req⟩))
    (hreq : req ≠ fUnlck) :
    ByteExact t t' pid ino req start len ↔
      (∀ j e, j ≠ idx → t.entries j = some e → ownOverlapping pid ino start len e = true → e.lockType = req) ∧
      (∀ e, t.entries idx = some e → e.ino = ino → SpareOutside t start len e fun j _ => j ≠ idx) := by
  constructor
  · intro h
    constructor
    · intro j e hj hje hown
      obtain ⟨hino, hpid, b, hb, hin, hc⟩ := ownOverlapping_iff.mp hown
      exact (((h b hb).2 hin e.lockType).mp ((held_set ht).mpr (.inr ⟨j, e, hje, hj, hino, hpid, rfl, hc⟩))).2
    · rintro e hi rfl b hb hout hc
      rcases (held_set ht).mp (((h b hb).1 hout _ _).mpr ⟨idx, e, hi, rfl, rfl, rfl, hc⟩) with
        ⟨-, -, -, hcov⟩ | hother
      · exact absurd hcov hout
      · exact hother
  · rintro ⟨hsame, hspare⟩ b hb
    constructor
    · intro hout q ty
      rw [held_set ht]
      constructor
      · rintro (⟨-, -, -, hcov⟩ | ⟨j, e, hje, -, hrest⟩)
        · exact absurd hcov hout
        · exact ⟨j, e, hje, hrest⟩
      · rintro ⟨j, e, hje, rfl, rfl, rfl, hc⟩
        right
        by_cases hj : j = idx
        · subst hj
          exact hspare e hje rfl b hb hout hc
        · exact ⟨j, e, hje, hj, rfl, rfl, rfl, hc⟩
    · intro hin ty
      rw [held_set ht]
      constructor
      · rintro (⟨-, -, hty, -⟩ | ⟨j, e, hje, hj, hino, hpid, hty, hc⟩)
        · exact ⟨hreq, hty.symm⟩
        · have hown := ownOverlapping_iff.mpr ⟨hino, hpid, b, hb, hin, hc⟩
          exact ⟨hreq, hty.symm.trans (hsame j e hj hje hown)⟩
      · rintro ⟨-, rfl⟩
        exact .inl ⟨rfl, rfl, rfl, hin⟩

theorem posixSetlk_exact_iff {wait : Bool} (h : posixSetlk t pid ino req start len wait = (.ok none, t')) :
    ByteExact t t' pid ino req start len ↔ SetlkFits t pid ino req start len := by
  rcases posixSetlk_cases t pid ino req start len wait with
    ⟨rfl, hr⟩ | ⟨hne, -⟩ | ⟨hun, -, ⟨idx, e, hown, hr⟩ | ⟨hown, idx, hfree, hr⟩⟩
  · cases hr.symm.trans h
    exact unlock_exact_iff
  · rw [h] at hne
    exact absurd rfl hne
  · cases hr.symm.trans h
    obtain ⟨hi, rfl, rfl⟩ := findOverlapping_some hown
    rw [SetlkFits, if_neg hun, lock_exact_iff rfl hun, LockFits]
    simp [hown, hi]
  · cases hr.symm.trans h
    rw [SetlkFits, if_neg hun, lock_exact_iff rfl hun, LockFits]
    constructor
    · intro _ i e he
      rw [hown] at he
      cases he
    · intro _
      constructor
      · intro j e _ hje hover
        have hfar := find?_none hown ⟨j, hje⟩
        rw [hover] at hfar
        cases hfar
      · intro e he
        rw [free?_some hfree] at he
        cases he

/-- A successful `F_SETLK` is exact on every byte just when each entry it drops or rewrites has
spares outside the range and no other overlapping entry of the process has another type. -/
theorem sysPosixLock_exact_iff (t t' : PosixLockTable) (pid ino : UInt32) (req : BitVec 32)
    (start len : UInt64) (h : sysPosixLock t pid ino fSetlk req start len = (.ok none, t')) :
    ByteExact t t' pid ino req start len ↔ SetlkFits t pid ino req start len := by
  rw [sysPosixLock] at h
  split_ifs at h with hino hget hset
  · cases h
  · cases hget
  · exact posixSetlk_exact_iff h
  · cases h

def tenLocked : PosixLockTable := (sysPosixLock Counted.empty 1 1 fSetlk fRdlck 0 10).2

theorem tenLocked_entry {i : Fin posixLockTableSize} (h : tenLocked.entries i = some e) :
    e = ⟨1, 1, 0, 10, fRdlck⟩ := by
  have hhas : tenLocked.entries.Has e := ⟨i, h⟩
  rcases has_update.mp hhas with he | ⟨j, -, hj⟩
  · exact he
  · cases hj

theorem sysPosixLock_exact_unlock_all :
    ByteExact tenLocked (tenLocked.clear (ownOverlapping 1 1 0 10)) 1 1 fUnlck 0 10 := by
  apply (sysPosixLock_exact_iff tenLocked _ 1 1 fUnlck 0 10 rfl).mpr
  intro i e he _ b _ hout hc
  rw [tenLocked_entry he] at hc
  exact absurd hc hout

/-- Unlocking the first five of the ten bytes also gives up the other five. -/
theorem sysPosixLock_drops_bytes :
    ¬ ∀ (t t' : PosixLockTable) (pid ino : UInt32) (req : BitVec 32) (start len : UInt64),
      sysPosixLock t pid ino fSetlk req start len = (.ok none, t') →
        ByteExact t t' pid ino req start len := by
  intro h
  have hexact := h tenLocked _ 1 1 fUnlck 0 5 rfl 7 (by decide)
  have hout : ¬ Covers 0 5 7 := by simp [Covers]
  have hheld : Held tenLocked 1 1 7 fRdlck :=
    ⟨⟨0, by decide⟩, ⟨1, 1, 0, 10, fRdlck⟩, rfl, rfl, rfl, rfl, by simp [Covers]⟩
  obtain ⟨i, e, he, hp, -⟩ := held_clear.mp ((hexact.1 hout 1 fRdlck).mpr hheld)
  rw [tenLocked_entry he] at hp
  revert hp
  decide

variable (t) (ask : PosixLockEntry)

def getlk : PosixLockReply := posixGetlk t ask.ownerPid ask.ino ask.lockType ask.start ask.len

def inWay : PosixLockEntry → Bool := conflicts ask.ownerPid ask.ino ask.start ask.len ask.lockType

def meets (pid : UInt32) (e : PosixLockEntry) : Bool :=
  e.ownerPid == pid && rangesOverlap ask.start ask.len e.start e.len

/-- Unlocking conflicts with nothing. -/
def Conflicting (e : PosixLockEntry) : Prop :=
  ask.lockType ≠ fUnlck ∧ t.entries.Has e ∧ inWay ask e = true

/-- A conflict is reported just when there is one, and the report is of an entry that conflicts. -/
def GetlkExact : Prop :=
  ((∃ c, getlk t ask = .ok (some c)) ↔ ∃ e, Conflicting t ask e) ∧
  ∀ c, getlk t ask = .ok (some c) → ∃ e, Conflicting t ask e ∧ c = ⟨e.ownerPid, e.lockType, e.start, e.len⟩

/-- Where `e` is the first entry in the way, the first entry of its process that meets the range, on
whatever inode, has the range of an entry in the way of this process and type. -/
def RangeOfConflict : Prop :=
  ∀ i e j e', t.entries.FirstAt (inWay ask) i e → t.entries.FirstAt (meets ask e.ownerPid) j e' →
    ∃ x, Conflicting t ask x ∧ x.ownerPid = e.ownerPid ∧ x.lockType = e.lockType ∧
      x.start = e'.start ∧ x.len = e'.len

variable {t ask}

theorem getlk_cases (hty : ask.lockType ≠ fUnlck) : (getlk t ask = .ok none ∧ ¬ ∃ e, Conflicting t ask e) ∨
    ∃ i e j e', t.entries.FirstAt (inWay ask) i e ∧ t.entries.FirstAt (meets ask e.ownerPid) j e' ∧
      getlk t ask = .ok (some ⟨e.ownerPid, e.lockType, e'.start, e'.len⟩) := by
  rw [getlk, posixGetlk, if_neg hty, findConflict, ← inWay]
  cases hfind : t.entries.find? (inWay ask) with
  | none =>
    refine .inl ⟨rfl, ?_⟩
    rintro ⟨e, -, he, hconf⟩
    rw [find?_none hfind he] at hconf
    cases hconf
  | some r =>
    obtain ⟨i, e⟩ := r
    have hfirst := find?_first hfind
    refine .inr ⟨i, e, ?_⟩
    cases hown : t.entries.find? (meets ask e.ownerPid) with
    | none =>
      -- the entry in the way itself passes the second test
      have hskip := find?_none hown ⟨i, hfirst.1⟩
      have hmeet := hfirst.2.1
      simp only [inWay, conflicts, Bool.and_eq_true] at hmeet
      simp [meets, hmeet.1.2] at hskip
    | some r' =>
      unfold meets at hown
      exact ⟨r'.1, r'.2, hfirst, find?_first hown, by simp [hown]⟩

/-- `F_GETLK` is exact just for an unlock and where the range it finds for the process of the first
entry in the way belongs to an entry in the way. -/
theorem getlk_exact_iff (t : PosixLockTable) (ask : PosixLockEntry) :
    GetlkExact t ask ↔ ask.lockType = fUnlck ∨ RangeOfConflict t ask := by
  by_cases hty : ask.lockType = fUnlck
  · simp [GetlkExact, Conflicting, getlk, posixGetlk, hty]
  simp only [hty, false_or]
  rcases @getlk_cases t ask hty with ⟨hget, hnone⟩ | ⟨i, e, j, e', hi, hj, hget⟩
  · constructor
    · intro _ i e _ _ hi _
      exact absurd ⟨e, hty, ⟨i, hi.1⟩, hi.2.1⟩ hnone
    · simp [GetlkExact, hget, hnone]
  · rw [GetlkExact, hget]
    constructor
    · rintro ⟨-, hreport⟩ i₁ e₁ j₁ e₁' hi₁ hj₁
      obtain ⟨rfl, rfl⟩ := hi.unique hi₁
      obtain ⟨rfl, rfl⟩ := hj.unique hj₁
      obtain ⟨x, hx, heq⟩ := hreport _ rfl
      obtain ⟨hpid, htype, hstart, hlen⟩ := PosixLockConflict.mk.inj heq
      exact ⟨x, hx, hpid.symm, htype.symm, hstart.symm, hlen.symm⟩
    · intro hrange
      refine ⟨iff_of_true ⟨_, rfl⟩ ⟨e, hty, ⟨i, hi.1⟩, hi.2.1⟩, fun c hc => ?_⟩
      cases hc
      obtain ⟨x, hx, hpid, htype, hstart, hlen⟩ := hrange i e j e' hi hj
      exact ⟨x, hx, by rw [hpid, htype, hstart, hlen]⟩

/-- Process 2 has read locks on two files; a query about one of them gets the range of the other. -/
theorem getlk_other_file :
    ¬ GetlkExact (run posixLockStep Counted.empty [.sysPosixLock 2 2 fSetlk fRdlck 0 10,
      .sysPosixLock 2 1 fSetlk fRdlck 5 20]) ⟨1, 1, 0, 100, fWrlck⟩ := by
  rintro ⟨-, hreport⟩
  obtain ⟨e, ⟨-, hhas, hconf⟩, heq⟩ := hreport ⟨2, fRdlck, 0, 10⟩ rfl
  rcases has_update.mp hhas with rfl | ⟨j, -, hj⟩
  · cases heq
  · rcases has_update.mp ⟨j, hj⟩ with rfl | ⟨k, -, hk⟩
    · revert hconf
      decide
    · cases hk

end AntX.Fs
