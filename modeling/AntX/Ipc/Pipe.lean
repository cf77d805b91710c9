import AntX.Lib.FirstFit
import AntX.Lib.Rotation

/-! Pipes of services/ipc/pipe.rs and services/ipc/types.rs. A call that indexes past the end of a
buffer does not return (outer `none`). -/

namespace AntX.Ipc

open AntX.Lib Function

def ipcMaxPipes : Nat := 64

def pipeBufferSize : Nat := 4096

/-- `x as i32` of a `u32`. -/
@[irreducible] def asI32 (x : Nat) : Int := Int.bmod x (2 ^ 32)

structure Pipe where
  id : Nat
  buffer : Nat → UInt8
  readPos : Nat
  writePos : Nat
  count : Nat
  readFd : Int
  writeFd : Int
  readers : Int
  writers : Int

def Pipe.new : Pipe := ⟨0, fun _ => 0, 0, 0, 0, 0, 0, 0, 0⟩

structure IpcNamespace where
  pipes : Nat → Pipe
  nextId : Nat

abbrev Errno := Int

namespace IpcNamespace

def new : IpcNamespace := ⟨fun _ => .new, 1⟩

variable (ns : IpcNamespace)

def setPipe (i : Nat) (p : Pipe) : IpcNamespace :=
  { ns with pipes := update ns.pipes i p }

def pipeFindFreeIndex : Option Nat :=
  firstFrom (fun i => (ns.pipes i).id == 0) ipcMaxPipes 0

def pipeFindByFdIndex (fd : Int) : Option Nat :=
  firstFrom (fun i => (ns.pipes i).id != 0 && ((ns.pipes i).readFd == fd || (ns.pipes i).writeFd == fd))
    ipcMaxPipes 0

def createdPipe (id : Nat) : Pipe where
  id := id
  buffer := fun _ => 0
  readPos := 0
  writePos := 0
  count := 0
  readFd := asI32 (id * 2 % 2 ^ 32)
  writeFd := asI32 ((id * 2 % 2 ^ 32 + 1) % 2 ^ 32)
  readers := 1
  writers := 1

def pipeCreateSafe : IpcNamespace × Except Errno (Int × Int) :=
  match ns.pipeFindFreeIndex with
  | none => (ns, .error (-1))
  | some idx =>
    let pipe := createdPipe ns.nextId
    ({ ns.setPipe idx pipe with nextId := (ns.nextId + 1) % 2 ^ 32 }, .ok (pipe.readFd, pipe.writeFd))

end IpcNamespace

namespace Pipe

def advance (p : Pipe) : Pipe :=
  { p with readPos := (p.readPos + 1) % pipeBufferSize, count := p.count - 1 }

def store (p : Pipe) (byte : UInt8) : Pipe :=
  { p with
    buffer := update p.buffer p.writePos byte
    writePos := (p.writePos + 1) % pipeBufferSize
    count := p.count + 1 }

def readLoop (p : Pipe) (buf : List UInt8) (readCount : Nat) :
    (left : Nat) → Option (Pipe × List UInt8 × Except Errno Nat)
  | 0 => some (p, buf, .ok readCount)
  | left + 1 =>
    if p.count = 0 then
      if p.writers = 0 then some (p, buf, .ok readCount)
      else if 0 < readCount then some (p, buf, .ok readCount)
      else some (p, buf, .error (-4))
    else if readCount < buf.length ∧ p.readPos < pipeBufferSize then
      p.advance.readLoop (buf.set readCount (p.buffer p.readPos)) (readCount + 1) left
    else none

def writeLoop (p : Pipe) (buf : List UInt8) (written : Nat) : (left : Nat) → Option (Pipe × Except Errno Nat)
  | 0 => some (p, .ok written)
  | left + 1 =>
    if pipeBufferSize ≤ p.count then some (p, .error (-4))
    else match buf[written]? with
      | none => none
      | some byte =>
        if p.writePos < pipeBufferSize then (p.store byte).writeLoop buf (written + 1) left else none

def closeEnd (p : Pipe) (fd : Int) : Pipe :=
  let p :=
    if fd = p.readFd then { p with readers := p.readers - 1, readFd := 0 }
    else if fd = p.writeFd then { p with writers := p.writers - 1, writeFd := 0 }
    else p
  if p.readers = 0 ∧ p.writers = 0 then { p with id := 0, readFd := 0, writeFd := 0 } else p

end Pipe

namespace IpcNamespace

section

variable (ns : IpcNamespace) (fd : Int) (buf : List UInt8) (count : Nat)

def pipeReadSafe : Option (IpcNamespace × List UInt8 × Except Errno Nat) :=
  if count = 0 then some (ns, buf, .ok 0)
  else match ns.pipeFindByFdIndex fd with
    | none => some (ns, buf, .error (-1))
    | some idx =>
      if fd ≠ (ns.pipes idx).readFd then some (ns, buf, .error (-2))
      else ((ns.pipes idx).readLoop buf 0 count).map fun (p, buf, r) => (ns.setPipe idx p, buf, r)

def pipeWriteSafe : Option (IpcNamespace × Except Errno Nat) :=
  if count = 0 then some (ns, .ok 0)
  else match ns.pipeFindByFdIndex fd with
    | none => some (ns, .error (-1))
    | some idx =>
      if fd ≠ (ns.pipes idx).writeFd then some (ns, .error (-2))
      else if (ns.pipes idx).readers = 0 then some (ns, .error (-3))
      else ((ns.pipes idx).writeLoop buf 0 count).map fun (p, r) => (ns.setPipe idx p, r)

def pipeCloseSafe : IpcNamespace × Except Errno Unit :=
  match ns.pipeFindByFdIndex fd with
  | none => (ns, .error (-1))
  | some idx => (ns.setPipe idx ((ns.pipes idx).closeEnd fd), .ok ())

end

end IpcNamespace

@[simp] theorem IpcNamespace.setPipe_self {ns : IpcNamespace} {i : Nat} {p : Pipe} :
    (ns.setPipe i p).pipes i = p := update_self ..

theorem IpcNamespace.setPipe_of_ne {ns : IpcNamespace} {i j : Nat} {p : Pipe} (h : j ≠ i) :
    (ns.setPipe i p).pipes j = ns.pipes j := update_of_ne h ..

structure Pipe.SameEnds (p p' : Pipe) : Prop where
  id : p'.id = p.id
  readFd : p'.readFd = p.readFd
  writeFd : p'.writeFd = p.writeFd
  readers : p'.readers = p.readers
  writers : p'.writers = p.writers

namespace Pipe

variable {p p' : Pipe} {buf buf' : List UInt8}

theorem SameEnds.refl (p : Pipe) : p.SameEnds p := ⟨rfl, rfl, rfl, rfl, rfl⟩

theorem readLoop_sameEnds {readCount left : Nat} {r : Except Errno Nat}
    (h : p.readLoop buf readCount left = some (p', buf', r)) : p.SameEnds p' := by
  induction left generalizing p buf readCount with
  | zero =>
    cases h
    exact .refl _
  | succ left ih =>
    rw [readLoop] at h
    split_ifs at h
    iterate 3
      · cases h
        exact .refl _
    · obtain ⟨hid, hrf, hwf, hrd, hwr⟩ := ih h
      exact ⟨hid, hrf, hwf, hrd, hwr⟩

theorem writeLoop_succ {written left : Nat} {r : Except Errno Nat}
    (h : p.writeLoop buf written (left + 1) = some (p', r)) :
    pipeBufferSize ≤ p.count ∧ p' = p ∨ p.count < pipeBufferSize ∧ p.writePos < pipeBufferSize ∧
      ∃ b, buf[written]? = some b ∧ (p.store b).writeLoop buf (written + 1) left = some (p', r) := by
  rw [writeLoop] at h
  by_cases hfull : pipeBufferSize ≤ p.count
  · rw [if_pos hfull] at h
    cases h
    exact .inl ⟨hfull, rfl⟩
  · rw [if_neg hfull] at h
    cases hb : buf[written]? with
    | none =>
      rw [hb] at h
      cases h
    | some b =>
      rw [hb] at h
      dsimp only at h
      split_ifs at h with hpos
      exact .inr ⟨Nat.not_le.mp hfull, hpos, b, rfl, h⟩

theorem writeLoop_sameEnds {written left : Nat} {r : Except Errno Nat}
    (h : p.writeLoop buf written left = some (p', r)) : p.SameEnds p' := by
  induction left generalizing p written with
  | zero =>
    cases h
    exact .refl _
  | succ left ih =>
    obtain ⟨-, rfl⟩ | ⟨-, -, b, -, hrest⟩ := writeLoop_succ h
    · exact .refl _
    · obtain ⟨hid, hrf, hwf, hrd, hwr⟩ := ih hrest
      exact ⟨hid, hrf, hwf, hrd, hwr⟩

end Pipe

theorem pipeWriteSafe_cases {ns ns' : IpcNamespace} {fd : Int} {buf : List UInt8} {count : Nat}
    {r : Except Errno Nat} (h : ns.pipeWriteSafe fd buf count = some (ns', r)) :
    ns' = ns ∨ ∃ i p, ns.pipeFindByFdIndex fd = some i ∧ fd = (ns.pipes i).writeFd ∧
      (ns.pipes i).readers ≠ 0 ∧ (ns.pipes i).writeLoop buf 0 count = some (p, r) ∧
      ns' = ns.setPipe i p := by
  rw [IpcNamespace.pipeWriteSafe] at h
  cases hf : ns.pipeFindByFdIndex fd with
  | none =>
    rw [hf] at h
    split_ifs at h
    all_goals
      cases h
      exact .inl rfl
  | some i =>
    rw [hf] at h
    dsimp only at h
    split_ifs at h with _ hfd hrd
    iterate 3
      · cases h
        exact .inl rfl
    · obtain ⟨⟨p, r'⟩, hloop, he⟩ := Option.map_eq_some_iff.mp h
      cases he
      exact .inr ⟨i, p, rfl, not_not.mp hfd, hrd, hloop, rfl⟩

inductive PipeCall where
  | create
  | read (fd : Int) (buf : List UInt8) (count : Nat)
  | write (fd : Int) (buf : List UInt8) (count : Nat)
  | close (fd : Int)
  deriving DecidableEq, Repr

def pipeStep (ns : IpcNamespace) : PipeCall → Option IpcNamespace
  | .create => some ns.pipeCreateSafe.1
  | .read fd buf count => (ns.pipeReadSafe fd buf count).map (·.1)
  | .write fd buf count => (ns.pipeWriteSafe fd buf count).map (·.1)
  | .close fd => some (ns.pipeCloseSafe fd).1

end AntX.Ipc
