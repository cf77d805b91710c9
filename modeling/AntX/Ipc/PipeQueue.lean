import AntX.Ipc.Pipe
import AntX.Lib.Run

/-! The ring of a pipe is a bounded queue of bytes, through any run of the calls of
services/ipc/pipe.rs. -/

namespace AntX.Ipc

open AntX.Lib List IpcNamespace Option Pipe

structure Pipe.Ringed (p : Pipe) : Prop where
  count_le : p.count ≤ pipeBufferSize
  readPos_lt : p.readPos < pipeBufferSize
  writePos_eq : p.writePos = (p.readPos + p.count) % pipeBufferSize

def Pipe.contents (p : Pipe) : List UInt8 := ringContents p.buffer pipeBufferSize p.readPos p.count

/-- What a call returns: a number of bytes, and for a read the bytes. -/
abbrev Answer := Except Errno (Nat × List UInt8)

/-- All bytes that were placed in a pipe and all that were taken out of it, each in order. -/
structure Stream where
  placed : List UInt8
  delivered : List UInt8

namespace Stream

def queue (s : Stream) : List UInt8 := s.placed.drop s.delivered.length

/-- Takes what fits and answers whether everything did. -/
def put (s : Stream) (data : List UInt8) : Stream × Answer :=
  let room := pipeBufferSize - s.queue.length
  ({ s with placed := s.placed ++ data.take room },
    if data.length ≤ room then .ok (data.length, []) else .error (-4))

/-- Gives the first bytes; an empty queue that may still be written to has no answer yet. -/
def get (s : Stream) (writers : Int) (n : Nat) : Stream × Answer :=
  if s.queue = [] ∧ writers ≠ 0 then (s, .error (-4))
  else ({ s with delivered := s.delivered ++ s.queue.take n }, .ok ((s.queue.take n).length, s.queue.take n))

end Stream

def transfer (ns : IpcNamespace) : PipeCall → Option (IpcNamespace × Answer)
  | .read fd buf n => (ns.pipeReadSafe fd buf n).map fun (ns, buf, r) =>
    (ns, r.map fun k => (k, buf.take k))
  | .write fd buf n => (ns.pipeWriteSafe fd buf n).map fun (ns, r) =>
    (ns, r.map fun k => (k, []))
  | _ => none

def serve (q : Nat → Stream) (i : Nat) (x : Stream × Answer) : (Nat → Stream) × Answer :=
  (Function.update q i x.1, x.2)

/-- The same calls on streams, for pipes whose ends are those of `ends`. -/
def streamStep (ends : IpcNamespace) (q : Nat → Stream) : PipeCall → Option ((Nat → Stream) × Answer)
  | .read fd _ n => some <|
    if n = 0 then (q, .ok (0, []))
    else match ends.pipeFindByFdIndex fd with
      | none => (q, .error (-1))
      | some i =>
        if fd ≠ (ends.pipes i).readFd then (q, .error (-2))
        else serve q i ((q i).get (ends.pipes i).writers n)
  | .write fd buf n => some <|
    if n = 0 then (q, .ok (0, []))
    else match ends.pipeFindByFdIndex fd with
      | none => (q, .error (-1))
      | some i =>
        if fd ≠ (ends.pipes i).writeFd then (q, .error (-2))
        else if (ends.pipes i).readers = 0 then (q, .error (-3))
        else serve q i ((q i).put (buf.take n))
  | _ => none

variable {p p' : Pipe} {buf : List UInt8} {b : UInt8} {ends ns ns' : IpcNamespace} {fd : Int} {i : Nat}
  {count : Nat} {q : Nat → Stream}

theorem pipeBufferSize_pos : 0 < pipeBufferSize := by decide

theorem Pipe.Ringed.writePos_lt (h : p.Ringed) : p.writePos < pipeBufferSize := by
  rw [h.writePos_eq]
  exact Nat.mod_lt _ pipeBufferSize_pos

@[simp] theorem Pipe.contents_length : p.contents.length = p.count := ringContents_length

theorem Pipe.Ringed.store (h : p.Ringed) (hc : p.count < pipeBufferSize) : (p.store b).Ringed where
  count_le := hc
  readPos_lt := h.readPos_lt
  writePos_eq := by
    show (p.writePos + 1) % pipeBufferSize = (p.readPos + (p.count + 1)) % pipeBufferSize
    rw [h.writePos_eq, Nat.mod_add_mod, Nat.add_assoc]

theorem Pipe.Ringed.store_contents (h : p.Ringed) (hc : p.count < pipeBufferSize) :
    (p.store b).contents = p.contents ++ [b] := by
  show ringContents (Function.update p.buffer p.writePos b) _ p.readPos (p.count + 1) = _
  rw [h.writePos_eq, ringContents_push hc]
  rfl

theorem Pipe.Ringed.advance (h : p.Ringed) (hc : p.count ≠ 0) : p.advance.Ringed where
  count_le := by
    have hle := h.count_le
    show p.count - 1 ≤ _
    omega
  readPos_lt := Nat.mod_lt _ pipeBufferSize_pos
  writePos_eq := by
    show p.writePos = ((p.readPos + 1) % pipeBufferSize + (p.count - 1)) % pipeBufferSize
    rw [h.writePos_eq, Nat.mod_add_mod]
    congr 1
    omega

theorem Pipe.Ringed.advance_contents (h : p.Ringed) (hc : p.count ≠ 0) :
    p.contents = p.buffer p.readPos :: p.advance.contents := by
  obtain ⟨n, hn⟩ := Nat.exists_eq_succ_of_ne_zero hc
  show ringContents _ _ _ p.count = _ :: ringContents _ _ _ (p.count - 1)
  rw [hn, ringContents_pop h.readPos_lt]
  rfl

theorem Pipe.Ringed.writeLoop_spec (h : p.Ringed) {written left : Nat} (hbuf : written + left ≤ buf.length) :
    ∃ p', p'.Ringed ∧
      p'.contents = p.contents ++ ((buf.drop written).take left).take (pipeBufferSize - p.count) ∧
      p.writeLoop buf written left =
        some (p', if left ≤ pipeBufferSize - p.count then .ok (written + left) else .error (-4)) := by
  induction left generalizing p written with
  | zero => exact ⟨p, h, by simp, by simp [writeLoop]⟩
  | succ left ih =>
    have hw : written < buf.length := by omega
    by_cases hfull : pipeBufferSize ≤ p.count
    · have hroom : pipeBufferSize - p.count = 0 := by omega
      exact ⟨p, h, by simp [hroom], by simp [writeLoop, hfull, hroom]⟩
    · have hc : p.count < pipeBufferSize := by omega
      obtain ⟨p', hr, hcont, hloop⟩ := ih (h.store (b := buf[written]) hc)
        (show written + 1 + left ≤ buf.length by omega)
      have hroom : pipeBufferSize - p.count = pipeBufferSize - (p.count + 1) + 1 := by omega
      refine ⟨p', hr, ?_, ?_⟩
      · rw [hcont, h.store_contents hc, append_assoc, drop_eq_getElem_cons hw, take_succ_cons,
          hroom, take_succ_cons]
        rfl
      · rw [writeLoop, if_neg hfull, getElem?_eq_getElem hw]
        dsimp only
        rw [if_pos h.writePos_lt, hloop]
        show some (p', if left ≤ pipeBufferSize - (p.count + 1) then _ else _) = _
        rw [hroom, Nat.add_assoc written 1 left, Nat.add_comm 1 left]
        simp only [Nat.add_le_add_iff_right]

theorem Pipe.Ringed.readLoop_spec (h : p.Ringed) {readCount left : Nat}
    (hbuf : readCount + left ≤ buf.length) (hpos : 0 < readCount + left) :
    ∃ p' buf', p'.Ringed ∧ p'.contents = p.contents.drop left ∧
      buf'.take (readCount + min left p.count) = buf.take readCount ++ p.contents.take left ∧
      p.readLoop buf readCount left = some (p', buf',
        if p.count = 0 ∧ p.writers ≠ 0 ∧ readCount = 0 then .error (-4)
        else .ok (readCount + min left p.count)) := by
  induction left generalizing p buf readCount with
  | zero => exact ⟨p, buf, h, by simp, by simp, by simp [readLoop]; omega⟩
  | succ left ih =>
    by_cases hempty : p.count = 0
    · have hnil : p.contents = [] := by rw [← length_eq_zero_iff, contents_length, hempty]
      refine ⟨p, buf, h, by simp [hnil], by simp [hnil, hempty], ?_⟩
      rw [readLoop, if_pos hempty]
      by_cases hw : p.writers = 0
      · simp [hw, hempty]
      · by_cases hrc : readCount = 0
        · simp [hw, hempty, hrc]
        · simp [hw, hempty, hrc, Nat.pos_of_ne_zero hrc]
    · have hlt : readCount < buf.length := by omega
      obtain ⟨p', buf', hr, hcont, htake, hloop⟩ :=
        ih (h.advance hempty)
          (show readCount + 1 + left ≤ (buf.set readCount (p.buffer p.readPos)).length by simp; omega) (by omega)
      have hmin : readCount + 1 + min left (p.count - 1) = readCount + min (left + 1) p.count := by omega
      have hhead := h.advance_contents hempty
      refine ⟨p', buf', hr, ?_, ?_, ?_⟩
      · rw [hcont, hhead, drop_succ_cons]
      · rw [← hmin, hhead, take_succ_cons]
        refine htake.trans ?_
        rw [take_add_one, take_set_of_le (Nat.le_refl _), getElem?_set_self hlt, append_assoc]
        rfl
      · rw [readLoop, if_neg hempty, if_pos ⟨hlt, h.readPos_lt⟩, hloop]
        have hcount : p.advance.count = p.count - 1 := rfl
        rw [hcount, hmin, if_neg (by omega), if_neg (by omega)]

/-- The pipes are rings that hold what was placed and not yet delivered. -/
structure Refines (ends ns : IpcNamespace) (q : Nat → Stream) : Prop where
  ringed : ∀ i, (ns.pipes i).Ringed
  ends : ∀ i, (ends.pipes i).SameEnds (ns.pipes i)
  placed : ∀ i, (q i).placed = (q i).delivered ++ (ns.pipes i).contents

theorem Refines.queue (h : Refines ends ns q) (i : Nat) : (q i).queue = (ns.pipes i).contents := by
  rw [Stream.queue, h.placed, drop_left]

theorem Refines.find (h : Refines ends ns q) (fd : Int) :
    ns.pipeFindByFdIndex fd = ends.pipeFindByFdIndex fd := by
  simp only [pipeFindByFdIndex, (h.ends _).id, (h.ends _).readFd, (h.ends _).writeFd]

theorem Refines.setPipe (h : Refines ends ns q) (hr : p.Ringed) (he : (ns.pipes i).SameEnds p) {s : Stream}
    (hs : s.placed = s.delivered ++ p.contents) : Refines ends (ns.setPipe i p) (Function.update q i s) := by
  refine ⟨fun j => ?_, fun j => ?_, fun j => ?_⟩ <;> by_cases hj : j = i
  · rw [hj, setPipe_self]
    exact hr
  · rw [setPipe_of_ne hj]
    exact h.ringed j
  · have hi := h.ends i
    rw [hj, setPipe_self]
    exact ⟨he.id.trans hi.id, he.readFd.trans hi.readFd, he.writeFd.trans hi.writeFd,
      he.readers.trans hi.readers, he.writers.trans hi.writers⟩
  · rw [setPipe_of_ne hj]
    exact h.ends j
  · rw [hj, setPipe_self, Function.update_self, hs]
  · rw [setPipe_of_ne hj, Function.update_of_ne hj, h.placed]

theorem Refines.write (h : Refines ends ns q) (hbuf : count ≤ buf.length) :
    ∃ ns' q' r, transfer ns (.write fd buf count) = some (ns', r) ∧
      streamStep ends q (.write fd buf count) = some (q', r) ∧ Refines ends ns' q' := by
  rw [transfer, streamStep, pipeWriteSafe, h.find]
  by_cases h0 : count = 0
  · rw [if_pos h0, if_pos h0]
    exact ⟨ns, q, _, rfl, rfl, h⟩
  · rw [if_neg h0, if_neg h0]
    cases hf : ends.pipeFindByFdIndex fd with
    | none => exact ⟨ns, q, _, rfl, rfl, h⟩
    | some i =>
      dsimp only
      rw [(h.ends i).writeFd, (h.ends i).readers]
      split_ifs with hfd hrd
      · exact ⟨ns, q, _, rfl, rfl, h⟩
      · exact ⟨ns, q, _, rfl, rfl, h⟩
      · obtain ⟨p', hr, hcont, hloop⟩ := (h.ringed i).writeLoop_spec (show 0 + count ≤ buf.length by omega)
        have hlen : (buf.take count).length = count := by rw [length_take, Nat.min_eq_left hbuf]
        have hroom : (q i).queue.length = (ns.pipes i).count := by rw [h.queue, contents_length]
        rw [hloop, Stream.put, hlen, hroom, Nat.zero_add]
        refine ⟨ns.setPipe i p', _, _, ?_, rfl, h.setPipe hr (writeLoop_sameEnds hloop) ?_⟩
        · split_ifs <;> rfl
        · rw [hcont, h.placed, append_assoc, drop_zero]

theorem Refines.read (h : Refines ends ns q) (hbuf : count ≤ buf.length) :
    ∃ ns' q' r, transfer ns (.read fd buf count) = some (ns', r) ∧
      streamStep ends q (.read fd buf count) = some (q', r) ∧ Refines ends ns' q' := by
  rw [transfer, streamStep, pipeReadSafe, h.find]
  by_cases h0 : count = 0
  · rw [if_pos h0, if_pos h0]
    exact ⟨ns, q, _, rfl, rfl, h⟩
  · rw [if_neg h0, if_neg h0]
    cases hf : ends.pipeFindByFdIndex fd with
    | none => exact ⟨ns, q, _, rfl, rfl, h⟩
    | some i =>
      dsimp only
      rw [(h.ends i).readFd]
      split_ifs with hfd
      · exact ⟨ns, q, _, rfl, rfl, h⟩
      · obtain ⟨p', buf', hr, hcont, htake, hloop⟩ :=
          (h.ringed i).readLoop_spec (show 0 + count ≤ buf.length by omega) (by omega)
        have hnil : (ns.pipes i).contents = [] ↔ (ns.pipes i).count = 0 := by
          rw [← length_eq_zero_iff, contents_length]
        rw [take_zero, nil_append, Nat.zero_add] at htake
        have hends := readLoop_sameEnds hloop
        rw [hloop, Stream.get, h.queue, (h.ends i).writers]
        by_cases hwait : (ns.pipes i).contents = [] ∧ (ends.pipes i).writers ≠ 0
        · rw [if_pos hwait, if_pos ⟨hnil.mp hwait.1, hwait.2, rfl⟩]
          refine ⟨ns.setPipe i p', _, _, rfl, rfl, h.setPipe hr hends ?_⟩
          rw [hcont, h.placed, hwait.1, drop_nil]
        · rw [if_neg hwait, if_neg fun hall => hwait ⟨hnil.mpr hall.1, hall.2.1⟩, Nat.zero_add]
          refine ⟨ns.setPipe i p', _, _, ?_, rfl, h.setPipe hr hends ?_⟩
          · rw [length_take, contents_length, ← htake]
            rfl
          · rw [hcont, h.placed, append_assoc, take_append_drop]

def PipeCall.Fits : PipeCall → Prop
  | .read _ buf count | .write _ buf count => count ≤ buf.length
  | .create | .close _ => True

def PipeCall.Transfers : PipeCall → Prop
  | .read .. | .write .. => True
  | .create | .close _ => False

theorem Pipe.Ringed.closeEnd (h : p.Ringed) : (p.closeEnd fd).Ringed := by
  obtain ⟨hcount, hread, hwrite⟩ := h
  rw [Pipe.closeEnd]
  split_ifs <;> exact ⟨hcount, hread, hwrite⟩

theorem Refines.step (h : Refines ends ns q) {c : PipeCall} (hc : c.Fits ∧ c.Transfers) :
    ∃ ns' q' r, transfer ns c = some (ns', r) ∧ streamStep ends q c = some (q', r) ∧ Refines ends ns' q' := by
  obtain ⟨hfits, htransfers⟩ := hc
  cases c with
  | read fd buf count => exact h.read hfits
  | write fd buf count => exact h.write hfits
  | create | close fd => cases htransfers

def AllRinged (ns : IpcNamespace) : Prop := ∀ i, (ns.pipes i).Ringed

def streams (ns : IpcNamespace) (i : Nat) : Stream := ⟨(ns.pipes i).contents, []⟩

theorem AllRinged.refines (h : AllRinged ns) : Refines ns ns (streams ns) :=
  ⟨h, fun _ => .refl _, fun _ => rfl⟩

theorem AllRinged.setPipe (h : AllRinged ns) (hp : p.Ringed) : AllRinged (ns.setPipe i p) := by
  intro j
  by_cases hj : j = i
  · rw [hj, setPipe_self]
    exact hp
  · rw [setPipe_of_ne hj]
    exact h j

theorem transfer_step {c : PipeCall} {r : Answer} (h : transfer ns c = some (ns', r)) :
    pipeStep ns c = some ns' := by
  cases c with
  | create | close fd => cases h
  | read fd buf count | write fd buf count =>
    obtain ⟨x, hx, he⟩ := Option.map_eq_some_iff.mp h
    cases he
    rw [pipeStep, hx, map_some]

theorem pipeStep_ringed (h : AllRinged ns) {c : PipeCall} (hc : c.Fits) :
    ∃ ns', pipeStep ns c = some ns' ∧ AllRinged ns' := by
  cases c with
  | create =>
    refine ⟨_, rfl, ?_⟩
    rw [pipeCreateSafe]
    cases ns.pipeFindFreeIndex with
    | none => exact h
    | some i =>
      exact h.setPipe (i := i) (p := createdPipe ns.nextId) ⟨Nat.zero_le _, pipeBufferSize_pos, rfl⟩
  | read fd buf count | write fd buf count =>
    obtain ⟨ns', q, r, hs, -, hr⟩ := h.refines.step ⟨hc, trivial⟩
    exact ⟨ns', transfer_step hs, hr.ringed⟩
  | close fd =>
    refine ⟨_, rfl, ?_⟩
    rw [pipeCloseSafe]
    cases ns.pipeFindByFdIndex fd with
    | none => exact h
    | some i => exact h.setPipe (h i).closeEnd

theorem pipeRun_ringed (h : AllRinged ns) {calls : List PipeCall} (hc : ∀ c ∈ calls, c.Fits) :
    ∃ ns', runOpt pipeStep ns calls = some ns' ∧ AllRinged ns' := by
  induction calls generalizing ns with
  | nil => exact ⟨ns, rfl, h⟩
  | cons c cs ih =>
    obtain ⟨ns₁, hs, h₁⟩ := pipeStep_ringed h (hc c (by simp))
    obtain ⟨ns₂, hr, h₂⟩ := ih h₁ fun c hm => hc c (by simp [hm])
    exact ⟨ns₂, by rw [runOpt_cons, hs, bind_some, hr], h₂⟩

theorem new_ringed : AllRinged .new := fun _ => ⟨Nat.zero_le _, pipeBufferSize_pos, rfl⟩

/-- In every namespace reached, and from it through every sequence of reads and writes: the calls
answer as the streams do, and what was placed in a pipe is what was delivered from it followed by
what it holds. -/
theorem pipe_refines_queue (setup calls : List PipeCall) (hsetup : ∀ c ∈ setup, c.Fits)
    (hcalls : ∀ c ∈ calls, c.Fits ∧ c.Transfers) :
    ∃ ns ns' q rs, runOpt pipeStep .new setup = some ns ∧ answers transfer ns calls = some (ns', rs) ∧
      answers (streamStep ns) (streams ns) calls = some (q, rs) ∧
      ∀ i, (ns'.pipes i).count ≤ pipeBufferSize ∧
        (ns'.pipes i).writePos = ((ns'.pipes i).readPos + (ns'.pipes i).count) % pipeBufferSize ∧
        (q i).placed = (q i).delivered ++ (ns'.pipes i).contents := by
  obtain ⟨ns, hns, hring⟩ := pipeRun_ringed new_ringed hsetup
  obtain ⟨ns', q, rs, hrun, hq, h⟩ := answers_simulates (R := Refines ns)
    (P := fun c : PipeCall => c.Fits ∧ c.Transfers) (fun _ _ c h hc => h.step (c := c) hc) hring.refines hcalls
  exact ⟨ns, ns', q, rs, hns, hrun, hq,
    fun i => ⟨(h.ringed i).count_le, (h.ringed i).writePos_eq, h.placed i⟩⟩

def twoBytes : List PipeCall := [.write 3 [7, 8] 2, .read 2 [0] 1, .read 2 [0] 1, .read 2 [0] 1]

/-- The last read finds the pipe empty. -/
theorem pipe_refines_queue_two_bytes : ∃ ns ns', runOpt pipeStep .new [.create] = some ns ∧
    answers transfer ns twoBytes = some (ns', [.ok (2, []), .ok (1, [7]), .ok (1, [8]), .error (-4)]) ∧
    ∃ q, answers (streamStep ns) (streams ns) twoBytes =
      some (q, [.ok (2, []), .ok (1, [7]), .ok (1, [8]), .error (-4)]) ∧
      (q 0).placed = (q 0).delivered ++ (ns'.pipes 0).contents := by
  obtain ⟨ns, ns', q, rs, hns, hrun, hq, h⟩ := pipe_refines_queue [.create] twoBytes
    (by simp [PipeCall.Fits]) (by simp [twoBytes, PipeCall.Fits, PipeCall.Transfers])
  obtain rfl : rs = [.ok (2, []), .ok (1, [7]), .ok (1, [8]), .error (-4)] := by
    have hval : ((runOpt pipeStep .new [.create]).bind fun ns => answers transfer ns twoBytes).map (·.2) =
        some [.ok (2, []), .ok (1, [7]), .ok (1, [8]), .error (-4)] := by decide +kernel
    rw [hns, bind_some, hrun] at hval
    exact Option.some.inj hval
  exact ⟨ns, ns', hns, hrun, q, hq, (h 0).2.2⟩

/-- There is room for some of the bytes that are asked for, not for all of them. -/
structure Pipe.Cut (p : Pipe) (given asked : Nat) : Prop where
  room : p.count < pipeBufferSize
  writePos_lt : p.writePos < pipeBufferSize
  asked : pipeBufferSize < p.count + asked
  given : pipeBufferSize ≤ p.count + given

theorem writeLoop_error {written left : Nat} {e : Errno} (h : p.writeLoop buf written left = some (p', .error e)) :
    pipeBufferSize ≤ p'.count ∧ (p.count < pipeBufferSize → p.Cut (buf.length - written) left) := by
  induction left generalizing p written with
  | zero => cases h
  | succ left ih =>
    obtain ⟨hfull, rfl⟩ | ⟨hroom, hpos, b, hb, hrest⟩ := writeLoop_succ h
    · exact ⟨hfull, fun hroom => absurd hfull (Nat.not_le.mpr hroom)⟩
    · obtain ⟨hfull, hcut⟩ := ih hrest
      have hw := (List.getElem?_eq_some_iff.mp hb).1
      have hleft : left ≠ 0 := by
        rintro rfl
        cases hrest
      have hnext : p.count + 1 < pipeBufferSize → pipeBufferSize < p.count + 1 + left ∧
          pipeBufferSize ≤ p.count + 1 + (buf.length - (written + 1)) := fun hlt => ⟨(hcut hlt).asked, (hcut hlt).given⟩
      exact ⟨hfull, fun _ => ⟨hroom, hpos, by omega, by omega⟩⟩

theorem writeLoop_fills {written left : Nat} (hroom : p.count ≤ pipeBufferSize)
    (hpos : p.writePos < pipeBufferSize) (hasked : pipeBufferSize < p.count + left)
    (hgiven : pipeBufferSize ≤ p.count + (buf.length - written)) :
    ∃ p' e, p.writeLoop buf written left = some (p', .error e) := by
  induction left generalizing p written with
  | zero => omega
  | succ left ih =>
    rw [writeLoop]
    by_cases hfull : pipeBufferSize ≤ p.count
    · exact ⟨p, _, if_pos hfull⟩
    · have hw : written < buf.length := by omega
      rw [if_neg hfull, getElem?_eq_getElem hw]
      dsimp only
      rw [if_pos hpos]
      exact ih (show p.count + 1 ≤ _ by omega) (Nat.mod_lt _ pipeBufferSize_pos)
        (show _ < p.count + 1 + left by omega) (show _ ≤ p.count + 1 + (buf.length - (written + 1)) by omega)

def Pipe.ring (p : Pipe) : (Nat → UInt8) × Nat × Nat × Nat := (p.buffer, p.readPos, p.writePos, p.count)

def WriteCut (ns : IpcNamespace) (fd : Int) (buf : List UInt8) (count : Nat) : Prop :=
  ∃ i, ns.pipeFindByFdIndex fd = some i ∧ fd = (ns.pipes i).writeFd ∧ (ns.pipes i).readers ≠ 0 ∧
    (ns.pipes i).Cut buf.length count

theorem WriteCut.keeps (h : WriteCut ns fd buf count) : ∃ ns' e i,
    ns.pipeWriteSafe fd buf count = some (ns', .error e) ∧ (ns'.pipes i).ring ≠ (ns.pipes i).ring := by
  obtain ⟨i, hf, hfd, hrd, hcut⟩ := h
  obtain ⟨p', e, hloop⟩ := @writeLoop_fills _ _ 0 _ hcut.room.le hcut.writePos_lt hcut.asked hcut.given
  have hcount : count ≠ 0 := by
    rintro rfl
    cases hloop
  refine ⟨ns.setPipe i p', e, i, ?_, fun hsame => ?_⟩
  · rw [pipeWriteSafe, if_neg hcount, hf]
    dsimp only
    rw [if_neg (not_not.mpr hfd), if_neg hrd, hloop, map_some]
  · have hfull := (writeLoop_error hloop).1
    have hroom := hcut.room
    rw [setPipe_self] at hsame
    have hkept : p'.count = (ns.pipes i).count := congrArg (·.2.2.2) hsame
    omega

/-- A failing write leaves every ring as it was unless the ring fills up in the middle of it. -/
theorem pipe_write_atomic_iff (ns : IpcNamespace) (fd : Int) (buf : List UInt8) (count : Nat) :
    (∀ ns' e, ns.pipeWriteSafe fd buf count = some (ns', .error e) →
      ∀ i, (ns'.pipes i).ring = (ns.pipes i).ring) ↔ ¬ WriteCut ns fd buf count := by
  constructor
  · intro h hcut
    obtain ⟨ns', e, i, hwrite, hne⟩ := hcut.keeps
    exact hne (h ns' e hwrite i)
  · intro hcut ns' e hwrite j
    obtain rfl | ⟨i, p, hf, hfd, hrd, hloop, rfl⟩ := pipeWriteSafe_cases hwrite
    · rfl
    · by_cases hj : j = i
      · subst hj
        rw [setPipe_self]
        by_cases hroom : (ns.pipes j).count < pipeBufferSize
        · exact absurd ⟨j, hf, hfd, hrd, (writeLoop_error hloop).2 hroom⟩ hcut
        · cases count with
          | zero => cases hloop
          | succ left =>
            obtain ⟨-, rfl⟩ | ⟨hlt, -⟩ := writeLoop_succ hloop
            · rfl
            · exact absurd hlt hroom
      · rw [setPipe_of_ne hj]

theorem cut_write_keeps_bytes : ¬ ∀ ns' e,
    IpcNamespace.new.pipeCreateSafe.1.pipeWriteSafe 3 (replicate 4097 0) 4097 = some (ns', .error e) →
      ∀ i, (ns'.pipes i).ring = (IpcNamespace.new.pipeCreateSafe.1.pipes i).ring := by
  intro h
  have hcut : WriteCut IpcNamespace.new.pipeCreateSafe.1 3 (replicate 4097 0) 4097 := by
    refine ⟨0, by decide +kernel, by decide +kernel, by decide, by decide, by decide, by decide, ?_⟩
    rw [length_replicate]
    decide
  obtain ⟨ns', e, i, hwrite, hne⟩ := hcut.keeps
  exact hne (h ns' e hwrite i)

end AntX.Ipc
