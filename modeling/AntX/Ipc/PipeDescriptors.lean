import AntX.Ipc.Pipe
import AntX.Lib.Run

/-! Descriptor lookup in the pipe table of services/ipc/pipe.rs against the open ends. A closed end
is stored as descriptor 0. -/

namespace AntX.Ipc

open AntX.Lib IpcNamespace Option Pipe

structure Tracked where
  ns : IpcNamespace
  ends : List (Int × Nat)

namespace Tracked

def new : Tracked := ⟨.new, []⟩

def endsAfter (t : Tracked) : PipeCall → List (Int × Nat)
  | .create =>
    match t.ns.pipeFindFreeIndex, t.ns.pipeCreateSafe.2 with
    | some i, .ok (rfd, wfd) => (rfd, i) :: (wfd, i) :: t.ends
    | _, _ => t.ends
  | .close fd =>
    match (t.ns.pipeCloseSafe fd).2 with
    | .ok () => t.ends.filter fun e => e.1 ≠ fd
    | .error _ => t.ends
  | .read .. => t.ends
  | .write .. => t.ends

def step (t : Tracked) (c : PipeCall) : Option Tracked :=
  (pipeStep t.ns c).map fun ns => ⟨ns, t.endsAfter c⟩

/-- `pipe_find_by_fd_index` answers with the slot of an open end, and with nothing for any other number. -/
def ExactAt (t : Tracked) (fd : Int) : Prop := ∀ i, t.ns.pipeFindByFdIndex fd = some i ↔ (fd, i) ∈ t.ends

end Tracked

def Pipe.HalfClosed (p : Pipe) : Prop := p.id ≠ 0 ∧ (p.readers = 0 ∨ p.writers = 0)

def NoneHalfClosed (ns : IpcNamespace) : Prop := ∀ i, i < ipcMaxPipes → ¬ (ns.pipes i).HalfClosed

/-- Descriptor numbers are not used up, and descriptor 0 is closed only while no pipe is half closed. -/
def Admissible (t : Tracked) : PipeCall → Prop
  | .create => t.ns.nextId < 2 ^ 31
  | .close fd => fd ≠ 0 ∨ NoneHalfClosed t.ns
  | .read .. => True
  | .write .. => True

def readEnd (id : Nat) : Int := asI32 (id * 2 % 2 ^ 32)

def writeEnd (id : Nat) : Int := asI32 ((id * 2 % 2 ^ 32 + 1) % 2 ^ 32)

theorem createdPipe_readFd (id : Nat) : (createdPipe id).readFd = readEnd id := by
  rw [createdPipe, readEnd]

theorem createdPipe_writeFd (id : Nat) : (createdPipe id).writeFd = writeEnd id := by
  rw [createdPipe, writeEnd]

variable {a id b : Nat} {ns : IpcNamespace}

theorem asI32_eq (ha : a < 2 ^ 32) : asI32 a = if a < 2 ^ 31 then (a : Int) else a - 2 ^ 32 := by
  unfold asI32
  rw [Int.bmod_def]
  omega

theorem readEnd_eq (h : id < 2 ^ 31) :
    readEnd id = if id < 2 ^ 30 then (id : Int) * 2 else id * 2 - 2 ^ 32 := by
  have hid : id * 2 % 2 ^ 32 = id * 2 := Nat.mod_eq_of_lt (by omega)
  rw [readEnd, hid, asI32_eq (by omega)]
  split_ifs <;> omega

theorem writeEnd_eq (h : id < 2 ^ 31) :
    writeEnd id = if id < 2 ^ 30 then (id : Int) * 2 + 1 else id * 2 + 1 - 2 ^ 32 := by
  have hid : id * 2 % 2 ^ 32 = id * 2 := Nat.mod_eq_of_lt (by omega)
  have hid' : (id * 2 + 1) % 2 ^ 32 = id * 2 + 1 := Nat.mod_eq_of_lt (by omega)
  rw [writeEnd, hid, hid', asI32_eq (by omega)]
  split_ifs <;> omega

theorem readEnd_ne_zero (h : id < 2 ^ 31) (h0 : id ≠ 0) : readEnd id ≠ 0 := by
  rw [readEnd_eq h]
  split_ifs <;> omega

theorem writeEnd_ne_zero (h : id < 2 ^ 31) : writeEnd id ≠ 0 := by
  rw [writeEnd_eq h]
  split_ifs <;> omega

theorem readEnd_inj (ha : a < 2 ^ 31) (hb : b < 2 ^ 31) (h : readEnd a = readEnd b) : a = b := by
  rw [readEnd_eq ha, readEnd_eq hb] at h
  split_ifs at h <;> omega

theorem writeEnd_inj (ha : a < 2 ^ 31) (hb : b < 2 ^ 31) (h : writeEnd a = writeEnd b) : a = b := by
  rw [writeEnd_eq ha, writeEnd_eq hb] at h
  split_ifs at h <;> omega

theorem readEnd_ne_writeEnd (ha : a < 2 ^ 31) (hb : b < 2 ^ 31) : readEnd a ≠ writeEnd b := by
  rw [readEnd_eq ha, writeEnd_eq hb]
  split_ifs <;> omega

/-- Each end is open with its own number or closed with number 0, and a pipe in use has an open end. -/
structure Pipe.EndsOk (p : Pipe) : Prop where
  read : (p.readers = 1 ∧ p.readFd = readEnd p.id) ∨ (p.readers = 0 ∧ p.readFd = 0)
  write : (p.writers = 1 ∧ p.writeFd = writeEnd p.id) ∨ (p.writers = 0 ∧ p.writeFd = 0)
  used : p.id ≠ 0 ↔ p.readers = 1 ∨ p.writers = 1

def Pipe.Holds (p : Pipe) (fd : Int) : Prop := fd ≠ 0 ∧ (fd = p.readFd ∨ fd = p.writeFd)

variable {p p' : Pipe} {fd : Int} {t t' : Tracked} {i j : Nat}

theorem Pipe.EndsOk.same (h : p.EndsOk) (hs : p.SameEnds p') : p'.EndsOk := by
  obtain ⟨hid, hrf, hwf, hrd, hwr⟩ := hs
  exact ⟨by rw [hid, hrf, hrd]; exact h.read, by rw [hid, hwf, hwr]; exact h.write,
    by rw [hid, hrd, hwr]; exact h.used⟩

theorem Pipe.EndsOk.holds_cases (h : p.EndsOk) (hfd : p.Holds fd) :
    p.id ≠ 0 ∧ ((p.readers = 1 ∧ fd = readEnd p.id ∧ p.readFd = fd) ∨
      (p.writers = 1 ∧ fd = writeEnd p.id ∧ p.writeFd = fd)) := by
  obtain ⟨h0, hr | hw⟩ := hfd
  · obtain ⟨hrd, hrf⟩ | ⟨-, hrf⟩ := h.read
    · exact ⟨h.used.mpr (.inl hrd), .inl ⟨hrd, hr.trans hrf, hr.symm⟩⟩
    · exact absurd (hr.trans hrf) h0
  · obtain ⟨hwr, hwf⟩ | ⟨-, hwf⟩ := h.write
    · exact ⟨h.used.mpr (.inr hwr), .inr ⟨hwr, hw.trans hwf, hw.symm⟩⟩
    · exact absurd (hw.trans hwf) h0

theorem Pipe.EndsOk.same_id (h : p.EndsOk) (h' : p'.EndsOk) (hid : p.id < 2 ^ 31) (hid' : p'.id < 2 ^ 31)
    (hfd : p.Holds fd) (hfd' : p'.Holds fd) : p.id = p'.id := by
  obtain ⟨-, hp⟩ := h.holds_cases hfd
  obtain ⟨-, hp'⟩ := h'.holds_cases hfd'
  rcases hp with ⟨-, hr, -⟩ | ⟨-, hw, -⟩ <;> rcases hp' with ⟨-, hr', -⟩ | ⟨-, hw', -⟩
  · exact readEnd_inj hid hid' (hr.symm.trans hr')
  · exact absurd (hr.symm.trans hw') (readEnd_ne_writeEnd hid hid')
  · exact absurd (hr'.symm.trans hw) (readEnd_ne_writeEnd hid' hid)
  · exact writeEnd_inj hid hid' (hw.symm.trans hw')

theorem Pipe.EndsOk.halfClosed_iff (h : p.EndsOk) (hid : p.id < 2 ^ 31) :
    p.HalfClosed ↔ p.id ≠ 0 ∧ (p.readFd = 0 ∨ p.writeFd = 0) := by
  refine and_congr_right fun h0 => or_congr ?_ ?_
  · obtain ⟨hrd, hrf⟩ | ⟨hrd, hrf⟩ := h.read
    · simp [hrd, hrf, readEnd_ne_zero hid h0]
    · simp [hrd, hrf]
  · obtain ⟨hwr, hwf⟩ | ⟨hwr, hwf⟩ := h.write
    · simp [hwr, hwf, writeEnd_ne_zero hid]
    · simp [hwr, hwf]

theorem createdPipe_endsOk (h0 : id ≠ 0) : (createdPipe id).EndsOk :=
  ⟨.inl ⟨rfl, createdPipe_readFd id⟩, .inl ⟨rfl, createdPipe_writeFd id⟩, ⟨fun _ => .inl rfl, fun _ => h0⟩⟩

theorem createdPipe_holds (h : id < 2 ^ 31) (h0 : id ≠ 0) :
    (createdPipe id).Holds fd ↔ fd = readEnd id ∨ fd = writeEnd id := by
  constructor
  · exact fun hfd => hfd.2
  · intro hfd
    refine ⟨?_, hfd⟩
    rcases hfd with hr | hw
    · rw [hr]
      exact readEnd_ne_zero h h0
    · rw [hw]
      exact writeEnd_ne_zero h

theorem Pipe.EndsOk.closeEnd (h : p.EndsOk) (hid : p.id < 2 ^ 31) (hfd : p.Holds fd) :
    (p.closeEnd fd).EndsOk ∧ ((p.closeEnd fd).id = p.id ∨ (p.closeEnd fd).id = 0) ∧
      ∀ g, (p.closeEnd fd).Holds g ↔ p.Holds g ∧ g ≠ fd := by
  obtain ⟨h0, hopen⟩ := h.holds_cases hfd
  have hne := readEnd_ne_writeEnd hid hid
  have hr0 := readEnd_ne_zero hid h0
  have hw0 := writeEnd_ne_zero hid
  rcases hopen with ⟨hr, hf, rfl⟩ | ⟨hw, hf, rfl⟩
  · -- the read end is closed; the write end is open or was closed before
    obtain ⟨hw, hwf⟩ | ⟨hw, hwf⟩ := h.write
    · have hclose : p.closeEnd p.readFd = { p with readers := 0, readFd := 0 } := by simp [Pipe.closeEnd, hr, hw]
      rw [hclose]
      refine ⟨⟨.inr ⟨rfl, rfl⟩, .inl ⟨hw, hwf⟩, ⟨fun _ => .inr hw, fun _ => h0⟩⟩, .inl rfl, fun g => ?_⟩
      simp only [Holds]
      grind
    · have hclose : p.closeEnd p.readFd = { p with readers := 0, id := 0, readFd := 0, writeFd := 0 } := by
        simp [Pipe.closeEnd, hr, hw]
      rw [hclose]
      refine ⟨⟨.inr ⟨rfl, rfl⟩, .inr ⟨hw, rfl⟩, by simp [hw]⟩, .inr rfl, fun g => ?_⟩
      simp only [Holds]
      grind
  · -- the write end is closed; its number is not that of the read end
    obtain ⟨hr, hrf⟩ | ⟨hr, hrf⟩ := h.read
    · have hclose : p.closeEnd p.writeFd = { p with writers := 0, writeFd := 0 } := by
        simp [Pipe.closeEnd, hr, hw, hf, hrf, Ne.symm hne]
      rw [hclose]
      refine ⟨⟨.inl ⟨hr, hrf⟩, .inr ⟨rfl, rfl⟩, ⟨fun _ => .inl hr, fun _ => h0⟩⟩, .inl rfl, fun g => ?_⟩
      simp only [Holds]
      grind
    · have hclose : p.closeEnd p.writeFd = { p with writers := 0, id := 0, readFd := 0, writeFd := 0 } := by
        simp [Pipe.closeEnd, hr, hw, hf, hrf, hw0]
      rw [hclose]
      refine ⟨⟨.inr ⟨hr, rfl⟩, .inr ⟨rfl, rfl⟩, by simp [hr]⟩, .inr rfl, fun g => ?_⟩
      simp only [Holds]
      grind

structure Numbered (t : Tracked) : Prop where
  next_le : t.ns.nextId ≤ 2 ^ 31
  id_lt : ∀ i, (t.ns.pipes i).id < t.ns.nextId
  endsOk : ∀ i, (t.ns.pipes i).EndsOk
  distinct : ∀ i j, (t.ns.pipes i).id ≠ 0 → (t.ns.pipes i).id = (t.ns.pipes j).id → i = j
  ends : ∀ fd i, (fd, i) ∈ t.ends ↔ i < ipcMaxPipes ∧ (t.ns.pipes i).Holds fd

theorem Numbered.id_bound (h : Numbered t) (i : Nat) : (t.ns.pipes i).id < 2 ^ 31 :=
  Nat.lt_of_lt_of_le (h.id_lt i) h.next_le

theorem find_some (h : ns.pipeFindByFdIndex fd = some i) :
    i < ipcMaxPipes ∧ (ns.pipes i).id ≠ 0 ∧ (fd = (ns.pipes i).readFd ∨ fd = (ns.pipes i).writeFd) := by
  obtain ⟨-, hlt, htest⟩ := firstFrom_some h
  simp only [Bool.and_eq_true, Bool.or_eq_true, bne_iff_ne, beq_iff_eq] at htest
  exact ⟨by omega, htest.1, htest.2.imp Eq.symm Eq.symm⟩

theorem find_none (h : ns.pipeFindByFdIndex fd = none) (hi : i < ipcMaxPipes)
    (hid : (ns.pipes i).id ≠ 0) : (ns.pipes i).readFd ≠ fd ∧ (ns.pipes i).writeFd ≠ fd := by
  have htest := firstFrom_none h i (Nat.zero_le i) (by omega)
  simpa [hid] using htest

theorem Numbered.exact (h : Numbered t) (hfd : fd ≠ 0) : t.ExactAt fd := by
  intro i
  rw [h.ends]
  constructor
  · intro hf
    obtain ⟨hi, -, hends⟩ := find_some hf
    exact ⟨hi, hfd, hends⟩
  · rintro ⟨hi, hholds⟩
    obtain ⟨hid, -⟩ := (h.endsOk i).holds_cases hholds
    cases hf : t.ns.pipeFindByFdIndex fd with
    | none =>
      obtain ⟨hr, hw⟩ := find_none hf hi hid
      rcases hholds.2 with he | he
      · exact absurd he.symm hr
      · exact absurd he.symm hw
    | some j =>
      obtain ⟨-, hjd, hends⟩ := find_some hf
      have hsame := (h.endsOk j).same_id (h.endsOk i) (h.id_bound j) (h.id_bound i) ⟨hfd, hends⟩ hholds
      rw [h.distinct j i hjd hsame]

theorem Numbered.find_zero (h : Numbered t) : t.ns.pipeFindByFdIndex 0 = none ↔ NoneHalfClosed t.ns := by
  constructor
  · intro hf i hi hhalf
    obtain ⟨hid, hzero⟩ := ((h.endsOk i).halfClosed_iff (h.id_bound i)).mp hhalf
    obtain ⟨hr, hw⟩ := find_none hf hi hid
    exact hzero.elim hr hw
  · intro hnone
    cases hf : t.ns.pipeFindByFdIndex 0 with
    | none => rfl
    | some i =>
      obtain ⟨hi, hid, hends⟩ := find_some hf
      exact absurd (((h.endsOk i).halfClosed_iff (h.id_bound i)).mpr ⟨hid, hends.imp Eq.symm Eq.symm⟩)
        (hnone i hi)

theorem Numbered.setPipe (h : Numbered t) {next : Nat} {ends : List (Int × Nat)} (hp : p.EndsOk)
    (hle : t.ns.nextId ≤ next) (hnext : next ≤ 2 ^ 31) (hi : i < ipcMaxPipes)
    (hid : p.id = (t.ns.pipes i).id ∨ p.id = 0 ∨ (p.id = t.ns.nextId ∧ t.ns.nextId < next))
    (hends : ∀ fd j, (fd, j) ∈ ends ↔ if j = i then p.Holds fd else (fd, j) ∈ t.ends) :
    Numbered ⟨{ t.ns.setPipe i p with nextId := next }, ends⟩ := by
  have hother : ∀ j, j ≠ i → (t.ns.setPipe i p).pipes j = t.ns.pipes j := fun j => setPipe_of_ne
  have hfresh : ∀ j, j ≠ i → p.id ≠ 0 → p.id ≠ (t.ns.pipes j).id := by
    intro j hj h0 he
    rcases hid with hkept | hzero | ⟨hnew, -⟩
    · exact hj (h.distinct i j (hkept ▸ h0) (hkept.symm.trans he)).symm
    · exact h0 hzero
    · exact absurd (h.id_lt j) (by omega)
  refine ⟨hnext, fun j => ?_, fun j => ?_, fun j k hj he => ?_, fun fd j => ?_⟩
  · show ((t.ns.setPipe i p).pipes j).id < next
    by_cases hj : j = i
    · rw [hj, setPipe_self]
      have hlt := h.id_lt i
      rcases hid with hkept | hzero | ⟨hnew, hlt'⟩ <;> omega
    · rw [hother j hj]
      exact Nat.lt_of_lt_of_le (h.id_lt j) hle
  · by_cases hj : j = i
    · rw [hj, setPipe_self]
      exact hp
    · rw [hother j hj]
      exact h.endsOk j
  · by_cases hji : j = i <;> by_cases hki : k = i
    · rw [hji, hki]
    · rw [hji, setPipe_self] at he hj
      rw [hother k hki] at he
      exact absurd he (hfresh k hki hj)
    · rw [hki, setPipe_self, hother j hji] at he
      rw [hother j hji] at hj
      exact absurd he.symm (hfresh j hji (he ▸ hj))
    · rw [hother j hji, hother k hki] at he
      rw [hother j hji] at hj
      exact h.distinct j k hj he
  · rw [hends]
    by_cases hj : j = i
    · rw [if_pos hj, hj, setPipe_self]
      exact ⟨fun hh => ⟨hi, hh⟩, And.right⟩
    · rw [if_neg hj, hother j hj]
      exact h.ends fd j

theorem Pipe.SameEnds.holds_iff (h : p.SameEnds p') (fd : Int) : p'.Holds fd ↔ p.Holds fd := by
  rw [Holds, Holds, h.readFd, h.writeFd]

theorem Numbered.transfer (h : Numbered t) (hi : i < ipcMaxPipes) (hs : (t.ns.pipes i).SameEnds p) :
    Numbered ⟨t.ns.setPipe i p, t.ends⟩ := by
  refine h.setPipe ((h.endsOk i).same hs) le_rfl h.next_le hi (.inl hs.id) fun fd j => ?_
  by_cases hj : j = i
  · rw [if_pos hj, hj, h.ends, hs.holds_iff]
    exact ⟨And.right, fun hh => ⟨hi, hh⟩⟩
  · rw [if_neg hj]

theorem Numbered.create (h : Numbered t) (hok : t.ns.nextId < 2 ^ 31) :
    Numbered ⟨t.ns.pipeCreateSafe.1, t.endsAfter .create⟩ := by
  have h0 : t.ns.nextId ≠ 0 := by
    have hlt := h.id_lt 0
    omega
  rw [Tracked.endsAfter, pipeCreateSafe]
  cases hf : t.ns.pipeFindFreeIndex with
  | none => exact h
  | some i =>
    obtain ⟨-, hi, hfree⟩ := firstFrom_some hf
    have hfree : (t.ns.pipes i).id = 0 := by simpa using hfree
    dsimp only
    refine h.setPipe (createdPipe_endsOk h0) (by omega) (by omega) (by omega)
      (.inr (.inr ⟨rfl, by omega⟩)) fun fd j => ?_
    rw [createdPipe_holds hok h0, createdPipe_readFd, createdPipe_writeFd]
    by_cases hj : j = i
    · have hnot : (fd, i) ∉ t.ends := by
        intro hm
        exact ((h.endsOk i).holds_cases ((h.ends fd i).mp hm).2).1 hfree
      simp [hj, hnot]
    · simp [hj]

theorem Numbered.close (h : Numbered t) (hok : fd ≠ 0 ∨ NoneHalfClosed t.ns) :
    Numbered ⟨(t.ns.pipeCloseSafe fd).1, t.endsAfter (.close fd)⟩ := by
  rw [Tracked.endsAfter, pipeCloseSafe]
  cases hf : t.ns.pipeFindByFdIndex fd with
  | none => exact h
  | some i =>
    have hfd : fd ≠ 0 := by
      rintro rfl
      rw [h.find_zero.mpr (hok.resolve_left (absurd rfl))] at hf
      cases hf
    obtain ⟨hi, hholds⟩ := (h.ends fd i).mp ((h.exact hfd i).mp hf)
    obtain ⟨hends, hid, hclosed⟩ := (h.endsOk i).closeEnd (h.id_bound i) hholds
    refine h.setPipe hends le_rfl h.next_le hi (hid.imp_right .inl) fun g j => ?_
    rw [List.mem_filter, decide_eq_true_eq]
    by_cases hj : j = i
    · rw [if_pos hj, hclosed, hj, h.ends]
      exact and_congr_left fun _ => ⟨And.right, fun hh => ⟨hi, hh⟩⟩
    · rw [if_neg hj]
      refine ⟨And.left, fun hm => ⟨hm, ?_⟩⟩
      rintro rfl
      have hsame := (h.exact hfd j).mpr hm
      rw [hf] at hsame
      exact hj (some.inj hsame).symm

theorem Numbered.step (h : Numbered t) {c : PipeCall} (hok : Admissible t c) (hs : t.step c = some t') :
    Numbered t' := by
  obtain ⟨ns, hns, rfl⟩ := map_eq_some_iff.mp hs
  cases c with
  | create =>
    cases hns
    exact h.create hok
  | read fd buf count =>
    rw [pipeStep, pipeReadSafe] at hns
    by_cases h0 : count = 0
    · rw [if_pos h0] at hns
      cases hns
      exact h
    · rw [if_neg h0] at hns
      cases hf : t.ns.pipeFindByFdIndex fd with
      | none =>
        rw [hf] at hns
        cases hns
        exact h
      | some i =>
        rw [hf] at hns
        dsimp only at hns
        split_ifs at hns
        · cases hns
          exact h
        · obtain ⟨⟨ns', buf', r⟩, hmap, rfl⟩ := map_eq_some_iff.mp hns
          obtain ⟨⟨p, buf'', r'⟩, hloop, he⟩ := map_eq_some_iff.mp hmap
          cases he
          exact h.transfer (find_some hf).1 (readLoop_sameEnds hloop)
  | write fd buf count =>
    obtain ⟨⟨ns', r⟩, hwrite, rfl⟩ := map_eq_some_iff.mp hns
    obtain rfl | ⟨i, p, hf, -, -, hloop, rfl⟩ := pipeWriteSafe_cases hwrite
    · exact h
    · exact h.transfer (find_some hf).1 (writeLoop_sameEnds hloop)
  | close fd =>
    cases hns
    exact h.close hok

theorem new_numbered : Numbered .new where
  next_le := by decide
  id_lt _ := Nat.zero_lt_one
  endsOk _ := ⟨.inr ⟨rfl, rfl⟩, .inr ⟨rfl, rfl⟩, by simp [Tracked.new, IpcNamespace.new, Pipe.new]⟩
  distinct _ _ h0 := absurd rfl h0
  ends fd i := by simp [Tracked.new, IpcNamespace.new, Pipe.new, Holds]

/-- In every run that keeps clear of descriptor 0 and of the end of the numbers, lookup is exact at
every number but 0, and at 0 just while no pipe is half closed; the counts stay at 0 and 1. -/
theorem lookup_exact_iff {calls : List PipeCall} (hok : Along Tracked.step Admissible .new calls)
    (hr : runOpt Tracked.step .new calls = some t) (fd : Int) :
    (t.ExactAt fd ↔ fd ≠ 0 ∨ NoneHalfClosed t.ns) ∧
      ∀ i, 0 ≤ (t.ns.pipes i).readers ∧ 0 ≤ (t.ns.pipes i).writers := by
  have h : Numbered t := hok.runOpt_invariant (fun _ _ _ hn hc hs => hn.step hc hs) new_numbered hr
  refine ⟨⟨fun hexact => ?_, fun hcond => ?_⟩, fun i => ?_⟩
  · by_cases hfd : fd = 0
    · subst hfd
      refine .inr (h.find_zero.mp ?_)
      cases hf : t.ns.pipeFindByFdIndex 0 with
      | none => rfl
      | some i => exact absurd rfl ((h.ends 0 i).mp ((hexact i).mp hf)).2.1
    · exact .inl hfd
  · by_cases hfd : fd = 0
    · subst hfd
      have hf := h.find_zero.mpr (hcond.resolve_left (absurd rfl))
      intro i
      rw [hf, h.ends]
      simp [Pipe.Holds]
    · exact h.exact hfd
  · have hread := (h.endsOk i).read
    have hwrite := (h.endsOk i).write
    omega

def halfClosing : List PipeCall := [.create, .close 2]

theorem lookup_exact_half_closed : ∃ t, runOpt Tracked.step .new halfClosing = some t ∧
      ((t.ExactAt 3 ↔ (3 : Int) ≠ 0 ∨ NoneHalfClosed t.ns) ∧
        ∀ i, 0 ≤ (t.ns.pipes i).readers ∧ 0 ≤ (t.ns.pipes i).writers) := by
  obtain ⟨t, ht⟩ := isSome_iff_exists.mp
    (show (runOpt Tracked.step .new halfClosing).isSome = true by decide +kernel)
  have hok : Along Tracked.step Admissible .new halfClosing :=
    ⟨show 1 < 2 ^ 31 by decide, fun _ _ => ⟨.inl (by decide), fun _ _ => trivial⟩⟩
  exact ⟨t, ht, lookup_exact_iff hok ht 3⟩

/-- The lookup of number 0 finds the half closed pipe, and closing it once more takes a count below 0. -/
theorem closed_end_found : (¬ ∀ calls t, runOpt Tracked.step .new calls = some t → ∀ fd, t.ExactAt fd) ∧
    ¬ ∀ calls t, runOpt Tracked.step .new calls = some t →
      ∀ i, 0 ≤ (t.ns.pipes i).readers ∧ 0 ≤ (t.ns.pipes i).writers := by
  constructor
  · intro hall
    have hrun : (runOpt Tracked.step .new halfClosing).map
        (fun t => (t.ns.pipeFindByFdIndex 0, t.ends)) = some (some 0, [(3, 0)]) := by decide +kernel
    obtain ⟨t, ht, he⟩ := map_eq_some_iff.mp hrun
    obtain ⟨hf, hends⟩ := Prod.mk.inj he
    have hmem := (hall _ t ht 0 0).mp hf
    rw [hends] at hmem
    simp at hmem
  · intro hall
    have hrun : (runOpt Tracked.step .new (halfClosing ++ [.close 0])).map
        (fun t => (t.ns.pipes 0).readers) = some (-1) := by decide +kernel
    obtain ⟨t, ht, hreaders⟩ := map_eq_some_iff.mp hrun
    have hcount := (hall _ t ht 0).1
    omega

end AntX.Ipc
