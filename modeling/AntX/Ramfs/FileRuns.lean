import AntX.Ramfs.FileCalls
import AntX.Ramfs.OwnershipRuns

/-! What a file holds after any sequence of writes, truncations and reads. -/

namespace AntX.Ramfs

open AntX.Lib Option

inductive FileCall where
  | write (offset : Nat) (buf : List UInt8) (pwm : UInt64)
  | truncate (newSize : Nat) (pwm : UInt64)
  | read (offset : Nat) (buf : List UInt8) (pwm : UInt64)

/-- The byte last written at each position since the file was last shorter; the latest call comes first. -/
def lastWritten : List FileCall → Memory
  | [] => fun _ => 0
  | .write offset buf _ :: earlier => (lastWritten earlier).store offset buf
  | .truncate newSize _ :: earlier => (lastWritten earlier).upTo newSize
  | .read _ _ _ :: earlier => lastWritten earlier

def fileSize : List FileCall → Nat
  | [] => 0
  | .write offset buf _ :: earlier =>
    if buf = [] then fileSize earlier else max (fileSize earlier) (offset + buf.length)
  | .truncate newSize _ :: _ => newSize
  | .read _ _ _ :: earlier => fileSize earlier

namespace RamFsData

variable {api : PwmApi} {s s' : RamFsData} {id : Nat} {c : FileCall} {history : List FileCall}

def fileStep (api : PwmApi) (id : Nat) (s : RamFsData) : FileCall → Option RamFsData
  | .write offset buf pwm => (s.write api id offset buf pwm).map fun r => r.2
  | .truncate newSize pwm => (s.truncate api id newSize pwm).map fun r => r.2
  | .read offset buf pwm => (s.read api id offset buf pwm).map fun r => r.2.2

instance (s : RamFsData) (id : Nat) (P : Finset Ref) : Decidable (s.Enough id P) :=
  inferInstanceAs (Decidable (_ ≤ _))

instance (s : RamFsData) (id newSize : Nat) : Decidable (s.LeavesZeros id newSize) :=
  inferInstanceAs (Decidable (∀ p < _, _))

/-- The caller has the permission, the size stays one that fits the field for it, and there is a free block
for every pointer that the call finds empty. -/
def Granted (api : PwmApi) (id : Nat) (s : RamFsData) : FileCall → Prop
  | .write offset buf pwm => s.checkPermission api (s.nodes id) pwm fsCapCreate = true ∧
      offset + buf.length < 2 ^ 32 ∧ s.Enough id (touched offset buf.length)
  | .truncate newSize pwm => s.checkPermission api (s.nodes id) pwm fsCapWrite = true ∧ newSize < 2 ^ 32
  | .read offset buf pwm => s.checkPermission api (s.nodes id) pwm fsCapRead = true ∧
      s.Enough id (touched offset (min buf.length ((s.nodes id).size - offset)))

instance (api : PwmApi) (id : Nat) (s : RamFsData) : (c : FileCall) → Decidable (Granted api id s c)
  | .write .. | .truncate .. | .read .. => inferInstanceAs (Decidable (_ ∧ _))

/-- A truncation that shortens the file, but not to nothing, leaves no bytes and no freed index block. -/
def LeavesNothing (id : Nat) (s : RamFsData) : FileCall → Prop
  | .truncate newSize _ => 0 < newSize → newSize < (s.nodes id).size →
      s.KeepsIndex id newSize ∧ s.LeavesZeros id newSize
  | .write _ _ _ | .read _ _ _ => True

instance (id : Nat) (s : RamFsData) : (c : FileCall) → Decidable (LeavesNothing id s c)
  | .truncate _ _ => inferInstanceAs (Decidable (_ → _ → _ ∧ _))
  | .write _ _ _ | .read _ _ _ => isTrue trivial

structure Tracks (s : RamFsData) (id : Nat) (history : List FileCall) : Prop where
  ok : s.FileOk id
  bytes : s.byteAt id = lastWritten history
  size : (s.nodes id).size = fileSize history

variable {offset : Nat} {buf path name : List UInt8} {pwm : UInt64} {s₀ : RamFsData}
  {answers : List DCacheResult}

section

variable (h : s.Tracks id history) (hid : id < ramfsMaxNodes)

include h hid

theorem Tracks.write (hg : Granted api id s (.write offset buf pwm)) :
    ∃ s', s.write api id offset buf pwm = some (.ok buf.length, s') ∧
      s'.Tracks id (.write offset buf pwm :: history) := by
  obtain ⟨hperm, hend, henough⟩ := hg
  obtain ⟨s', hloop, hok, hbytes, hsize⟩ := writeLoop_spec le_rfl h.ok hend
    (fun p hle hlt q hq => mem_touched hle hlt hq) henough
  refine ⟨s', ?_, hok, ?_, ?_⟩
  · rw [RamFsData.write, if_neg (Nat.not_le.mpr hid), if_pos hperm, hloop]
    rfl
  · rw [hbytes, h.bytes]
    rfl
  · rw [hsize, h.size]
    rfl

theorem Tracks.read (hg : Granted api id s (.read offset buf pwm)) : ∃ s', s.read api id offset buf pwm =
        some (.ok (min buf.length (fileSize history - offset)),
          (lastWritten history).load offset (min buf.length (fileSize history - offset)) ++
            buf.drop (min buf.length (fileSize history - offset)), s') ∧
      s'.Tracks id (.read offset buf pwm :: history) := by
  obtain ⟨hperm, henough⟩ := hg
  obtain ⟨s', hloop, hok, hbytes, hsize⟩ := readLoop_spec le_rfl h.ok rfl
    (fun p hle hlt q hq => mem_touched hle hlt hq) henough
  refine ⟨s', ?_, hok, hbytes.trans h.bytes, hsize.trans h.size⟩
  rw [RamFsData.read, if_neg (Nat.not_le.mpr hid), if_pos hperm, hloop, h.size, h.bytes]
  rfl

theorem Tracks.truncate {newSize : Nat} (hg : Granted api id s (.truncate newSize pwm))
    (hl : LeavesNothing id s (.truncate newSize pwm)) :
    ∃ s', s.truncate api id newSize pwm = some (.ok (), s') ∧
      s'.Tracks id (.truncate newSize pwm :: history) := by
  obtain ⟨hperm, hnew⟩ := hg
  have hchecks : s.truncate api id newSize pwm =
      if newSize = (s.nodes id).size then some (.ok (), s)
      else (s.resize id newSize).map fun s => (.ok (), s) := by
    rw [RamFsData.truncate, if_neg (Nat.not_le.mpr hid), if_neg (by simp [h.ok.used]), if_neg (by simp [hperm])]
  rw [hchecks]
  by_cases hsame : newSize = (s.nodes id).size
  · rw [if_pos hsame]
    refine ⟨s, rfl, h.ok, ?_, hsame.symm⟩
    funext p
    rw [lastWritten, ← h.bytes, Memory.upTo]
    split
    · rfl
    · exact h.ok.tail p (by omega)
  · obtain ⟨s', hresize, hok, hbytes, hsize⟩ := resize_spec h.ok hnew
      (fun h0 hlt => (hl h0 hlt).1) fun h0 hlt => (hl h0 hlt).2
    rw [if_neg hsame, hresize]
    refine ⟨s', rfl, hok, ?_, hsize⟩
    rw [hbytes, h.bytes]
    rfl

theorem fileStep_tracks (hg : Granted api id s c) (hl : LeavesNothing id s c) :
    ∃ s', fileStep api id s c = some s' ∧ s'.Tracks id (c :: history) := by
  cases c with
  | write offset buf pwm =>
    obtain ⟨s', hcall, hs'⟩ := h.write hid hg
    exact ⟨s', by rw [fileStep, hcall]; rfl, hs'⟩
  | truncate newSize pwm =>
    obtain ⟨s', hcall, hs'⟩ := h.truncate hid hg hl
    exact ⟨s', by rw [fileStep, hcall]; rfl, hs'⟩
  | read offset buf pwm =>
    obtain ⟨s', hcall, hs'⟩ := h.read hid hg
    exact ⟨s', by rw [fileStep, hcall]; rfl, hs'⟩

end

theorem run_tracks (hid : id < ramfsMaxNodes) {calls : List FileCall} (h : s.Tracks id history)
    (hcalls : Along (fileStep api id) (fun s c => Granted api id s c ∧ LeavesNothing id s c) s calls) :
    ∃ s', runOpt (fileStep api id) s calls = some s' ∧ s'.Tracks id (calls.reverse ++ history) := by
  induction calls generalizing s history with
  | nil => exact ⟨s, rfl, h⟩
  | cons c calls ih =>
    obtain ⟨s₁, hstep, hs₁⟩ := fileStep_tracks h hid hcalls.1.1 hcalls.1.2
    obtain ⟨s', hrun, hs'⟩ := ih hs₁ (hcalls.2 s₁ hstep)
    refine ⟨s', by rw [runOpt_cons, hstep]; exact hrun, ?_⟩
    rw [List.reverse_cons, List.append_assoc]
    exact hs'

/-- A new file has one block of its own, which is still clear: its entry went into the block of the
directory, which has room for it. -/
theorem createFile_fresh (hs : s₀.Intact)
    (hroom : Contained api s₀ (.createFile answers path name pwm)) (hfree : ¬ s₀.NoFree)
    (h : s₀.createFile api answers path name pwm = some (some id, s)) :
    id < ramfsMaxNodes ∧ ∃ block, s.nodes id = freshNode id .file pwm block 1 ∧ block ≠ u32Max ∧
      ∀ a, a / ramfsBlockSize = block → s.dataArea a = 0 := by
  rcases createFile_cases h with hnone | ⟨parent, id', s₁, block, hcheck, hnew, hnone | ⟨s₂, hadd, hmade⟩⟩
  · cases hnone
  · cases hnone
  · cases hmade
    obtain ⟨hused, -, hmax⟩ := checkParent_ok hcheck
    have hne := hnew.ne_used hused
    have hparent := hnew.others parent hne
    obtain ⟨-, hnodes, -, hdata⟩ := addEntry_intact (hnew.intact hs)
      (hparent ▸ hroom parent (foundParent_ok hcheck)) (hparent ▸ hmax) hadd
    rcases hnew.taken with ⟨hfull, -⟩ | ⟨hunmarked, hblock, hclear⟩
    · exact absurd hfull hfree
    · refine ⟨hnew.inRange, block, (hnodes id hne.symm).trans hnew.node, hblock, fun a ha => ?_⟩
      rw [hdata a, hclear a ha]
      rw [hparent, ha]
      rintro rfl
      exact hunmarked (dirBlock_marked hs.sound hmax)

theorem fresh_byteAt {block : Nat} (hnode : s.nodes id = freshNode id .file pwm block 1)
    (hclear : ∀ a, a / ramfsBlockSize = block → s.dataArea a = 0) (p : Nat) :
    s.byteAt id p = 0 := by
  have hpointer := freshNode_pointer id .file pwm block 1 s.dataArea (leafRef (p / ramfsBlockSize))
  rw [← hnode] at hpointer
  by_cases h0 : s.pointer id (leafRef (p / ramfsBlockSize)) = 0
  · exact byteAt_hole h0
  · rw [byteAt_block rfl h0]
    apply hclear
    rw [block_of_addr]
    rw [pointer, hpointer] at h0 ⊢
    split at h0
    · rename_i hfirst
      exact if_pos hfirst
    · exact absurd rfl h0

theorem createFile_tracks (hs : s₀.Intact)
    (hroom : Contained api s₀ (.createFile answers path name pwm)) (hfree : ¬ s₀.NoFree)
    (h : s₀.createFile api answers path name pwm = some (some id, s)) :
    id < ramfsMaxNodes ∧ s.Tracks id [] := by
  obtain ⟨hid, block, hnode, hblock, hclear⟩ := createFile_fresh hs hroom hfree h
  have hbytes := fresh_byteAt hnode hclear
  have hsize : (s.nodes id).size = 0 := by rw [hnode]; rfl
  refine ⟨hid, ⟨⟨?_, ?_, ?_⟩, ?_, fun p _ => hbytes p⟩, funext hbytes, hsize⟩
  · exact (createFile_keeps hs hroom h).1.sound.mono (Set.subset_univ _)
  · rw [pointer_first, hnode]
    exact hblock
  · rw [hnode]
    rfl
  · rw [hsize]
    decide

def ReadsBack (api : PwmApi) (id : Nat) (s : RamFsData) (history : List FileCall) : Prop :=
  (s.nodes id).size = fileSize history ∧ ∀ offset buf pwm, Granted api id s (.read offset buf pwm) →
    ∃ s', s.read api id offset buf pwm = some (.ok (min buf.length (fileSize history - offset)),
        (lastWritten history).load offset (min buf.length (fileSize history - offset)) ++
          buf.drop (min buf.length (fileSize history - offset)), s')

/-- A file reads back what was last written, as long as no truncation leaves bytes behind the new end. -/
theorem file_reads_last_written {before : List RamfsCall} {s₀ : RamFsData}
    (hbefore : Along (ramfsStep api) (Contained api) mount before)
    (hmount : runOpt (ramfsStep api) mount before = some s₀)
    {answers : List DCacheResult} {path name : List UInt8} {pwm : UInt64}
    (hroom : Contained api s₀ (.createFile answers path name pwm)) (hfree : ¬ s₀.NoFree)
    (hcreate : s₀.createFile api answers path name pwm = some (some id, s)) {calls : List FileCall}
    (hcalls : Along (fileStep api id) (fun s c => Granted api id s c ∧ LeavesNothing id s c) s calls) :
    ∃ s', runOpt (fileStep api id) s calls = some s' ∧ ReadsBack api id s' calls.reverse := by
  obtain ⟨hid, hnew⟩ := createFile_tracks (run_intact hbefore hmount) hroom hfree hcreate
  obtain ⟨s', hrun, hs'⟩ := run_tracks hid hnew hcalls
  rw [List.append_nil] at hs'
  refine ⟨s', hrun, hs'.size, fun offset buf pwm hg => ?_⟩
  obtain ⟨s'', hread, -⟩ := hs'.read hid hg
  exact ⟨s'', hread⟩

def regrownCalls : List FileCall := [.write 0 [7, 8, 9] 1, .truncate 1 1, .truncate 3 1]

theorem regrown_file_reads : ∃ s s', mount.createFile openApi [] [47] [97] 1 = some (some 2, s) ∧
    runOpt (fileStep openApi 2) s regrownCalls = some s' ∧ ReadsBack openApi 2 s' regrownCalls.reverse := by
  have hmade : ((mount.createFile openApi [] [47] [97] 1).map fun r =>
      (r.1, decide (Along (fileStep openApi 2)
        (fun s c => Granted openApi 2 s c ∧ LeavesNothing 2 s c) r.2 regrownCalls))) = some (some 2, true) := by
    decide +kernel
  obtain ⟨⟨made, s⟩, hcreate, hfacts⟩ := map_eq_some_iff.mp hmade
  simp only [Prod.mk.injEq, decide_eq_true_eq] at hfacts
  obtain ⟨rfl, hcalls⟩ := hfacts
  obtain ⟨s', hrun, hreads⟩ :=
    @file_reads_last_written openApi s 2 [] mount trivial rfl [] [47] [97] 1 (by decide +kernel)
      (by decide +kernel) hcreate regrownCalls hcalls
  exact ⟨s, s', hcreate, hrun, hreads⟩

def staleCalls : List FileCall := [.write 4096 [7] 1, .truncate 1 1, .truncate 4097 1]

theorem stale_byte_read : ¬ ∀ api before s₀ answers path name pwm id s calls,
      runOpt (ramfsStep api) mount before = some s₀ → ¬ s₀.NoFree →
      s₀.createFile api answers path name pwm = some (some id, s) →
      Along (fileStep api id) (Granted api id) s calls →
      ∃ s', runOpt (fileStep api id) s calls = some s' ∧ ReadsBack api id s' calls.reverse := by
  intro h
  have hmade : ((mount.createFile openApi [] [47] [97] 1).map fun r =>
      (r.1, decide (Along (fileStep openApi 2) (Granted openApi 2) r.2 staleCalls))) = some (some 2, true) := by
    decide +kernel
  have hread : (((mount.createFile openApi [] [47] [97] 1).bind fun r =>
      runOpt (fileStep openApi 2) r.2 staleCalls).map fun s =>
        decide (Granted openApi 2 s (.read 4096 [0] 1))) = some true := by
    decide +kernel
  have hanswer : ((((mount.createFile openApi [] [47] [97] 1).bind fun r =>
      runOpt (fileStep openApi 2) r.2 staleCalls).bind fun s => s.read openApi 2 4096 [0] 1).map fun answer =>
        answer.2.1) = some [7] := by
    decide +kernel
  obtain ⟨⟨made, s⟩, hcreate, hfacts⟩ := map_eq_some_iff.mp hmade
  simp only [Prod.mk.injEq, decide_eq_true_eq] at hfacts
  obtain ⟨rfl, hgranted⟩ := hfacts
  obtain ⟨s', hrun, -, hreads⟩ :=
    h openApi [] mount [] [47] [97] 1 2 s staleCalls rfl (by decide +kernel) hcreate hgranted
  simp only [hcreate, bind_some, hrun, map_some, some.injEq, decide_eq_true_eq] at hread
  obtain ⟨s'', hback⟩ := hreads 4096 [0] 1 hread
  simp only [hcreate, bind_some, hrun, hback, map_some, some.injEq] at hanswer
  exact absurd hanswer (by decide)

end RamFsData

end AntX.Ramfs
