import AntX.Lib.Run

/-! The undo log of a barrier domain, `framework/barrier/undo_log.rs`: it keeps for every field its
value at the beginning of each generation that recorded it, through two compactions. -/

namespace AntX.Barrier

def maxUndoEntries : Nat := 256

def fnv1a32 (data : List UInt8) : UInt32 :=
  data.foldl (fun h b => (h ^^^ b.toUInt32) * 16777619) 2166136261

abbrev Memory := Nat → List UInt8

structure UndoEntry where
  generation : Nat
  fieldPtr : Nat
  oldValue : List UInt8
  valueSize : Nat
  checksum : UInt32
deriving DecidableEq, Repr

structure UndoLog where
  -- the first `count` slots of the array, the oldest entry first
  entries : List UndoEntry := []
  currentGeneration : Nat := 0
deriving DecidableEq, Repr

def readField (field : List UInt8) (size : Nat) : List UInt8 :=
  field.take size ++ List.replicate (8 - size) 0

def writeField (field bytes : List UInt8) (size : Nat) : List UInt8 :=
  bytes.take size ++ field.drop size

def computeChecksum (field : List UInt8) (size : Nat) : UInt32 := fnv1a32 (field.take size)

namespace UndoLog

/-- The walk of `emergency_compact` from the newest entry; `seen` has 64 slots. -/
def keptOf (keepGen : Nat) : List UndoEntry → List Nat → List UndoEntry
  | [], _ => []
  | e :: es, seen =>
    if keepGen ≤ e.generation then
      if e.fieldPtr ∈ seen then keptOf keepGen es seen
      else e :: keptOf keepGen es (if seen.length < 64 then seen ++ [e.fieldPtr] else seen)
    else e :: keptOf keepGen es seen

variable (log : UndoLog)

def emergencyCompact (keepGen : Nat) : UndoLog :=
  { log with entries := (keptOf keepGen log.entries.reverse []).reverse }

def changesFrom : Nat → Nat → List UndoEntry → List Nat
  | _, _, [] => []
  | i, prevGen, e :: es =>
    if e.generation ≠ prevGen then i :: changesFrom (i + 1) e.generation es
    else changesFrom (i + 1) prevGen es

def genStarts : List Nat := (changesFrom 0 (2 ^ 64 - 1) log.entries).take 16

def compactKeeping (keepGenerations : Nat) : UndoLog :=
  let genCount := log.genStarts.length
  let keep := min keepGenerations genCount
  if keep < genCount ∧ 0 < keep then
    { log with entries := log.entries.drop (log.genStarts.getD (genCount - keep) 0) }
  else log

def compact : UndoLog := log.compactKeeping 4

def findRecorded (generation fieldPtr : Nat) : List UndoEntry → Bool
  | [] => false
  | e :: es =>
    if e.generation < generation then false
    else if e.fieldPtr = fieldPtr then true
    else findRecorded generation fieldPtr es

def lastRecorded (fieldPtr : Nat) : Bool :=
  match log.entries.getLast? with
  | none => false
  | some last => last.fieldPtr == fieldPtr && last.generation == log.currentGeneration

def alreadyRecorded (fieldPtr : Nat) : Bool :=
  log.lastRecorded fieldPtr || findRecorded log.currentGeneration fieldPtr log.entries.reverse

def newEntry (fieldPtr : Nat) (oldValue : List UInt8) : UndoEntry :=
  let size := min oldValue.length 8
  let oldBytes := readField oldValue size
  { generation := log.currentGeneration, fieldPtr, oldValue := oldBytes, valueSize := size,
    checksum := fnv1a32 (oldBytes.take size) }

def makeRoom : UndoLog :=
  if maxUndoEntries ≤ log.entries.length then log.emergencyCompact (log.currentGeneration - 1)
  else log

/-- `none` is the bounds check of `entries[count]` that fails. -/
def record (fieldPtr : Nat) (oldValue : List UInt8) : Option UndoLog :=
  if log.alreadyRecorded fieldPtr then some log
  else if log.makeRoom.entries.length < maxUndoEntries then
    some { log.makeRoom with
      entries := log.makeRoom.entries ++ [log.newEntry fieldPtr oldValue] }
  else none

def undo (memory : Memory) (e : UndoEntry) : Memory :=
  if computeChecksum (memory e.fieldPtr) e.valueSize = e.checksum then
    Function.update memory e.fieldPtr (writeField (memory e.fieldPtr) e.oldValue e.valueSize)
  else memory

open List

/-- The loop of `rollback_to` from the newest entry: what is left of the log, the memory and
the number of entries taken off. -/
def rollbackFrom (targetGeneration : Nat) : List UndoEntry → Memory → List UndoEntry × Memory × Nat
  | [], memory => ([], memory, 0)
  | e :: es, memory =>
    if e.generation < targetGeneration then (e :: es, memory, 0)
    else
      let (rest, memory, rolledBack) := rollbackFrom targetGeneration es (undo memory e)
      (rest, memory, rolledBack + 1)

def rollbackTo (memory : Memory) (targetGeneration : Nat) : UndoLog × Memory × Nat :=
  let (rest, memory, rolledBack) := rollbackFrom targetGeneration log.entries.reverse memory
  let log := { log with entries := rest.reverse }
  (if maxUndoEntries / 2 < rest.length then log.compact else log, memory, rolledBack)

theorem record_length_le {log log' : UndoLog} {p : Nat} {v : List UInt8}
    (hlen : log.entries.length ≤ maxUndoEntries) (hr : log.record p v = some log') :
    log'.entries.length ≤ maxUndoEntries := by
  rw [record] at hr
  split at hr
  · cases hr
    exact hlen
  · split at hr
    · next hroom =>
      cases hr
      rw [length_append]
      exact hroom
    · cases hr

theorem findRecorded_iff {generation p : Nat} {es : List UndoEntry}
    (hs : es.Pairwise fun a b => b.generation ≤ a.generation)
    (hle : ∀ e ∈ es, e.generation ≤ generation) :
    findRecorded generation p es = true ↔ ∃ e ∈ es, e.fieldPtr = p ∧ e.generation = generation := by
  induction es with
  | nil => simp [findRecorded]
  | cons e es ih =>
    rw [pairwise_cons] at hs
    have he := hle e (by simp)
    rw [findRecorded]
    split
    · refine iff_of_false Bool.false_ne_true ?_
      rintro ⟨x, hx, _, hg⟩
      rcases mem_cons.mp hx with rfl | hx
      · omega
      · have := hs.1 x hx
        omega
    · split
      · next hp => exact iff_of_true rfl ⟨e, by simp, hp, by omega⟩
      · next hp =>
        rw [ih hs.2 fun x hx => hle x (by simp [hx])]
        simp [hp]

theorem alreadyRecorded_iff {log : UndoLog} {p : Nat}
    (hs : log.entries.Pairwise fun a b => a.generation ≤ b.generation)
    (hle : ∀ e ∈ log.entries, e.generation ≤ log.currentGeneration) :
    log.alreadyRecorded p = true ↔
      ∃ e ∈ log.entries, e.fieldPtr = p ∧ e.generation = log.currentGeneration := by
  have hf := findRecorded_iff (p := p) (pairwise_reverse.mpr hs) fun e he => hle e (mem_reverse.mp he)
  simp only [mem_reverse] at hf
  rw [alreadyRecorded, Bool.or_eq_true, hf]
  refine ⟨fun h => ?_, Or.inr⟩
  rcases h with h | h
  · rw [lastRecorded] at h
    split at h
    · cases h
    · next last hl =>
      rw [Bool.and_eq_true, beq_iff_eq, beq_iff_eq] at h
      exact ⟨last, mem_of_getLast? hl, h⟩
  · exact h

end UndoLog

open Function List
open AntX.Lib (run run_invariant Guarded)

namespace UndoEntry

def value (e : UndoEntry) : List UInt8 := e.oldValue.take e.valueSize

structure Fits (size : Nat → Nat) (e : UndoEntry) : Prop where
  valueSize : e.valueSize = size e.fieldPtr
  length : e.value.length = size e.fieldPtr
  checksum : e.checksum = fnv1a32 e.value

end UndoEntry

variable {log : UndoLog} {p g : Nat} {v : List UInt8} {e : UndoEntry} {memory : Memory} {s : History}

namespace UndoLog

def since (g : Nat) (es : List UndoEntry) : List UndoEntry := es.filter fun e => decide (g ≤ e.generation)

theorem mem_since {es : List UndoEntry} : e ∈ since g es ↔ e ∈ es ∧ g ≤ e.generation := by
  rw [since, mem_filter, decide_eq_true_eq]

theorem newEntry_value (h8 : v.length ≤ 8) : (log.newEntry p v).value = v := by
  simp [UndoEntry.value, newEntry, readField, Nat.min_eq_left h8]

section Undo

variable {size : Nat → Nat} {m : Memory} {es : List UndoEntry}

theorem undo_of_fits (he : e.Fits size) (hm : ∀ p, (m p).length = size p) : undo m e =
      if fnv1a32 (m e.fieldPtr) = fnv1a32 e.value then update m e.fieldPtr e.value else m := by
  have htake : (m e.fieldPtr).take e.valueSize = m e.fieldPtr := by
    rw [he.valueSize, ← hm, take_length]
  have hdrop : (m e.fieldPtr).drop e.valueSize = [] := by
    rw [he.valueSize, ← hm, drop_length]
  rw [undo, computeChecksum, htake, he.checksum, writeField, hdrop, append_nil]
  rfl

theorem undo_other (hp : e.fieldPtr ≠ p) : undo m e p = m p := by
  rw [undo]
  split
  · exact update_of_ne hp.symm _ _
  · rfl

theorem undo_keeps (he : e.Fits size) (hm : ∀ p, (m p).length = size p) (p : Nat) :
    (undo m e p).length = size p ∧ fnv1a32 (undo m e p) = fnv1a32 (m p) := by
  by_cases hp : e.fieldPtr = p
  · subst hp
    rw [undo_of_fits he hm]
    split
    · next hsum =>
      rw [update_self]
      exact ⟨he.length, hsum.symm⟩
    · exact ⟨hm _, rfl⟩
  · rw [undo_other hp]
    exact ⟨hm p, rfl⟩

theorem foldl_undo_keeps (hes : ∀ e ∈ es, e.Fits size) (hm : ∀ p, (m p).length = size p) (p : Nat) :
    (es.foldl undo m p).length = size p ∧ fnv1a32 (es.foldl undo m p) = fnv1a32 (m p) := by
  induction es generalizing m with
  | nil => exact ⟨hm p, rfl⟩
  | cons e es ih =>
    have he := undo_keeps (hes e (by simp)) hm
    obtain ⟨hl, hs⟩ := ih (fun x hx => hes x (by simp [hx])) fun q => (he q).1
    exact ⟨hl, hs.trans (he p).2⟩

theorem foldl_undo_other (hp : ∀ e ∈ es, e.fieldPtr ≠ p) : es.foldl undo m p = m p := by
  induction es generalizing m with
  | nil => rfl
  | cons e es ih =>
    rw [foldl_cons, ih fun x hx => hp x (by simp [hx])]
    exact undo_other (hp e (by simp))

theorem foldl_undo_last {newer older : List UndoEntry}
    (hes : ∀ x ∈ newer ++ e :: older, x.Fits size) (hm : ∀ p, (m p).length = size p)
    (hold : ∀ x ∈ older, x.fieldPtr ≠ e.fieldPtr) :
    (newer ++ e :: older).foldl undo m e.fieldPtr = e.value ↔ fnv1a32 (m e.fieldPtr) = fnv1a32 e.value := by
  constructor
  · intro h
    rw [← h]
    exact (foldl_undo_keeps hes hm e.fieldPtr).2.symm
  · intro hsum
    have hnewer (p : Nat) : (newer.foldl undo m p).length = size p ∧
        fnv1a32 (newer.foldl undo m p) = fnv1a32 (m p) :=
      foldl_undo_keeps (fun x hx => hes x (by simp [hx])) hm p
    rw [foldl_append, foldl_cons, foldl_undo_other hold,
      undo_of_fits (hes e (by simp)) fun p => (hnewer p).1, if_pos ((hnewer _).2.trans hsum),
      update_self]

theorem rollbackFrom_memory (hs : es.Pairwise fun a b => b.generation ≤ a.generation) :
    (rollbackFrom g es m).2.1 = (since g es).foldl undo m := by
  induction es generalizing m with
  | nil => rfl
  | cons e es ih =>
    rw [pairwise_cons] at hs
    rw [rollbackFrom]
    split
    · next hlt =>
      have hnone : since g (e :: es) = [] := by
        refine eq_nil_iff_forall_not_mem.2 fun x hx => ?_
        obtain ⟨hx, hge⟩ := mem_since.1 hx
        rcases mem_cons.mp hx with rfl | hx
        · omega
        · have := hs.1 x hx
          omega
      rw [hnone]
      rfl
    · next hge =>
      rw [since, filter_cons_of_pos (by simpa using hge)]
      exact ih hs.2

end Undo

end UndoLog

structure History where
  log : UndoLog := {}
  memory : Memory
  began : Nat → Memory
  recorded : List (Nat × Nat) := []

namespace History

def start (memory : Memory) : History := { memory, began := fun _ => memory }

inductive Change where
  | advance
  | record (p : Nat)
  | modify (p : Nat) (v : List UInt8)
deriving DecidableEq, Repr

def advance (s : History) : History :=
  let next := s.log.currentGeneration + 1
  { s with
    log := { s.log with currentGeneration := next }
    began := update s.began next s.memory }

def record (s : History) (p : Nat) : Option History :=
  (s.log.record p (s.memory p)).map fun log =>
    { s with log, recorded := (s.log.currentGeneration, p) :: s.recorded }

def assign (s : History) (p : Nat) (v : List UInt8) : History :=
  let old := s.memory p
  { s with memory := update s.memory p (v.take old.length ++ old.drop v.length) }

-- after a panic of `record` nothing more happens
def step (s : History) : Change → History
  | .advance => s.advance
  | .record p => (s.record p).getD s
  | .modify p v =>
    match s.record p with
    | some s => s.assign p v
    | none => s

/-- The recording of the change adds nothing to the log, or finds a free slot. -/
def HasRoom (s : History) : Change → Prop
  | .advance => True
  | .record p | .modify p _ =>
    s.log.alreadyRecorded p = true ∨ s.log.entries.length < maxUndoEntries

instance (s : History) (c : Change) : Decidable (s.HasRoom c) := by
  cases c <;> unfold HasRoom <;> infer_instance

def extend (s : History) (p : Nat) : History :=
  { s with log := { s.log with entries := s.log.entries ++ [s.log.newEntry p (s.memory p)] } }

def RecordedSince (s : History) (g p : Nat) : Prop := ∃ h, g ≤ h ∧ (h, p) ∈ s.recorded

def RecordedIn (s : History) (h p : Nat) : Prop :=
  ∃ e ∈ s.log.entries, e.fieldPtr = p ∧ e.generation = h

/-- A field that a generation did not record kept its value through it. -/
structure Faithful (s : History) : Prop where
  small : ∀ p, (s.memory p).length ≤ 8
  sized : ∀ h p, (s.began h p).length = (s.memory p).length
  sorted : s.log.entries.Pairwise fun a b => a.generation ≤ b.generation
  current : ∀ e ∈ s.log.entries, e.generation ≤ s.log.currentGeneration
  fits : ∀ e ∈ s.log.entries, e.Fits fun p => (s.memory p).length
  genuine : ∀ e ∈ s.log.entries, e.value = s.began e.generation e.fieldPtr
  kept : ∀ p, ¬ s.RecordedIn s.log.currentGeneration p → s.memory p = s.began s.log.currentGeneration p
  keptThrough : ∀ h < s.log.currentGeneration, ∀ p, ¬ s.RecordedIn h p → s.began (h + 1) p = s.began h p
  logged : ∀ x ∈ s.recorded, s.RecordedIn x.1 x.2

theorem faithful_start (h8 : ∀ p, (memory p).length ≤ 8) : (start memory).Faithful where
  small := h8
  sized _ _ := rfl
  sorted := List.Pairwise.nil
  current _ he := by cases he
  fits _ he := by cases he
  genuine _ he := by cases he
  kept _ _ := rfl
  keptThrough _ _ _ _ := rfl
  logged _ hx := by cases hx

section

variable (h : s.Faithful)

include h

theorem Faithful.advance : s.advance.Faithful where
  small := h.small
  sized k p := by
    by_cases hk : k = s.log.currentGeneration + 1
    · subst hk
      simp [History.advance]
    · simpa [History.advance, update_of_ne hk] using h.sized k p
  sorted := h.sorted
  current e he := Nat.le_succ_of_le (h.current e he)
  fits := h.fits
  genuine e he := by
    have hne : e.generation ≠ s.log.currentGeneration + 1 := by
      have := h.current e he
      omega
    simpa [History.advance, update_of_ne hne] using h.genuine e he
  kept p _ := by simp [History.advance]
  keptThrough k hk p hp := by
    have hk' : k ≠ s.log.currentGeneration + 1 := Nat.ne_of_lt hk
    have hle : k ≤ s.log.currentGeneration := Nat.lt_succ_iff.mp hk
    simp only [History.advance, update_of_ne hk']
    -- the generation that ends here is the one `kept` speaks about
    rcases Nat.lt_or_eq_of_le hle with hlt | rfl
    · rw [update_of_ne (by omega)]
      exact h.keptThrough k hlt p hp
    · rw [update_self]
      exact h.kept p hp
  logged := h.logged

open UndoLog

theorem Faithful.alreadyRecorded_iff (p : Nat) :
    s.log.alreadyRecorded p = true ↔ s.RecordedIn s.log.currentGeneration p :=
  UndoLog.alreadyRecorded_iff h.sorted h.current

theorem Faithful.extend (hp : ¬ s.RecordedIn s.log.currentGeneration p) : (s.extend p).Faithful := by
  have hmono (k q : Nat) (hk : s.RecordedIn k q) : (s.extend p).RecordedIn k q := by
    obtain ⟨e, he, hx⟩ := hk
    exact ⟨e, mem_append_left _ he, hx⟩
  have hall {P : UndoEntry → Prop} (hold : ∀ e ∈ s.log.entries, P e)
      (hnew : P (s.log.newEntry p (s.memory p))) : ∀ e ∈ (s.extend p).log.entries, P e :=
    forall_mem_append.2 ⟨hold, forall_mem_singleton.2 hnew⟩
  refine ⟨h.small, h.sized, ?_, ?_, ?_, ?_, ?_, ?_, ?_⟩
  · rw [History.extend, pairwise_append]
    refine ⟨h.sorted, pairwise_singleton _ _, fun a ha b hb => ?_⟩
    rw [mem_singleton.mp hb]
    exact h.current a ha
  · exact hall h.current (Nat.le_refl _)
  · refine hall h.fits ⟨Nat.min_eq_left (h.small p), ?_, rfl⟩
    rw [newEntry_value (h.small p)]
    rfl
  · refine hall h.genuine ?_
    rw [newEntry_value (h.small p)]
    exact h.kept p hp
  · exact fun q hq => h.kept q fun hr => hq (hmono _ _ hr)
  · exact fun k hk q hq => h.keptThrough k hk q fun hr => hq (hmono _ _ hr)
  · exact fun x hx => hmono _ _ (h.logged x hx)

theorem Faithful.note (hp : s.RecordedIn s.log.currentGeneration p) :
    Faithful { s with recorded := (s.log.currentGeneration, p) :: s.recorded } := by
  refine ⟨h.small, h.sized, h.sorted, h.current, h.fits, h.genuine, h.kept, h.keptThrough, ?_⟩
  intro x hx
  rcases mem_cons.mp hx with rfl | hx
  · exact hp
  · exact h.logged x hx

theorem Faithful.record (hroom : s.log.alreadyRecorded p = true ∨ s.log.entries.length < maxUndoEntries) :
    ∃ s', s.record p = some s' ∧ s'.Faithful ∧ s'.RecordedIn s'.log.currentGeneration p := by
  by_cases hr : s.log.alreadyRecorded p = true
  · have hp := (h.alreadyRecorded_iff p).mp hr
    refine ⟨_, ?_, h.note hp, hp⟩
    rw [History.record, UndoLog.record, if_pos hr, Option.map_some]
  · have hlen := hroom.resolve_left hr
    have hp : ¬ s.RecordedIn s.log.currentGeneration p := fun hp =>
      hr ((h.alreadyRecorded_iff p).mpr hp)
    have hnew : (s.extend p).RecordedIn s.log.currentGeneration p :=
      ⟨s.log.newEntry p (s.memory p), by simp [History.extend], rfl, rfl⟩
    refine ⟨_, ?_, (h.extend hp).note hnew, hnew⟩
    have hmr : s.log.makeRoom = s.log := if_neg (Nat.not_le.mpr hlen)
    rw [History.record, UndoLog.record, hmr, if_neg hr, if_pos hlen, Option.map_some]
    rfl

omit h in
theorem assign_length (s : History) (p q : Nat) (v : List UInt8) :
    ((s.assign p v).memory q).length = (s.memory q).length := by
  by_cases hq : q = p
  · subst hq
    simp only [assign, update_self, length_append, length_take, length_drop]
    omega
  · simp only [assign, update_of_ne hq]

theorem Faithful.assign (v : List UInt8) (hp : s.RecordedIn s.log.currentGeneration p) :
    (s.assign p v).Faithful where
  small q := by
    rw [assign_length]
    exact h.small q
  sized k q := by
    rw [assign_length]
    exact h.sized k q
  sorted := h.sorted
  current := h.current
  fits e he := by
    simp only [assign_length]
    exact h.fits e he
  genuine := h.genuine
  kept q hq := by
    have hne : q ≠ p := by
      rintro rfl
      exact hq hp
    simp only [History.assign, update_of_ne hne]
    exact h.kept q hq
  keptThrough := h.keptThrough
  logged := h.logged

theorem Faithful.step {c : Change} (hroom : s.HasRoom c) : (s.step c).Faithful := by
  cases c with
  | advance => exact h.advance
  | record p =>
    obtain ⟨s', hr, hs', -⟩ := h.record hroom
    rw [History.step, hr, Option.getD_some]
    exact hs'
  | modify p v =>
    obtain ⟨s', hr, hs', hp⟩ := h.record hroom
    simp only [History.step, hr]
    exact hs'.assign v hp

omit h in
theorem faithful_run {cs : List Change} (h8 : ∀ p, (memory p).length ≤ 8)
    (hg : Guarded step HasRoom (start memory) cs) : (run step (start memory) cs).Faithful :=
  hg.run_invariant (faithful_start h8) fun _ _ h hroom => h.step hroom

theorem Faithful.began_eq {k : Nat} (hgk : g ≤ k) (hk : k ≤ s.log.currentGeneration)
    (hno : ∀ j, g ≤ j → j < k → ¬ s.RecordedIn j p) : s.began k p = s.began g p := by
  induction hgk with
  | refl => rfl
  | @step k hgk ih =>
    rw [h.keptThrough k hk p (hno k hgk (Nat.lt_succ_self k))]
    exact ih (Nat.le_of_succ_le hk) fun j hj hjk => hno j hj (Nat.lt_succ_of_lt hjk)

theorem Faithful.oldest (hp : s.RecordedSince g p) : ∃ older e newer,
      since g s.log.entries = older ++ e :: newer ∧
      e.fieldPtr = p ∧ (∀ x ∈ older, x.fieldPtr ≠ p) ∧ e.value = s.began g p := by
  obtain ⟨k, hgk, hk⟩ := hp
  obtain ⟨x, hx, hxp, hxk⟩ := h.logged _ hk
  obtain ⟨e, he⟩ : ∃ e, (since g s.log.entries).find? (fun x => decide (x.fieldPtr = p)) = some e := by
    rw [← Option.isSome_iff_exists, find?_isSome]
    exact ⟨x, mem_since.2 ⟨hx, hxk ▸ hgk⟩, by simpa using hxp⟩
  obtain ⟨hep, older, newer, hsplit, hold⟩ := find?_eq_some_iff_append.mp he
  have hep : e.fieldPtr = p := by simpa using hep
  have hold : ∀ x ∈ older, x.fieldPtr ≠ p := by simpa using hold
  refine ⟨older, e, newer, hsplit, hep, hold, ?_⟩
  obtain ⟨hmem, hge⟩ := mem_since.1 (mem_of_find?_eq_some he)
  rw [h.genuine e hmem, hep]
  apply h.began_eq hge (h.current e hmem)
  -- an entry of the field from before would stand among `older`
  rintro j hgj hje ⟨y, hy, hyp, hyj⟩
  have hyf : y ∈ older ++ e :: newer := hsplit ▸ mem_since.2 ⟨hy, hyj ▸ hgj⟩
  have hsorted := h.sorted.filter fun e => decide (g ≤ e.generation)
  rw [← since, hsplit, pairwise_append, pairwise_cons] at hsorted
  rcases mem_append.mp hyf with hyf | hyf
  · exact hold y hyf hyp
  · rcases mem_cons.mp hyf with rfl | hyf
    · omega
    · have := hsorted.2.1.1 y hyf
      omega

theorem Faithful.rollback_iff (hp : s.RecordedSince g p) : (s.log.rollbackTo s.memory g).2.1 p = s.began g p ↔
      fnv1a32 (s.memory p) = fnv1a32 (s.began g p) := by
  obtain ⟨older, e, newer, hsplit, rfl, hold, hval⟩ := h.oldest hp
  have hfits : ∀ x ∈ newer.reverse ++ e :: older.reverse, x.Fits fun p => (s.memory p).length := by
    intro x hx
    have hx' : x ∈ older ++ e :: newer := by
      simp only [mem_append, mem_cons, mem_reverse] at hx ⊢
      rcases hx with hx | hx | hx
      · exact Or.inr (Or.inr hx)
      · exact Or.inr (Or.inl hx)
      · exact Or.inl hx
    rw [← hsplit] at hx'
    exact h.fits x (mem_since.1 hx').1
  rw [rollbackTo, rollbackFrom_memory (pairwise_reverse.mpr h.sorted), since, filter_reverse, ← since,
    hsplit, reverse_append, reverse_cons, append_assoc, singleton_append, ← hval]
  exact foldl_undo_last hfits (fun _ => rfl) fun x hx => hold x (mem_reverse.mp hx)

end

theorem step_length_le (c : Change) (hs : s.log.entries.length ≤ maxUndoEntries) :
    (s.step c).log.entries.length ≤ maxUndoEntries := by
  have hrec {p : Nat} {s' : History} (hr : s.record p = some s') :
      s'.log.entries.length ≤ maxUndoEntries := by
    rw [History.record, Option.map_eq_some_iff] at hr
    obtain ⟨log, hlog, rfl⟩ := hr
    exact UndoLog.record_length_le hs hlog
  cases c with
  | advance => exact hs
  | record p | modify p v =>
    rw [History.step]
    cases hr : s.record p with
    | none => exact hs
    | some s' =>
      have h := hrec hr
      exact h

theorem run_length_le (memory : Memory) (cs : List Change) :
    (run step (start memory) cs).log.entries.length ≤ maxUndoEntries :=
  run_invariant (P := fun s : History => s.log.entries.length ≤ maxUndoEntries)
    (fun _ c => step_length_le c) (Nat.zero_le _) cs

/-- The log never outgrows its array. As long as every recording finds room, a rollback gives a
field its value from the beginning of the generation exactly when the value it has then has
the same checksum. -/
theorem rollback_restores_iff_checksum (memory : Memory) (h8 : ∀ p, (memory p).length ≤ 8)
    (cs : List Change) :
    (run step (start memory) cs).log.entries.length ≤ maxUndoEntries ∧
      (Guarded step HasRoom (start memory) cs → ∀ g p, (run step (start memory) cs).RecordedSince g p →
          (((run step (start memory) cs).log.rollbackTo (run step (start memory) cs).memory g).2.1 p =
                (run step (start memory) cs).began g p ↔
            fnv1a32 ((run step (start memory) cs).memory p) =
              fnv1a32 ((run step (start memory) cs).began g p))) :=
  ⟨run_length_le memory cs, fun hg _ _ hp => (faithful_run h8 hg).rollback_iff hp⟩

def twoFields : Memory := fun p => if p = 0 then [197, 231, 50, 165] else [5]

def collidingRun : List Change :=
  [.advance, .modify 0 [243, 63, 57, 138], .advance, .modify 1 [9], .record 0]

theorem rollback_restores_iff_checksum_colliding :
    (run step (start twoFields) collidingRun).memory 0 = [243, 63, 57, 138] ∧
      ((run step (start twoFields) collidingRun).log.rollbackTo
        (run step (start twoFields) collidingRun).memory 1).2.1 0 = [197, 231, 50, 165] := by
  refine ⟨by decide +kernel, ?_⟩
  have h8 : ∀ p, (twoFields p).length ≤ 8 := by
    intro p
    rw [twoFields]
    split <;> decide
  have h := (rollback_restores_iff_checksum twoFields h8 collidingRun).2 (by decide +kernel) 1 0
    ⟨1, Nat.le_refl 1, by decide +kernel⟩
  exact h.mpr (by decide +kernel)

/-- A field that has really changed keeps its new value. -/
theorem modified_field_not_restored :
    ¬ ∀ (memory : Memory) (cs : List Change) (g p : Nat), (∀ q, (memory q).length ≤ 8) →
      (run step (start memory) cs).RecordedSince g p →
      ((run step (start memory) cs).log.rollbackTo
        (run step (start memory) cs).memory g).2.1 p = (run step (start memory) cs).began g p := by
  intro h
  have h' := h (fun _ => [5]) [.advance, .modify 0 [9]] 1 0 (fun _ => by decide)
    ⟨1, Nat.le_refl 1, by decide +kernel⟩
  exact absurd h' (by decide +kernel)

end History

end AntX.Barrier
