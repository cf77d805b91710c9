import Mathlib.Data.List.Sort
import AntX.Lib.Run

/-! High-resolution timers of framework/timer/hrtimer.rs. A callback is the client calls made in it
followed by the restart value it returns. -/

namespace AntX.Timer

open AntX.Lib Function List

inductive HrTimerState where
  | inactive
  | pending
  | running
  deriving DecidableEq, Repr

inductive HrTimerRestart where
  | oneShot
  | periodic
  deriving DecidableEq, Repr

structure HrTimer where
  expiryNs : Nat
  intervalNs : Nat
  state : HrTimerState
  queueSeq : Nat
  deriving DecidableEq, Repr

variable {ι : Type*}

structure TimerEntry (ι : Type*) where
  timer : ι
  seq : Nat
  deriving DecidableEq, Repr

/-- Where `hrtimer_run_queues` is: not running, between two callbacks or inside one. The rest of the
batch is what it still has to call back. -/
inductive Phase (ι : Type*) where
  | idle
  | dispatching (now : Nat) (rest : List ι)
  | calling (now : Nat) (timer : ι) (rest : List ι)

structure System (ι : Type*) where
  timers : ι → HrTimer
  queue : List (TimerEntry ι)
  queueSeq : Nat
  ready : Bool
  phase : Phase ι

namespace System

variable [DecidableEq ι]

variable (s : System ι)

def setTimer (t : ι) (f : HrTimer → HrTimer) : System ι :=
  { s with timers := update s.timers t (f (s.timers t)) }

def hrtimerStart (t : ι) (expiryNs : Nat) : System ι :=
  if s.ready then
    let seq := s.queueSeq
    let timers := update s.timers t
      { s.timers t with expiryNs := expiryNs, queueSeq := seq, state := .pending }
    let queue := s.queue.filter fun e =>
      if e.timer = t then (timers e.timer).queueSeq != seq else true
    let insertPos := queue.findIdx fun e => expiryNs < (timers e.timer).expiryNs
    { s with timers := timers, queue := queue.insertIdx insertPos ⟨t, seq⟩,
             queueSeq := (s.queueSeq + 1) % 2 ^ 64 }
  else s

def hrtimerStartRel (t : ι) (now delayNs : Nat) : System ι :=
  s.hrtimerStart t ((now + delayNs) % 2 ^ 64)

def hrtimerStartPeriodic (t : ι) (now delayNs intervalNs : Nat) : System ι :=
  (s.setTimer t fun h => { h with intervalNs := intervalNs }).hrtimerStartRel t now delayNs

def hrtimerCancel (t : ι) : Bool × System ι :=
  ((s.timers t).state == .pending, s.setTimer t fun h => { h with state := .inactive, queueSeq := 0 })

/-- The loop over the queue: the timers it marks as running, in order, and the marked timers. -/
def collect (now : Nat) : List (TimerEntry ι) → (ι → HrTimer) → List ι × (ι → HrTimer)
  | [], timers => ([], timers)
  | e :: es, timers =>
    let h := timers e.timer
    if h.expiryNs ≤ now ∧ h.state = .pending then
      let r := collect now es (update timers e.timer { h with state := .running })
      (e.timer :: r.1, r.2)
    else if h.state = .inactive then collect now es timers
    else if now < h.expiryNs then ([], timers)
    else collect now es timers

def runBegin (now : Nat) : System ι :=
  if s.ready then
    let r := collect now s.queue s.timers
    let kept := s.queue.filter fun e => (r.2 e.timer).state == .pending
    { s with timers := r.2,
             queue := kept.insertionSort fun a b => (r.2 a.timer).expiryNs ≤ (r.2 b.timer).expiryNs,
             phase := .dispatching now r.1 }
  else s

def callbackEnd (now : Nat) (t : ι) (restart : HrTimerRestart) : System ι :=
  match restart with
  | .oneShot => s.setTimer t fun h => { h with state := .inactive, queueSeq := 0 }
  | .periodic =>
    let interval := (s.timers t).intervalNs
    if 0 < interval then
      let newExpiry := ((s.timers t).expiryNs + interval) % 2 ^ 64
      let next := if newExpiry ≤ now then (now + interval) % 2 ^ 64 else newExpiry
      s.hrtimerStart t next
    else s.setTimer t fun h => { h with state := .inactive }

end System

/-- The calls of clients, from a callback or from elsewhere, and the steps of `hrtimer_run_queues`. -/
inductive Action (ι : Type*) where
  | start (t : ι) (expiryNs : Nat)
  | startRel (t : ι) (now delayNs : Nat)
  | startPeriodic (t : ι) (now delayNs intervalNs : Nat)
  | cancel (t : ι)
  | runBegin (now : Nat)
  | callbackBegin
  | callbackEnd (restart : HrTimerRestart)

variable [DecidableEq ι]

-- `hrtimer_run_queues` is not called recursively: a second one while it runs is no step.
def step (s : System ι) : Action ι → System ι
  | .start t expiryNs => s.hrtimerStart t expiryNs
  | .startRel t now delayNs => s.hrtimerStartRel t now delayNs
  | .startPeriodic t now delayNs intervalNs => s.hrtimerStartPeriodic t now delayNs intervalNs
  | .cancel t => (s.hrtimerCancel t).2
  | .runBegin now =>
    match s.phase with
    | .idle => s.runBegin now
    | _ => s
  | .callbackBegin =>
    match s.phase with
    | .dispatching now (t :: rest) => { s with phase := .calling now t rest }
    | .dispatching _ [] => { s with phase := .idle }
    | _ => s
  | .callbackEnd restart =>
    match s.phase with
    | .calling now t rest =>
      { s.callbackEnd now t restart with phase := .dispatching now rest }
    | _ => s

def invokes (s : System ι) : Action ι → Option ι
  | .callbackBegin =>
    match s.phase with
    | .dispatching _ (t :: _) => some t
    | _ => none
  | _ => none

/-- One call's effect on whether the timer stays cancelled for its clients. -/
def silencedBy (t : ι) (silent : Bool) : Action ι → Bool
  | .cancel u => if u = t then true else silent
  | .start u _ => if u = t then false else silent
  | .startRel u _ _ => if u = t then false else silent
  | .startPeriodic u _ _ _ => if u = t then false else silent
  | _ => silent

def silenced (as : List (Action ι)) (t : ι) : Bool := as.foldl (silencedBy t) false

namespace System

variable {s : System ι} {t u : ι}

@[simp] theorem setTimer_phase (f : HrTimer → HrTimer) : (s.setTimer t f).phase = s.phase := rfl

theorem setTimer_self (f : HrTimer → HrTimer) : (s.setTimer t f).timers t = f (s.timers t) :=
  update_self _ _ _

theorem setTimer_of_ne (h : u ≠ t) (f : HrTimer → HrTimer) :
    (s.setTimer t f).timers u = s.timers u := update_of_ne h _ _

@[simp] theorem hrtimerStart_phase (exp : Nat) : (s.hrtimerStart t exp).phase = s.phase := by
  rw [hrtimerStart]
  split_ifs <;> rfl

theorem hrtimerStart_of_ne (h : u ≠ t) (exp : Nat) : (s.hrtimerStart t exp).timers u = s.timers u := by
  rw [hrtimerStart]
  split_ifs
  · exact update_of_ne h _ _
  · rfl

@[simp] theorem hrtimerStartPeriodic_phase (now delay interval : Nat) :
    (s.hrtimerStartPeriodic t now delay interval).phase = s.phase := by
  rw [hrtimerStartPeriodic, hrtimerStartRel, hrtimerStart_phase, setTimer_phase]

theorem collect_not_pending {now : Nat} {q : List (TimerEntry ι)} {timers : ι → HrTimer}
    (h : (timers u).state ≠ .pending) :
    u ∉ (collect now q timers).1 ∧ (collect now q timers).2 u = timers u := by
  induction q generalizing timers with
  | nil => exact ⟨not_mem_nil, rfl⟩
  | cons e es ih =>
    rw [collect]
    split_ifs with hexp hin hlate
    · have hne : u ≠ e.timer := by
        rintro rfl
        exact h hexp.2
      have hkeep : update timers e.timer
          { timers e.timer with state := .running } u = timers u := update_of_ne hne _ _
      obtain ⟨hmem, htimer⟩ := ih (hkeep ▸ h)
      exact ⟨by simp [hne, hmem], htimer.trans hkeep⟩
    · exact ih h
    · exact ⟨not_mem_nil, rfl⟩
    · exact ih h

theorem callbackEnd_of_ne (h : u ≠ t) (now : Nat) (restart : HrTimerRestart) :
    (s.callbackEnd now t restart).timers u = s.timers u := by
  cases restart with
  | oneShot => rw [callbackEnd, setTimer_of_ne h]
  | periodic =>
    rw [callbackEnd]
    dsimp only
    split_ifs
    · exact hrtimerStart_of_ne h _
    · exact hrtimerStart_of_ne h _
    · exact setTimer_of_ne h _

end System

namespace Phase

def rest : Phase ι → List ι
  | .idle => []
  | .dispatching _ r => r
  | .calling _ _ r => r

end Phase

/-- A cancel is for a timer that is not waiting in the batch, and a callback that asks for another
period has not left its own timer cancelled. -/
def Orderly (s : System ι) : Action ι → Prop
  | .cancel t => t ∉ s.phase.rest
  | .callbackEnd .periodic =>
    match s.phase with
    | .calling _ t _ => 0 < (s.timers t).intervalNs → (s.timers t).state ≠ .inactive
    | _ => True
  | _ => True

/-- The timer is not due any callback: it is neither pending nor in the rest of the batch, and if
its own callback is running it is marked as cancelled. -/
structure Quiet (s : System ι) (t : ι) : Prop where
  not_pending : (s.timers t).state ≠ .pending
  not_rest : t ∉ s.phase.rest
  cancelled : ∀ now rest, s.phase = .calling now t rest → (s.timers t).state = .inactive

variable {s s' : System ι} {t u : ι}

omit [DecidableEq ι] in
theorem Quiet.congr (h : Quiet s t) (htimer : s'.timers t = s.timers t)
    (hphase : s'.phase = s.phase) : Quiet s' t where
  not_pending := htimer ▸ h.not_pending
  not_rest := hphase ▸ h.not_rest
  cancelled now rest hc := by
    rw [htimer]
    exact h.cancelled now rest (hphase ▸ hc)

theorem quiet_cancel (h : t ∉ s.phase.rest) : Quiet (s.hrtimerCancel t).2 t where
  not_pending := by
    rw [System.hrtimerCancel, System.setTimer_self]
    simp
  not_rest := h
  cancelled _ _ _ := by rw [System.hrtimerCancel, System.setTimer_self]

theorem Quiet.runBegin (h : Quiet s t) (now : Nat) : Quiet (s.runBegin now) t := by
  rw [System.runBegin]
  split_ifs
  · obtain ⟨hmem, htimer⟩ : t ∉ (System.collect now s.queue s.timers).1 ∧
        (System.collect now s.queue s.timers).2 t = s.timers t :=
      System.collect_not_pending h.not_pending
    refine ⟨?_, hmem, ?_⟩
    · dsimp only
      rw [htimer]
      exact h.not_pending
    · intro now' rest hc
      cases hc
  · exact h

theorem Quiet.callbackBegin (h : Quiet s t) : Quiet (step s .callbackBegin) t := by
  rw [step]
  cases hp : s.phase with
  | idle | calling now u rest => exact h
  | dispatching now batch =>
    cases batch with
    | nil => exact ⟨h.not_pending, not_mem_nil, fun _ _ hc => by cases hc⟩
    | cons u rest =>
      have hmem : t ∉ u :: rest := by
        have hr := h.not_rest
        rwa [hp] at hr
      refine ⟨h.not_pending, fun hm => hmem (mem_cons_of_mem u hm), ?_⟩
      intro now' rest' hc
      cases hc
      exact absurd mem_cons_self hmem

theorem Quiet.callbackEnd (h : Quiet s t) {restart : HrTimerRestart}
    (hok : Orderly s (.callbackEnd restart)) : Quiet (step s (.callbackEnd restart)) t := by
  rw [step]
  cases hp : s.phase with
  | idle | dispatching now rest => exact h
  | calling now u rest =>
    have hrest : t ∉ rest := by
      have hr := h.not_rest
      rwa [hp] at hr
    refine ⟨?_, hrest, fun _ _ hc => by cases hc⟩
    dsimp only
    by_cases htu : t = u
    · subst htu
      have hin := h.cancelled now rest hp
      cases restart with
      | oneShot =>
        rw [System.callbackEnd, System.setTimer_self]
        simp
      | periodic =>
        rw [Orderly, hp] at hok
        rw [System.callbackEnd]
        by_cases hint : 0 < (s.timers t).intervalNs
        · exact absurd hin (hok hint)
        · rw [if_neg hint, System.setTimer_self]
          simp
    · rw [System.callbackEnd_of_ne htu]
      exact h.not_pending

theorem step_quiet {a : Action ι} {silent : Bool} (h : silent = true → Quiet s t)
    (hok : Orderly s a) (hs : silencedBy t silent a = true) : Quiet (step s a) t := by
  cases a with
  | start u expiryNs | startRel u now delayNs =>
    rw [silencedBy] at hs
    split_ifs at hs with hut
    exact (h hs).congr (System.hrtimerStart_of_ne (Ne.symm hut) _) (System.hrtimerStart_phase _)
  | startPeriodic u now delayNs intervalNs =>
    rw [silencedBy] at hs
    split_ifs at hs with hut
    refine (h hs).congr ?_ (System.hrtimerStartPeriodic_phase _ _ _)
    exact (System.hrtimerStart_of_ne (Ne.symm hut) _).trans (System.setTimer_of_ne (Ne.symm hut) _)
  | cancel u =>
    rw [silencedBy] at hs
    split_ifs at hs with hut
    · subst hut
      exact quiet_cancel hok
    · rw [step, System.hrtimerCancel]
      dsimp only
      exact (h hs).congr (System.setTimer_of_ne (Ne.symm hut) _) (System.setTimer_phase _)
  | runBegin now =>
    rw [step]
    cases s.phase with
    | idle => exact (h hs).runBegin now
    | dispatching | calling => exact h hs
  | callbackBegin => exact (h hs).callbackBegin
  | callbackEnd restart => exact (h hs).callbackEnd hok

theorem run_quiet {as : List (Action ι)} {silent : Bool} (h : silent = true → Quiet s t)
    (hok : Guarded step Orderly s as) (hs : as.foldl (silencedBy t) silent = true) :
    Quiet (run step s as) t := by
  induction as generalizing s silent with
  | nil => exact h hs
  | cons a as ih => exact ih (step_quiet h hok.1) hok.2 hs

omit [DecidableEq ι] in
theorem Quiet.not_invoked {a : Action ι} (h : Quiet s t) : invokes s a ≠ some t := by
  intro hi
  cases a with
  | callbackBegin =>
    rw [invokes] at hi
    split at hi
    · rename_i now u rest hp
      have hr := h.not_rest
      rw [hp] at hr
      exact hr (Option.some.inj hi ▸ mem_cons_self)
    · cases hi
  | _ => cases hi

/-- In every orderly run, from any state of the timers, no step invokes the callback of a timer
that was cancelled and not started by a client since. -/
theorem cancelled_not_invoked (s : System ι) (as : List (Action ι)) (a : Action ι) (t : ι)
    (hok : Guarded step Orderly s as) (hsilent : silenced as t = true) :
    invokes (run step s as) a ≠ some t := by
  have hs : as.foldl (silencedBy t) false = true := hsilent
  exact (run_quiet (fun h => by cases h) hok hs).not_invoked

def System.initial (ι : Type*) : System ι where
  timers _ := ⟨0, 0, .inactive, 0⟩
  queue := []
  queueSeq := 1
  ready := true
  phase := .idle

theorem cancelled_not_invoked_two :
    invokes (run step (.initial Nat) [.start 0 5, .start 1 6, .cancel 0, .runBegin 10])
        .callbackBegin = some 1 ∧
      invokes (run step (.initial Nat) [.start 0 5, .start 1 6, .cancel 0, .runBegin 10])
        .callbackBegin ≠ some 0 :=
  ⟨by decide, cancelled_not_invoked _ _ _ _ (by simp [Guarded, Orderly, step, System.initial,
    System.hrtimerStart, Phase.rest]) rfl⟩

/-- Both timers expire in one pass; the callback of timer 0 cancels timer 1, which is called back
all the same. -/
theorem cancelled_invoked : ¬ ∀ (as : List (Action Nat)) (a : Action Nat) (t : Nat), silenced as t = true →
      invokes (run step (.initial Nat) as) a ≠ some t := by
  intro h
  exact h [.start 0 5, .start 1 6, .runBegin 10, .callbackBegin, .cancel 1, .callbackEnd .oneShot]
    .callbackBegin 1 rfl (by decide)

end AntX.Timer
