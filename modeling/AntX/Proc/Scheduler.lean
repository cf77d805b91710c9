import Mathlib.Data.Prod.Lex
import AntX.Lib.KeySet
import AntX.Lib.Run

/-! The process scheduler of one CPU, `framework/proc/{scheduler,process}.rs`, and its run queues,
`services/proc/sched_policy.rs`. A context switch resumes the chosen process; no load balancing. -/

namespace AntX.Proc

open Lib KeySet

abbrev Pid := Nat

abbrev QueueKey := Nat ×ₗ Nat

def queueKey (time : Nat) (pid : Pid) : QueueKey := toLex (time, pid)

def QueueKey.time (k : QueueKey) : Nat := (ofLex k).1

def QueueKey.pid (k : QueueKey) : Pid := (ofLex k).2

@[simp] theorem queueKey_time (time : Nat) (pid : Pid) : QueueKey.time (queueKey time pid) = time :=
  rfl

@[simp] theorem queueKey_eta (k : QueueKey) : queueKey k.time k.pid = k := rfl

theorem time_mono {k l : QueueKey} (h : k ≤ l) : k.time ≤ l.time := Prod.Lex.monotone_fst k l h

def dlMinRuntimeTicks : Nat := 1

def dlMinPeriodTicks : Nat := 10

def dlMaxUtilizationPct : Nat := 95

structure DeadlineParams where
  runtime : Nat
  deadline : Nat
  period : Nat
deriving DecidableEq, Repr

namespace DeadlineParams

def isValid (p : DeadlineParams) : Bool :=
  dlMinRuntimeTicks ≤ p.runtime && p.runtime ≤ p.deadline && p.deadline ≤ p.period &&
    dlMinPeriodTicks ≤ p.period

def utilizationPct (p : DeadlineParams) : Nat :=
  if p.period = 0 then 0 else (p.runtime * 100) % 2 ^ 64 / p.period

end DeadlineParams

structure CfsRunQueue where
  tree : KeySet QueueKey
  minVruntime : Nat
  totalWeight : Nat
  nrRunning : Nat
deriving DecidableEq

namespace CfsRunQueue

def new : CfsRunQueue := { tree := .empty, minVruntime := 0, totalWeight := 0, nrRunning := 0 }

variable (q : CfsRunQueue)

def syncMinVruntime : CfsRunQueue :=
  match q.tree.first with
  | some k => { q with minVruntime := k.time }
  | none => q

def enqueue (pid : Pid) (vruntime weight : Nat) : CfsRunQueue :=
  { q with
    tree := q.tree.insert (queueKey (max vruntime q.minVruntime) pid)
    totalWeight := (q.totalWeight + weight) % 2 ^ 64
    nrRunning := (q.nrRunning + 1) % 2 ^ 32 }

def dequeue (pid : Pid) (vruntime weight : Nat) : CfsRunQueue × Bool :=
  let q := { q with totalWeight := q.totalWeight - weight, nrRunning := q.nrRunning - 1 }
  if queueKey vruntime pid ∈ q.tree then
    (syncMinVruntime { q with tree := q.tree.remove (queueKey vruntime pid) }, true)
  else (q, false)

def pickNext : CfsRunQueue × Option QueueKey :=
  match q.tree.first with
  | some k => (syncMinVruntime { q with tree := q.tree.remove k }, some k)
  | none => (q, none)

def updateCurr (pid : Pid) (newVruntime : Nat) : CfsRunQueue :=
  { q with tree := q.tree.insert (queueKey (max newVruntime q.minVruntime) pid) }

def isEmpty : Bool := q.nrRunning == 0

def boostAllVruntime : CfsRunQueue :=
  match q.tree.first with
  | none => q
  | some k =>
    { q with
      tree := q.tree.keys.foldl (fun tree e => tree.insert (queueKey k.time e.pid)) .empty
      minVruntime := k.time }

def stealHighestVruntime : CfsRunQueue × Option QueueKey :=
  match q.tree.last with
  | some k => (syncMinVruntime { q with tree := q.tree.remove k }, some k)
  | none => (q, none)

inductive Op where
  | enqueue (pid : Pid) (vruntime weight : Nat)
  | dequeue (pid : Pid) (vruntime weight : Nat)
  | pickNext
  | updateCurr (pid : Pid) (newVruntime : Nat)
  | boostAllVruntime
  | stealHighestVruntime

def step : Op → CfsRunQueue
  | .enqueue pid vruntime weight => q.enqueue pid vruntime weight
  | .dequeue pid vruntime weight => (q.dequeue pid vruntime weight).1
  | .pickNext => q.pickNext.1
  | .updateCurr pid newVruntime => q.updateCurr pid newVruntime
  | .boostAllVruntime => q.boostAllVruntime
  | .stealHighestVruntime => q.stealHighestVruntime.1

@[simp] theorem syncMinVruntime_tree : q.syncMinVruntime.tree = q.tree := by
  rw [syncMinVruntime]
  split <;> rfl

theorem pickNext_cases : (q.tree.first = none ∧ q.pickNext = (q, none)) ∨
    ∃ k, q.tree.first = some k ∧ q.pickNext.2 = some k ∧
      q.pickNext.1.tree = q.tree.remove k ∧ q.pickNext.1.nrRunning = q.nrRunning := by
  cases h : q.tree.first with
  | none => exact .inl ⟨rfl, by simp [pickNext, h]⟩
  | some k =>
    refine .inr ⟨k, rfl, by simp [pickNext, h], by simp [pickNext, h], ?_⟩
    simp only [pickNext, h, syncMinVruntime]
    split <;> rfl

def Clamped : Prop := ∀ k ∈ q.tree, q.minVruntime ≤ k.time

variable {q : CfsRunQueue}

theorem Clamped.insert (h : Clamped q) (vruntime : Nat) (pid : Pid) {weight running : Nat} :
    Clamped ⟨q.tree.insert (queueKey (max vruntime q.minVruntime) pid), q.minVruntime, weight, running⟩ := by
  intro k hk
  rcases mem_insert.1 hk with rfl | hk
  · exact Nat.le_max_right _ _
  · exact h k hk

/-- The queue keeps the earlier minimum when it is empty, and takes a key's time otherwise. -/
theorem Clamped.syncMinVruntime (h : Clamped q) :
    Clamped q.syncMinVruntime ∧ q.minVruntime ≤ q.syncMinVruntime.minVruntime := by
  rw [CfsRunQueue.syncMinVruntime]
  cases hf : q.tree.first with
  | none => exact ⟨h, le_rfl⟩
  | some k =>
    refine ⟨fun x hx => ?_, h k (first_mem hf)⟩
    exact time_mono (first_le hf hx)

theorem Clamped.remove (h : Clamped q) (k : QueueKey) {weight running : Nat} :
    let q' := CfsRunQueue.syncMinVruntime ⟨q.tree.remove k, q.minVruntime, weight, running⟩
    Clamped q' ∧ q.minVruntime ≤ q'.minVruntime :=
  Clamped.syncMinVruntime fun x hx => h x (mem_remove.1 hx).2

theorem mem_boostAllVruntime {k x : QueueKey} (hf : q.tree.first = some k) :
    x ∈ q.boostAllVruntime.tree ↔ ∃ e ∈ q.tree, x = queueKey k.time e.pid := by
  rw [boostAllVruntime, hf]
  exact (mem_foldl_insert _ _).trans (or_iff_right (not_mem_empty x))

theorem Clamped.step (h : Clamped q) (op : Op) :
    Clamped (q.step op) ∧ q.minVruntime ≤ (q.step op).minVruntime := by
  cases op with
  | enqueue pid vruntime weight => exact ⟨h.insert vruntime pid, le_rfl⟩
  | dequeue pid vruntime weight =>
    simp only [CfsRunQueue.step, dequeue]
    split
    · exact h.remove _
    · exact ⟨h, le_rfl⟩
  | pickNext =>
    simp only [CfsRunQueue.step, pickNext]
    cases q.tree.first with
    | none => exact ⟨h, le_rfl⟩
    | some k => exact h.remove k
  | updateCurr pid newVruntime => exact ⟨h.insert newVruntime pid, le_rfl⟩
  | boostAllVruntime =>
    cases hf : q.tree.first with
    | none =>
      rw [CfsRunQueue.step, boostAllVruntime, hf]
      exact ⟨h, le_rfl⟩
    | some k =>
      have hmin : q.boostAllVruntime.minVruntime = k.time := by rw [boostAllVruntime, hf]
      refine ⟨fun x hx => ?_, ?_⟩
      · obtain ⟨e, -, rfl⟩ := (mem_boostAllVruntime hf).1 hx
        exact Nat.le_of_eq hmin
      · rw [CfsRunQueue.step, hmin]
        exact h k (first_mem hf)
  | stealHighestVruntime =>
    simp only [CfsRunQueue.step, stealHighestVruntime]
    cases q.tree.last with
    | none => exact ⟨h, le_rfl⟩
    | some k => exact h.remove k

theorem Clamped.run (h : Clamped q) (ops : List Op) :
    Clamped (Lib.run CfsRunQueue.step q ops) := run_invariant (fun _ op h => (h.step op).1) h ops

def PicksLeast (q : CfsRunQueue) : Prop :=
  (q.pickNext = (q, none) ∧ ∀ k, k ∉ q.tree) ∨ ∃ k, q.pickNext.2 = some k ∧
    IsLeast {x | x ∈ q.tree} k ∧ ∀ x, x ∈ q.pickNext.1.tree ↔ x ≠ k ∧ x ∈ q.tree

theorem pickNext_least (q : CfsRunQueue) : q.PicksLeast := by
  rcases q.pickNext_cases with ⟨hf, hp⟩ | ⟨k, hf, hp, htree, -⟩
  · exact .inl ⟨hp, first_none hf⟩
  · refine .inr ⟨k, hp, ⟨first_mem hf, fun x => first_le hf⟩, fun x => ?_⟩
    rw [htree, mem_remove]

def BoostsToLeast (q : CfsRunQueue) : Prop :=
  (∀ pid, (∃ k ∈ q.boostAllVruntime.tree, k.pid = pid) ↔ ∃ k ∈ q.tree, k.pid = pid) ∧
    ∀ k ∈ q.boostAllVruntime.tree, IsLeast {t | ∃ x ∈ q.tree, x.time = t} k.time

theorem boostAllVruntime_least (q : CfsRunQueue) : q.BoostsToLeast := by
  cases hf : q.tree.first with
  | none =>
    rw [BoostsToLeast, boostAllVruntime, hf]
    exact ⟨fun pid => Iff.rfl, fun k hk => absurd hk (first_none hf k)⟩
  | some k =>
    constructor
    · intro pid
      constructor
      · rintro ⟨x, hx, rfl⟩
        obtain ⟨e, he, rfl⟩ := (mem_boostAllVruntime hf).1 hx
        exact ⟨e, he, rfl⟩
      · rintro ⟨e, he, rfl⟩
        exact ⟨_, (mem_boostAllVruntime hf).2 ⟨e, he, rfl⟩, rfl⟩
    · intro x hx
      obtain ⟨e, -, rfl⟩ := (mem_boostAllVruntime hf).1 hx
      refine ⟨⟨k, first_mem hf, rfl⟩, ?_⟩
      rintro t ⟨y, hy, rfl⟩
      rw [queueKey_time]
      exact time_mono (first_le hf hy)

/-- After any calls, no call lowers the least virtual time, no entry is below it, the pick takes a least entry and the
boost brings every entry to the least of their times. -/
theorem virtual_time_monotone (ops : List Op) :
    let q := run CfsRunQueue.step new ops
    (∀ op, q.minVruntime ≤ (q.step op).minVruntime) ∧ (∀ k ∈ q.tree, q.minVruntime ≤ k.time) ∧
      q.PicksLeast ∧ q.BoostsToLeast := by
  intro q
  have hnew : Clamped new := fun k hk => absurd hk (not_mem_empty k)
  have hq : Clamped q := hnew.run ops
  exact ⟨fun op => (hq.step op).2, hq, q.pickNext_least, q.boostAllVruntime_least⟩

end CfsRunQueue

structure DlRunQueue where
  tree : KeySet QueueKey
  nrRunning : Nat
  totalUtilization : Nat
deriving DecidableEq

namespace DlRunQueue

def new : DlRunQueue := { tree := .empty, nrRunning := 0, totalUtilization := 0 }

def saturatingAdd (a b : Nat) : Nat := min (a + b) (2 ^ 64 - 1)

variable (q : DlRunQueue)

def enqueue (pid : Pid) (deadlineAbs utilPct : Nat) : DlRunQueue × Bool :=
  if dlMaxUtilizationPct < saturatingAdd q.totalUtilization utilPct then (q, false)
  else
    ({ tree := q.tree.insert (queueKey deadlineAbs pid)
       nrRunning := (q.nrRunning + 1) % 2 ^ 32
       totalUtilization := q.totalUtilization + utilPct }, true)

def dequeue (pid : Pid) (deadlineAbs utilPct : Nat) : DlRunQueue :=
  if queueKey deadlineAbs pid ∈ q.tree then
    { tree := q.tree.remove (queueKey deadlineAbs pid)
      nrRunning := q.nrRunning - 1
      totalUtilization := q.totalUtilization - utilPct }
  else q

def pickNext : DlRunQueue × Option QueueKey :=
  match q.tree.first with
  | some k => ({ q with tree := q.tree.remove k }, some k)
  | none => (q, none)

def reinsert (pid : Pid) (dlAbs : Nat) : DlRunQueue :=
  { q with tree := q.tree.insert (queueKey dlAbs pid) }

def isEmpty : Bool := q.nrRunning == 0

theorem saturatingAdd_le {a b : Nat} : saturatingAdd a b ≤ dlMaxUtilizationPct ↔
    a + b ≤ dlMaxUtilizationPct := by
  simp only [saturatingAdd, dlMaxUtilizationPct]
  omega

theorem enqueue_cases (pid : Pid) (deadlineAbs utilPct : Nat) :
    (q.totalUtilization + utilPct ≤ dlMaxUtilizationPct ∧ q.enqueue pid deadlineAbs utilPct =
        ({ tree := q.tree.insert (queueKey deadlineAbs pid)
           nrRunning := (q.nrRunning + 1) % 2 ^ 32
           totalUtilization := q.totalUtilization + utilPct }, true)) ∨
    (dlMaxUtilizationPct < q.totalUtilization + utilPct ∧
      q.enqueue pid deadlineAbs utilPct = (q, false)) := by
  by_cases h : q.totalUtilization + utilPct ≤ dlMaxUtilizationPct
  · exact .inl ⟨h, if_neg (Nat.not_lt.2 (saturatingAdd_le.2 h))⟩
  · exact .inr ⟨Nat.lt_of_not_le h, if_pos (Nat.lt_of_not_le fun hle => h (saturatingAdd_le.1 hle))⟩

end DlRunQueue

inductive ProcessState where
  | created
  | ready
  | running
  | blocked
  | zombie
  | terminated
  | frozen
deriving DecidableEq, Repr

def ProcessState.allows : ProcessState → ProcessState → Bool
  | .created, .ready => true
  | .ready, .running => true
  | .running, .ready => true
  | .running, .blocked => true
  | .running, .zombie => true
  | .running, .frozen => true
  | .ready, .frozen => true
  | .blocked, .frozen => true
  | .blocked, .ready => true
  | .blocked, .zombie => true
  | .zombie, .terminated => true
  | .frozen, .ready => true
  | .frozen, .blocked => true
  | _, _ => false

inductive BlockReason where
  | waitingForIo
  | waitingForChild
  | waitingForSignal
  | sleeping
  | futexWait
  | unknown
deriving DecidableEq, Repr

inductive SchedPolicy where
  | normal
  | fifo
  | rr
  | idle
  | deadline
deriving DecidableEq, Repr

structure Process where
  state : ProcessState
  blockReason : BlockReason
  schedPolicy : SchedPolicy
  rtPriority : Nat
  cfsVruntime : Nat
  cfsWeight : Nat
  cfsOnRq : Bool
  dlRuntime : Nat
  dlDeadline : Nat
  dlPeriod : Nat
  dlAbs : Nat
  dlRemaining : Nat
deriving DecidableEq, Repr

def nice0Weight : Nat := 1024

namespace Process

def new : Process :=
  { state := .created, blockReason := .unknown, schedPolicy := .normal, rtPriority := 0,
    cfsVruntime := 0, cfsWeight := nice0Weight, cfsOnRq := false, dlRuntime := 0, dlDeadline := 0,
    dlPeriod := 0, dlAbs := 0, dlRemaining := 0 }

/-- An illegal transition leaves the state as it is; the callers drop the error. -/
def setStateSafe (p : Process) (state : ProcessState) : Process :=
  if p.state.allows state then { p with state := state } else p

end Process

def maxProcesses : Nat := 256

structure RtTaskInfo where
  pid : Pid
  rtPriority : Nat
  policy : SchedPolicy
  timeSliceRemaining : Nat
deriving DecidableEq, Repr

def rtPriorityMax : Nat := 99

def rtTimeSlice : Nat := 5

def rtFifoWatchdog : Nat := 500

structure Scheduler where
  processes : Pid → Option Process
  dlRq : DlRunQueue
  rtQueue : List RtTaskInfo
  cfsRq : CfsRunQueue
  current : Pid
  needReschedule : Bool
  rtRunning : Bool
  dlRunning : Bool
  fifoWatchdog : Nat
  tickCount : Nat

namespace Scheduler

def new : Scheduler :=
  { processes := fun _ => none, dlRq := .new, rtQueue := [], cfsRq := .new, current := 0,
    needReschedule := false, rtRunning := false, dlRunning := false, fifoWatchdog := 0,
    tickCount := 0 }

variable (s : Scheduler)

section

variable (pid : Pid)

def get : Option Process :=
  if pid < maxProcesses then s.processes pid else none

def withProcess (f : Process → Process) : Scheduler :=
  match s.get pid with
  | some p => { s with processes := Function.update s.processes pid (some (f p)) }
  | none => s

def createProcess : Scheduler :=
  if pid < maxProcesses ∧ s.processes pid = none then
    { s with processes := Function.update s.processes pid (some .new) }
  else s

def cfsEnqueue : Scheduler :=
  match s.get pid with
  | some p =>
    let s := s.withProcess pid fun p => { p.setStateSafe .ready with cfsOnRq := true }
    { s with cfsRq := s.cfsRq.enqueue pid p.cfsVruntime p.cfsWeight }
  | none => s

def add : Scheduler := s.cfsEnqueue pid

def setSchedPolicy (policy : SchedPolicy) (rtPriority : Nat) :
    Scheduler :=
  s.withProcess pid fun p =>
    { p with schedPolicy := policy, rtPriority := min rtPriority rtPriorityMax }

def setDeadlineParams (params : DeadlineParams) : Scheduler × Bool :=
  if ¬ params.isValid then (s, false)
  else if dlMaxUtilizationPct < params.utilizationPct then (s, false)
  else
    (s.withProcess pid fun p =>
      { p with
        schedPolicy := .deadline
        dlRuntime := params.runtime
        dlDeadline := params.deadline
        dlPeriod := params.period
        dlAbs := (s.tickCount + params.deadline) % 2 ^ 64
        dlRemaining := params.runtime }, true)

end

/-- The insertion that `add_rt_task`, `schedule` and `unblock` each spell out: before the first
task of a smaller priority. -/
def rtInsert (task : RtTaskInfo) : List RtTaskInfo → List RtTaskInfo
  | [] => [task]
  | t :: ts => if t.rtPriority < task.rtPriority then task :: t :: ts else t :: rtInsert task ts

def addRtTask (pid : Pid) (rtPriority : Nat) (policy : SchedPolicy) : Scheduler :=
  { s with rtQueue := rtInsert ⟨pid, min rtPriority rtPriorityMax, policy, rtTimeSlice⟩ s.rtQueue }

def notZombie (pid : Pid) : Bool :=
  match s.get pid with
  | some p => p.state != .zombie
  | none => false

def dlAlive (pid : Pid) : Bool :=
  match s.get pid with
  | some p => p.state != .zombie && p.schedPolicy == .deadline
  | none => false

def cfsSchedulable (pid : Pid) : Bool :=
  match s.get pid with
  | some p => p.state != .blocked && p.state != .zombie && p.schedPolicy == .normal
  | none => false

def pickDeadlineTask : Scheduler × Option Pid :=
  if s.dlRq.isEmpty then ({ s with dlRunning := false }, none)
  else
    match s.dlRq.pickNext with
    | (dlRq, some k) =>
      if s.dlAlive k.pid then ({ s with dlRq := dlRq, dlRunning := true }, some k.pid)
      else ({ s with dlRq := dlRq.reinsert k.pid k.time, dlRunning := false }, none)
    | (_, none) => ({ s with dlRunning := false }, none)

/-- The loop over the real-time queue: dead tasks are dropped, a task of another policy goes to
the fair queue and ends the loop. -/
def rtLoop (s : Scheduler) : List RtTaskInfo → Scheduler × Option Pid
  | [] => ({ s with rtQueue := [] }, none)
  | task :: rest =>
    if s.notZombie task.pid then
      match task.policy with
      | .fifo =>
        ({ s with rtQueue := rest, rtRunning := true, fifoWatchdog := rtFifoWatchdog }, some task.pid)
      | .rr =>
        ({ s with
           rtQueue := rest ++ [{ task with timeSliceRemaining := rtTimeSlice }]
           rtRunning := true }, some task.pid)
      | _ => ({ ({ s with rtQueue := rest }).cfsEnqueue task.pid with rtRunning := false }, none)
    else rtLoop s rest

def pickRtTask : Scheduler × Option Pid :=
  let s := { s with dlRunning := false }
  match s.rtLoop s.rtQueue with
  | (s, some pid) => (s, some pid)
  | (s, none) => ({ s with rtRunning := false }, none)

def pickCfsTask : Scheduler × Option Pid :=
  if s.cfsRq.isEmpty then (s, none)
  else
    match s.cfsRq.pickNext with
    | (cfsRq, some k) =>
      if s.cfsSchedulable k.pid then
        (({ s with cfsRq := cfsRq }).withProcess k.pid fun p => { p with cfsOnRq := false }, some k.pid)
      else ({ s with cfsRq := cfsRq.updateCurr k.pid k.time }, none)
    | (_, none) => (s, none)

def pickTask : Scheduler × Option Pid :=
  match s.pickDeadlineTask with
  | (s, some pid) => (s, some pid)
  | (s, none) =>
    match s.pickRtTask with
    | (s, some pid) => (s, some pid)
    | (s, none) => s.pickCfsTask

/-- The previous task goes to the queue that the flags name, and these were set for the next
task. -/
def requeuePrev (pid : Pid) (p : Process) : Scheduler :=
  let s :=
    if s.dlRunning then { s with dlRq := s.dlRq.reinsert pid p.dlAbs }
    else if s.rtRunning then
      if p.schedPolicy ≠ .fifo then
        { s with rtQueue := rtInsert ⟨pid, p.rtPriority, p.schedPolicy, rtTimeSlice⟩ s.rtQueue }
      else s
    else
      ({ s with cfsRq := s.cfsRq.updateCurr pid p.cfsVruntime }).withProcess pid fun p =>
        { p with cfsOnRq := true }
  s.withProcess pid fun p => p.setStateSafe .ready

def switchTo (next : Pid) : Scheduler :=
  let prev := s.current
  let s := { s.withProcess next (·.setStateSafe .running) with current := next }
  if prev ≠ 0 then
    match s.get prev with
    | some p => s.requeuePrev prev p
    | none => s
  else s

def schedule : Scheduler × Option Pid :=
  match s.pickTask with
  | (s, none) => (s, none)
  | (s, some next) =>
    if next = s.current then (s, some next)
    else if s.get next = none then (s, none)
    else (s.switchTo next, some next)

def block (reason : BlockReason) : Scheduler :=
  if s.current ≠ 0 then
    { s.withProcess s.current fun p => { p.setStateSafe .blocked with blockReason := reason } with
      needReschedule := true }
  else s

def wakeUp (pid : Pid) (p : Process) : Scheduler :=
  match p.schedPolicy with
  | .normal => { s with cfsRq := s.cfsRq.enqueue pid p.cfsVruntime p.cfsWeight }
  | .fifo | .rr =>
    { s with rtQueue := rtInsert ⟨pid, p.rtPriority, p.schedPolicy, rtTimeSlice⟩ s.rtQueue }
  | .deadline =>
    let util := if 0 < p.dlPeriod then (p.dlRuntime * 100) % 2 ^ 64 / p.dlPeriod else 0
    { s with dlRq := (s.dlRq.enqueue pid p.dlAbs util).1 }
  | .idle => s

def unblock (pid : Pid) : Scheduler :=
  match s.get pid with
  | some p =>
    if p.state = .blocked ∨ p.state = .frozen then
      (s.withProcess pid fun p =>
        { p.setStateSafe .ready with
          cfsOnRq := if p.schedPolicy = .normal then true else p.cfsOnRq }).wakeUp pid p
    else s
  | none => s

def yieldCurrent : Scheduler × Option Pid :=
  ({ s with needReschedule := true }).schedule

end Scheduler

end AntX.Proc
