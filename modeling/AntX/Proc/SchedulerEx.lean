import AntX.Proc.RunQueue
import AntX.Proc.Scheduler

/-! The thread scheduler, `framework/proc/scheduler_ex.rs`, under the default policy. The context
switch is taken to resume the chosen thread. The queues are read as disjoint lists. -/

namespace AntX.Proc

open Lib Function List RunQueue

abbrev ThreadState := ProcessState

def ThreadState.isAlive (st : ThreadState) : Bool := st != .zombie && st != .terminated

def ThreadState.canFreeze (st : ThreadState) : Bool :=
  st == .running || st == .ready || st == .blocked

structure Thread where
  tid : Nat
  state : ThreadState
  priority : Nat
  timeSlice : Nat
deriving DecidableEq, Repr

inductive ThreadPriority where
  | idle
  | low
  | normal
  | high
  | realtime
deriving DecidableEq, Repr

namespace ThreadPriority

def fromU32 : Nat → ThreadPriority
  | 0 => .idle
  | 1 => .low
  | 2 => .normal
  | 3 => .high
  | 4 => .realtime
  | _ => .normal

instance : NeZero 5 := ⟨by decide⟩

def toU32 : ThreadPriority → Fin 5
  | .idle => 0
  | .low => 1
  | .normal => 2
  | .high => 3
  | .realtime => 4

end ThreadPriority

namespace DefaultPolicy

def pickNextPriority (queueLengths : Fin 5 → Nat) : Option (Fin 5) :=
  [4, 3, 2, 1, 0].find? fun prio => decide (0 < queueLengths prio)

def boostTarget : ThreadPriority := .high

def timeSliceFor : ThreadPriority → Nat
  | .realtime => 80
  | .high => 60
  | .normal => 40
  | .low => 20
  | .idle => 2 ^ 32 - 1

end DefaultPolicy

structure SchedulerEx where
  threads : ThreadPtr → Thread
  links : Links ThreadPtr
  runQueues : Fin 5 → RunQueue
  frozenQueue : RunQueue
  current : Option ThreadPtr
  idleThread : Option ThreadPtr
  needReschedule : Bool

namespace SchedulerEx

def new (threads : ThreadPtr → Thread) (links : Links ThreadPtr) : SchedulerEx :=
  { threads := threads, links := links, runQueues := fun _ => .new, frozenQueue := .new,
    current := none, idleThread := none, needReschedule := false }

def queueIdx (priority : Nat) : Fin 5 := (ThreadPriority.fromU32 priority).toU32

variable (s : SchedulerEx)

def withThread (t : ThreadPtr) (f : Thread → Thread) : SchedulerEx :=
  { s with threads := update s.threads t (f (s.threads t)) }

def setState (t : ThreadPtr) (state : ThreadState) : SchedulerEx :=
  s.withThread t fun th => if th.state.allows state then { th with state := state } else th

def pushRun (i : Fin 5) (t : ThreadPtr) : SchedulerEx :=
  let (q, L) := (s.runQueues i).pushBack s.links t
  { s with runQueues := update s.runQueues i q, links := L }

def pushFrozen (t : ThreadPtr) : SchedulerEx :=
  let (q, L) := s.frozenQueue.pushBack s.links t
  { s with frozenQueue := q, links := L }

def popRun (i : Fin 5) : SchedulerEx × Option ThreadPtr :=
  let (q, L, t) := (s.runQueues i).popFront s.links
  ({ s with runQueues := update s.runQueues i q, links := L }, t)

def init (idle : ThreadPtr) : SchedulerEx :=
  ({ s with
     threads := update s.threads idle { tid := 0, state := .ready, priority := 0, timeSlice := 2 ^ 32 - 1 }
     links := (s.links.setNext idle none).setPrev idle none
     idleThread := some idle
     current := some idle }).pushRun 0 idle

def addThread : Option ThreadPtr → SchedulerEx
  | none => s
  | some t =>
    if (s.threads t).state = .ready ∨ (s.threads t).state = .created then
      (s.withThread t fun th => { th with state := .ready }).pushRun (queueIdx (s.threads t).priority) t
    else s

def popHighest : SchedulerEx × Option ThreadPtr :=
  match DefaultPolicy.pickNextPriority fun i => (s.runQueues i).count with
  | some prio => s.popRun prio
  | none => (s, none)

def removeRun (s : SchedulerEx) (t : ThreadPtr) : List (Fin 5) → SchedulerEx × Bool
  | [] => (s, false)
  | i :: is =>
    match (s.runQueues i).remove s.links t with
    | (q, L, true) => ({ s with runQueues := update s.runQueues i q, links := L }, true)
    | (_, _, false) => removeRun s t is

def toReap : List ThreadPtr :=
  (((List.finRange 5).flatMap fun i => (s.runQueues i).iter s.links).filter
    fun t => (s.threads t).state == .zombie).take 32

def reap (t : ThreadPtr) : SchedulerEx :=
  let s := (s.removeRun t (List.finRange 5)).1
  if (s.threads t).tid ≠ 0 then s.setState t .terminated else s

def reapZombies : SchedulerEx := s.toReap.foldl reap s

def nextThread : SchedulerEx × Option ThreadPtr :=
  match s.popHighest with
  | (s, some t) => (s, some t)
  | (s, none) => (s, s.idleThread)

def requeue (prev : Option ThreadPtr) (next : ThreadPtr) : SchedulerEx :=
  match prev with
  | some p =>
    if p ≠ next ∧ (s.threads p).state.isAlive then
      (s.setState p .ready).pushRun (queueIdx (s.threads p).priority) p
    else s
  | none => s

def schedule : SchedulerEx :=
  let prev := s.current
  match s.reapZombies.nextThread with
  | (s, none) => s
  | (s, some next) =>
    { (s.requeue prev next).setState next .running with
      current := some next, needReschedule := false }

def yieldCurrent : SchedulerEx := ({ s with needReschedule := true }).schedule

def freezeThread : Option ThreadPtr → SchedulerEx × Bool
  | none => (s, false)
  | some t =>
    if (s.threads t).state.canFreeze then
      match s.removeRun t (List.finRange 5) with
      | (s, true) => ((s.setState t .frozen).pushFrozen t, true)
      | (s, false) => (s, false)
    else (s, false)

def thawThread : Option ThreadPtr → SchedulerEx × Bool
  | none => (s, false)
  | some t =>
    if (s.threads t).state ≠ .frozen then (s, false)
    else
      match s.frozenQueue.remove s.links t with
      | (q, L, true) =>
        ((({ s with frozenQueue := q, links := L }).setState t .ready).pushRun
          (queueIdx (s.threads t).priority) t, true)
      | (_, _, false) => (s, false)

def exitThread : SchedulerEx :=
  match s.current with
  | none => s
  | some t => ({ s.setState t .zombie with needReschedule := true }).schedule

end SchedulerEx

namespace SchedulerEx

def queue (s : SchedulerEx) : Option (Fin 5) → RunQueue
  | some i => s.runQueues i
  | none => s.frozenQueue

def members (s : SchedulerEx) (k : Option (Fin 5)) : List ThreadPtr := (s.queue k).iter s.links

structure Shape (s : SchedulerEx) (ls : Option (Fin 5) → List ThreadPtr) : Prop where
  holds : ∀ k, RunQueue.Holds s.links (s.queue k) (ls k)
  disjoint : ∀ j k, j ≠ k → ∀ t ∈ ls j, t ∉ ls k

variable {s s' : SchedulerEx} {ls : Option (Fin 5) → List ThreadPtr} {t : ThreadPtr}

theorem Shape.members_eq (h : Shape s ls) (k : Option (Fin 5)) : s.members k = ls k :=
  (h.holds k).iter_eq

theorem Shape.count_eq_zero (h : Shape s ls) (i : Fin 5) : (s.runQueues i).count = 0 ↔ ls (some i) = [] := by
  have hc : (s.runQueues i).count = (ls (some i)).length := (h.holds (some i)).count
  rw [hc, length_eq_zero_iff]

variable {k j : Option (Fin 5)} {l : List ThreadPtr} {y : ThreadPtr} {i : Fin 5} {q : RunQueue}
  {L : Links ThreadPtr} {is : List (Fin 5)}

theorem Shape.update (h : Shape s ls) (hq : RunQueue.Holds s'.links (s'.queue k) l)
    (hother : ∀ j ≠ k, s'.queue j = s.queue j)
    (hsame : ∀ y, y ∉ ls k → y ∉ l → s.links.SameAt s'.links y)
    (hnew : ∀ y ∈ l, y ∉ ls k → ∀ j, y ∉ ls j) : Shape s' (Function.update ls k l) := by
  have hout : ∀ j ≠ k, ∀ y ∈ ls j, y ∉ ls k ∧ y ∉ l := by
    intro j hj y hy
    have hk := h.disjoint j k hj y hy
    exact ⟨hk, fun hl => hnew y hl hk j hy⟩
  constructor
  · intro j
    by_cases hj : j = k
    · subst hj
      rw [update_self]
      exact hq
    · rw [update_of_ne hj, hother j hj]
      exact (h.holds j).frame fun y hy => hsame y (hout j hj y hy).1 (hout j hj y hy).2
  · intro i j hij y hy
    by_cases hi : i = k
    · subst hi
      rw [update_self] at hy
      rw [update_of_ne (Ne.symm hij)]
      exact fun hm => (hout j (Ne.symm hij) y hm).2 hy
    · rw [update_of_ne hi] at hy
      by_cases hj : j = k
      · subst hj
        rw [update_self]
        exact (hout i hi y hy).2
      · rw [update_of_ne hj]
        exact h.disjoint i j hij y hy

def Free (ls : Option (Fin 5) → List ThreadPtr) (t : ThreadPtr) : Prop := ∀ k, t ∉ ls k

theorem mem_push : y ∈ update ls k (ls k ++ [t]) j ↔ y ∈ ls j ∨ (j = k ∧ y = t) := by
  by_cases hj : j = k
  · subst hj
    simp
  · simp [hj]

theorem free_push (hy : Free ls y) (hne : y ≠ t) : Free (update ls k (ls k ++ [t])) y := by
  intro j hm
  rcases mem_push.1 hm with hm | ⟨-, hm⟩
  · exact hy j hm
  · exact hne hm

theorem mem_of_shrunk (hl : l ⊆ ls k) (hy : y ∈ update ls k l j) : y ∈ ls j := by
  by_cases hj : j = k
  · subst hj
    rw [update_self] at hy
    exact hl hy
  · rwa [update_of_ne hj] at hy

section

variable (h : Shape s ls)

include h

theorem Shape.grow (ht : Free ls t) (hq : RunQueue.Holds s'.links (s'.queue k) (ls k ++ [t]))
    (hother : ∀ j ≠ k, s'.queue j = s.queue j)
    (hsame : ∀ y, y ∉ ls k → y ≠ t → s.links.SameAt s'.links y) :
    Shape s' (Function.update ls k (ls k ++ [t])) := by
  apply h.update hq hother
  · intro y hy hyt
    exact hsame y hy fun he => hyt (by simp [he])
  · intro y hy hyk
    rcases mem_append.1 hy with hy | hy
    · exact absurd hy hyk
    · rw [mem_singleton.1 hy]
      exact ht

theorem Shape.shrink (hl : l ⊆ ls k) (hq : RunQueue.Holds s'.links (s'.queue k) l)
    (hother : ∀ j ≠ k, s'.queue j = s.queue j) (hsame : ∀ y, y ∉ ls k → s.links.SameAt s'.links y) :
    Shape s' (Function.update ls k l) := by
  apply h.update hq hother
  · exact fun y hy _ => hsame y hy
  · exact fun y hy hyk => absurd (hl hy) hyk

omit h in
theorem queue_setRun : ({ s with runQueues := update s.runQueues i q, links := L } : SchedulerEx).queue
      (some i) = q := update_self _ _ _

omit h in
theorem queue_setRun_other (hj : j ≠ some i) :
    ({ s with runQueues := update s.runQueues i q, links := L } : SchedulerEx).queue j =
      s.queue j := by
  cases j with
  | none => rfl
  | some j => exact update_of_ne (fun he => hj (congrArg some he)) _ _

theorem Shape.pushRun (ht : Free ls t) :
    Shape (s.pushRun i t) (Function.update ls (some i) (ls (some i) ++ [t])) := by
  obtain ⟨hq, hsame⟩ := pushBack_holds (h.holds (some i)) (ht (some i))
  apply h.grow ht
  · rw [SchedulerEx.pushRun, queue_setRun]
    exact hq
  · exact fun j hj => queue_setRun_other hj
  · exact hsame

theorem Shape.pushFrozen (ht : Free ls t) :
    Shape (s.pushFrozen t) (Function.update ls none (ls none ++ [t])) := by
  obtain ⟨hq, hsame⟩ := pushBack_holds (h.holds none) (ht none)
  apply h.grow ht hq
  · intro j hj
    cases j with
    | none => exact absurd rfl hj
    | some j => rfl
  · exact hsame

theorem free_of_removed (ht : t ∈ ls k) : Free (update ls k ((ls k).erase t)) t := by
  intro j
  by_cases hj : j = k
  · subst hj
    rw [update_self]
    exact (h.holds j).nodup.not_mem_erase
  · rw [update_of_ne hj]
    exact h.disjoint k j (Ne.symm hj) t ht

theorem free_of_popped (hl : ls (some i) = t :: l) : Free (update ls (some i) l) t := by
  have hfree : Free (update ls (some i) ((ls (some i)).erase t)) t :=
    free_of_removed h (by simp [hl])
  rwa [hl, erase_cons_head] at hfree

theorem popRun_nil (hl : ls (some i) = []) : s.popRun i = (s, none) := by
  have hq := h.holds (some i)
  rw [hl] at hq
  simp only [popRun, popFront_nil (q := s.runQueues i) hq]
  rw [update_eq_self]

theorem popRun_cons (hl : ls (some i) = t :: l) : ∃ q L, s.popRun i =
        ({ s with runQueues := update s.runQueues i q, links := L }, some t) ∧
      Shape { s with runQueues := update s.runQueues i q, links := L } (update ls (some i) l) := by
  have hq := h.holds (some i)
  rw [hl] at hq
  obtain ⟨q, L, hpop, hholds, hsame⟩ := popFront_cons hq
  have hpop' : (s.runQueues i).popFront s.links = (q, L, some t) := hpop
  refine ⟨q, L, by simp only [popRun, hpop'], ?_⟩
  apply h.shrink
  · rw [hl]
    exact subset_cons_self t l
  · rw [queue_setRun]
    exact hholds
  · exact fun j hj => queue_setRun_other hj
  · intro y hy
    exact hsame y (hl ▸ hy)

theorem removeRun_of_not_mem (ht : ∀ i ∈ is, t ∉ ls (some i)) : s.removeRun t is = (s, false) := by
  induction is with
  | nil => rfl
  | cons i is ih =>
    have hq := remove_of_not_mem (h.holds (some i)) (ht i (by simp))
    have hq' : (s.runQueues i).remove s.links t = (s.runQueues i, s.links, false) := hq
    rw [removeRun, hq']
    exact ih fun j hj => ht j (by simp [hj])

theorem removeRun_of_mem (hi : i ∈ is) (ht : t ∈ ls (some i)) : ∃ q L, s.removeRun t is =
        ({ s with runQueues := update s.runQueues i q, links := L }, true) ∧
      Shape { s with runQueues := update s.runQueues i q, links := L }
        (update ls (some i) ((ls (some i)).erase t)) := by
  induction is with
  | nil => cases hi
  | cons j js ih =>
    by_cases hij : i = j
    · subst hij
      obtain ⟨q, L, hrem, hholds, hsame⟩ := remove_of_mem (h.holds (some i)) ht
      have hrem' : (s.runQueues i).remove s.links t = (q, L, true) := hrem
      refine ⟨q, L, by rw [removeRun, hrem'], ?_⟩
      apply h.shrink erase_subset
      · rw [queue_setRun]
        exact hholds
      · exact fun k hk => queue_setRun_other hk
      · exact hsame
    · have hj : t ∉ ls (some j) := h.disjoint (some i) (some j) (by simpa using hij) t ht
      have hq := remove_of_not_mem (h.holds (some j)) hj
      have hq' : (s.runQueues j).remove s.links t = (s.runQueues j, s.links, false) := hq
      rw [removeRun, hq']
      exact ih ((mem_cons.1 hi).resolve_left hij)

theorem shape_of_eq (hlinks : s'.links = s.links) (hrun : s'.runQueues = s.runQueues)
    (hfrozen : s'.frozenQueue = s.frozenQueue) : Shape s' ls := by
  refine ⟨fun k => ?_, h.disjoint⟩
  have hq : s'.queue k = s.queue k := by
    cases k with
    | none => exact hfrozen
    | some i => exact congrFun hrun i
  rw [hlinks, hq]
  exact h.holds k

theorem Shape.withThread (t : ThreadPtr) (f : Thread → Thread) :
    Shape (s.withThread t f) ls := shape_of_eq h rfl rfl rfl

theorem Shape.setState (t : ThreadPtr) (st : ThreadState) : Shape (s.setState t st) ls := h.withThread t _

omit h in
theorem shape_new (threads : ThreadPtr → Thread) (links : Links ThreadPtr) :
    Shape (new threads links) fun _ => [] := by
  refine ⟨fun k => ?_, fun j k _ t ht => by cases ht⟩
  cases k with
  | none | some i => exact holds_new

theorem Shape.addThread (ht : Free ls t)
    (hst : (s.threads t).state = .ready ∨ (s.threads t).state = .created) :
    Shape (s.addThread (some t)) (Function.update ls (some (queueIdx (s.threads t).priority))
      (ls (some (queueIdx (s.threads t).priority)) ++ [t])) := by
  rw [SchedulerEx.addThread, if_pos hst]
  exact (h.withThread t _).pushRun ht

end

end SchedulerEx

end AntX.Proc
