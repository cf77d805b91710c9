import AntX.Proc.SchedulerEx

/-! Runs of the thread scheduler. The idle thread is current and queued after `init`. The priority
boost scans the queue that it moves the threads to as the last one. -/

namespace AntX.Proc

open Lib Function List

namespace SchedulerEx

variable {s : SchedulerEx} {ls : Option (Fin 5) → List ThreadPtr} {t : ThreadPtr}
  {added : List ThreadPtr} {st : ThreadState}

theorem setState_self : ((s.setState t st).threads t).state =
    if (s.threads t).state.allows st then st else (s.threads t).state := by
  rw [setState, withThread]
  dsimp only
  rw [update_self]
  split <;> rfl

def Awake (threads : ThreadPtr → Thread) (ls : Option (Fin 5) → List ThreadPtr) : Prop :=
  ∀ i, ∀ t ∈ ls (some i), (threads t).state ≠ .zombie

theorem awake_withThread (h : Awake s.threads ls) (ht : Free ls t) (f : Thread → Thread) :
    Awake (s.withThread t f).threads ls := by
  intro i x hx
  have hne : x ≠ t := by
    rintro rfl
    exact ht (some i) hx
  rw [show (s.withThread t f).threads x = _ from update_of_ne hne ..]
  exact h i x hx

theorem awake_push {threads : ThreadPtr → Thread} {k : Option (Fin 5)} (h : Awake threads ls)
    (ht : (threads t).state ≠ .zombie) : Awake threads (update ls k (ls k ++ [t])) := by
  intro i x hx
  rcases mem_push.1 hx with hx | ⟨-, rfl⟩
  · exact h i x hx
  · exact ht

theorem awake_shrunk {threads : ThreadPtr → Thread} {k : Option (Fin 5)} {l : List ThreadPtr}
    (h : Awake threads ls) (hl : l ⊆ ls k) : Awake threads (update ls k l) :=
  fun i x hx => h i x (mem_of_shrunk hl hx)

theorem reapZombies_of_awake (h : Shape s ls) (hawake : Awake s.threads ls) : s.reapZombies = s := by
  have hnone : s.toReap = [] := by
    rw [toReap, take_eq_nil_iff]
    right
    rw [filter_eq_nil_iff]
    intro t ht
    obtain ⟨i, -, hi⟩ := mem_flatMap.1 ht
    have hmem : t ∈ ls (some i) := h.members_eq (some i) ▸ hi
    simpa using hawake i t hmem
  rw [reapZombies, hnone]
  rfl

theorem pickNextPriority_spec (lengths : Fin 5 → Nat) :
    (∃ i, DefaultPolicy.pickNextPriority lengths = some i ∧ lengths i ≠ 0) ∨
    (DefaultPolicy.pickNextPriority lengths = none ∧ ∀ i, lengths i = 0) := by
  rw [DefaultPolicy.pickNextPriority]
  cases hf : [4, 3, 2, 1, 0].find? fun prio => decide (0 < lengths prio) with
  | some i =>
    have hpos := find?_some hf
    exact .inl ⟨i, rfl, by simpa [Nat.pos_iff_ne_zero] using hpos⟩
  | none =>
    refine .inr ⟨rfl, fun i => ?_⟩
    have hall := find?_eq_none.1 hf i (by revert i; decide)
    simpa using hall

theorem nextThread_spec (h : Shape s ls) : (∃ i t l q L, ls (some i) = t :: l ∧
      s.nextThread = ({ s with runQueues := update s.runQueues i q, links := L }, some t) ∧
      Shape { s with runQueues := update s.runQueues i q, links := L } (update ls (some i) l)) ∨
    ((∀ i, (s.runQueues i).count = 0) ∧ s.nextThread = (s, s.idleThread)) := by
  rw [nextThread, popHighest]
  rcases pickNextPriority_spec fun i => (s.runQueues i).count with ⟨i, hpick, hpos⟩ | ⟨hpick, hz⟩
  · rw [hpick]
    cases hl : ls (some i) with
    | nil => exact absurd ((h.count_eq_zero i).2 hl) hpos
    | cons t l =>
      obtain ⟨q, L, hpop, hshape⟩ := popRun_cons h hl
      exact .inl ⟨i, t, l, q, L, hl, by dsimp only; rw [hpop], hshape⟩
  · rw [hpick]
    exact .inr ⟨hz, rfl⟩

theorem known_push {k j : Option (Fin 5)} {x : ThreadPtr} (h : ∀ k, ∀ t ∈ ls k, t ∈ added)
    (ht : t ∈ added) (hx : x ∈ update ls k (ls k ++ [t]) j) : x ∈ added := by
  rcases mem_push.1 hx with hx | ⟨-, rfl⟩
  · exact h j x hx
  · exact ht

/-- The thread goes from one queue, which keeps the list, to the end of another. -/
def moved (ls : Option (Fin 5) → List ThreadPtr) (j k : Option (Fin 5)) (t : ThreadPtr)
    (l : List ThreadPtr) : Option (Fin 5) → List ThreadPtr :=
  update (update ls j l) k (update ls j l k ++ [t])

/-- The current thread is in no queue, and all threads in sight have been added. -/
structure Sound (s : SchedulerEx) (added : List ThreadPtr)
    (ls : Option (Fin 5) → List ThreadPtr) : Prop where
  shape : Shape s ls
  current : ∃ c, s.current = some c ∧ Free ls c ∧ c ∈ added
  idle : ∃ i, s.idleThread = some i ∧ i ∈ added
  awake : Awake s.threads ls
  known : ∀ k, ∀ t ∈ ls k, t ∈ added

theorem ready_of_alive (halive : (s.threads t).state.isAlive = true) :
    ((s.setState t .ready).threads t).state ≠ .zombie := by
  rw [setState_self]
  split
  · decide
  · intro hz
    rw [hz] at halive
    cases halive

theorem sound_switch {c next : ThreadPtr} (h : Shape s ls) (hawake : Awake s.threads ls)
    (hknown : ∀ k, ∀ t ∈ ls k, t ∈ added) (hidle : ∃ i, s.idleThread = some i ∧ i ∈ added)
    (hc : Free ls c) (hcadd : c ∈ added) (hn : Free ls next) (hnadd : next ∈ added) :
    ∃ ls', Sound { (s.requeue (some c) next).setState next .running with
      current := some next, needReschedule := false } added ls' := by
  rw [requeue]
  by_cases hput : c ≠ next ∧ (s.threads c).state.isAlive
  · rw [if_pos hput]
    generalize queueIdx (s.threads c).priority = i
    have hshape : Shape ((s.setState c .ready).pushRun i c) _ := (h.setState c .ready).pushRun hc
    have hfree : Free (update ls (some i) (ls (some i) ++ [c])) next :=
      free_push hn (Ne.symm hput.1)
    have hready : Awake ((s.setState c .ready).pushRun i c).threads
        (update ls (some i) (ls (some i) ++ [c])) :=
      awake_push (awake_withThread hawake hc _) (ready_of_alive hput.2)
    refine ⟨_, shape_of_eq (hshape.setState next .running) rfl rfl rfl, ⟨next, rfl, hfree, hnadd⟩,
      hidle, awake_withThread hready hfree _, fun k x => known_push hknown hcadd⟩
  · rw [if_neg hput]
    exact ⟨ls, shape_of_eq (h.setState next .running) rfl rfl rfl, ⟨next, rfl, hn, hnadd⟩, hidle,
      awake_withThread hawake hn _, hknown⟩

/-- A thread waits in a run queue, or the idle thread is not frozen. -/
def hasSuccessor (s : SchedulerEx) : Bool :=
  (finRange 5).any (fun i => (s.runQueues i).count != 0) ||
    s.idleThread.all fun idle => !(s.members none).contains idle

theorem free_idle (h : Shape s ls) (hok : s.hasSuccessor = true)
    (hz : ∀ i, (s.runQueues i).count = 0) {idle : ThreadPtr} (hidle : s.idleThread = some idle) :
    Free ls idle := by
  intro k hk
  cases k with
  | some i =>
    rw [(h.count_eq_zero i).1 (hz i)] at hk
    cases hk
  | none =>
    have hno : idle ∉ ls none := by
      simpa [hasSuccessor, hz, hidle, h.members_eq] using hok
    exact hno hk

section

variable (h : Sound s added ls)

include h

theorem sound_schedule (hok : s.hasSuccessor = true) : ∃ ls', Sound s.schedule added ls' := by
  obtain ⟨c, hc, hfree, hcadd⟩ := h.current
  obtain ⟨idle, hidle, hiadd⟩ := h.idle
  rw [schedule, reapZombies_of_awake h.shape h.awake, hc]
  rcases nextThread_spec h.shape with ⟨i, t, l, q, L, hl, hnext, hshape⟩ | ⟨hz, hnext⟩
  · rw [hnext]
    have hsub : l ⊆ ls (some i) := by
      rw [hl]
      exact subset_cons_self t l
    exact sound_switch hshape (awake_shrunk h.awake hsub)
      (fun k x hx => h.known k x (mem_of_shrunk hsub hx)) ⟨idle, hidle, hiadd⟩
      (fun k hm => hfree k (mem_of_shrunk hsub hm)) hcadd (free_of_popped h.shape hl)
      (h.known (some i) t (by simp [hl]))
  · rw [hnext, hidle]
    exact sound_switch h.shape h.awake h.known ⟨idle, hidle, hiadd⟩ hfree hcadd
      (free_idle h.shape hok hz hidle) hiadd

theorem sound_yieldCurrent (hok : s.hasSuccessor = true) : ∃ ls', Sound s.yieldCurrent added ls' :=
  sound_schedule (s := { s with needReschedule := true })
    ⟨shape_of_eq h.shape rfl rfl rfl, h.current, h.idle, h.awake, h.known⟩ hok

theorem sound_exitThread (hok : s.hasSuccessor = true) : ∃ ls', Sound s.exitThread added ls' := by
  obtain ⟨c, hc, hfree, hcadd⟩ := h.current
  rw [exitThread, hc]
  exact sound_schedule (s := { s.setState c .zombie with needReschedule := true })
    ⟨shape_of_eq h.shape rfl rfl rfl, ⟨c, hc, hfree, hcadd⟩, h.idle, awake_withThread h.awake hfree _,
      h.known⟩ hok

theorem sound_addThread (ht : t ∉ added) : ∃ ls', Sound (s.addThread (some t)) (t :: added) ls' := by
  have hfree : Free ls t := fun k hk => ht (h.known k t hk)
  obtain ⟨c, hc, hcfree, hcadd⟩ := h.current
  obtain ⟨idle, hidle, hiadd⟩ := h.idle
  by_cases hst : (s.threads t).state = .ready ∨ (s.threads t).state = .created
  · have hne : c ≠ t := by
      rintro rfl
      exact ht hcadd
    have hshape := h.shape.addThread hfree hst
    rw [addThread, if_pos hst] at hshape ⊢
    have hself : ((s.withThread t fun th => { th with state := .ready }).threads t).state ≠
        .zombie := by
      rw [withThread]
      simp
    have hother := awake_withThread h.awake hfree fun th => { th with state := .ready }
    exact ⟨_, hshape, ⟨c, hc, free_push hcfree hne, mem_cons_of_mem _ hcadd⟩,
      ⟨idle, hidle, mem_cons_of_mem _ hiadd⟩, awake_push hother hself,
      fun k x => known_push (fun k x hx => mem_cons_of_mem _ (h.known k x hx)) mem_cons_self⟩
  · rw [addThread, if_neg hst]
    exact ⟨ls, h.shape, ⟨c, hc, hcfree, mem_cons_of_mem _ hcadd⟩,
      ⟨idle, hidle, mem_cons_of_mem _ hiadd⟩, h.awake,
      fun k x hx => mem_cons_of_mem _ (h.known k x hx)⟩

theorem sound_of_moved {s' : SchedulerEx} {j k : Option (Fin 5)} (ht : t ∈ ls j)
    (hshape : Shape s' (moved ls j k t ((ls j).erase t))) (hcur : s'.current = s.current)
    (hidle : s'.idleThread = s.idleThread)
    (hawake : Awake s'.threads (moved ls j k t ((ls j).erase t))) : ∃ ls', Sound s' added ls' := by
  obtain ⟨c, hc, hcfree, hcadd⟩ := h.current
  have hne : c ≠ t := by
    rintro rfl
    exact hcfree j ht
  have hsub : (ls j).erase t ⊆ ls j := erase_subset
  refine ⟨_, hshape, ⟨c, hcur.trans hc, ?_, hcadd⟩, hidle ▸ h.idle, hawake, fun i x => ?_⟩
  · exact free_push (fun i hm => hcfree i (mem_of_shrunk hsub hm)) hne
  · exact known_push (fun i x hx => h.known i x (mem_of_shrunk hsub hx)) (h.known j t ht)

theorem sound_freezeThread (t : ThreadPtr) : ∃ ls', Sound (s.freezeThread (some t)).1 added ls' := by
  rw [freezeThread]
  by_cases hcan : (s.threads t).state.canFreeze
  · rw [if_pos hcan]
    by_cases hin : ∃ i, t ∈ ls (some i)
    · obtain ⟨i, hi⟩ := hin
      obtain ⟨q, L, hrem, hshape⟩ := removeRun_of_mem h.shape (mem_finRange i) hi
      rw [hrem]
      have hfree := free_of_removed h.shape hi
      refine sound_of_moved (k := none) h hi ((hshape.setState t .frozen).pushFrozen hfree) rfl rfl ?_
      -- The run queues only lost the thread.
      intro j x hx
      rcases mem_push.1 hx with hx | ⟨hj, -⟩
      · exact awake_withThread (awake_shrunk h.awake erase_subset) hfree _ j x hx
      · cases hj
    · have hout : ∀ i ∈ finRange 5, t ∉ ls (some i) := fun i _ hi => hin ⟨i, hi⟩
      rw [removeRun_of_not_mem h.shape hout]
      exact ⟨ls, h⟩
  · rw [if_neg hcan]
    exact ⟨ls, h⟩

theorem sound_thawThread (t : ThreadPtr) : ∃ ls', Sound (s.thawThread (some t)).1 added ls' := by
  rw [thawThread]
  by_cases hst : (s.threads t).state ≠ .frozen
  · rw [if_pos hst]
    exact ⟨ls, h⟩
  · rw [if_neg hst]
    by_cases hin : t ∈ ls none
    · obtain ⟨q, L, hrem, hholds, hsame⟩ := RunQueue.remove_of_mem (h.shape.holds none) hin
      have hrem' : s.frozenQueue.remove s.links t = (q, L, true) := hrem
      rw [hrem']
      have hfree := free_of_removed h.shape hin
      have hshape : Shape { s with frozenQueue := q, links := L } (update ls none ((ls none).erase t)) := by
        refine h.shape.shrink erase_subset hholds ?_ hsame
        intro j hj
        cases j with
        | none => exact absurd rfl hj
        | some j => rfl
      refine sound_of_moved h hin ((hshape.setState t .ready).pushRun hfree) rfl rfl ?_
      refine awake_push (awake_withThread (awake_shrunk h.awake erase_subset) hfree _) ?_
      apply ready_of_alive
      rw [show (({ s with frozenQueue := q, links := L } : SchedulerEx).threads t).state = .frozen
        from not_not.1 hst]
      rfl
    · have hrem := RunQueue.remove_of_not_mem (h.shape.holds none) hin
      have hrem' : s.frozenQueue.remove s.links t = (s.frozenQueue, s.links, false) := hrem
      rw [hrem']
      exact ⟨ls, h⟩

end

inductive Call where
  | addThread (thread : Option ThreadPtr)
  | schedule
  | yieldCurrent
  | freezeThread (thread : Option ThreadPtr)
  | thawThread (thread : Option ThreadPtr)
  | exitThread

structure Trace where
  sys : SchedulerEx
  added : List ThreadPtr

def Trace.step (tr : Trace) : Call → Trace
  | .addThread t => { sys := tr.sys.addThread t, added := t.toList ++ tr.added }
  | .schedule => { tr with sys := tr.sys.schedule }
  | .yieldCurrent => { tr with sys := tr.sys.yieldCurrent }
  | .freezeThread t => { tr with sys := (tr.sys.freezeThread t).1 }
  | .thawThread t => { tr with sys := (tr.sys.thawThread t).1 }
  | .exitThread => { tr with sys := tr.sys.exitThread }

def Trace.admissible (tr : Trace) : Call → Bool
  | .addThread t => t.all fun t => !tr.added.contains t
  | .schedule | .yieldCurrent | .exitThread => tr.sys.hasSuccessor
  | .freezeThread _ | .thawThread _ => true

theorem sound_step {tr : Trace} {c : Call} (h : ∃ ls, Sound tr.sys tr.added ls)
    (hok : tr.admissible c = true) : ∃ ls, Sound (tr.step c).sys (tr.step c).added ls := by
  obtain ⟨ls, h⟩ := h
  cases c with
  | addThread t =>
    cases t with
    | none => exact ⟨ls, h⟩
    | some t => exact sound_addThread h (by simpa [Trace.admissible] using hok)
  | schedule => exact sound_schedule h hok
  | yieldCurrent => exact sound_yieldCurrent h hok
  | freezeThread t =>
    cases t with
    | none => exact ⟨ls, h⟩
    | some t => exact sound_freezeThread h t
  | thawThread t =>
    cases t with
    | none => exact ⟨ls, h⟩
    | some t => exact sound_thawThread h t
  | exitThread => exact sound_exitThread h hok

def Trace.start (threads : ThreadPtr → Thread) (links : Links ThreadPtr) (idle : ThreadPtr) :
    Trace :=
  { sys := (new threads links).init idle, added := [idle] }

def onlyIdle (idle : ThreadPtr) : Option (Fin 5) → List ThreadPtr :=
  update (fun _ => []) (some 0) [idle]

theorem shape_init (threads : ThreadPtr → Thread) (links : Links ThreadPtr) (idle : ThreadPtr) :
    Shape ((new threads links).init idle) (onlyIdle idle) := by
  refine @Shape.pushRun _ (fun _ => []) idle 0 ?_ fun _ => not_mem_nil
  exact shape_of_eq (shape_new threads _) rfl rfl rfl

theorem sound_first {idle : ThreadPtr} (h : Shape s (onlyIdle idle)) (hc : s.current = some idle)
    (hi : s.idleThread = some idle) (hst : (s.threads idle).state = .ready) :
    ∃ ls, Sound s.schedule [idle] ls := by
  have hmem : ∀ k, ∀ t ∈ onlyIdle idle k, t = idle := by
    intro k t ht
    by_cases hk : k = some 0
    · rw [hk, onlyIdle, update_self] at ht
      exact mem_singleton.1 ht
    · rw [onlyIdle, update_of_ne hk] at ht
      cases ht
  have hawake : Awake s.threads (onlyIdle idle) := by
    intro i t ht
    rw [hmem _ t ht, hst]
    decide
  rw [schedule, reapZombies_of_awake h hawake, hc]
  rcases nextThread_spec h with ⟨i, t, l, q, L, hl, hnext, hshape⟩ | ⟨hz, -⟩
  · obtain rfl : t = idle := hmem (some i) t (by simp [hl])
    have hsub : l ⊆ onlyIdle t (some i) := by
      rw [hl]
      exact subset_cons_self t l
    have hfree := free_of_popped h hl
    rw [hnext]
    refine sound_switch hshape (awake_shrunk hawake hsub) ?_ ⟨t, hi, by simp⟩ hfree (by simp) hfree (by simp)
    intro k x hx
    rw [hmem k x (mem_of_shrunk hsub hx)]
    simp
  · have hnil := (h.count_eq_zero 0).1 (hz 0)
    cases hnil

def QueuedOnce (s : SchedulerEx) : Prop :=
  (((finRange 5).flatMap fun i => s.members (some i)) ++ s.members none).Nodup ∧
    ∀ c, s.current = some c → ∀ i, c ∉ s.members (some i)

theorem Sound.queuedOnce (h : Sound s added ls) : QueuedOnce s := by
  obtain ⟨c, hc, hfree, -⟩ := h.current
  have hm : s.members = ls := funext h.shape.members_eq
  rw [QueuedOnce, hm]
  constructor
  · refine nodup_append.2 ⟨nodup_flatMap.2 ⟨?_, ?_⟩, (h.shape.holds none).nodup, ?_⟩
    · exact fun i _ => (h.shape.holds (some i)).nodup
    · refine (nodup_finRange 5).imp ?_
      intro i j hij t hi hj
      exact h.shape.disjoint (some i) (some j) (by simpa using hij) t hi hj
    · rintro t ht _ hn rfl
      obtain ⟨i, -, hi⟩ := mem_flatMap.1 ht
      exact h.shape.disjoint (some i) none (by simp) t hi hn
  · intro c' hc' i hi
    rw [hc] at hc'
    obtain rfl := Option.some.inj hc'
    exact hfree (some i) hi

/-- When the first call lets the idle thread run, no thread is queued twice from then on. -/
theorem queued_once_after_first {threads : ThreadPtr → Thread} {links : Links ThreadPtr}
    {idle : ThreadPtr} {first : Call} {calls : List Call}
    (hfirst : first = .schedule ∨ first = .yieldCurrent)
    (hg : Guarded Trace.step (fun tr c => tr.admissible c = true)
      ((Trace.start threads links idle).step first) calls) :
    QueuedOnce (run Trace.step (Trace.start threads links idle) (first :: calls)).sys := by
  have hshape := shape_init threads links idle
  have hst : (((new threads links).init idle).threads idle).state = .ready := by
    have hself : ((new threads links).init idle).threads idle =
        { tid := 0, state := .ready, priority := 0, timeSlice := 2 ^ 32 - 1 } :=
      update_self _ _ _
    rw [hself]
  have hcur : ((new threads links).init idle).current = some idle := rfl
  have hidle : ((new threads links).init idle).idleThread = some idle := rfl
  have hstart : ∃ ls, Sound ((Trace.start threads links idle).step first).sys
      ((Trace.start threads links idle).step first).added ls := by
    generalize hs : (new threads links).init idle = s at hshape hst hcur hidle
    rw [Trace.start, hs]
    rcases hfirst with rfl | rfl
    · exact sound_first hshape hcur hidle hst
    · exact sound_first (s := { s with needReschedule := true })
        (shape_of_eq hshape rfl rfl rfl) hcur hidle hst
  obtain ⟨ls, hsound⟩ := @Guarded.run_invariant _ _ _ _
    (fun tr => ∃ ls, Sound tr.sys tr.added ls) _ _ hg hstart fun _ _ => sound_step
  exact hsound.queuedOnce

def normalThreads : ThreadPtr → Thread := fun _ =>
  { tid := 1, state := .created, priority := 2, timeSlice := 40 }

def noLinks : Links ThreadPtr := { next := fun _ => none, prev := fun _ => none }

def comeAndGo : List Call :=
  [.addThread (some 2), .addThread (some 3), .schedule, .freezeThread (some 3), .yieldCurrent,
    .thawThread (some 3), .schedule, .exitThread]

theorem queued_once_after_first_comeAndGo : Guarded Trace.step (fun tr c => tr.admissible c = true)
        ((Trace.start normalThreads noLinks 1).step .schedule) comeAndGo ∧
      QueuedOnce (run Trace.step (Trace.start normalThreads noLinks 1) (.schedule :: comeAndGo)).sys := by
  have hg : Guarded Trace.step (fun tr c => tr.admissible c = true)
      ((Trace.start normalThreads noLinks 1).step .schedule) comeAndGo := by decide +kernel
  exact ⟨hg, queued_once_after_first (.inl rfl) hg⟩

/-- The idle thread is current and queued after `init`, and queued twice when a thread is added
before the first call of `schedule`. -/
theorem idle_queued_twice : ¬ QueuedOnce (Trace.start normalThreads noLinks 1).sys ∧
      ¬ QueuedOnce (run Trace.step (Trace.start normalThreads noLinks 1)
        [.addThread (some 2), .schedule]).sys := by
  constructor
  · intro h
    exact h.2 1 rfl 0 (by decide +kernel)
  · intro h
    have htwice : (run Trace.step (Trace.start normalThreads noLinks 1)
        [.addThread (some 2), .schedule]).sys.members (some 0) = [1, 1] := by decide +kernel
    have hnd := h.1.sublist (sublist_append_left _ _)
    have hone := (nodup_flatMap.1 hnd).1 0 (mem_finRange 0)
    rw [htwice] at hone
    simp at hone

variable {s' : SchedulerEx}

def boostStep : SchedulerEx × Nat → (SchedulerEx × Nat) ⊕ SchedulerEx
  | (s, src) =>
    if src < 4 then
      match s.popRun (Fin.ofNat 5 src) with
      | (s, some t) =>
        .inl ((s.withThread t fun th =>
          { th with
            priority := DefaultPolicy.boostTarget.toU32
            timeSlice := DefaultPolicy.timeSliceFor DefaultPolicy.boostTarget }).pushRun
              DefaultPolicy.boostTarget.toU32 t, src)
      | (s, none) => .inl (s, src + 1)
    else .inr s

theorem boostStep_nil (h : Shape s ls) {src : Nat} (hsrc : src < 4)
    (hl : ls (some (Fin.ofNat 5 src)) = []) : boostStep (s, src) = .inl (s, src + 1) := by
  rw [boostStep, if_pos hsrc, popRun_nil h hl]

theorem boostStep_cons (h : Shape s ls) {src : Nat} (hsrc : src < 4) {l : List ThreadPtr}
    (hl : ls (some (Fin.ofNat 5 src)) = t :: l) :
    ∃ s', boostStep (s, src) = .inl (s', src) ∧ Shape s' (moved ls (some (Fin.ofNat 5 src)) (some 3) t l) := by
  obtain ⟨q, L, hpop, hshape⟩ := popRun_cons h hl
  have hfree := free_of_popped h hl
  rw [boostStep, if_pos hsrc, hpop]
  refine ⟨_, rfl, ?_⟩
  exact (hshape.withThread t _).pushRun hfree

theorem boost_drains (h : Shape s ls) (src : Nat) (hsrc : src < 3) :
    ∃ s', after boostStep ((ls (some (Fin.ofNat 5 src))).length + 1) (s, src) = .inl (s', src + 1) ∧
      Shape s' (update (update ls (some (Fin.ofNat 5 src)) []) (some 3)
        (ls (some 3) ++ ls (some (Fin.ofNat 5 src)))) := by
  have hne : (some 3 : Option (Fin 5)) ≠ some (Fin.ofNat 5 src) := by
    have : src = 0 ∨ src = 1 ∨ src = 2 := by omega
    rcases this with rfl | rfl | rfl <;> decide
  generalize hl : ls (some (Fin.ofNat 5 src)) = l
  induction l generalizing s ls with
  | nil =>
    refine ⟨s, ?_, ?_⟩
    · exact (after_succ_of_step (boostStep_nil h (by omega) hl)).trans rfl
    · rw [append_nil, ← hl, update_eq_self, update_eq_self]
      exact h
  | cons t l ih =>
    obtain ⟨s₁, hstep, hs₁⟩ := boostStep_cons h (by omega) hl
    have hsrc' : moved ls (some (Fin.ofNat 5 src)) (some 3) t l (some (Fin.ofNat 5 src)) = l := by
      rw [moved, update_of_ne (Ne.symm hne), update_self]
    have htarget : moved ls (some (Fin.ofNat 5 src)) (some 3) t l (some 3) = ls (some 3) ++ [t] := by
      rw [moved, update_self, update_of_ne hne]
    obtain ⟨s₂, hafter, hs₂⟩ := ih hs₁ hsrc'
    refine ⟨s₂, by rw [length_cons, after_succ_of_step hstep, hafter], ?_⟩
    rw [htarget, append_assoc, singleton_append] at hs₂
    convert hs₂ using 1
    funext k
    by_cases hk : k = some 3
    · rw [hk, update_self, update_self]
    · rw [update_of_ne hk, update_of_ne hk]
      by_cases hk' : k = some (Fin.ofNat 5 src)
      · rw [hk', update_self, update_self]
      · rw [update_of_ne hk', update_of_ne hk', moved, update_of_ne hk, update_of_ne hk']

/-- The boost drains queues 0 to 2 behind queue 3, and then stands at its own target. -/
theorem boost_reaches_target (h : Shape s ls) : ∃ n s', after boostStep n (s, 0) = .inl (s', 3) ∧
      s'.members (some 3) = ls (some 3) ++ ls (some 0) ++ ls (some 1) ++ ls (some 2) ∧
      s'.members (some 0) = [] ∧ s'.members (some 1) = [] ∧ s'.members (some 2) = [] := by
  obtain ⟨s₁, h₁, hs₁⟩ := boost_drains h 0 (by decide)
  obtain ⟨s₂, h₂, hs₂⟩ := boost_drains hs₁ 1 (by decide)
  obtain ⟨s₃, h₃, hs₃⟩ := boost_drains hs₂ 2 (by decide)
  refine ⟨_, s₃, (after_add h₁).trans ((after_add h₂).trans h₃), ?_⟩
  simp only [hs₃.members_eq]
  simp [Fin.ofNat]

def Looping (b : SchedulerEx × Nat) : Prop :=
  ∃ ls, Shape b.1 ls ∧ ∃ i, b.2 ≤ i ∧ i < 4 ∧ ls (some (Fin.ofNat 5 i)) ≠ []

theorem looping_step {b : SchedulerEx × Nat} (hb : Looping b) : ∃ b', boostStep b = .inl b' ∧ Looping b' := by
  obtain ⟨s, src⟩ := b
  obtain ⟨ls, h, i, hle, hlt, hne⟩ := hb
  have hsrc : src < 4 := by omega
  cases hl : ls (some (Fin.ofNat 5 src)) with
  | nil =>
    have hi : i ≠ src := by
      rintro rfl
      exact hne hl
    exact ⟨_, boostStep_nil h hsrc hl, ls, h, i, by dsimp only; omega, hlt, hne⟩
  | cons t l =>
    -- The thread is in the target queue now, which is scanned last.
    obtain ⟨s', hstep, hshape⟩ := boostStep_cons h hsrc hl
    refine ⟨_, hstep, _, hshape, 3, by dsimp only; omega, by decide, ?_⟩
    have htarget : some (Fin.ofNat 5 3) = (some 3 : Option (Fin 5)) := rfl
    rw [htarget, moved, update_self]
    simp

theorem not_returns_of_looping (hloop : Looping (s, 0)) : ¬ ∃ n s', after boostStep n (s, 0) = .inr s' := by
  rintro ⟨n, s', hend⟩
  obtain ⟨u, hu, -⟩ := after_progress Looping (fun _ => looping_step) hloop n
  rw [hend] at hu
  cases hu

theorem boostStep_of_empty (h : Shape s ls) (hempty : ∀ i < 4, ls (some (Fin.ofNat 5 i)) = []) :
    after boostStep 5 (s, 0) = .inr s := by
  rw [after_succ_of_step (boostStep_nil h (by decide) (hempty 0 (by decide))),
    after_succ_of_step (boostStep_nil h (by decide) (hempty 1 (by decide))),
    after_succ_of_step (boostStep_nil h (by decide) (hempty 2 (by decide))),
    after_succ_of_step (boostStep_nil h (by decide) (hempty 3 (by decide)))]
  rfl

/-- Every thread from below the target queue is in it once, and no thread is lost. -/
def Boosted (s s' : SchedulerEx) : Prop :=
  (s'.members (some 3)).Perm (s.members (some 3) ++ s.members (some 0) ++ s.members (some 1) ++
      s.members (some 2)) ∧
    (∀ i : Fin 5, i < 3 → s'.members (some i) = []) ∧
    s'.members (some 4) = s.members (some 4) ∧ s'.members none = s.members none

/-- The boost returns exactly when the queues that it scans are empty. -/
theorem boost_returns_iff_empty (h : Shape s ls) :
    (∃ n s', after boostStep n (s, 0) = .inr s' ∧ Boosted s s') ↔
      ∀ i : Fin 5, i < 4 → (s.runQueues i).count = 0 := by
  constructor
  · rintro ⟨n, s', hend, -⟩
    by_contra hne
    push Not at hne
    obtain ⟨i, hi, hcount⟩ := hne
    refine not_returns_of_looping ⟨ls, h, i, Nat.zero_le _, hi, ?_⟩ ⟨n, s', hend⟩
    rw [show Fin.ofNat 5 i = i from by simp]
    exact fun hl => hcount ((h.count_eq_zero i).2 hl)
  · intro hempty
    have hnil : ∀ i : Fin 5, i < 4 → s.members (some i) = [] := by
      intro i hi
      rw [h.members_eq]
      exact (h.count_eq_zero i).1 (hempty i hi)
    refine ⟨5, s, boostStep_of_empty h ?_, ?_⟩
    · intro i hi
      rw [← h.members_eq]
      apply hnil
      rcases (by omega : i = 0 ∨ i = 1 ∨ i = 2 ∨ i = 3) with rfl | rfl | rfl | rfl <;> decide
    · refine ⟨?_, fun i hi => hnil i (Fin.lt_trans hi (by decide : (3 : Fin 5) < 4)), rfl, rfl⟩
      rw [hnil 0 (by decide), hnil 1 (by decide), hnil 2 (by decide)]
      simp

def oneThread (priority : ThreadPriority) : SchedulerEx :=
  (new (fun _ => { tid := 1, state := .created, priority := priority.toU32, timeSlice := 40 })
    { next := fun _ => none, prev := fun _ => none }).addThread (some 1)

theorem shape_oneThread (priority : ThreadPriority) : Shape (oneThread priority) (update (fun _ => [])
      (some (queueIdx priority.toU32)) [1]) :=
  (shape_new _ _).addThread (fun _ => not_mem_nil) (.inr rfl)

theorem boost_of_normal_reaches_target : ∃ n s', after boostStep n (oneThread .normal, 0) = .inl (s', 3) ∧
      s'.members (some 3) = [1] := by
  obtain ⟨n, s', hafter, hmembers, -⟩ := boost_reaches_target (shape_oneThread .normal)
  exact ⟨n, s', hafter, hmembers⟩

theorem boost_returns_iff_empty_realtime : ∃ n s', after boostStep n (oneThread .realtime, 0) = .inr s' ∧
      Boosted (oneThread .realtime) s' :=
  (boost_returns_iff_empty (shape_oneThread .realtime)).2 (by decide)

/-- One thread of normal priority is moved to the target queue, and from there to itself
without end. -/
theorem boost_of_normal_never_returns : ¬ ∃ n s', after boostStep n (oneThread .normal, 0) = .inr s' :=
  not_returns_of_looping ⟨_, shape_oneThread .normal, 2, by decide, by decide, by decide⟩

end SchedulerEx

end AntX.Proc
