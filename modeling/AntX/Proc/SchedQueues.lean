import AntX.Proc.Scheduler

/-! Where the processes are queued, which task is ahead, and what picking it does to the queues. The
fair pick looks at the first entry of the queue only. -/

namespace AntX.Proc

open Lib KeySet
open List hiding map_map mem_map
open Option hiding map_map mem_map

namespace Scheduler

variable {s : Scheduler}

theorem pickDeadlineTask_cases (s : Scheduler) :
    (∃ k, s.dlRq.isEmpty = false ∧ s.dlRq.tree.first = some k ∧ s.dlAlive k.pid = true ∧ s.pickDeadlineTask =
        ({ s with dlRq := { s.dlRq with tree := s.dlRq.tree.remove k }, dlRunning := true }, some k.pid)) ∨
    ((∀ k, s.dlRq.isEmpty = false → s.dlRq.tree.first = some k → s.dlAlive k.pid = false) ∧
      s.pickDeadlineTask = ({ s with dlRunning := false }, none)) := by
  rw [pickDeadlineTask]
  cases he : s.dlRq.isEmpty with
  | true => exact .inr ⟨by simp, by simp⟩
  | false =>
    cases hf : s.dlRq.tree.first with
    | none => exact .inr ⟨by simp, by simp [DlRunQueue.pickNext, hf]⟩
    | some k =>
      cases ha : s.dlAlive k.pid with
      | true => exact .inl ⟨k, rfl, rfl, ha, by simp [DlRunQueue.pickNext, hf, ha]⟩
      | false =>
        -- The entry of a dead task is put back under the key it had.
        simp [DlRunQueue.pickNext, hf, ha, DlRunQueue.reinsert, insert_remove (first_mem hf)]

theorem pickCfsTask_cases (s : Scheduler) : (∃ k, s.cfsRq.isEmpty = false ∧ s.cfsRq.tree.first = some k ∧
      s.cfsSchedulable k.pid = true ∧
      s.pickCfsTask = (({ s with cfsRq := s.cfsRq.pickNext.1 }).withProcess k.pid
          fun p => { p with cfsOnRq := false }, some k.pid)) ∨
    (∃ k, s.cfsRq.isEmpty = false ∧ s.cfsRq.tree.first = some k ∧ s.cfsSchedulable k.pid = false ∧
      s.pickCfsTask = ({ s with cfsRq := s.cfsRq.pickNext.1.updateCurr k.pid k.time }, none)) ∨
    ((s.cfsRq.isEmpty = true ∨ s.cfsRq.tree.first = none) ∧ s.pickCfsTask = (s, none)) := by
  rw [pickCfsTask]
  cases he : s.cfsRq.isEmpty with
  | true => exact .inr (.inr ⟨.inl rfl, by simp⟩)
  | false =>
    cases hf : s.cfsRq.tree.first with
    | none => exact .inr (.inr ⟨.inr rfl, by simp [CfsRunQueue.pickNext, hf]⟩)
    | some k =>
      cases hs : s.cfsSchedulable k.pid with
      | true => exact .inl ⟨k, rfl, rfl, hs, by simp [CfsRunQueue.pickNext, hf, hs]⟩
      | false => exact .inr (.inl ⟨k, rfl, rfl, hs, by simp [CfsRunQueue.pickNext, hf, hs]⟩)

def FindsLeast (s : Scheduler) : Prop :=
  ∃ k ∈ s.cfsRq.tree, s.cfsSchedulable k.pid = true ∧
    (∀ x ∈ s.cfsRq.tree, s.cfsSchedulable x.pid = true → k ≤ x) ∧
    s.pickCfsTask.2 = some k.pid

/-- The pick looks at the front of the tree and no further. -/
theorem findsLeast_iff_front_schedulable (s : Scheduler) : s.FindsLeast ↔ s.cfsRq.isEmpty = false ∧
        ∃ k, s.cfsRq.tree.first = some k ∧ s.cfsSchedulable k.pid = true := by
  constructor
  · rintro ⟨k, -, -, -, hpick⟩
    rcases pickCfsTask_cases s with ⟨f, he, hf, hs, -⟩ | ⟨f, -, -, -, h⟩ | ⟨-, h⟩
    · exact ⟨he, f, hf, hs⟩
    · rw [h] at hpick
      cases hpick
    · rw [h] at hpick
      cases hpick
  · rintro ⟨he, k, hf, hs⟩
    refine ⟨k, first_mem hf, hs, fun x hx _ => first_le hf hx, ?_⟩
    rcases pickCfsTask_cases s with ⟨f, -, hf', -, h⟩ | ⟨f, -, hf', hs', -⟩ | ⟨h, -⟩
    · rw [hf] at hf'
      rw [h, some.inj hf']
    · rw [hf] at hf'
      rw [← some.inj hf', hs] at hs'
      cases hs'
    · rcases h with h | h
      · rw [he] at h
        cases h
      · rw [hf] at h
        cases h

def blockedInFront : Scheduler :=
  { Scheduler.new with
    processes := fun pid =>
      if pid = 3 then some { Process.new with state := .blocked, cfsVruntime := 1 }
      else if pid = 4 then some { Process.new with state := .ready, cfsVruntime := 2 }
      else none
    cfsRq := (CfsRunQueue.new.enqueue 3 1 nice0Weight).enqueue 4 2 nice0Weight }

/-- A blocked process in front hides the runnable one behind it. -/
theorem blocked_front_hides_task :
    (∃ k ∈ blockedInFront.cfsRq.tree, blockedInFront.cfsSchedulable k.pid = true) ∧
      blockedInFront.pickCfsTask.2 = none ∧ ¬ blockedInFront.FindsLeast := by
  have hnone : blockedInFront.pickCfsTask.2 = none := by decide
  refine ⟨⟨queueKey 2 4, by decide, by decide⟩, hnone, ?_⟩
  rintro ⟨k, -, -, -, hpick⟩
  cases hpick

variable {s s' : Scheduler} {pid x : Pid}

def look (s : Scheduler) (pid : Pid) : Option (ProcessState × SchedPolicy) :=
  (s.get pid).map fun p => (p.state, p.schedPolicy)

variable {p : Process} {st : ProcessState} {pol : SchedPolicy} {f : Process → Process}
  {task : RtTaskInfo} {t : KeySet QueueKey}

theorem look_of_get (h : s.get pid = some p) : s.look pid = some (p.state, p.schedPolicy) := by
  rw [look, h, map_some]

theorem get_of_look (h : s.look pid = some (st, pol)) :
    ∃ p, s.get pid = some p ∧ p.state = st ∧ p.schedPolicy = pol := by
  obtain ⟨p, hp, he⟩ := map_eq_some_iff.1 h
  exact ⟨p, hp, (Prod.mk.inj he).1, (Prod.mk.inj he).2⟩

theorem get_withProcess (s : Scheduler) (pid x : Pid) (f : Process → Process) :
    (s.withProcess pid f).get x = if x = pid then (s.get pid).map f else s.get x := by
  cases h : s.get pid with
  | none =>
    rw [withProcess, h]
    by_cases hx : x = pid
    · simp [hx, h]
    · simp [hx]
  | some p =>
    have hlt : pid < maxProcesses := by
      by_contra hge
      simp [get, hge] at h
    rw [withProcess, h]
    by_cases hx : x = pid
    · subst hx
      simp [get, hlt]
    · simp [get, hx]

theorem look_withProcess (s : Scheduler) (pid x : Pid) (f : Process → Process) :
    (s.withProcess pid f).look x =
      if x = pid then (s.get pid).map fun p => ((f p).state, (f p).schedPolicy)
      else s.look x := by
  rw [look, get_withProcess]
  by_cases hx : x = pid
  · rw [if_pos hx, if_pos hx, Option.map_map]
    rfl
  · rw [if_neg hx, if_neg hx, look]

theorem look_withProcess_keep (s : Scheduler) (pid : Pid)
    (hf : ∀ p, (f p).state = p.state ∧ (f p).schedPolicy = p.schedPolicy) :
    (s.withProcess pid f).look = s.look := by
  funext x
  rw [look_withProcess]
  by_cases hx : x = pid
  · rw [if_pos hx, hx, look]
    congr 1
    funext p
    rw [(hf p).1, (hf p).2]
  · rw [if_neg hx]

@[simp] theorem withProcess_queues (s : Scheduler) (pid : Pid) (f : Process → Process) :
    (s.withProcess pid f).dlRq = s.dlRq ∧ (s.withProcess pid f).rtQueue = s.rtQueue ∧
      (s.withProcess pid f).cfsRq = s.cfsRq := by
  rw [withProcess]
  split <;> exact ⟨rfl, rfl, rfl⟩

@[simp] theorem withProcess_running (s : Scheduler) (pid : Pid) (f : Process → Process) :
    (s.withProcess pid f).current = s.current ∧ (s.withProcess pid f).dlRunning = s.dlRunning ∧
      (s.withProcess pid f).rtRunning = s.rtRunning := by
  rw [withProcess]
  split <;> exact ⟨rfl, rfl, rfl⟩

section

variable (s : Scheduler) (pid : Pid)

def inDl : Nat := s.dlRq.tree.count (·.pid == pid)

def inRt : Nat := s.rtQueue.countP (·.pid == pid)

def inCfs : Nat := s.cfsRq.tree.count (·.pid == pid)

def occurrences : Nat := s.inDl pid + s.inRt pid + s.inCfs pid

def inQueueOf : SchedPolicy → Pid → Nat
  | .deadline, pid => s.inDl pid
  | .fifo, pid => s.inRt pid
  | .rr, pid => s.inRt pid
  | .normal, pid => s.inCfs pid
  | .idle, _ => 0

def entries : List (Pid × SchedPolicy) :=
  s.dlRq.tree.keys.map (fun k => (k.pid, .deadline)) ++ (s.rtQueue.map (fun t => (t.pid, t.policy)) ++
      s.cfsRq.tree.keys.map fun k => (k.pid, .normal))

end

theorem occurrences_eq (s : Scheduler) (x : Pid) : s.occurrences x = s.entries.countP (·.1 == x) := by
  simp only [occurrences, inDl, inRt, inCfs, KeySet.count, entries, countP_append, countP_map, Nat.add_assoc]
  rfl

theorem occurrences_perm (h : s'.entries.Perm s.entries) : s'.occurrences = s.occurrences := by
  funext x
  rw [occurrences_eq, occurrences_eq, h.countP_eq]

theorem occurrences_cons (h : s'.entries.Perm ((pid, pol) :: s.entries)) (x : Pid) :
    s'.occurrences x = s.occurrences x + if x = pid then 1 else 0 := by
  rw [occurrences_eq, h.countP_eq, countP_cons, occurrences_eq]
  simp only [beq_iff_eq, @eq_comm _ pid]

theorem occurrences_pos (h : (pid, pol) ∈ s.entries) : 0 < s.occurrences pid := by
  rw [occurrences_eq, countP_pos_iff]
  exact ⟨_, h, by simp⟩

theorem rtInsert_perm (task : RtTaskInfo) (ts : List RtTaskInfo) : (rtInsert task ts).Perm (task :: ts) := by
  induction ts with
  | nil => exact List.Perm.refl _
  | cons u us ih =>
    rw [rtInsert]
    split_ifs
    · exact List.Perm.refl _
    · exact (ih.cons u).trans (List.Perm.swap _ _ _)

theorem inDl_pos : 0 < s.inDl x ↔ ∃ k ∈ s.dlRq.tree, k.pid = x := by
  rw [inDl, count_pos]
  simp

theorem inRt_pos : 0 < s.inRt x ↔ ∃ t ∈ s.rtQueue, t.pid = x := by
  rw [inRt, countP_pos_iff]
  simp

theorem inCfs_pos : 0 < s.inCfs x ↔ ∃ k ∈ s.cfsRq.tree, k.pid = x := by
  rw [inCfs, count_pos]
  simp

structure Queued (s : Scheduler) : Prop where
  once : ∀ x, s.occurrences x ≤ 1
  filed : ∀ e ∈ s.entries, ∃ st, s.look e.1 = some (st, e.2)
  policies : ∀ t ∈ s.rtQueue, t.policy = .fifo ∨ t.policy = .rr
  zero : s.look 0 = none
  alive : ∀ x st pol, s.look x = some (st, pol) → st ≠ .zombie

def Runnable (st : ProcessState) : Prop := st = .ready ∨ st = .running

def Located (s : Scheduler) : Prop :=
  ∀ x st pol, s.look x = some (st, pol) → Runnable st → x = s.current ∨ 0 < s.occurrences x

theorem queued_new : Queued new := by
  constructor
  · simp [occurrences, inDl, inRt, inCfs, new, DlRunQueue.new, CfsRunQueue.new]
  · intro e he
    exact absurd he not_mem_nil
  · intro t ht
    cases ht
  · simp [look, get, new]
  · intro x st pol h
    simp [look, get, new] at h

namespace Queued

theorem inQueueOf_eq (h : Queued s) (hl : s.look x = some (st, pol)) (hpos : 0 < s.occurrences x) :
    s.inQueueOf pol x = 1 ∧ s.occurrences x = 1 := by
  have honce := h.once x
  rw [occurrences] at honce hpos
  have hcases : 0 < s.inDl x ∨ 0 < s.inRt x ∨ 0 < s.inCfs x := by omega
  rcases hcases with hd | hr | hc
  · obtain ⟨k, hk, rfl⟩ := inDl_pos.1 hd
    obtain ⟨st', hl'⟩ := h.filed (k.pid, _) (mem_append_left _ (mem_map_of_mem hk))
    obtain ⟨-, rfl⟩ := Prod.mk.inj (some.inj (hl.symm.trans hl'))
    rw [occurrences, inQueueOf]
    omega
  · obtain ⟨t, ht, rfl⟩ := inRt_pos.1 hr
    obtain ⟨st', hl'⟩ := h.filed (t.pid, _) (mem_append_right _ (mem_append_left _ (mem_map_of_mem ht)))
    obtain ⟨-, hp⟩ := Prod.mk.inj (some.inj (hl.symm.trans hl'))
    have hin : s.inQueueOf pol t.pid = s.inRt t.pid := by
      rcases h.policies t ht with hpol | hpol <;> rw [hp, hpol, inQueueOf]
    rw [occurrences, hin]
    omega
  · obtain ⟨k, hk, rfl⟩ := inCfs_pos.1 hc
    obtain ⟨st', hl'⟩ := h.filed (k.pid, _) (mem_append_right _ (mem_append_right _ (mem_map_of_mem hk)))
    obtain ⟨-, rfl⟩ := Prod.mk.inj (some.inj (hl.symm.trans hl'))
    rw [occurrences, inQueueOf]
    omega

theorem of_entries (h : Queued s) (hlook : s'.look = s.look) (honce : ∀ x, s'.occurrences x ≤ 1)
    (hsub : ∀ e ∈ s'.entries, e ∈ s.entries ∨ ∃ st, s.look e.1 = some (st, e.2))
    (hrt : ∀ t ∈ s'.rtQueue, t.policy = .fifo ∨ t.policy = .rr) : Queued s' := by
  refine ⟨honce, fun e he => ?_, hrt, hlook ▸ h.zero, hlook ▸ h.alive⟩
  rw [hlook]
  exact (hsub e he).elim (h.filed e) id

theorem of_update (h : Queued s) (hdl : s'.dlRq = s.dlRq) (hrt : s'.rtQueue = s.rtQueue)
    (hcfs : s'.cfsRq = s.cfsRq) (hother : ∀ x ≠ pid, s'.look x = s.look x)
    (hself : ∀ st pol, s'.look pid = some (st, pol) → st ≠ .zombie ∧ pid ≠ 0)
    (hpol : ∀ st pol, s.look pid = some (st, pol) → 0 < s.occurrences pid →
      ∃ st', s'.look pid = some (st', pol)) : Queued s' := by
  have hentries : s'.entries = s.entries := by rw [entries, hdl, hrt, hcfs, entries]
  refine ⟨?_, fun e he => ?_, fun t ht => h.policies t (hrt ▸ ht), ?_, ?_⟩
  · rw [occurrences_perm (.of_eq hentries)]
    exact h.once
  · rw [hentries] at he
    obtain ⟨st, hl⟩ := h.filed e he
    by_cases hx : e.1 = pid
    · subst hx
      exact hpol st _ hl (occurrences_pos he)
    · exact ⟨st, by rw [hother _ hx, hl]⟩
  · by_cases hz : (0 : Pid) = pid
    · cases hl : s'.look 0 with
      | none => rfl
      | some v => exact absurd hz.symm (hself v.1 v.2 (hz ▸ hl)).2
    · rw [hother 0 hz, h.zero]
  · intro x st pol hl
    by_cases hx : x = pid
    · subst hx
      exact (hself st pol hl).1
    · rw [hother x hx] at hl
      exact h.alive x st pol hl

theorem withProcess (h : Queued s) (hz : ∀ p, p.state ≠ .zombie → (f p).state ≠ .zombie)
    (hpol : 0 < s.occurrences pid → ∀ p, (f p).schedPolicy = p.schedPolicy) :
    Queued (s.withProcess pid f) := by
  refine @of_update s _ pid h (by simp) (by simp) (by simp) ?_ ?_ ?_
  · intro x hx
    rw [look_withProcess, if_neg hx]
  · intro st pol hl
    rw [look_withProcess, if_pos rfl] at hl
    obtain ⟨p, hp, he⟩ := map_eq_some_iff.1 hl
    have hlook := look_of_get hp
    constructor
    · rw [← (Prod.mk.inj he).1]
      exact hz p (h.alive pid _ _ hlook)
    · rintro rfl
      rw [h.zero] at hlook
      cases hlook
  · intro st pol hl hpos
    obtain ⟨p, hp, -, rfl⟩ := get_of_look hl
    refine ⟨(f p).state, ?_⟩
    rw [look_withProcess, if_pos rfl, hp, map_some, hpol hpos p]

end Queued

theorem entries_withProcess (s : Scheduler) (pid : Pid) (f : Process → Process) :
    (s.withProcess pid f).entries = s.entries := by
  simp [entries]

theorem occurrences_withProcess (s : Scheduler) (pid : Pid) (f : Process → Process) :
    (s.withProcess pid f).occurrences = s.occurrences :=
  occurrences_perm (.of_eq (entries_withProcess s pid f))

structure Enqueued (s s' : Scheduler) (pid : Pid) : Prop where
  queued : Queued s'
  look : s'.look = s.look
  occ : ∀ x, s'.occurrences x = s.occurrences x + if x = pid then 1 else 0

theorem entries_cfs_insert {time : Nat} (h0 : s.occurrences pid = 0)
    (hdl : s'.dlRq.tree = s.dlRq.tree) (hrt : s'.rtQueue = s.rtQueue)
    (hcfs : s'.cfsRq.tree = s.cfsRq.tree.insert (queueKey time pid)) :
    s'.entries.Perm ((pid, .normal) :: s.entries) := by
  have hnot : queueKey time pid ∉ s.cfsRq.tree := fun hk => (occurrences_pos
    (mem_append_right _ (mem_append_right _ (mem_map_of_mem hk)))).ne' h0
  rw [entries, hdl, hrt, hcfs]
  have hkeys := (((insertKey_perm hnot).map fun k : QueueKey => (k.pid, SchedPolicy.normal)).append_left
    (s.rtQueue.map fun t => (t.pid, t.policy))).trans perm_middle
  exact (hkeys.append_left _).trans perm_middle

section Enqueue

variable {st : ProcessState} {time : Nat} (h : Queued s) (h0 : s.occurrences pid = 0)
  (hlook : s'.look = s.look)
include h h0 hlook

theorem enqueued_of_perm (hl : s.look pid = some (st, pol))
    (hperm : s'.entries.Perm ((pid, pol) :: s.entries))
    (hrt : ∀ t ∈ s'.rtQueue, t.policy = .fifo ∨ t.policy = .rr) : Enqueued s s' pid := by
  have hocc := occurrences_cons hperm
  refine ⟨h.of_entries hlook (fun x => ?_) (fun e he => ?_) hrt, hlook, hocc⟩
  · rw [hocc]
    by_cases hx : x = pid
    · rw [if_pos hx, hx, h0]
    · rw [if_neg hx]
      exact h.once x
  · rcases mem_cons.1 (hperm.mem_iff.1 he) with rfl | he
    · exact .inr ⟨st, hl⟩
    · exact .inl he

theorem enqueued_dl (hl : s.look pid = some (st, .deadline))
    (hdl : s'.dlRq.tree = s.dlRq.tree.insert (queueKey time pid)) (hrt : s'.rtQueue = s.rtQueue)
    (hcfs : s'.cfsRq.tree = s.cfsRq.tree) : Enqueued s s' pid := by
  have hnot : queueKey time pid ∉ s.dlRq.tree := fun hk =>
    (occurrences_pos (mem_append_left _ (mem_map_of_mem hk))).ne' h0
  refine enqueued_of_perm h h0 hlook hl ?_ fun t ht => h.policies t (hrt ▸ ht)
  rw [entries, hdl, hrt, hcfs]
  exact ((insertKey_perm hnot).map _).append_right _

theorem enqueued_rt (hpid : task.pid = pid) (hl : s.look pid = some (st, task.policy))
    (hpol : task.policy = .fifo ∨ task.policy = .rr) (hdl : s'.dlRq.tree = s.dlRq.tree)
    (hrt : s'.rtQueue = rtInsert task s.rtQueue) (hcfs : s'.cfsRq.tree = s.cfsRq.tree) :
    Enqueued s s' pid := by
  have hins := rtInsert_perm task s.rtQueue
  subst hpid
  refine enqueued_of_perm h h0 hlook hl ?_ fun t ht => ?_
  · rw [entries, hdl, hrt, hcfs]
    exact (((hins.map _).append_right _).append_left _).trans perm_middle
  · rw [hrt, hins.mem_iff] at ht
    rcases mem_cons.1 ht with rfl | ht
    · exact hpol
    · exact h.policies t ht

theorem enqueued_cfs (hl : s.look pid = some (st, .normal)) (hdl : s'.dlRq.tree = s.dlRq.tree)
    (hrt : s'.rtQueue = s.rtQueue)
    (hcfs : s'.cfsRq.tree = s.cfsRq.tree.insert (queueKey time pid)) : Enqueued s s' pid :=
  enqueued_of_perm h h0 hlook hl (entries_cfs_insert h0 hdl hrt hcfs) fun t ht => h.policies t (hrt ▸ ht)

end Enqueue

end Scheduler

inductive SchedClass where
  | deadline
  | realTime
  | fair
deriving DecidableEq, Repr

def SchedClass.returnsTo : SchedClass → SchedPolicy
  | .deadline => .deadline
  | .realTime => .rr
  | .fair => .normal

namespace Scheduler

variable {s s' : Scheduler} {pid : Pid}

def dlFront (s : Scheduler) : Option Pid :=
  if s.dlRq.isEmpty then none else (s.dlRq.tree.first.map (·.pid)).filter s.dlAlive

def cfsFront (s : Scheduler) : Option Pid :=
  if s.cfsRq.isEmpty then none else (s.cfsRq.tree.first.map (·.pid)).filter s.cfsSchedulable

def ahead (s : Scheduler) : Option (Pid × SchedClass) :=
  match s.dlFront, s.rtQueue, s.cfsFront with
  | some pid, _, _ => some (pid, .deadline)
  | none, task :: _, _ => some (task.pid, .realTime)
  | none, [], some pid => some (pid, .fair)
  | none, [], none => none

def FlagsFor (s : Scheduler) : SchedClass → Prop
  | .deadline => s.dlRunning = true
  | .realTime => s.dlRunning = false ∧ s.rtRunning = true
  | .fair => s.dlRunning = false ∧ s.rtRunning = false

structure Decided (s s' : Scheduler) : Prop where
  queued : Queued s'
  look : s'.look = s.look
  current : s'.current = s.current
  le : ∀ x, s'.occurrences x ≤ s.occurrences x
  keep : ∀ x, (∀ c, s.ahead ≠ some (x, c)) → s'.occurrences x = s.occurrences x

section

variable (h : Queued s) (hlook : s'.look = s.look) (hcur : s'.current = s.current)

include h hlook hcur

theorem decided_of_kept (hperm : s'.entries.Perm s.entries)
    (hrt : ∀ t ∈ s'.rtQueue, t.policy = .fifo ∨ t.policy = .rr) : Decided s s' := by
  have hocc := occurrences_perm hperm
  exact ⟨h.of_entries hlook (by rw [hocc]; exact h.once) (fun e he => .inl (hperm.mem_iff.1 he)) hrt, hlook, hcur,
    fun x => by rw [hocc], fun x _ => by rw [hocc]⟩

theorem decided_of_removed {c : SchedClass} (pol : SchedPolicy) (hahead : s.ahead = some (pid, c))
    (hperm : s.entries.Perm ((pid, pol) :: s'.entries))
    (hrt : ∀ t ∈ s'.rtQueue, t.policy = .fifo ∨ t.policy = .rr) : Decided s s' := by
  have hocc := occurrences_cons hperm
  have hle : ∀ x, s'.occurrences x ≤ s.occurrences x := fun x => hocc x ▸ Nat.le_add_right _ _
  refine ⟨h.of_entries hlook (fun x => (hle x).trans (h.once x)) (fun e he => .inl ?_) hrt, hlook,
    hcur, hle, fun x hx => ?_⟩
  · exact hperm.mem_iff.2 (mem_cons_of_mem _ he)
  · have hne : x ≠ pid := by
      rintro rfl
      exact hx c hahead
    rw [hocc x, if_neg hne, Nat.add_zero]

end

theorem pickDeadlineTask_spec (h : Queued s) :
    (∃ pid, s.ahead = some (pid, .deadline) ∧ Decided s s.pickDeadlineTask.1 ∧
      s.pickDeadlineTask.2 = some pid ∧ s.pickDeadlineTask.1.dlRunning = true) ∨
    (s.dlFront = none ∧ s.pickDeadlineTask = ({ s with dlRunning := false }, none)) := by
  rcases pickDeadlineTask_cases s with ⟨k, he, hf, ha, heq⟩ | ⟨hdead, heq⟩
  · have hfront : s.dlFront = some k.pid := by
      simp [dlFront, he, hf, ha]
    have hahead : s.ahead = some (k.pid, .deadline) := by
      simp [ahead, hfront]
    refine .inl ⟨k.pid, hahead, ?_, by rw [heq], by rw [heq]⟩
    rw [heq]
    refine decided_of_removed h rfl rfl .deadline hahead ?_ h.policies
    exact ((remove_perm (first_mem hf)).map _).append_right _
  · refine .inr ⟨?_, heq⟩
    rw [dlFront]
    by_cases he : s.dlRq.isEmpty
    · rw [if_pos he]
    · rw [if_neg he]
      cases hf : s.dlRq.tree.first with
      | none => rfl
      | some k => simp [Option.filter, hdead k (by simpa using he) hf]

theorem rtLoop_cons (h : Queued s) {task : RtTaskInfo} {rest : List RtTaskInfo}
    (hq : s.rtQueue = task :: rest) :
    (task.policy = .fifo ∧ s.rtLoop s.rtQueue =
      ({ s with rtQueue := rest, rtRunning := true, fifoWatchdog := rtFifoWatchdog }, some task.pid)) ∨
    (task.policy = .rr ∧ s.rtLoop s.rtQueue = ({ s with
         rtQueue := rest ++ [{ task with timeSliceRemaining := rtTimeSlice }]
         rtRunning := true }, some task.pid)) := by
  have hmem : task ∈ s.rtQueue := by simp [hq]
  obtain ⟨st, hl⟩ := h.filed (task.pid, _) (mem_append_right _ (mem_append_left _ (mem_map_of_mem hmem)))
  obtain ⟨p, hp, rfl, -⟩ := get_of_look hl
  have halive : s.notZombie task.pid = true := by
    simpa [notZombie, hp] using h.alive _ _ _ hl
  rcases h.policies task hmem with hpol | hpol
  · exact .inl ⟨hpol, by rw [hq, rtLoop, if_pos halive, hpol]⟩
  · exact .inr ⟨hpol, by rw [hq, rtLoop, if_pos halive, hpol]⟩

section RealTime

variable {task : RtTaskInfo} {rest : List RtTaskInfo}

theorem decided_of_rotated {task' : RtTaskInfo} (h : Queued s) (hq : s.rtQueue = task :: rest)
    (hlook : s'.look = s.look) (hcur : s'.current = s.current) (hdl : s'.dlRq = s.dlRq)
    (hrt : s'.rtQueue = rest ++ [task']) (hcfs : s'.cfsRq = s.cfsRq) (hpid : task'.pid = task.pid)
    (hpol : task'.policy = task.policy) : Decided s s' := by
  have hmem : ∀ t ∈ s'.rtQueue, ∃ u ∈ s.rtQueue, t.policy = u.policy := by
    intro t ht
    rw [hrt] at ht
    rcases mem_append.1 ht with ht | ht
    · exact ⟨t, by simp [hq, ht], rfl⟩
    · exact ⟨task, by simp [hq], by rw [mem_singleton.1 ht, hpol]⟩
  refine decided_of_kept h hlook hcur ?_ fun t ht => ?_
  · rw [entries, entries, hdl, hrt, hcfs, hq, map_append, map_singleton, hpid, hpol]
    exact (perm_append_comm.append_right _).append_left _
  · obtain ⟨u, hu, he⟩ := hmem t ht
    rw [he]
    exact h.policies u hu

theorem pickRtTask_spec (h : Queued s) (hfront : s.dlFront = none) :
    (∃ pid, s.ahead = some (pid, .realTime) ∧ Decided s s.pickRtTask.1 ∧
      s.pickRtTask.2 = some pid ∧ s.pickRtTask.1.FlagsFor .realTime) ∨
    (s.rtQueue = [] ∧ s.pickRtTask = ({ s with dlRunning := false, rtRunning := false }, none)) := by
  cases hq : s.rtQueue with
  | nil =>
    simp [pickRtTask, hq, rtLoop]
  | cons task rest =>
    have hahead : s.ahead = some (task.pid, .realTime) := by
      simp [ahead, hfront, hq]
    have h' : Queued { s with dlRunning := false } := ⟨h.once, h.filed, h.policies, h.zero, h.alive⟩
    refine .inl ⟨task.pid, hahead, ?_⟩
    rcases rtLoop_cons h' hq with ⟨-, heq⟩ | ⟨-, heq⟩
    · have hpick : s.pickRtTask = ({ s with
          dlRunning := false, rtQueue := rest, rtRunning := true,
          fifoWatchdog := rtFifoWatchdog }, some task.pid) := by
        rw [pickRtTask]
        rw [heq]
      rw [hpick]
      refine ⟨decided_of_removed h rfl rfl task.policy hahead ?_ fun t ht => h.policies t ?_,
        rfl, rfl, rfl⟩
      · rw [entries, entries, hq]
        exact perm_middle
      · rw [hq]
        exact mem_cons_of_mem _ ht
    · have hpick : s.pickRtTask = ({ s with
          dlRunning := false
          rtQueue := rest ++ [{ task with timeSliceRemaining := rtTimeSlice }]
          rtRunning := true }, some task.pid) := by
        rw [pickRtTask]
        dsimp only
        rw [heq]
      rw [hpick]
      exact ⟨decided_of_rotated h hq rfl rfl rfl rfl rfl rfl rfl, rfl, rfl, rfl⟩

end RealTime

theorem pickNext_tree {q : CfsRunQueue} {k : QueueKey} (hf : q.tree.first = some k) :
    q.pickNext.1.tree = q.tree.remove k := by
  rcases q.pickNext_cases with ⟨hnone, -⟩ | ⟨k', hk', -, htree, -⟩
  · rw [hf] at hnone
    cases hnone
  · rw [htree, Option.some.inj (hf.symm.trans hk')]

theorem entries_cfs_pickNext {k : QueueKey} (hf : s.cfsRq.tree.first = some k) : s.entries.Perm
      ((k.pid, .normal) :: ({ s with cfsRq := s.cfsRq.pickNext.1 } : Scheduler).entries) := by
  have hkeys := ((remove_perm (first_mem hf)).map fun k : QueueKey =>
    (k.pid, SchedPolicy.normal)).append_left (s.rtQueue.map fun t => (t.pid, t.policy))
  simp only [entries, pickNext_tree hf]
  refine ((hkeys.trans perm_middle).append_left _).trans ?_
  exact perm_middle

/-- The entry of a stale task goes back, with a key that the new minimum may have raised. -/
theorem decided_of_refiled {k : QueueKey} (h : Queued s) (hf : s.cfsRq.tree.first = some k) :
    Decided s { s with cfsRq := s.cfsRq.pickNext.1.updateCurr k.pid k.time } := by
  have hout := entries_cfs_pickNext hf
  have hnone : ({ s with cfsRq := s.cfsRq.pickNext.1 } : Scheduler).occurrences k.pid = 0 := by
    have hocc := occurrences_cons hout k.pid
    have honce := h.once k.pid
    rw [if_pos rfl] at hocc
    omega
  refine decided_of_kept h rfl rfl ?_ h.policies
  refine List.Perm.trans ?_ hout.symm
  exact entries_cfs_insert hnone rfl rfl rfl

theorem pickCfsTask_spec (h : Queued s) (hdl : s.dlFront = none) (hrt : s.rtQueue = []) :
    (∃ pid, s.ahead = some (pid, .fair) ∧ Decided s s.pickCfsTask.1 ∧
      s.pickCfsTask.2 = some pid ∧ s.pickCfsTask.1.dlRunning = s.dlRunning ∧
      s.pickCfsTask.1.rtRunning = s.rtRunning) ∨
    (s.ahead = none ∧ Decided s s.pickCfsTask.1 ∧ s.pickCfsTask.2 = none) := by
  rcases pickCfsTask_cases s with ⟨k, he, hf, hs, heq⟩ | ⟨k, he, hf, hs, heq⟩ | ⟨hempty, heq⟩
  · have hfront : s.cfsFront = some k.pid := by
      simp [cfsFront, he, hf, hs]
    have hahead : s.ahead = some (k.pid, .fair) := by
      simp [ahead, hdl, hrt, hfront]
    refine .inl ⟨k.pid, hahead, ?_, by rw [heq], by simp [heq], by simp [heq]⟩
    rw [heq]
    refine decided_of_removed h (look_withProcess_keep _ _ fun _ => ⟨rfl, rfl⟩) (by simp) .normal
      hahead ?_ fun t ht => h.policies t (by simpa using ht)
    rw [entries_withProcess]
    exact entries_cfs_pickNext hf
  · have hfront : s.cfsFront = none := by
      simp [cfsFront, he, hf, hs]
    rw [heq]
    exact .inr ⟨by simp [ahead, hdl, hrt, hfront], decided_of_refiled h hf, rfl⟩
  · rw [heq]
    have hfront : s.cfsFront = none := by
      rcases hempty with he | hf
      · simp [cfsFront, he]
      · simp [cfsFront, hf]
    exact .inr ⟨by simp [ahead, hdl, hrt, hfront], decided_of_kept h rfl rfl (.refl _) h.policies, rfl⟩

theorem pickTask_spec (h : Queued s) :
    (∃ next c, s.ahead = some (next, c) ∧ Decided s s.pickTask.1 ∧ s.pickTask.2 = some next ∧
      s.pickTask.1.FlagsFor c) ∨
    (s.ahead = none ∧ Decided s s.pickTask.1 ∧ s.pickTask.2 = none) := by
  rcases pickDeadlineTask_spec h with ⟨pid, hahead, hd, hp, hflag⟩ | ⟨hdl, heq⟩
  · have hpick : s.pickTask = s.pickDeadlineTask := by
      rw [pickTask, show s.pickDeadlineTask = (s.pickDeadlineTask.1, some pid) from by rw [← hp]]
    rw [hpick]
    exact .inl ⟨pid, .deadline, hahead, hd, hp, hflag⟩
  · have h' : Queued { s with dlRunning := false } := ⟨h.once, h.filed, h.policies, h.zero, h.alive⟩
    rcases pickRtTask_spec h' hdl with ⟨pid, hahead, hd, hp, hflags⟩ | ⟨hrt, heq'⟩
    · have hpick : s.pickTask = ({ s with dlRunning := false } : Scheduler).pickRtTask := by
        rw [pickTask, heq]
        dsimp only
        rw [show ({ s with dlRunning := false } : Scheduler).pickRtTask =
          (({ s with dlRunning := false } : Scheduler).pickRtTask.1, some pid) from by rw [← hp]]
      rw [hpick]
      exact .inl ⟨pid, .realTime, hahead, ⟨hd.queued, hd.look, hd.current, hd.le, hd.keep⟩, hp, hflags⟩
    · have hpick : s.pickTask =
          ({ s with dlRunning := false, rtRunning := false } : Scheduler).pickCfsTask := by
        rw [pickTask, heq]
        dsimp only
        rw [heq']
      rw [hpick]
      have h'' : Queued { s with dlRunning := false, rtRunning := false } :=
        ⟨h.once, h.filed, h.policies, h.zero, h.alive⟩
      rcases pickCfsTask_spec h'' hdl hrt with ⟨pid, hahead, hd, hp, hfdl, hfrt⟩ | ⟨hahead, hd, hp⟩
      · exact .inl ⟨pid, .fair, hahead, ⟨hd.queued, hd.look, hd.current, hd.le, hd.keep⟩, hp, hfdl, hfrt⟩
      · exact .inr ⟨hahead, ⟨hd.queued, hd.look, hd.current, hd.le, hd.keep⟩, hp⟩

end Scheduler

end AntX.Proc
