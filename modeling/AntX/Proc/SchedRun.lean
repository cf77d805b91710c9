import AntX.Proc.SchedQueues

/-! Runs of the scheduler on one CPU. The previous task is put back without a look at its state or at
the queue it came from. -/

namespace AntX.Proc

open Lib Option

namespace Scheduler

variable {s s' : Scheduler} {pid next : Pid}

theorem setStateSafe_policy (p : Process) (st : ProcessState) :
    (p.setStateSafe st).schedPolicy = p.schedPolicy := by
  rw [Process.setStateSafe]
  split <;> rfl

theorem setStateSafe_state (p : Process) (st : ProcessState) :
    (p.setStateSafe st).state = if p.state.allows st then st else p.state := by
  rw [Process.setStateSafe]
  split <;> rfl

variable {p : Process} {st : ProcessState} {c : SchedClass} {woken : Option Pid} {s₁ : Scheduler}

theorem setStateSafe_alive (hp : p.state ≠ .zombie) (hst : st ≠ .zombie) :
    (p.setStateSafe st).state ≠ .zombie := by
  rw [setStateSafe_state]
  split
  · exact hst
  · exact hp

theorem requeuePrev_enqueued (h : Queued s) (hp : s.get pid = some p) (h0 : s.occurrences pid = 0)
    (hflags : s.FlagsFor c) (hpol : p.schedPolicy = c.returnsTo) :
    ∃ s', Enqueued s s' pid ∧ s'.current = s.current ∧
      s.requeuePrev pid p = s'.withProcess pid fun p => p.setStateSafe .ready := by
  have hl := look_of_get hp
  rw [hpol] at hl
  cases c with
  | deadline =>
    refine ⟨{ s with dlRq := s.dlRq.reinsert pid p.dlAbs }, ?_, rfl, ?_⟩
    · exact enqueued_dl h h0 rfl hl rfl rfl rfl
    · have hdl : s.dlRunning = true := hflags
      rw [requeuePrev, if_pos hdl]
  | realTime =>
    have hnf : p.schedPolicy ≠ .fifo := by
      rw [hpol]
      decide
    refine ⟨{ s with
      rtQueue := rtInsert ⟨pid, p.rtPriority, p.schedPolicy, rtTimeSlice⟩ s.rtQueue }, ?_, rfl, ?_⟩
    · exact enqueued_rt h h0 rfl rfl (look_of_get hp) (.inr hpol) rfl rfl rfl
    · rw [requeuePrev, if_neg (by simp [hflags.1]), if_pos hflags.2, if_pos hnf]
  | fair =>
    refine ⟨({ s with cfsRq := s.cfsRq.updateCurr pid p.cfsVruntime }).withProcess pid fun p =>
      { p with cfsOnRq := true }, ?_, by simp, ?_⟩
    · have hlook := look_withProcess_keep { s with cfsRq := s.cfsRq.updateCurr pid p.cfsVruntime } pid
        (fun p => ⟨rfl, rfl⟩ : ∀ p : Process, ({ p with cfsOnRq := true } : Process).state = p.state ∧
          ({ p with cfsOnRq := true } : Process).schedPolicy = p.schedPolicy)
      exact enqueued_cfs h h0 hlook hl (by simp) (by simp) (by simp; rfl)
    · rw [requeuePrev, if_neg (by simp [hflags.1]), if_neg (by simp [hflags.2])]

theorem look_switch (s : Scheduler) (pid x : Pid) (st : ProcessState) :
    (s.withProcess pid fun p => p.setStateSafe st).look x =
      if x = pid then (s.look pid).map fun v => (if v.1.allows st then st else v.1, v.2)
      else s.look x := by
  rw [look_withProcess]
  congr 1
  rw [look, map_map]
  congr 1
  funext p
  rw [setStateSafe_state, setStateSafe_policy]
  rfl

theorem queued_switch (h : Queued s) (hst : st ≠ .zombie) :
    Queued (s.withProcess pid fun p => p.setStateSafe st) :=
  h.withProcess (fun _ hp => setStateSafe_alive hp hst) fun _ p => setStateSafe_policy p st

def LeavesBlocked (s s' : Scheduler) (pid : Pid) : Prop :=
  ∀ pol, s.look pid = some (.blocked, pol) → (∃ st pol', s'.look pid = some (st, pol') ∧ st ≠ .ready) ∧
      s'.occurrences pid ≤ s.occurrences pid

structure Sound (s : Scheduler) : Prop where
  queued : Queued s
  located : Located s

structure Kept (woken : Option Pid) (s s' : Scheduler) : Prop extends Sound s' where
  blocked : ∀ x, woken ≠ some x → LeavesBlocked s s' x

theorem leavesBlocked_of_eq (hlook : s'.look pid = s.look pid)
    (hocc : s'.occurrences pid ≤ s.occurrences pid) : LeavesBlocked s s' pid := by
  intro pol hl
  exact ⟨⟨.blocked, pol, hlook.trans hl, by decide⟩, hocc⟩

theorem kept_refl (h : Sound s) : Kept woken s s :=
  ⟨h, fun _ _ => leavesBlocked_of_eq rfl le_rfl⟩

theorem kept_of_one (pid : Pid) (h : Sound s) (hq : Queued s')
    (hcur : s'.current = s.current) (hlook : ∀ x ≠ pid, s'.look x = s.look x)
    (hocc : ∀ x ≠ pid, s'.occurrences x = s.occurrences x)
    (hself : ∀ st pol, s'.look pid = some (st, pol) → Runnable st → pid = s.current ∨ 0 <
      s'.occurrences pid) (hb : woken ≠ some pid → LeavesBlocked s s' pid) : Kept woken s s' := by
  refine ⟨⟨hq, ?_⟩, ?_⟩
  · intro x st pol hl hrun
    rw [hcur]
    by_cases hx : x = pid
    · subst hx
      exact hself st pol hl hrun
    · rw [hlook x hx] at hl
      rw [hocc x hx]
      exact h.located x st pol hl hrun
  · intro x hw
    by_cases hx : x = pid
    · subst hx
      exact hb hw
    · exact leavesBlocked_of_eq (hlook x hx) (hocc x hx).le

theorem kept_withProcess {f : Process → Process} (h : Sound s)
    (hz : ∀ p, p.state ≠ .zombie → (f p).state ≠ .zombie)
    (hpol : 0 < s.occurrences pid → ∀ p, (f p).schedPolicy = p.schedPolicy)
    (hrun : ∀ p, Runnable (f p).state → Runnable p.state) :
    Kept none s (s.withProcess pid f) := by
  have hself : (s.withProcess pid f).look pid =
      (s.get pid).map fun p => ((f p).state, (f p).schedPolicy) := by
    rw [look_withProcess, if_pos rfl]
  refine kept_of_one pid h (h.queued.withProcess hz hpol) (by simp) ?_ ?_ ?_ ?_
  · intro x hx
    rw [look_withProcess, if_neg hx]
  · intro x _
    rw [occurrences_withProcess]
  · intro st pol hl hst
    rw [hself] at hl
    obtain ⟨p, hp, he⟩ := map_eq_some_iff.1 hl
    rw [← (Prod.mk.inj he).1] at hst
    rw [occurrences_withProcess]
    exact h.located pid _ _ (look_of_get hp) (hrun p hst)
  · intro _ pol hl
    obtain ⟨p, hp, hst, -⟩ := get_of_look hl
    refine ⟨⟨(f p).state, (f p).schedPolicy, by rw [hself, hp, map_some], ?_⟩,
      by rw [occurrences_withProcess]⟩
    intro hready
    have := hrun p (.inl hready)
    rw [hst] at this
    rcases this with h | h <;> cases h

theorem kept_createProcess (h : Sound s) (hpid : pid ≠ 0) : Kept none s (s.createProcess pid) := by
  rw [createProcess]
  by_cases hfree : pid < maxProcesses ∧ s.processes pid = none
  · rw [if_pos hfree]
    have hself : ({ s with processes := Function.update s.processes pid (some .new) } :
        Scheduler).look pid = some (.created, .normal) := by
      simp [look, get, hfree.1, Process.new]
    have hnone : s.look pid = none := by
      simp [look, get, hfree.2]
    have hother : ∀ x ≠ pid, ({ s with processes := Function.update s.processes pid (some .new) } :
        Scheduler).look x = s.look x := by
      intro x hx
      simp [look, get, hx]
    refine kept_of_one pid h ?_ rfl hother (fun _ _ => rfl) ?_ ?_
    · refine h.queued.of_update rfl rfl rfl hother ?_ ?_
      · intro st pol hl
        rw [hself] at hl
        obtain ⟨rfl, -⟩ := Prod.mk.inj (some.inj hl)
        exact ⟨by decide, hpid⟩
      · intro st pol hl
        rw [hnone] at hl
        cases hl
    · intro st pol hl hrun
      rw [hself] at hl
      obtain ⟨rfl, -⟩ := Prod.mk.inj (some.inj hl)
      rcases hrun with hrun | hrun <;> cases hrun
    · intro _ pol hl
      rw [hnone] at hl
      cases hl
  · rw [if_neg hfree]
    exact kept_refl h

theorem kept_enqueued (h : Sound s) (henq : Enqueued s₁ s' pid) (hcur : s'.current = s.current)
    (hlook : ∀ x ≠ pid, s₁.look x = s.look x)
    (hocc : s₁.occurrences = s.occurrences)
    (hb : woken ≠ some pid → ∀ pol, s.look pid ≠ some (.blocked, pol)) : Kept woken s s' := by
  refine kept_of_one pid h henq.queued hcur ?_ ?_ ?_ ?_
  · intro x hx
    rw [henq.look, hlook x hx]
  · intro x hx
    rw [henq.occ, if_neg hx, hocc, Nat.add_zero]
  · intro st pol _ _
    rw [henq.occ, if_pos rfl]
    exact .inr (Nat.succ_pos _)
  · intro hw pol hl
    exact absurd hl (hb hw pol)

theorem kept_add (h : Sound s) (hok : ∀ st pol, s.look pid = some (st, pol) →
      pol = .normal ∧ st ≠ .blocked ∧ s.occurrences pid = 0) : Kept none s (s.add pid) := by
  rw [add, cfsEnqueue]
  cases hp : s.get pid with
  | none => exact kept_refl h
  | some p =>
    obtain ⟨hpol, hnb, h0⟩ := hok _ _ (look_of_get hp)
    have hq : Queued (s.withProcess pid fun p => { p.setStateSafe .ready with cfsOnRq := true }) :=
      h.queued.withProcess (fun q hq => setStateSafe_alive hq (by decide))
        fun _ q => setStateSafe_policy q .ready
    have hocc := occurrences_withProcess s pid fun p =>
      { p.setStateSafe .ready with cfsOnRq := true }
    have hl : (s.withProcess pid fun p => { p.setStateSafe .ready with cfsOnRq := true }).look pid =
        some ((p.setStateSafe .ready).state, .normal) := by
      rw [look_withProcess, if_pos rfl, hp, map_some, setStateSafe_policy, hpol]
    refine kept_enqueued h (enqueued_cfs hq (hocc ▸ h0) rfl hl rfl rfl rfl) (by simp)
      (fun x hx => by rw [look_withProcess, if_neg hx]) hocc ?_
    intro _ pol hb
    rw [look_of_get hp] at hb
    exact hnb (Prod.mk.inj (some.inj hb)).1

theorem kept_addRtTask {rtPriority : Nat} {policy : SchedPolicy} (h : Sound s)
    (hpol : policy = .fifo ∨ policy = .rr) (hl : s.look pid = some (st, policy))
    (hnb : st ≠ .blocked) (h0 : s.occurrences pid = 0) :
    Kept none s (s.addRtTask pid rtPriority policy) := by
  refine kept_enqueued h (enqueued_rt h.queued h0 rfl rfl hl hpol rfl rfl rfl) rfl (fun _ _ => rfl) rfl ?_
  intro _ pol hb
  rw [hl] at hb
  exact hnb (Prod.mk.inj (some.inj hb)).1

theorem kept_block (h : Sound s) (reason : BlockReason) : Kept none s (s.block reason) := by
  rw [block]
  by_cases hcur : s.current ≠ 0
  · rw [if_pos hcur]
    have hk : Kept none s (s.withProcess s.current fun p =>
        { p.setStateSafe .blocked with blockReason := reason }) := by
      refine kept_withProcess h (fun p hp => setStateSafe_alive hp (by decide))
        (fun _ p => setStateSafe_policy p .blocked) ?_
      intro p hrun
      have hst : (p.setStateSafe .blocked).state = .ready ∨ (p.setStateSafe .blocked).state = .running := hrun
      rw [setStateSafe_state] at hst
      split at hst
      · rcases hst with hst | hst <;> cases hst
      · exact hst
    have hq := hk.queued
    exact ⟨⟨⟨hq.once, hq.filed, hq.policies, hq.zero, hq.alive⟩, hk.located⟩, hk.blocked⟩
  · rw [if_neg hcur]
    exact kept_refl h

def dlUtil (p : Process) : Nat :=
  if 0 < p.dlPeriod then (p.dlRuntime * 100) % 2 ^ 64 / p.dlPeriod else 0

theorem wakeUp_enqueued (h : Queued s) (hl : s.look pid = some (st, p.schedPolicy))
    (h0 : s.occurrences pid = 0) (hidle : p.schedPolicy ≠ .idle)
    (hutil : p.schedPolicy = .deadline → s.dlRq.totalUtilization + dlUtil p ≤ dlMaxUtilizationPct) :
    Enqueued s (s.wakeUp pid p) pid ∧ (s.wakeUp pid p).current = s.current := by
  rw [wakeUp]
  cases hpol : p.schedPolicy with
  | normal => exact ⟨enqueued_cfs h h0 rfl (hpol ▸ hl) rfl rfl rfl, rfl⟩
  | fifo => exact ⟨enqueued_rt h h0 rfl rfl (hpol ▸ hl) (.inl rfl) rfl rfl rfl, rfl⟩
  | rr => exact ⟨enqueued_rt h h0 rfl rfl (hpol ▸ hl) (.inr rfl) rfl rfl rfl, rfl⟩
  | idle => exact absurd hpol hidle
  | deadline =>
    have htree : (s.dlRq.enqueue pid p.dlAbs (dlUtil p)).1.tree =
        s.dlRq.tree.insert (queueKey p.dlAbs pid) := by
      rcases s.dlRq.enqueue_cases pid p.dlAbs (dlUtil p) with ⟨-, heq⟩ | ⟨hgt, -⟩
      · rw [heq]
      · exact absurd (hutil hpol) (Nat.not_le.2 hgt)
    exact ⟨enqueued_dl h h0 rfl (hpol ▸ hl) htree rfl rfl, rfl⟩

theorem kept_unblock (h : Sound s) (hok : ∀ p, s.get pid = some p → p.state = .blocked ∨ p.state = .frozen →
      s.occurrences pid = 0 ∧ p.schedPolicy ≠ .idle ∧ (p.schedPolicy = .deadline →
        s.dlRq.totalUtilization + dlUtil p ≤ dlMaxUtilizationPct)) :
    Kept (some pid) s (s.unblock pid) := by
  rw [unblock]
  cases hp : s.get pid with
  | none => exact kept_refl h
  | some p =>
    dsimp only
    by_cases hst : p.state = .blocked ∨ p.state = .frozen
    · rw [if_pos hst]
      obtain ⟨h0, hidle, hutil⟩ := hok p hp hst
      generalize hf : (fun p : Process =>
        ({ p.setStateSafe .ready with
           cfsOnRq := if p.schedPolicy = .normal then true else p.cfsOnRq } : Process)) = f
      have hpolf : ∀ q, (f q).schedPolicy = q.schedPolicy := by
        intro q
        rw [← hf]
        exact setStateSafe_policy q .ready
      have hq : Queued (s.withProcess pid f) := by
        refine h.queued.withProcess ?_ fun _ => hpolf
        intro q hq
        rw [← hf]
        exact setStateSafe_alive hq (by decide)
      have hl : (s.withProcess pid f).look pid = some ((f p).state, p.schedPolicy) := by
        rw [look_withProcess, if_pos rfl, hp, map_some, hpolf]
      have hocc := occurrences_withProcess s pid f
      obtain ⟨henq, hcur⟩ := wakeUp_enqueued hq hl (hocc ▸ h0) hidle (by simpa using hutil)
      exact kept_enqueued h henq (by simp [hcur])
        (fun x hx => by rw [look_withProcess, if_neg hx]) hocc fun hw => absurd rfl hw
    · rw [if_neg hst]
      exact kept_refl h

theorem kept_decided (hd : Decided s s') (h : Sound s)
    (hahead : ∀ x c, s.ahead = some (x, c) → x = s.current ∨ s.look x = none) :
    Kept none s s' := by
  refine ⟨⟨hd.queued, ?_⟩, fun x _ => leavesBlocked_of_eq (by rw [hd.look]) (hd.le x)⟩
  intro x st pol hl hrun
  rw [hd.look] at hl
  rw [hd.current]
  rcases h.located x st pol hl hrun with hx | hpos
  · exact .inl hx
  · by_cases hx : x = s.current
    · exact .inl hx
    · refine .inr ?_
      rw [hd.keep x]
      · exact hpos
      · intro c ha
        rcases hahead x c ha with hc | hn
        · exact hx hc
        · rw [hn] at hl
          cases hl

theorem kept_switch (hd : Decided s s₁) (h : Sound s) (hahead : s.ahead = some (next, c))
    (hq : Queued s') (hcur : s'.current = next)
    (hlook : ∀ x ≠ s.current, s'.look x = (s₁.withProcess next fun p => p.setStateSafe
      .running).look x) (hocc : ∀ x ≠ s.current, s'.occurrences x = s₁.occurrences x)
    (hprev : s.look s.current ≠ none → 0 < s'.occurrences s.current ∧ ∀ pol, s.look s.current ≠
      some (.blocked, pol)) (hnone : s.look s.current = none → s'.look s.current = none) :
    Kept none s s' := by
  have hlook' : ∀ x, x ≠ s.current → x ≠ next → s'.look x = s.look x := by
    intro x hx hxn
    rw [hlook x hx, look_switch, if_neg hxn, hd.look]
  refine ⟨⟨hq, ?_⟩, ?_⟩
  · intro x st pol hl hrun
    rw [hcur]
    by_cases hxn : x = next
    · exact .inl hxn
    · right
      by_cases hx : x = s.current
      · subst hx
        refine (hprev fun hn => ?_).1
        rw [hnone hn] at hl
        cases hl
      · rw [hlook' x hx hxn] at hl
        have hpos := (h.located x st pol hl hrun).resolve_left hx
        rw [hocc x hx, hd.keep x]
        · exact hpos
        · intro c' ha
          rw [hahead] at ha
          exact hxn (Prod.mk.inj (some.inj ha)).1.symm
  · intro x _ pol hl
    have hx : x ≠ s.current := by
      rintro rfl
      exact (hprev (by simp [hl])).2 pol hl
    have hle : s'.occurrences x ≤ s.occurrences x := by
      rw [hocc x hx]
      exact hd.le x
    by_cases hxn : x = next
    · -- A blocked process that is picked stays blocked: the transition to running is refused.
      subst hxn
      refine ⟨⟨.blocked, pol, ?_, by decide⟩, hle⟩
      rw [hlook x hx, look_switch, if_pos rfl, hd.look, hl]
      rfl
    · exact leavesBlocked_of_eq (hlook' x hx hxn) hle pol hl

def install (s : Scheduler) (next : Pid) : Scheduler :=
  { s.withProcess next (·.setStateSafe .running) with current := next }

theorem look_install (s : Scheduler) (next : Pid) :
    (s.install next).look = (s.withProcess next fun p => p.setStateSafe .running).look := rfl

theorem occurrences_install (s : Scheduler) (next : Pid) :
    (s.install next).occurrences = s.occurrences := occurrences_withProcess s next _

theorem queued_install (h : Queued s) (next : Pid) : Queued (s.install next) := by
  have hq : Queued (s.withProcess next fun p => p.setStateSafe .running) :=
    queued_switch h (by decide)
  exact ⟨hq.once, hq.filed, hq.policies, hq.zero, hq.alive⟩

theorem flagsFor_install (h : s.FlagsFor c) (next : Pid) : (s.install next).FlagsFor c := by
  have hdl : (s.install next).dlRunning = s.dlRunning := (withProcess_running _ _ _).2.1
  have hrt : (s.install next).rtRunning = s.rtRunning := (withProcess_running _ _ _).2.2
  cases c with
  | deadline => exact hdl.trans h
  | realTime | fair => exact ⟨hdl.trans h.1, hrt.trans h.2⟩

theorem switchTo_eq (s : Scheduler) (next : Pid) : s.switchTo next =
    if s.current ≠ 0 then
      match (s.install next).get s.current with
      | some p => (s.install next).requeuePrev s.current p
      | none => s.install next
    else s.install next := rfl

section SwitchTo

variable {s₁ : Scheduler} {c : SchedClass} (hd : Decided s s₁)
include hd

theorem look_install_current (hne : next ≠ s.current) :
    (s₁.install next).look s.current = s.look s.current := by
  rw [look_install, look_switch, if_neg (Ne.symm hne), hd.look]

theorem kept_install (h : Sound s) (hahead : s.ahead = some (next, c))
    (hne : next ≠ s.current) (hn : s.look s.current = none) : Kept none s (s₁.install next) := by
  apply kept_switch hd h hahead (queued_install hd.queued next) rfl
  · exact fun _ _ => rfl
  · exact fun x _ => by rw [occurrences_install]
  · exact fun hs => absurd hn hs
  · exact fun _ => (look_install_current hd hne).trans hn

theorem kept_requeuePrev (h : Sound s) (hahead : s.ahead = some (next, c))
    (hne : next ≠ s.current) (hflags : s₁.FlagsFor c)
    (hp : (s₁.install next).get s.current = some p) (hnb : p.state ≠ .blocked)
    (h0 : s.occurrences s.current = 0) (hpol : p.schedPolicy = c.returnsTo) :
    Kept none s ((s₁.install next).requeuePrev s.current p) := by
  have hl : s.look s.current = some (p.state, p.schedPolicy) := by
    rw [← look_install_current hd hne, look_of_get hp]
  have h0' : (s₁.install next).occurrences s.current = 0 := by
    rw [occurrences_install]
    have := hd.le s.current
    omega
  obtain ⟨s₃, henq, hcur, heq⟩ := requeuePrev_enqueued (queued_install hd.queued next) hp h0'
    (flagsFor_install hflags next) hpol
  rw [heq]
  apply kept_switch hd h hahead (queued_switch henq.queued (by decide))
  · simp [hcur]
    rfl
  · intro x hx
    rw [look_switch, if_neg hx, henq.look, look_install]
  · intro x hx
    rw [occurrences_withProcess, henq.occ, if_neg hx, occurrences_install, Nat.add_zero]
  · intro _
    constructor
    · rw [occurrences_withProcess, henq.occ, if_pos rfl]
      exact Nat.succ_pos _
    · intro pol hb
      rw [hl] at hb
      exact hnb (Prod.mk.inj (some.inj hb)).1
  · intro hn
    rw [hl] at hn
    cases hn

theorem kept_switchTo (h : Sound s) (hahead : s.ahead = some (next, c)) (hne : next ≠ s.current)
    (hflags : s₁.FlagsFor c)
    (hok : ∀ st pol, s.look s.current = some (st, pol) →
      st ≠ .blocked ∧ s.occurrences s.current = 0 ∧ pol = c.returnsTo) :
    Kept none s (s₁.switchTo next) := by
  have hlook := look_install_current hd hne
  rw [switchTo_eq, hd.current]
  by_cases hz : s.current ≠ 0
  · rw [if_pos hz]
    cases hp : (s₁.install next).get s.current with
    | none =>
      apply kept_install hd h hahead hne
      rw [← hlook, look, hp, map_none]
    | some p =>
      rw [look_of_get hp] at hlook
      obtain ⟨hnb, h0, hpol⟩ := hok _ _ hlook.symm
      exact kept_requeuePrev hd h hahead hne hflags hp hnb h0 hpol
  · rw [if_neg hz]
    apply kept_install hd h hahead hne
    rw [not_not.1 hz]
    exact h.queued.zero

end SwitchTo

theorem kept_schedule (h : Sound s) (hok : ∀ next c, s.ahead = some (next, c) → next ≠ s.current →
      ∀ st pol, s.look s.current = some (st, pol) →
        st ≠ .blocked ∧ s.occurrences s.current = 0 ∧ pol = c.returnsTo) :
    Kept none s s.schedule.1 := by
  rw [schedule]
  rcases pickTask_spec h.queued with ⟨next, c, hahead, hd, hp, hflags⟩ | ⟨hahead, hd, hp⟩
  · rw [show s.pickTask = (s.pickTask.1, some next) from by rw [← hp]]
    dsimp only
    by_cases hcur : next = s.pickTask.1.current
    · rw [if_pos hcur]
      refine kept_decided hd h fun x c' ha => .inl ?_
      rw [hahead] at ha
      rw [← (Prod.mk.inj (some.inj ha)).1, hcur, hd.current]
    · rw [if_neg hcur]
      by_cases hget : s.pickTask.1.get next = none
      · rw [if_pos hget]
        refine kept_decided hd h fun x c' ha => .inr ?_
        rw [hahead] at ha
        rw [← (Prod.mk.inj (some.inj ha)).1, ← hd.look, look, hget, map_none]
      · rw [if_neg hget]
        rw [hd.current] at hcur
        exact kept_switchTo hd h hahead hcur hflags (hok next c hahead hcur)
  · rw [show s.pickTask = (s.pickTask.1, none) from by rw [← hp]]
    refine kept_decided hd h fun x c ha => ?_
    rw [hahead] at ha
    cases ha

inductive Call where
  | create (pid : Pid)
  | add (pid : Pid)
  | setSchedPolicy (pid : Pid) (policy : SchedPolicy) (rtPriority : Nat)
  | setDeadlineParams (pid : Pid) (params : DeadlineParams)
  | addRtTask (pid : Pid) (rtPriority : Nat) (policy : SchedPolicy)
  | schedule
  | block (reason : BlockReason)
  | unblock (pid : Pid)
  | yieldCurrent

def step (s : Scheduler) : Call → Scheduler
  | .create pid => s.createProcess pid
  | .add pid => s.add pid
  | .setSchedPolicy pid policy rtPriority => s.setSchedPolicy pid policy rtPriority
  | .setDeadlineParams pid params => (s.setDeadlineParams pid params).1
  | .addRtTask pid rtPriority policy => s.addRtTask pid rtPriority policy
  | .schedule => s.schedule.1
  | .block reason => s.block reason
  | .unblock pid => s.unblock pid
  | .yieldCurrent => s.yieldCurrent.1

def Call.wakes : Call → Option Pid
  | .unblock pid => some pid
  | _ => none

/-- A switch from the current process is sound: it is not blocked, it has no entry, and it has
the policy that the class of the next task is put back to. -/
def canSwitch (s : Scheduler) : Bool :=
  match s.ahead, s.look s.current with
  | some (next, c), some (st, pol) =>
    next == s.current || (st != .blocked && s.occurrences s.current == 0 && pol == c.returnsTo)
  | _, _ => true

/-- The utilization that is added must still be admitted, or the process gets no entry. -/
def canWake (s : Scheduler) (pid : Pid) (p : Process) : Bool :=
  p.state != .blocked && p.state != .frozen || s.occurrences pid == 0 && p.schedPolicy != .idle &&
      (p.schedPolicy != .deadline ||
        decide (s.dlRq.totalUtilization + dlUtil p ≤ dlMaxUtilizationPct))

def admissible (s : Scheduler) : Call → Bool
  | .create pid => pid != 0
  | .add pid => (s.look pid).all fun v =>
      v.2 == .normal && v.1 != .blocked && s.occurrences pid == 0
  | .setSchedPolicy pid _ _ => s.occurrences pid == 0
  | .setDeadlineParams pid _ => s.occurrences pid == 0
  | .addRtTask pid _ policy => (policy == .fifo || policy == .rr) && (s.look pid).any fun v =>
      v.2 == policy && v.1 != .blocked && s.occurrences pid == 0
  | .schedule => s.canSwitch
  | .block _ => true
  | .unblock pid => (s.get pid).all (s.canWake pid)
  | .yieldCurrent => s.canSwitch

theorem canSwitch_spec (h : s.canSwitch = true) (ha : s.ahead = some (next, c))
    (hne : next ≠ s.current) {pol : SchedPolicy} (hl : s.look s.current = some (st, pol)) :
    st ≠ .blocked ∧ s.occurrences s.current = 0 ∧ pol = c.returnsTo := by
  simpa [canSwitch, ha, hl, hne, and_assoc] using h

theorem canWake_spec (h : s.canWake pid p = true) (hst : p.state = .blocked ∨ p.state = .frozen) :
    s.occurrences pid = 0 ∧ p.schedPolicy ≠ .idle ∧ (p.schedPolicy = .deadline →
      s.dlRq.totalUtilization + dlUtil p ≤ dlMaxUtilizationPct) := by
  have hasleep : (p.state != .blocked && p.state != .frozen) = false := by
    rcases hst with hst | hst <;> simp [hst]
  rw [canWake, hasleep] at h
  simpa [and_assoc, imp_iff_not_or] using h

theorem kept_step {c : Call} (h : Sound s) (hok : s.admissible c = true) : Kept c.wakes s (s.step c) := by
  cases c with
  | create pid => exact kept_createProcess h (by simpa [admissible] using hok)
  | add pid =>
    refine kept_add h fun st pol hl => ?_
    simpa [admissible, hl, and_assoc] using hok
  | setSchedPolicy pid policy rtPriority =>
    have h0 : s.occurrences pid = 0 := by simpa [admissible] using hok
    exact kept_withProcess h (fun _ hp => hp) (fun hpos => by omega) fun _ hr => hr
  | setDeadlineParams pid params =>
    have h0 : s.occurrences pid = 0 := by simpa [admissible] using hok
    rw [step, setDeadlineParams]
    split
    · exact kept_refl h
    · split
      · exact kept_refl h
      · exact kept_withProcess h (fun _ hp => hp) (fun hpos => by omega) fun _ hr => hr
  | addRtTask pid rtPriority policy =>
    obtain ⟨hpol, hany⟩ := Bool.and_eq_true_iff.1 hok
    cases hl : s.look pid with
    | none => simp [hl] at hany
    | some v =>
      have hv : (v.2 = policy ∧ v.1 ≠ .blocked) ∧ s.occurrences pid = 0 := by
        simpa [hl] using hany
      refine kept_addRtTask h (by simpa using hpol) ?_ hv.1.2 hv.2
      rw [hl, ← hv.1.1]
  | schedule => exact kept_schedule h fun next c ha hne st pol => canSwitch_spec hok ha hne
  | block reason => exact kept_block h reason
  | unblock pid =>
    refine kept_unblock h fun p hp hst => canWake_spec ?_ hst
    simpa [admissible, hp] using hok
  | yieldCurrent =>
    have hq := h.queued
    have hk := kept_schedule (s := { s with needReschedule := true })
      ⟨⟨hq.once, hq.filed, hq.policies, hq.zero, hq.alive⟩, h.located⟩
      fun next c ha hne st pol => canSwitch_spec hok ha hne
    exact ⟨hk.toSound, hk.blocked⟩

/-- Every ready or running process is the current one, or is queued once, in the queue of its
policy. -/
def Conserved (s : Scheduler) : Prop :=
  ∀ pid st pol, s.look pid = some (st, pol) → Runnable st →
    pid = s.current ∨ (s.inQueueOf pol pid = 1 ∧ s.occurrences pid = 1)

theorem sound_run {calls : List Call} (hg : Guarded step (fun s c => s.admissible c = true) new calls) :
    Sound (run step new calls) := by
  apply Guarded.run_invariant hg
  · refine ⟨queued_new, ?_⟩
    intro x st pol hl
    simp [look, get, new] at hl
  · intro s c hs hok
    exact (kept_step hs hok).toSound

/-- In a run of admissible calls no runnable process is lost, doubled or misfiled, and only
`unblock` wakes a blocked one. -/
theorem admissible_run_conserves {calls : List Call}
    (hg : Guarded step (fun s c => s.admissible c = true) new calls) :
    Conserved (run step new calls) ∧
      ∀ c, (run step new calls).admissible c = true → ∀ pid, c.wakes ≠ some pid →
        LeavesBlocked (run step new calls) ((run step new calls).step c) pid := by
  have h := sound_run hg
  refine ⟨fun pid st pol hl hrun => ?_, fun c hok => (kept_step h hok).blocked⟩
  exact (h.located pid st pol hl hrun).imp_right (h.queued.inQueueOf_eq hl)

def turns : List Call :=
  [.create 1, .create 2, .add 1, .add 2, .schedule, .yieldCurrent, .block .waitingForIo, .unblock 2]

theorem admissible_run_conserves_turns :
    Guarded step (fun s c => s.admissible c = true) new turns ∧ Conserved (run step new turns) := by
  have hg : Guarded step (fun s c => s.admissible c = true) new turns := by decide +kernel
  exact ⟨hg, (admissible_run_conserves hg).1⟩

def firstBlocks : List Call :=
  [.create 1, .create 2, .add 1, .add 2, .schedule, .block .waitingForIo]

def twoRoundRobin : List Call :=
  [.create 1, .create 2, .setSchedPolicy 1 .rr 10, .setSchedPolicy 2 .rr 20, .addRtTask 1 10 .rr,
    .schedule, .addRtTask 2 20 .rr, .schedule]

/-- The switch makes a blocked task ready and queues it; a round-robin task is queued when it is
picked and again when it is switched from. -/
theorem switch_breaks_queues :
    ¬ LeavesBlocked (run step new firstBlocks) ((run step new firstBlocks).step .schedule) 1 ∧
      ¬ Conserved (run step new twoRoundRobin) := by
  constructor
  · intro h
    have hl : (run step new firstBlocks).look 1 = some (.blocked, .normal) := by decide +kernel
    obtain ⟨⟨st, pol, hst, hne⟩, -⟩ := h _ hl
    exact hne (Prod.mk.inj (some.inj hst)).1.symm
  · intro h
    have hl : (run step new twoRoundRobin).look 1 = some (.ready, .rr) := by decide +kernel
    rcases h 1 _ _ hl (.inl rfl) with hcur | ⟨-, honce⟩
    · exact absurd hcur (by decide +kernel)
    · cases honce

end Scheduler

end AntX.Proc
