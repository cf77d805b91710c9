import AntX.Proc.Scheduler

/-! Control groups, `services/proc/cgroup.rs`: the pids of a group beside the counter of its pids
controller, and the migration of a process. Groups are walked in the order of their ids. -/

namespace AntX.Proc.Cgroup

open Lib Function List

inductive Errno
  | enoent
  | eagain
deriving DecidableEq, Repr

def cgroupMaxProcs : Nat := 4096

def pidsMaxDefault : Nat := 2 ^ 64 - 1

structure PidsController where
  pidsMax : Nat := pidsMaxDefault
  current : Nat := 0
  eventsForkFail : Nat := 0

def PidsController.tryFork (p : PidsController) : PidsController × Bool :=
  if p.pidsMax = pidsMaxDefault then ({ p with current := (p.current + 1) % 2 ^ 64 }, true)
  else if p.pidsMax ≤ p.current then
    ({ p with eventsForkFail := (p.eventsForkFail + 1) % 2 ^ 64 }, false)
  else ({ p with current := p.current + 1 }, true)

/-- A counter that wraps below 0 is stored as 0 again. -/
def PidsController.exit (p : PidsController) : PidsController := { p with current := p.current - 1 }

structure CgroupRq where
  procs : List Pid := []
  pids : PidsController := {}

/-- `Vec::swap_remove` at the first position of `x`. -/
def swapRemove (x : Nat) (l : List Nat) : List Nat :=
  if x ∈ l then (l.set (l.idxOf x) (l.getLast?.getD x)).dropLast else l

def CgroupRq.attachProc (g : CgroupRq) (pid : Pid) : CgroupRq × Bool :=
  if cgroupMaxProcs ≤ g.procs.length then (g, false)
  else if pid ∈ g.procs then (g, true)
  else ({ g with procs := g.procs ++ [pid], pids := g.pids.tryFork.1 }, g.pids.tryFork.2)

def CgroupRq.detachProc (g : CgroupRq) (pid : Pid) : CgroupRq :=
  if pid ∈ g.procs then { g with procs := swapRemove pid g.procs, pids := g.pids.exit } else g

structure CgroupSubsystem where
  groups : KeySet Nat
  group : Nat → CgroupRq

namespace CgroupSubsystem

section

variable (s : CgroupSubsystem) (pid : Pid)

def modify (id : Nat) (f : CgroupRq → CgroupRq) : CgroupSubsystem :=
  { s with group := update s.group id (f (s.group id)) }

/-- The id of the group whose handle is returned. -/
def cgroupOf : Option Nat :=
  s.groups.keys.find? fun g => pid ∈ (s.group g).procs

/-- The first half of `migrate`. -/
def detach : CgroupSubsystem :=
  match s.cgroupOf pid with
  | some g => s.modify g (·.detachProc pid)
  | none => s

def migrate (target : Nat) : CgroupSubsystem × Except Errno Unit :=
  if target ∉ s.groups then (s, .error .enoent)
  else
    let t := s.detach pid
    (t.modify target fun g => (g.attachProc pid).1,
      if ((t.group target).attachProc pid).2 then .ok () else .error .eagain)

end

structure Same (pid : Pid) (s t : CgroupSubsystem) : Prop where
  cgroupOf : t.cgroupOf pid = s.cgroupOf pid
  procs : ∀ g ∈ s.groups, (t.group g).procs = (s.group g).procs
  current : ∀ g ∈ s.groups, (t.group g).pids.current = (s.group g).pids.current

variable {s : CgroupSubsystem} {g target x : Nat} {pid : Pid} {l : List Nat} {q : CgroupRq}

theorem swapRemove_perm (h : x ∈ l) : (swapRemove x l).Perm (l.erase x) := by
  obtain ⟨as, bs, rfl, hx⟩ := eq_append_cons_of_mem h
  rw [swapRemove, if_pos h, idxOf_append_of_notMem hx, erase_append_right _ hx,
    idxOf_cons_self, erase_cons_head]
  rcases eq_nil_or_concat' bs with rfl | ⟨bs, y, rfl⟩
  · simp
  · have hlast : (as ++ x :: (bs ++ [y])).getLast? = some y := by
      rw [← cons_append, ← append_assoc, getLast?_concat]
    have hset : (as ++ x :: (bs ++ [y])).set as.length y = (as ++ y :: bs) ++ [y] := by simp
    rw [hlast, Nat.add_zero, Option.getD_some, hset, dropLast_concat]
    exact (perm_append_singleton y bs).symm.append_left as

theorem swapRemove_append_eq_iff (h : x ∈ l) : swapRemove x l ++ [x] = l ↔ l.getLast? = some x := by
  constructor
  · intro he
    rw [← he, getLast?_concat]
  · intro hlast
    obtain ⟨as, rfl⟩ := getLast?_eq_some_iff.1 hlast
    have hset : (as ++ [x]).set ((as ++ [x]).idxOf x) x = as ++ [x] := by
      have hself := set_getElem_self (idxOf_lt_length_iff.2 h)
      rwa [getElem_idxOf] at hself
    rw [swapRemove, if_pos h, hlast, Option.getD_some, hset, dropLast_concat]

@[simp] theorem modify_group (s : CgroupSubsystem) (f : CgroupRq → CgroupRq) :
    (s.modify g f).group x = if x = g then f (s.group g) else s.group x :=
  update_apply _ _ _ _

theorem attachProc_accepts : (q.attachProc pid).2 = true ↔ q.procs.length < cgroupMaxProcs ∧
    (pid ∈ q.procs ∨ q.pids.pidsMax = pidsMaxDefault ∨ q.pids.current < q.pids.pidsMax) := by
  rw [CgroupRq.attachProc, PidsController.tryFork]
  split_ifs with hfull hin hmax hlim
  · simp [Nat.not_lt.2 hfull]
  · simp [hin, Nat.not_le.1 hfull]
  · simp [hmax, Nat.not_le.1 hfull]
  · simp [hin, hmax, hlim]
  · simp [Nat.not_le.1 hfull, Nat.not_le.1 hlim]

/-- A refused process is in the list all the same unless the list was full. -/
theorem attachProc_refused (h : (q.attachProc pid).2 = false) :
    cgroupMaxProcs ≤ q.procs.length ∧ (q.attachProc pid).1 = q ∨
      q.procs.length < cgroupMaxProcs ∧ (q.attachProc pid).1.procs = q.procs ++ [pid] ∧
        (q.attachProc pid).1.pids.current = q.pids.current := by
  rw [CgroupRq.attachProc, PidsController.tryFork] at h ⊢
  split_ifs at h ⊢ with hfull hin hmax hlim
  · exact .inl ⟨hfull, rfl⟩
  · exact .inr ⟨Nat.not_le.1 hfull, rfl, rfl⟩

theorem cgroupOf_some (h : s.cgroupOf pid = some g) : g ∈ s.groups ∧ pid ∈ (s.group g).procs :=
  ⟨mem_of_find?_eq_some h, by simpa using find?_some h⟩

theorem detachProc_length (h : pid ∈ q.procs) : (q.detachProc pid).procs.length = q.procs.length - 1 := by
  rw [CgroupRq.detachProc, if_pos h, (swapRemove_perm h).length_eq, length_erase_of_mem h]

theorem detachProc_mem (h : pid ∈ q.procs) : pid ∈ (q.detachProc pid).procs ↔ 1 < q.procs.count pid := by
  rw [CgroupRq.detachProc, if_pos h, (swapRemove_perm h).mem_iff, ← count_pos_iff, count_erase_self]
  omega

theorem detach_group (s : CgroupSubsystem) (pid : Pid) (g : Nat) : (s.detach pid).group g =
    if s.cgroupOf pid = some g then (s.group g).detachProc pid else s.group g := by
  rw [detach]
  cases s.cgroupOf pid with
  | none => simp
  | some k =>
    by_cases hg : g = k
    · simp [hg]
    · simp [hg, Ne.symm hg]

theorem detach_groups : (s.detach pid).groups = s.groups := by
  rw [detach]
  split <;> rfl

def taken (s : CgroupSubsystem) (pid : Pid) (target : Nat) : Nat :=
  if s.cgroupOf pid = some target then 1 else 0

theorem detached (s : CgroupSubsystem) (pid : Pid) (target : Nat) :
    ((s.detach pid).group target).procs.length = (s.group target).procs.length - s.taken pid target ∧
      (pid ∈ ((s.detach pid).group target).procs ↔ s.taken pid target < (s.group target).procs.count pid) ∧
      ((s.detach pid).group target).pids = { (s.group target).pids with
        current := (s.group target).pids.current - s.taken pid target } := by
  rw [detach_group, taken]
  split_ifs with hof
  · have hin := (cgroupOf_some hof).2
    rw [detachProc_length hin, detachProc_mem hin, CgroupRq.detachProc, if_pos hin]
    exact ⟨rfl, Iff.rfl, rfl⟩
  · exact ⟨rfl, count_pos_iff.symm, rfl⟩

/-- A migration changes nothing just when the process was in no group but the target and the
target is as it was. -/
theorem same_iff (ht : target ∈ s.groups) : Same pid s
      ((s.detach pid).modify target fun q => (q.attachProc pid).1) ↔
    (∀ g, s.cgroupOf pid = some g → g = target) ∧
      ((((s.detach pid).group target).attachProc pid).1.procs = (s.group target).procs ∧
        (((s.detach pid).group target).attachProc pid).1.pids.current = (s.group target).pids.current) := by
  constructor
  · intro h
    refine ⟨fun g hg => ?_, ?_, ?_⟩
    · by_contra hne
      obtain ⟨hmem, hin⟩ := cgroupOf_some hg
      have hprocs := congrArg List.length (h.procs g hmem)
      rw [modify_group, if_neg hne, detach_group, if_pos hg, detachProc_length hin] at hprocs
      have := length_pos_of_mem hin
      omega
    · simpa using h.procs target ht
    · simpa using h.current target ht
  · rintro ⟨hone, hprocs, hcurrent⟩
    have hother : ∀ g, g ≠ target → (s.detach pid).group g = s.group g := by
      intro g hg
      rw [detach_group, if_neg fun hof => hg (hone g hof)]
    have hall : ∀ g, (((s.detach pid).modify target fun q => (q.attachProc pid).1).group g).procs =
        (s.group g).procs := by
      intro g
      by_cases hg : g = target
      · simpa [hg] using hprocs
      · simp [hg, hother g hg]
    refine ⟨?_, fun g _ => hall g, fun g _ => ?_⟩
    · simp only [cgroupOf, hall]
      rw [modify, detach_groups]
    · by_cases hg : g = target
      · simpa [hg] using hcurrent
      · simp [hg, hother g hg]

theorem kept_full_iff : ((∀ g, s.cgroupOf pid = some g → g = target) ∧
      ((s.detach pid).group target).procs = (s.group target).procs ∧
      ((s.detach pid).group target).pids.current = (s.group target).pids.current) ↔
    s.cgroupOf pid = none := by
  constructor
  · rintro ⟨hone, hprocs, -⟩
    by_contra hne
    obtain ⟨g, hof⟩ := Option.ne_none_iff_exists'.1 hne
    cases hone g hof
    have hin := (cgroupOf_some hof).2
    have hlen := detachProc_length hin
    have hpos := length_pos_of_mem hin
    rw [detach_group, if_pos hof] at hprocs
    rw [hprocs] at hlen
    omega
  · intro hof
    simp [detach_group, hof]

theorem kept_limited_iff : ((∀ g, s.cgroupOf pid = some g → g = target) ∧
      ((s.detach pid).group target).procs ++ [pid] = (s.group target).procs ∧
      ((s.detach pid).group target).pids.current = (s.group target).pids.current) ↔
    s.cgroupOf pid = some target ∧ (s.group target).pids.current = 0 ∧
      (s.group target).procs.getLast? = some pid := by
  by_cases hof : s.cgroupOf pid = some target
  · have hin := (cgroupOf_some hof).2
    have hcur : (s.group target).pids.current - 1 = (s.group target).pids.current ↔
        (s.group target).pids.current = 0 := by omega
    rw [detach_group, if_pos hof, CgroupRq.detachProc, if_pos hin, PidsController.exit]
    simp [hof, swapRemove_append_eq_iff hin, hcur, and_comm]
  · simp [detach_group, hof]

/-- There is no such target; or it takes the process; or it is full and the process in no group; or
it is at the limit 0 and never counted the process, its last, which is pushed again. -/
def MigratesWhole (s : CgroupSubsystem) (pid : Pid) (target : Nat) : Prop :=
  let q := s.group target
  let room := cgroupMaxProcs - (q.procs.length - s.taken pid target)
  target ∉ s.groups ∨ 0 < room ∧ (s.taken pid target < q.procs.count pid ∨ q.pids.pidsMax = pidsMaxDefault ∨
      q.pids.current - s.taken pid target < q.pids.pidsMax) ∨
    room = 0 ∧ s.cgroupOf pid = none ∨
    0 < room ∧ s.cgroupOf pid = some target ∧ q.pids.current = 0 ∧ q.procs.getLast? = some pid

/-- A failing migration has detached the process by then, so only these leave it where it was. -/
theorem migrate_error_keeps_iff (s : CgroupSubsystem) (pid : Pid) (target : Nat) :
    (∀ e, (s.migrate pid target).2 = .error e → Same pid s (s.migrate pid target).1) ↔
      s.MigratesWhole pid target := by
  by_cases ht : target ∈ s.groups
  · obtain ⟨hlen, hin, hpids⟩ := s.detached pid target
    rw [migrate, if_neg (not_not.2 ht), MigratesWhole]
    dsimp only
    rw [Nat.sub_pos_iff_lt, Nat.sub_eq_zero_iff_le]
    cases hacc : (((s.detach pid).group target).attachProc pid).2 with
    | true =>
      have hroom := attachProc_accepts.1 hacc
      rw [hlen, hin, hpids] at hroom
      simp [hroom]
    | false =>
      have hroom := fun h => Bool.false_ne_true (hacc.symm.trans (attachProc_accepts.2 h))
      rw [hlen, hin, hpids] at hroom
      simp only [Bool.false_eq_true, if_false, Except.error.injEq, forall_eq', same_iff ht]
      rw [or_iff_right (not_not.2 ht), or_iff_right hroom]
      rcases attachProc_refused hacc with ⟨hfull, hsame⟩ | ⟨hfree, hprocs, hcur⟩
      · rw [hlen] at hfull
        rw [hsame, or_iff_left fun h => absurd h.1 (Nat.not_lt.2 hfull), and_iff_right hfull]
        exact kept_full_iff
      · rw [hlen] at hfree
        rw [hprocs, hcur, or_iff_right fun h => absurd h.1 (Nat.not_le.2 hfree), and_iff_right hfree]
        exact kept_limited_iff
  · have hsame : Same pid s s := ⟨rfl, fun _ _ => rfl, fun _ _ => rfl⟩
    simp [migrate, MigratesWhole, ht, hsame]

def closedGroup : CgroupSubsystem where
  groups := (KeySet.empty.insert 0).insert 1
  group g := if g = 0 then { procs := [5], pids := { current := 1 } } else { pids := { pidsMax := 0 } }

theorem refused_process_moves : ¬∀ e, (closedGroup.migrate 5 1).2 = .error e →
    Same 5 closedGroup (closedGroup.migrate 5 1).1 := by
  intro h
  have hprocs := (h .eagain (by decide)).procs 0 (by decide)
  revert hprocs
  decide

end CgroupSubsystem

end AntX.Proc.Cgroup
