import Mathlib.Algebra.Order.Field.Basic
import Mathlib.Tactic.FieldSimp
import Mathlib.Tactic.Linarith
import AntX.Proc.Scheduler

/-! The admission test of the deadline queue against the exact utilization of the tasks it has
let in. The queue adds percentages that are rounded down. -/

namespace AntX.Proc

open Lib List

variable {p : DeadlineParams} {s : Admission} {task : DlTask} {deadlineAbs : Nat}

namespace DeadlineParams

def utilization (p : DeadlineParams) : ℚ := (p.runtime : ℚ) / p.period

def Exact (p : DeadlineParams) : Prop := p.period ∣ p.runtime * 100

instance (p : DeadlineParams) : Decidable p.Exact :=
  inferInstanceAs (Decidable (p.period ∣ p.runtime * 100))

def slack (p : DeadlineParams) : Nat := if p.Exact then 0 else 1

theorem period_pos (h : p.isValid = true) : 0 < p.period := by
  simp only [isValid, Bool.and_eq_true, decide_eq_true_eq] at h
  have hruntime : 1 ≤ p.runtime := h.1.1.1
  omega

theorem runtime_le_pct (h : p.isValid = true) (hfits : p.runtime * 100 < 2 ^ 64) :
    p.runtime * 100 ≤ p.period * (p.utilizationPct + p.slack) := by
  have hpos := period_pos h
  rw [utilizationPct, if_neg (by omega), Nat.mod_eq_of_lt hfits, slack]
  by_cases hex : p.Exact
  · rw [if_pos hex, Nat.add_zero, Nat.mul_div_cancel' hex]
  · rw [if_neg hex]
    exact (Nat.lt_mul_div_succ _ hpos).le

theorem utilization_le (h : p.isValid = true) (hfits : p.runtime * 100 < 2 ^ 64) :
    p.utilization ≤ ((p.utilizationPct + p.slack : Nat) : ℚ) / 100 := by
  have hpos : (0 : ℚ) < p.period := by exact_mod_cast period_pos h
  have hle : (p.runtime * 100 : ℚ) ≤ p.period * (p.utilizationPct + p.slack : Nat) := by
    exact_mod_cast runtime_le_pct h hfits
  rw [utilization, div_le_div_iff₀ hpos (by norm_num)]
  linarith

end DeadlineParams

structure DlTask where
  pid : Pid
  params : DeadlineParams
deriving DecidableEq, Repr

structure Admission where
  rq : DlRunQueue
  admitted : List DlTask

inductive DlOp where
  | enqueue (task : DlTask) (deadlineAbs : Nat)
  | dequeue (task : DlTask) (deadlineAbs : Nat)
  | pickNext
  | reinsert (pid : Pid) (dlAbs : Nat)

namespace Admission

def new : Admission := { rq := .new, admitted := [] }

section

variable (s : Admission)

def step : DlOp → Admission
  | .enqueue task deadlineAbs =>
    let r := s.rq.enqueue task.pid deadlineAbs task.params.utilizationPct
    { rq := r.1, admitted := if r.2 then task :: s.admitted else s.admitted }
  | .dequeue task deadlineAbs =>
    { rq := s.rq.dequeue task.pid deadlineAbs task.params.utilizationPct
      admitted := s.admitted.erase task }
  | .pickNext => { s with rq := s.rq.pickNext.1 }
  | .reinsert pid dlAbs => { s with rq := s.rq.reinsert pid dlAbs }

def Legal : DlOp → Prop
  | .enqueue task _ => task.params.isValid = true
  | .dequeue task deadlineAbs => task ∈ s.admitted ∧ queueKey deadlineAbs task.pid ∈ s.rq.tree
  | _ => True

def utilization : ℚ := (s.admitted.map (·.params.utilization)).sum

def rounded : Nat := (s.admitted.map (·.params.slack)).sum

/-- A task that the queue is going to let in leaves one percent unused for each rounded
percentage, and its own percentage is computed without overflow. -/
def Reserved : DlOp → Prop
  | .enqueue task _ =>
    s.rq.totalUtilization + task.params.utilizationPct ≤ dlMaxUtilizationPct →
      task.params.runtime * 100 < 2 ^ 64 ∧
      s.rq.totalUtilization + task.params.utilizationPct + s.rounded + task.params.slack ≤ dlMaxUtilizationPct
  | _ => True

structure Accounted : Prop where
  valid : ∀ t ∈ s.admitted, t.params.isValid = true ∧ t.params.runtime * 100 < 2 ^ 64
  counted : (s.admitted.map (·.params.utilizationPct)).sum ≤ s.rq.totalUtilization
  reserve : s.rq.totalUtilization + s.rounded ≤ dlMaxUtilizationPct

end

theorem accounted_new : Accounted new := by
  constructor
  · simp [new]
  · simp [new]
  · simp [new, rounded, DlRunQueue.new]

theorem Accounted.enqueue (h : s.Accounted) (hl : s.Legal (.enqueue task deadlineAbs))
    (hr : s.Reserved (.enqueue task deadlineAbs)) :
    (s.step (.enqueue task deadlineAbs)).Accounted := by
  rcases DlRunQueue.enqueue_cases s.rq task.pid deadlineAbs task.params.utilizationPct with
    ⟨hle, he⟩ | ⟨-, he⟩
  · obtain ⟨hfits, hreserve⟩ := hr hle
    rw [step, he]
    constructor
    · intro t ht
      rcases mem_cons.1 ht with rfl | ht
      · exact ⟨hl, hfits⟩
      · exact h.valid t ht
    · have := h.counted
      simp only [if_true, map_cons, sum_cons]
      omega
    · simp only [rounded] at hreserve ⊢
      simp only [if_true, map_cons, sum_cons]
      omega
  · rw [step, he]
    exact h

theorem Accounted.dequeue (h : s.Accounted) (hl : s.Legal (.dequeue task deadlineAbs)) :
    (s.step (.dequeue task deadlineAbs)).Accounted := by
  obtain ⟨hmem, hkey⟩ := hl
  have hpct : task.params.utilizationPct + ((s.admitted.erase task).map (·.params.utilizationPct)).sum =
      (s.admitted.map (·.params.utilizationPct)).sum :=
    sum_map_erase (fun t : DlTask => t.params.utilizationPct) hmem
  have hslack : task.params.slack + ((s.admitted.erase task).map (·.params.slack)).sum =
      (s.admitted.map (·.params.slack)).sum :=
    sum_map_erase (fun t : DlTask => t.params.slack) hmem
  have hcounted := h.counted
  have hreserve := h.reserve
  rw [step, DlRunQueue.dequeue, if_pos hkey]
  simp only [rounded] at hreserve
  constructor
  · exact fun t ht => h.valid t (mem_of_mem_erase ht)
  · simp only
    omega
  · simp only [rounded]
    omega

theorem Accounted.step (h : s.Accounted) {op : DlOp} (hl : s.Legal op) (hr : s.Reserved op) :
    (s.step op).Accounted := by
  cases op with
  | enqueue task deadlineAbs => exact h.enqueue hl hr
  | dequeue task deadlineAbs => exact h.dequeue hl
  | pickNext =>
    rw [Admission.step, DlRunQueue.pickNext]
    cases s.rq.tree.first with
    | some k => exact ⟨h.valid, h.counted, h.reserve⟩
    | none => exact h
  | reinsert pid dlAbs => exact ⟨h.valid, h.counted, h.reserve⟩

theorem utilization_sum_le (ts : List DlTask)
    (h : ∀ t ∈ ts, t.params.isValid = true ∧ t.params.runtime * 100 < 2 ^ 64) :
    (ts.map (·.params.utilization)).sum ≤
      (((ts.map (·.params.utilizationPct)).sum + (ts.map (·.params.slack)).sum : Nat) : ℚ) / 100 := by
  induction ts with
  | nil => simp
  | cons t ts ih =>
    have ht := DeadlineParams.utilization_le (h t (by simp)).1 (h t (by simp)).2
    have hts := ih fun t' ht' => h t' (by simp [ht'])
    simp only [map_cons, sum_cons]
    push_cast at ht hts ⊢
    linarith

theorem Accounted.utilization_le (h : s.Accounted) : s.utilization ≤ (dlMaxUtilizationPct : ℚ) / 100 := by
  have hsum := utilization_sum_le s.admitted h.valid
  have hcounted := h.counted
  have hreserve := h.reserve
  rw [rounded] at hreserve
  have hle : (((s.admitted.map (·.params.utilizationPct)).sum +
      (s.admitted.map (·.params.slack)).sum : Nat) : ℚ) ≤ dlMaxUtilizationPct := by
    exact_mod_cast (by omega)
  rw [utilization]
  linarith

/-- The exact utilization stays within the bound in every run whose enqueues leave a reserve
for the rounding. -/
theorem admission_sound (ops : List DlOp)
    (h : Guarded step (fun s op => s.Legal op ∧ s.Reserved op) new ops) :
    (run step new ops).utilization ≤ (dlMaxUtilizationPct : ℚ) / 100 :=
  (h.run_invariant accounted_new fun _ _ hs hok => hs.step hok.1 hok.2).utilization_le

def tenthAndThird : List DlOp :=
  [.enqueue ⟨1, ⟨10, 50, 100⟩⟩ 50, .enqueue ⟨2, ⟨10, 30, 30⟩⟩ 30, .pickNext, .reinsert 2 60,
    .dequeue ⟨2, ⟨10, 30, 30⟩⟩ 60]

theorem admission_sound_tenthAndThird :
    Guarded step (fun s op => s.Legal op ∧ s.Reserved op) new tenthAndThird ∧
      (run step new tenthAndThird).utilization ≤ (dlMaxUtilizationPct : ℚ) / 100 := by
  have hok : Guarded step (fun s op => s.Legal op ∧ s.Reserved op) new tenthAndThird := by
    simp only [tenthAndThird, Guarded, Legal, Reserved]
    decide +kernel
  exact ⟨hok, admission_sound tenthAndThird hok⟩

theorem admission_exceeds_bound : Guarded step Legal new [.enqueue ⟨1, ⟨959, 1000, 1000⟩⟩ 1000] ∧
      ¬ (run step new [.enqueue ⟨1, ⟨959, 1000, 1000⟩⟩ 1000]).utilization ≤
        (dlMaxUtilizationPct : ℚ) / 100 := by
  refine ⟨⟨rfl, trivial⟩, ?_⟩
  have hadmitted : (run step new [.enqueue ⟨1, ⟨959, 1000, 1000⟩⟩ 1000]).admitted =
      [⟨1, ⟨959, 1000, 1000⟩⟩] := by decide +kernel
  rw [utilization, hadmitted]
  norm_num [DeadlineParams.utilization, dlMaxUtilizationPct]

end Admission

end AntX.Proc
