import Mathlib.Tactic.Common

/-! The system call filter: `services/proc/seccomp.rs`. The filters of a process are asked in order, up
to the first answer that is not `Allow`. -/

namespace AntX.Proc

open List

inductive SeccompMode where
  | disabled
  | strict
  | filter
deriving DecidableEq, Repr

inductive SeccompAction where
  | allow
  | killThread
  | killProcess
  | trap
  | errno (e : BitVec 32)
  | log
deriving DecidableEq, Repr

inductive CmpOp where
  | equal
  | notEqual
  | greaterThan
  | greaterEqual
  | lessThan
  | lessEqual
  | maskedEqual
deriving DecidableEq, Repr

structure ArgComparator where
  index : Nat
  op : CmpOp
  value : BitVec 64
  mask : BitVec 64
deriving DecidableEq, Repr

def ArgComparator.evaluate (c : ArgComparator) (arg : BitVec 64) : Bool :=
  match c.op with
  | .equal => arg == c.value
  | .notEqual => arg != c.value
  | .greaterThan => decide (c.value < arg)
  | .greaterEqual => decide (c.value ≤ arg)
  | .lessThan => decide (arg < c.value)
  | .lessEqual => decide (arg ≤ c.value)
  | .maskedEqual => arg &&& c.mask == c.value

structure SeccompRule where
  syscallNr : Nat
  argComparators : List ArgComparator
  action : SeccompAction
deriving DecidableEq, Repr

abbrev Args := Fin 6 → BitVec 64

def SeccompRule.matches (r : SeccompRule) (syscallNr : Nat) (args : Args) : Bool :=
  r.syscallNr == syscallNr && r.argComparators.all fun c =>
    if h : c.index < 6 then c.evaluate (args ⟨c.index, h⟩) else false

structure SeccompFilter where
  rules : List SeccompRule
  defaultAction : SeccompAction
deriving DecidableEq, Repr

def SeccompFilter.check (f : SeccompFilter) (syscallNr : Nat) (args : Args) : SeccompAction :=
  match f.rules.find? (·.matches syscallNr args) with
  | some rule => rule.action
  | none => f.defaultAction

structure SeccompState where
  mode : Nat
  filters : List SeccompFilter

def SeccompState.getMode (s : SeccompState) : SeccompMode :=
  match s.mode with
  | 1 => .strict
  | 2 => .filter
  | _ => .disabled

def strictAllowed : List Nat := [502, 503, 501, 525, 542]

def defaultAction : SeccompAction := .allow

def askFilters (syscallNr : Nat) (args : Args) (result : SeccompAction) : List SeccompFilter → SeccompAction
  | [] => result
  | f :: fs =>
    let result := f.check syscallNr args
    if result ≠ .allow then result else askFilters syscallNr args result fs

/-- `ret` is what the caller gets instead of the call; without it the call proceeds.
`signal` goes to the process. -/
structure Verdict where
  ret : Option Int
  signal : Option Nat
deriving DecidableEq, Repr

def eperm : Int := 1

def Verdict.ofAction : SeccompAction → Verdict
  | .allow => ⟨none, none⟩
  | .log => ⟨none, none⟩
  | .killThread => ⟨some (-eperm), some 31⟩
  | .killProcess => ⟨some (-eperm), some 31⟩
  | .trap => ⟨some (-eperm), some 31⟩
  | .errno e => ⟨some (-(e.toNat : Int)), none⟩

def seccompCheck (current : Option SeccompState) (syscallNr : Nat) (args : Args) : Verdict :=
  match (current.map (·.getMode)).getD .disabled with
  | .disabled => ⟨none, none⟩
  | .strict => if syscallNr ∈ strictAllowed then ⟨none, none⟩ else ⟨some (-eperm), some 9⟩
  | .filter => .ofAction
    ((current.map fun s => askFilters syscallNr args defaultAction s.filters).getD .allow)

def SeccompAction.blocks : SeccompAction → Bool
  | .allow => false
  | .log => false
  | .killThread => true
  | .killProcess => true
  | .trap => true
  | .errno _ => true

theorem Verdict.ofAction_ret (a : SeccompAction) : (ofAction a).ret ≠ none ↔ a.blocks = true := by
  cases a <;> simp [ofAction, SeccompAction.blocks]

variable {syscallNr : Nat} {args : Args}

/-- A filter that only logs stands before a blocking one only behind another. -/
def LogsBehind (syscallNr : Nat) (args : Args) (fs : List SeccompFilter) : Prop :=
  ∀ pre f post, fs = pre ++ f :: post → f.check syscallNr args = .log →
    (∃ g ∈ post, (g.check syscallNr args).blocks = true) → ∃ g ∈ pre, (g.check syscallNr args).blocks = true

variable {f : SeccompFilter} {fs : List SeccompFilter}

theorem logsBehind_of_allow (hf : f.check syscallNr args = .allow) :
    LogsBehind syscallNr args (f :: fs) ↔ LogsBehind syscallNr args fs := by
  constructor
  · intro h pre g post hfs hlog hpost
    obtain ⟨b, hb, hblocks⟩ := h (f :: pre) g post (by rw [hfs, cons_append]) hlog hpost
    rcases mem_cons.mp hb with rfl | hb
    · rw [hf] at hblocks
      cases hblocks
    · exact ⟨b, hb, hblocks⟩
  · intro h pre g post hfs hlog hpost
    cases pre with
    | nil =>
      cases hfs
      rw [hf] at hlog
      cases hlog
    | cons b pre =>
      cases hfs
      obtain ⟨c, hc, hblocks⟩ := h pre g post rfl hlog hpost
      exact ⟨c, mem_cons_of_mem _ hc, hblocks⟩

theorem logsBehind_of_log (hf : f.check syscallNr args = .log) :
    LogsBehind syscallNr args (f :: fs) ↔ ¬ ∃ g ∈ fs, (g.check syscallNr args).blocks = true := by
  constructor
  · intro h hblocks
    obtain ⟨g, hg, -⟩ := h [] f fs rfl hf hblocks
    cases hg
  · intro h pre g post hfs hlog hpost
    obtain ⟨b, hb, hblocks⟩ := hpost
    exfalso
    apply h
    refine ⟨b, ?_, hblocks⟩
    cases pre with
    | nil =>
      cases hfs
      exact hb
    | cons c pre =>
      cases hfs
      exact mem_append_right _ (mem_cons_of_mem _ hb)

theorem logsBehind_of_blocks (hf : (f.check syscallNr args).blocks = true) :
    LogsBehind syscallNr args (f :: fs) := by
  intro pre g post hfs hlog hpost
  cases pre with
  | nil =>
    cases hfs
    rw [hlog] at hf
    cases hf
  | cons b pre =>
    cases hfs
    exact ⟨f, mem_cons_self, hf⟩

theorem askFilters_blocks_iff (fs : List SeccompFilter) :
    ((∃ f ∈ fs, (f.check syscallNr args).blocks = true) →
      (askFilters syscallNr args .allow fs).blocks = true) ↔ LogsBehind syscallNr args fs := by
  induction fs with
  | nil =>
    constructor
    · intro _ pre f post hfs
      exact absurd hfs (by simp)
    · rintro _ ⟨f, hf, -⟩
      cases hf
  | cons f fs ih =>
    by_cases hallow : f.check syscallNr args = .allow
    · rw [logsBehind_of_allow hallow, ← ih]
      simp [askFilters, hallow, SeccompAction.blocks]
    · have hask : askFilters syscallNr args .allow (f :: fs) = f.check syscallNr args := by
        simp [askFilters, hallow]
      by_cases hlog : f.check syscallNr args = .log
      · rw [logsBehind_of_log hlog, hask, hlog]
        simp [hlog, SeccompAction.blocks]
      · have hblocks : (f.check syscallNr args).blocks = true := by
          cases ha : f.check syscallNr args with
          | allow => exact absurd ha hallow
          | log => exact absurd ha hlog
          | killThread | killProcess | trap | errno e => rfl
        rw [hask]
        exact iff_of_true (fun _ => hblocks) (logsBehind_of_blocks hblocks)

/-- In filter mode a call that some filter blocks does not proceed, exactly when no filter
that logs hides the blocking ones. -/
theorem filters_restrict_iff (s : SeccompState) (hmode : s.getMode = .filter) (syscallNr : Nat)
    (args : Args) :
    ((∃ f ∈ s.filters, (f.check syscallNr args).blocks = true) →
      (seccompCheck (some s) syscallNr args).ret ≠ none) ↔ LogsBehind syscallNr args s.filters := by
  rw [← askFilters_blocks_iff]
  have hret : (seccompCheck (some s) syscallNr args).ret ≠ none ↔
      (askFilters syscallNr args .allow s.filters).blocks = true := by
    simp only [seccompCheck, Option.map_some, Option.getD_some, hmode]
    exact Verdict.ofAction_ret _
  rw [hret]

def killer : SeccompFilter := ⟨[], .killProcess⟩

def logger : SeccompFilter := ⟨[⟨503, [], .log⟩], .allow⟩

theorem filters_restrict_kill_first :
    (seccompCheck (some ⟨2, [killer, logger]⟩) 503 (fun _ => 0#64)).ret ≠ none := by
  apply (filters_restrict_iff ⟨2, [killer, logger]⟩ rfl 503 (fun _ => 0#64)).mpr
  · apply logsBehind_of_blocks
    decide
  · exact ⟨killer, by simp, by decide⟩

/-- A filter that logs a call, installed first, disarms one that kills on it. -/
theorem filters_log_disarms : ¬ ∀ (s : SeccompState) (syscallNr : Nat) (args : Args), s.getMode = .filter →
      (∃ f ∈ s.filters, (f.check syscallNr args).blocks = true) →
        (seccompCheck (some s) syscallNr args).ret ≠ none := by
  intro h
  apply h ⟨2, [logger, killer]⟩ 503 (fun _ => 0#64) rfl
  · exact ⟨killer, by simp, by decide⟩
  · decide

end AntX.Proc
