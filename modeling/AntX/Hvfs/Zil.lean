import AntX.Lib.Run
import AntX.Hvfs.BlockPointer

/-! The intent log of services/fs/hvfs/zil.rs: records that wait for their transaction group, and the two
sequence numbers by which the log tells whether any is left. -/

namespace AntX.Hvfs

open AntX.Lib List UInt64

inductive HvZilRecordType where
  | create
  | remove
  | link
  | rename
  | write
  | truncate
  | setAttr
  | acl
  | createAcl
  | mkdir
  | symlink
  | dedupRef
  | dedupUnref
  deriving DecidableEq, Repr

def ByteArr (n : Nat) : Type := { bs : List UInt8 // bs.length = n }

instance (n : Nat) : DecidableEq (ByteArr n) := inferInstanceAs (DecidableEq { bs : List UInt8 // bs.length = n })

def ByteArr.zero (n : Nat) : ByteArr n := ⟨List.replicate n 0, length_replicate⟩

structure HvZilRecord where
  recType : HvZilRecordType
  txg : UInt64
  objId : UInt64
  parentObj : UInt64
  offset : UInt64
  size : UInt32
  name : ByteArr 128
  dataHash : Words4
  seq : UInt64
  deriving DecidableEq

structure HvZil where
  records : List HvZilRecord
  committedSeq : UInt64
  currentSeq : UInt64
  syncing : Bool
  enabled : Bool

def maxSeq (records : List HvZilRecord) : UInt64 :=
  records.foldl (fun m r => if m < r.seq then r.seq else m) 0

namespace HvZil

def new : HvZil := ⟨[], 0, 0, false, true⟩

section

variable (z : HvZil) (txg : UInt64)

def init : HvZil :=
  { z with committedSeq := 0, currentSeq := 0, records := [], enabled := true }

def addRecord (record : HvZilRecord) : HvZil :=
  if z.enabled then
    { z with currentSeq := z.currentSeq + 1
             records := z.records ++ [{ record with seq := z.currentSeq + 1 }] }
  else z

def due : List HvZilRecord := z.records.filter fun r => decide (r.txg ≤ txg)

def commit : HvZil :=
  { z with records := z.records.filter fun r => !decide (r.txg ≤ txg)
           committedSeq := maxSeq (z.due txg) }

def sync : HvZil :=
  if z.syncing then z else { ({ z with syncing := true }.commit txg) with syncing := false }

def hasUncommitted : Bool := decide (z.committedSeq < z.currentSeq)

end

end HvZil

theorem maxSeq_concat (rs : List HvZilRecord) (r : HvZilRecord) :
    maxSeq (rs ++ [r]) = if maxSeq rs < r.seq then r.seq else maxSeq rs := by
  rw [maxSeq, foldl_append]
  rfl

theorem maxSeq_lt_iff (rs : List HvZilRecord) (n : UInt64) : maxSeq rs < n ↔ 0 < n ∧ ∀ r ∈ rs, r.seq < n := by
  induction rs using List.reverseRecOn with
  | nil => simp [maxSeq]
  | append_singleton rs r ih =>
    have hall : (∀ x ∈ rs ++ [r], x.seq < n) ↔ (∀ x ∈ rs, x.seq < n) ∧ r.seq < n := by
      simp [or_imp, forall_and]
    rw [maxSeq_concat, hall, ← and_assoc, ← ih]
    simp only [UInt64.lt_iff_toNat_lt]
    split_ifs <;> omega

theorem le_maxSeq_iff {rs : List HvZilRecord} (hne : rs ≠ []) (n : UInt64) :
    n ≤ maxSeq rs ↔ ∃ r ∈ rs, n ≤ r.seq := by
  constructor
  · intro hle
    by_contra hnone
    have hall : ∀ r ∈ rs, r.seq < n := fun r hr => UInt64.not_le.mp fun h => hnone ⟨r, hr, h⟩
    obtain ⟨r₀, hr₀⟩ := exists_mem_of_ne_nil rs hne
    have hpos : 0 < n := UInt64.lt_of_le_of_lt UInt64.zero_le (hall r₀ hr₀)
    exact UInt64.not_lt.mpr hle ((maxSeq_lt_iff rs n).mpr ⟨hpos, hall⟩)
  · rintro ⟨r, hr, hle⟩
    apply UInt64.not_lt.mp
    intro hlt
    exact UInt64.not_lt.mpr hle (((maxSeq_lt_iff rs n).mp hlt).2 r hr)

inductive ZilCall where
  | init
  | addRecord (record : HvZilRecord)
  | commit (txg : UInt64)
  | sync (txg : UInt64)

namespace HvZil

variable {z : HvZil} {txg : UInt64}

def zilStep (z : HvZil) : ZilCall → HvZil
  | .init => z.init
  | .addRecord record => z.addRecord record
  | .commit txg => z.commit txg
  | .sync txg => z.sync txg

def StatusExact (z : HvZil) : Prop := z.hasUncommitted = true ↔ z.records ≠ []

/-- In every state of the run the status is exact, and only `init` lowers the committed number. -/
def StatusKept : HvZil → List ZilCall → Prop
  | z, [] => z.StatusExact
  | z, c :: cs => z.StatusExact ∧ (c ≠ .init → z.committedSeq ≤ (z.zilStep c).committedSeq) ∧
    StatusKept (z.zilStep c) cs

/-- A commit at which the two views of the log go on together: one that takes no record out comes before
all others; one that does takes out a record that is no older than those taken out before, and leaves the
newest record unless it takes all. -/
def InTurn (z : HvZil) (txg : UInt64) : Prop :=
  if z.due txg = [] then z.committedSeq = 0
  else (∃ r ∈ z.due txg, z.committedSeq ≤ r.seq) ∧
    ((∃ r ∈ z.records, ¬ r.txg ≤ txg) → ∀ r ∈ z.due txg, r.seq ≠ z.currentSeq)

def InOrder (z : HvZil) : ZilCall → Prop
  | .init => True
  | .addRecord _ => z.currentSeq ≠ 0xFFFFFFFFFFFFFFFF
  | .commit txg => z.InTurn txg
  | .sync txg => z.InTurn txg

/-- What the states of a run share as long as its calls are in order. -/
structure Tidy (z : HvZil) : Prop where
  exact : z.StatusExact
  bound : ∀ r ∈ z.records, r.seq ≤ z.currentSeq
  committed : z.committedSeq ≤ z.currentSeq
  newest : z.committedSeq < z.currentSeq → ∃ r ∈ z.records, r.seq = z.currentSeq
  enabled : z.enabled = true
  idle : z.syncing = false

theorem Tidy.sync (h : z.Tidy) (txg : UInt64) : z.sync txg = z.commit txg := by
  rw [HvZil.sync, h.idle]
  simp only [Bool.false_eq_true, if_false, commit, due, h.idle]

theorem tidy_init (z : HvZil) (hidle : z.syncing = false) : z.init.Tidy where
  exact := by simp [StatusExact, hasUncommitted, init]
  bound r hr := by cases hr
  committed := UInt64.le_refl _
  newest h := absurd h (UInt64.lt_irrefl _)
  enabled := rfl
  idle := hidle

theorem tidy_new : new.Tidy := tidy_init new rfl

theorem next_toNat {n : UInt64} (hn : n ≠ 0xFFFFFFFFFFFFFFFF) : (n + 1).toNat = n.toNat + 1 := by
  have hlt := n.toNat_lt
  have hne : n.toNat ≠ 18446744073709551615 := fun h => hn (UInt64.toNat_inj.mp h)
  rw [UInt64.toNat_add, Nat.mod_eq_of_lt]
  · rfl
  · change n.toNat + 1 < 2 ^ 64
    omega

theorem Tidy.addRecord_exact_iff (h : z.Tidy) (record : HvZilRecord) :
    (z.addRecord record).StatusExact ↔ z.currentSeq ≠ 0xFFFFFFFFFFFFFFFF := by
  rw [HvZil.addRecord, if_pos h.enabled, StatusExact, hasUncommitted]
  simp only [decide_eq_true_eq, ne_eq, append_eq_nil_iff, cons_ne_self, and_false, not_false_eq_true,
    iff_true]
  have hle := le_iff_toNat_le.mp h.committed
  constructor
  · intro hlt heq
    rw [heq] at hlt
    exact absurd hlt UInt64.not_lt_zero
  · intro hne
    rw [UInt64.lt_iff_toNat_lt, next_toNat hne]
    omega

theorem Tidy.addRecord (h : z.Tidy) (record : HvZilRecord) (hne : z.currentSeq ≠ 0xFFFFFFFFFFFFFFFF) :
    (z.addRecord record).Tidy := by
  have hexact := (h.addRecord_exact_iff record).mpr hne
  have hnext := next_toNat hne
  have hle := le_iff_toNat_le.mp h.committed
  rw [HvZil.addRecord, if_pos h.enabled] at hexact ⊢
  refine ⟨hexact, ?_, ?_, ?_, h.enabled, h.idle⟩
  · intro r hr
    rw [le_iff_toNat_le]
    rcases mem_append.mp hr with hr | hr
    · have hold := le_iff_toNat_le.mp (h.bound r hr)
      dsimp only
      omega
    · obtain rfl := mem_singleton.mp hr
      exact Nat.le_refl _
  · rw [le_iff_toNat_le]
    dsimp only
    omega
  · exact fun _ => ⟨_, mem_append_right _ (mem_singleton_self _), rfl⟩

theorem mem_due {r : HvZilRecord} : r ∈ z.due txg ↔ r ∈ z.records ∧ r.txg ≤ txg := by
  simp [due]

theorem mem_kept {r : HvZilRecord} : r ∈ (z.commit txg).records ↔ r ∈ z.records ∧ ¬ r.txg ≤ txg := by
  simp [commit]

theorem commit_records_of_due_nil (hdue : z.due txg = []) : (z.commit txg).records = z.records := by
  apply filter_eq_self.mpr
  intro r hr
  have hnot := filter_eq_nil_iff.mp hdue r hr
  simpa using hnot

theorem Tidy.newest_pending (h : z.Tidy) (hne : z.records ≠ []) :
    0 < z.currentSeq ∧ ∃ r ∈ z.records, r.seq = z.currentSeq := by
  have hlt : z.committedSeq < z.currentSeq := by simpa [hasUncommitted] using h.exact.mpr hne
  exact ⟨UInt64.lt_of_le_of_lt UInt64.zero_le hlt, h.newest hlt⟩

theorem Tidy.due_below_iff (h : z.Tidy) (hne : z.records ≠ []) (txg : UInt64) :
    maxSeq (z.due txg) < z.currentSeq ↔ ∀ r ∈ z.due txg, r.seq ≠ z.currentSeq := by
  rw [maxSeq_lt_iff, and_iff_right (h.newest_pending hne).1]
  apply forall₂_congr
  intro r hr
  have hle := h.bound r (mem_due.mp hr).1
  exact ⟨fun hlt heq => UInt64.lt_irrefl _ (heq ▸ hlt), fun hneq => UInt64.lt_of_le_of_ne hle hneq⟩

theorem Tidy.commit_exact_iff (h : z.Tidy) (hdue : z.due txg ≠ []) : (z.commit txg).StatusExact ↔
      ((∃ r ∈ z.records, ¬ r.txg ≤ txg) → ∀ r ∈ z.due txg, r.seq ≠ z.currentSeq) := by
  obtain ⟨r₁, hr₁⟩ := exists_mem_of_ne_nil _ hdue
  have hne : z.records ≠ [] := ne_nil_of_mem (mem_due.mp hr₁).1
  have hkept : (z.commit txg).records ≠ [] ↔ ∃ r ∈ z.records, ¬ r.txg ≤ txg := by
    simp only [← mem_kept]
    exact ⟨exists_mem_of_ne_nil _, fun ⟨_, hr⟩ => ne_nil_of_mem hr⟩
  have hstatus : (z.commit txg).hasUncommitted = true ↔ ∀ r ∈ z.due txg, r.seq ≠ z.currentSeq := by
    rw [hasUncommitted, decide_eq_true_eq]
    exact h.due_below_iff hne txg
  rw [StatusExact, hstatus, hkept]
  constructor
  · exact fun hiff => hiff.mpr
  · intro hleave
    refine ⟨?_, hleave⟩
    intro hbelow
    obtain ⟨r₀, hr₀, hseq⟩ := (h.newest_pending hne).2
    exact ⟨r₀, hr₀, fun htxg => hbelow r₀ (mem_due.mpr ⟨hr₀, htxg⟩) hseq⟩

theorem Tidy.commit_iff (h : z.Tidy) (txg : UInt64) :
    (z.commit txg).StatusExact ∧ z.committedSeq ≤ (z.commit txg).committedSeq ↔ z.InTurn txg := by
  rw [InTurn]
  split_ifs with hdue
  · have hzero : (z.commit txg).committedSeq = 0 := by
      rw [HvZil.commit, hdue]
      rfl
    rw [hzero]
    constructor
    · exact fun hboth => UInt64.le_zero_iff.mp hboth.2
    · intro hcommitted
      refine ⟨?_, hcommitted ▸ UInt64.le_refl _⟩
      have hexact := h.exact
      rw [StatusExact, hasUncommitted, hcommitted] at hexact
      rw [StatusExact, hasUncommitted, hzero, commit_records_of_due_nil hdue]
      exact hexact
  · rw [h.commit_exact_iff hdue, and_comm]
    exact and_congr_left' (le_maxSeq_iff hdue _)

theorem Tidy.commit (h : z.Tidy) (hturn : z.InTurn txg) : (z.commit txg).Tidy := by
  have hexact := ((h.commit_iff txg).mpr hturn).1
  have hbelow : maxSeq (z.due txg) ≤ z.currentSeq := by
    by_contra hover
    have hlt := UInt64.not_le.mp hover
    have hself := (maxSeq_lt_iff (z.due txg) (maxSeq (z.due txg))).mpr
      ⟨UInt64.lt_of_le_of_lt UInt64.zero_le hlt,
        fun r hr => UInt64.lt_of_le_of_lt (h.bound r (mem_due.mp hr).1) hlt⟩
    exact UInt64.lt_irrefl _ hself
  refine ⟨hexact, fun r hr => h.bound r (mem_kept.mp hr).1, hbelow, ?_, h.enabled, h.idle⟩
  intro hlt
  have hkept : (z.commit txg).records ≠ [] := hexact.mp (decide_eq_true hlt)
  obtain ⟨r₁, hr₁⟩ := exists_mem_of_ne_nil _ hkept
  have hne : z.records ≠ [] := ne_nil_of_mem (mem_kept.mp hr₁).1
  obtain ⟨r₀, hr₀, hseq⟩ := (h.newest_pending hne).2
  have hstays := (h.due_below_iff hne txg).mp hlt
  exact ⟨r₀, mem_kept.mpr ⟨hr₀, fun htxg => hstays r₀ (mem_due.mpr ⟨hr₀, htxg⟩) hseq⟩, hseq⟩

theorem Tidy.step_iff (h : z.Tidy) (c : ZilCall) :
    (z.zilStep c).StatusExact ∧ (c ≠ .init → z.committedSeq ≤ (z.zilStep c).committedSeq) ↔ z.InOrder c := by
  cases c with
  | init =>
    have hexact := (tidy_init z h.idle).exact
    simp [zilStep, InOrder, hexact]
  | addRecord record =>
    have hsame : (z.addRecord record).committedSeq = z.committedSeq := by
      rw [HvZil.addRecord, if_pos h.enabled]
    rw [zilStep, InOrder, hsame, h.addRecord_exact_iff record]
    simp
  | commit txg =>
    rw [zilStep, InOrder, ← h.commit_iff txg]
    simp
  | sync txg =>
    rw [zilStep, InOrder, ← h.commit_iff txg, h.sync]
    simp

theorem Tidy.step (h : z.Tidy) {c : ZilCall} (horder : z.InOrder c) : (z.zilStep c).Tidy := by
  cases c with
  | init => exact tidy_init z h.idle
  | addRecord record => exact h.addRecord record horder
  | commit txg => exact h.commit horder
  | sync txg =>
    rw [zilStep, h.sync]
    exact h.commit horder

theorem StatusKept.exact {cs : List ZilCall} (h : StatusKept z cs) : z.StatusExact := by
  cases cs with
  | nil => exact h
  | cons c cs => exact h.1

/-- The status is exact all along a run just when its calls are in order. -/
theorem statusKept_iff (cs : List ZilCall) : StatusKept new cs ↔ Guarded zilStep InOrder new cs := by
  have hrun : ∀ z, Tidy z → (StatusKept z cs ↔ Guarded zilStep InOrder z cs) := by
    induction cs with
    | nil => exact fun z h => iff_of_true h.exact trivial
    | cons c cs ih =>
      intro z h
      rw [StatusKept, Guarded, ← h.step_iff c]
      constructor
      · rintro ⟨-, hkeeps, hrest⟩
        have hstep := And.intro hrest.exact hkeeps
        exact ⟨hstep, (ih _ (h.step ((h.step_iff c).mp hstep))).mp hrest⟩
      · rintro ⟨hstep, hrest⟩
        exact ⟨h.exact, hstep.2, (ih _ (h.step ((h.step_iff c).mp hstep))).mpr hrest⟩
  exact hrun new tidy_new

theorem empty_commit_resets : ¬ ∀ cs : List ZilCall, StatusKept new cs := by
  intro hall
  have hexact := (hall [.addRecord ⟨.write, 1, 0, 0, 0, 0, .zero 128, .zero, 0⟩, .commit 1, .commit 1]).2.2.2.2.2.2
  have hstatus : (((new.addRecord ⟨.write, 1, 0, 0, 0, 0, .zero 128, .zero, 0⟩).commit 1).commit 1).hasUncommitted =
      true := by
    decide +kernel
  exact hexact.mp hstatus (by decide +kernel)

end HvZil

end AntX.Hvfs
