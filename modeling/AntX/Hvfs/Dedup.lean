import AntX.Hvfs.Zil

/-! The index of shared blocks of services/fs/hvfs/dedup.rs: where the block of a content hash lies, and
how many references it has. -/

namespace AntX.Hvfs

open AntX.Lib Function Option

abbrev CasHash : Type := ByteArr 32

structure CasIndex where
  hashToDva : CasHash → Option (List HvBlockPointer)
  refCounts : CasHash → Option UInt64

namespace CasIndex

def new : CasIndex := ⟨fun _ => none, fun _ => none⟩

variable (c : CasIndex)

section

variable (hash : CasHash)

def insert (bp : HvBlockPointer) : CasIndex where
  hashToDva := update c.hashToDva hash (some ((c.hashToDva hash).getD [] ++ [bp]))
  refCounts := update c.refCounts hash (some ((c.refCounts hash).getD 0 + 1))

def refInc : UInt64 × CasIndex :=
  let count := (c.refCounts hash).getD 0 + 1
  (count, { c with refCounts := update c.refCounts hash (some count) })

def refDec : UInt64 × CasIndex :=
  match c.refCounts hash with
  | some count =>
    let count := if count = 0 then 0 else count - 1
    if count = 0 then
      (0, ⟨update c.hashToDva hash none, update c.refCounts hash none⟩)
    else (count, { c with refCounts := update c.refCounts hash (some count) })
  | none => (0, c)

def refCount : UInt64 := (c.refCounts hash).getD 0

def casAwareFree : Bool × CasIndex :=
  ((c.refDec hash).1 == 0, (c.refDec hash).2)

end

inductive CasCall where
  | insert (hash : CasHash) (bp : HvBlockPointer)
  | refInc (hash : CasHash)
  | refDec (hash : CasHash)
  | casAwareFree (hash : CasHash)

def casStep : CasCall → CasIndex
  | .insert hash bp => c.insert hash bp
  | .refInc hash => (c.refInc hash).2
  | .refDec hash => (c.refDec hash).2
  | .casAwareFree hash => (c.casAwareFree hash).2

def tally (held : CasHash → Nat) : CasCall → CasHash → Nat
  | .insert hash _ => update held hash (held hash + 1)
  | .refInc hash => update held hash (held hash + 1)
  | .refDec hash => update held hash (held hash - 1)
  | .casAwareFree hash => update held hash (held hash - 1)

/-- Only new hashes are inserted, and only known ones get more references. -/
def Admissible : CasCall → Prop
  | .insert hash _ => c.hashToDva hash = none
  | .refInc hash => c.hashToDva hash ≠ none
  | .refDec _ => True
  | .casAwareFree _ => True

instance (c : CasIndex) : (call : CasCall) → Decidable (c.Admissible call)
  | .insert _ _ => inferInstanceAs (Decidable (_ = _))
  | .refInc _ => inferInstanceAs (Decidable (_ ≠ _))
  | .refDec _ | .casAwareFree _ => isTrue trivial

def Agrees (held : CasHash → Nat) : Prop :=
  ∀ hash, ((c.hashToDva hash).isSome = true ↔ 0 < c.refCount hash) ∧ (c.refCount hash).toNat = held hash

def FreeExact (held : CasHash → Nat) : CasCall → Prop
  | .casAwareFree hash => (c.casAwareFree hash).1 = true ↔ held hash = 1
  | _ => True

def CountsKept : CasIndex → (CasHash → Nat) → List CasCall → Prop
  | c, held, [] => c.Agrees held
  | c, held, call :: calls => c.Agrees held ∧ c.FreeExact held call ∧
    CountsKept (c.casStep call) (tally held call) calls

/-- Only known blocks are freed, and no count is at its limit when a reference is added. -/
def Known : CasCall → Prop
  | .insert _ _ => True
  | .refInc hash => c.refCount hash ≠ 0xFFFFFFFFFFFFFFFF
  | .refDec _ => True
  | .casAwareFree hash => c.hashToDva hash ≠ none

instance (c : CasIndex) : (call : CasCall) → Decidable (c.Known call)
  | .insert _ _ | .refDec _ => isTrue trivial
  | .refInc _ | .casAwareFree _ => inferInstanceAs (Decidable (_ ≠ _))

/-- Both maps know the hashes with references, and only these. -/
structure Synced (c : CasIndex) (held : CasHash → Nat) : Prop where
  absent : ∀ hash, held hash = 0 → c.hashToDva hash = none ∧ c.refCounts hash = none
  present : ∀ hash, 0 < held hash → (c.hashToDva hash).isSome = true ∧
    ∃ count, c.refCounts hash = some count ∧ count.toNat = held hash

variable {c : CasIndex} {held : CasHash → Nat} {hash : CasHash}

theorem synced_new : new.Synced fun _ => 0 where
  absent _ _ := ⟨rfl, rfl⟩
  present _ h := absurd h (Nat.lt_irrefl 0)

section

variable (h : c.Synced held)

include h

theorem Synced.agrees : c.Agrees held := by
  intro hash
  rcases Nat.eq_zero_or_pos (held hash) with hzero | hpos
  · obtain ⟨hdva, hcount⟩ := h.absent hash hzero
    rw [refCount, hdva, hcount, hzero]
    simp
  · obtain ⟨hdva, count, hcount, heq⟩ := h.present hash hpos
    rw [refCount, hcount, getD_some, UInt64.lt_iff_toNat_lt, heq]
    exact ⟨iff_of_true hdva hpos, rfl⟩

theorem Synced.indexed_iff : c.hashToDva hash ≠ none ↔ 0 < held hash := by
  rw [← isSome_iff_ne_none]
  rcases Nat.eq_zero_or_pos (held hash) with hzero | hpos
  · rw [(h.absent hash hzero).1, hzero]
    simp
  · exact iff_of_true (h.present hash hpos).1 hpos

theorem Synced.update {c' : CasIndex} {n : Nat} (hdva : ∀ k, k ≠ hash → c'.hashToDva k = c.hashToDva k)
    (hcounts : ∀ k, k ≠ hash → c'.refCounts k = c.refCounts k)
    (habsent : n = 0 → c'.hashToDva hash = none ∧ c'.refCounts hash = none)
    (hpresent : 0 < n → (c'.hashToDva hash).isSome = true ∧ ∃ count, c'.refCounts hash = some
      count ∧ count.toNat = n) : c'.Synced (Function.update held hash n) := by
  constructor
  · intro k hk
    by_cases heq : k = hash
    · subst heq
      exact habsent (by simpa using hk)
    · rw [update_of_ne heq] at hk
      rw [hdva k heq, hcounts k heq]
      exact h.absent k hk
  · intro k hk
    by_cases heq : k = hash
    · subst heq
      rw [update_self] at hk ⊢
      exact hpresent hk
    · rw [update_of_ne heq] at hk ⊢
      rw [hdva k heq, hcounts k heq]
      exact h.present k hk

theorem Synced.insert (hnew : c.hashToDva hash = none) (bp : HvBlockPointer) :
    (c.insert hash bp).Synced (Function.update held hash (held hash + 1)) := by
  have hzero : held hash = 0 := by
    by_contra hne
    exact h.indexed_iff.mpr (Nat.pos_of_ne_zero hne) hnew
  apply h.update
  · exact fun k hk => update_of_ne hk _ _
  · exact fun k hk => update_of_ne hk _ _
  · exact fun habs => absurd habs (Nat.succ_ne_zero _)
  · intro _
    rw [CasIndex.insert]
    dsimp only
    rw [update_self, update_self, (h.absent hash hzero).2, hzero]
    exact ⟨rfl, 1, rfl, rfl⟩

theorem Synced.count (hpos : 0 < held hash) :
    ∃ count, c.refCounts hash = some count ∧ c.refCount hash = count ∧ count.toNat = held hash := by
  obtain ⟨-, count, hcount, heq⟩ := h.present hash hpos
  exact ⟨count, hcount, by rw [refCount, hcount, getD_some], heq⟩

theorem Synced.refInc (hknown : c.hashToDva hash ≠ none) (hroom : c.refCount hash ≠ 0xFFFFFFFFFFFFFFFF) :
    (c.refInc hash).2.Synced (Function.update held hash (held hash + 1)) := by
  have hpos := h.indexed_iff.mp hknown
  obtain ⟨count, hcount, hval, heq⟩ := h.count hpos
  apply h.update
  · exact fun _ _ => rfl
  · exact fun k hk => update_of_ne hk _ _
  · exact fun habs => absurd habs (Nat.succ_ne_zero _)
  · intro _
    refine ⟨(h.present hash hpos).1, count + 1, ?_, ?_⟩
    · rw [CasIndex.refInc]
      dsimp only
      rw [update_self, hcount, getD_some]
    · rw [HvZil.next_toNat (hval ▸ hroom), heq]

theorem Synced.refDec (hash : CasHash) :
    (c.refDec hash).2.Synced (Function.update held hash (held hash - 1)) ∧
      ((c.refDec hash).1 = 0 ↔ held hash ≤ 1) := by
  rcases Nat.eq_zero_or_pos (held hash) with hzero | hpos
  · have hsame : c.refDec hash = (0, c) := by rw [CasIndex.refDec, (h.absent hash hzero).2]
    have hheld : Function.update held hash (held hash - 1) = held := by
      rw [hzero]
      exact update_eq_self_iff.mpr hzero.symm
    rw [hsame, hheld, hzero]
    exact ⟨h, by simp⟩
  · obtain ⟨count, hcount, -, heq⟩ := h.count hpos
    have hne : count ≠ 0 := by
      rintro rfl
      rw [← heq] at hpos
      exact absurd hpos (Nat.lt_irrefl 0)
    have hless : (count - 1).toNat = held hash - 1 := by
      rw [UInt64.toNat_sub_of_le _ _ (by rw [UInt64.le_iff_toNat_le, heq]; exact hpos), heq]
      rfl
    have hzero : count - 1 = 0 ↔ held hash ≤ 1 := by
      rw [← UInt64.toNat_inj, hless]
      change held hash - 1 = 0 ↔ _
      omega
    rw [CasIndex.refDec, hcount]
    dsimp only
    rw [if_neg hne]
    split_ifs with hlast
    · refine ⟨?_, iff_of_true rfl (hzero.mp hlast)⟩
      apply h.update
      · exact fun k hk => update_of_ne hk _ _
      · exact fun k hk => update_of_ne hk _ _
      · exact fun _ => ⟨update_self _ _ _, update_self _ _ _⟩
      · have := hzero.mp hlast
        omega
    · refine ⟨?_, iff_of_false hlast (mt hzero.mpr hlast)⟩
      apply h.update
      · exact fun _ _ => rfl
      · exact fun k hk => update_of_ne hk _ _
      · intro hnone
        exact absurd (hzero.mpr (by omega)) hlast
      · exact fun _ => ⟨(h.present hash hpos).1, count - 1, update_self _ _ _, hless⟩

theorem Synced.step_iff {call : CasCall} (hcall : c.Admissible call) :
    (c.casStep call).Agrees (tally held call) ∧ c.FreeExact held call ↔ c.Known call := by
  cases call with
  | insert hash bp =>
    simp only [FreeExact, Known, and_true, iff_true]
    exact (h.insert hcall bp).agrees
  | refInc hash =>
    simp only [FreeExact, Known, and_true]
    constructor
    · intro hagrees hlimit
      -- the count wraps to zero while the hash stays in the other map
      have hboth := (hagrees hash).1
      have hzero : (c.refInc hash).2.refCount hash = 0 := by
        rw [refCount] at hlimit
        rw [CasIndex.refInc, hlimit, refCount]
        dsimp only
        rw [update_self]
        rfl
      rw [casStep, hzero] at hboth
      exact absurd (hboth.mp (isSome_iff_ne_none.mpr hcall)) (UInt64.lt_irrefl 0)
    · exact fun hroom => (h.refInc hcall hroom).agrees
  | refDec hash =>
    simp only [FreeExact, Known, and_true, iff_true]
    exact (h.refDec hash).1.agrees
  | casAwareFree hash =>
    obtain ⟨hsynced, hzero⟩ := h.refDec hash
    have hagrees : (c.casStep (.casAwareFree hash)).Agrees (tally held (.casAwareFree hash)) := hsynced.agrees
    rw [and_iff_right hagrees, FreeExact, Known, h.indexed_iff, CasIndex.casAwareFree, beq_iff_eq, hzero]
    omega

theorem Synced.step {call : CasCall} (hcall : c.Admissible call) (hknown : c.Known call) :
    (c.casStep call).Synced (tally held call) := by
  cases call with
  | insert hash bp => exact h.insert hcall bp
  | refInc hash => exact h.refInc hcall hknown
  | refDec hash | casAwareFree hash => exact (h.refDec hash).1

end

theorem CountsKept.agrees {calls : List CasCall} (h : CountsKept c held calls) : c.Agrees held := by
  cases calls with
  | nil => exact h
  | cons call calls => exact h.1

/-- The counts are exact all along admissible calls just when only known blocks are freed and no count
passes its limit. -/
theorem countsKept_iff (calls : List CasCall) (hcalls : Guarded casStep Admissible new calls) :
    CountsKept new (fun _ => 0) calls ↔ Guarded casStep Known new calls := by
  have hrun : ∀ c held, Synced c held → Guarded casStep Admissible c calls →
      (CountsKept c held calls ↔ Guarded casStep Known c calls) := by
    clear hcalls
    induction calls with
    | nil => exact fun c held h _ => iff_of_true h.agrees trivial
    | cons call calls ih =>
      intro c held h hadm
      have hstep := h.step_iff hadm.1
      rw [CountsKept, Guarded, ← hstep]
      constructor
      · rintro ⟨-, hfree, hrest⟩
        have hboth := And.intro hrest.agrees hfree
        exact ⟨hboth, (ih _ _ (h.step hadm.1 (hstep.mp hboth)) hadm.2).mp hrest⟩
      · rintro ⟨hboth, hrest⟩
        exact ⟨h.agrees, hboth.2, (ih _ _ (h.step hadm.1 (hstep.mp hboth)) hadm.2).mpr hrest⟩
  exact hrun new _ synced_new hcalls

def sharedBlock : List CasCall :=
  [.insert (.zero 32) .null, .refInc (.zero 32), .casAwareFree (.zero 32), .casAwareFree (.zero 32)]

theorem countsKept_shared : CountsKept new (fun _ => 0) sharedBlock :=
  (countsKept_iff sharedBlock (by decide +kernel)).mpr (by decide +kernel)

theorem unknown_hash_freed :
    ¬ ∀ calls, Guarded casStep Admissible new calls → CountsKept new (fun _ => 0) calls := by
  intro hall
  have hfree := (hall [.casAwareFree (.zero 32)] ⟨trivial, trivial⟩).2.1
  exact absurd (hfree.mp rfl) (by decide)

end CasIndex

end AntX.Hvfs
