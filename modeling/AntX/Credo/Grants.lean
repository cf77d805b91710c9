import AntX.Lib.Chase
import AntX.Lib.Run

/-! Delegation of capabilities: `services/credo/{policy,grants}.rs`. Revoking a record takes the
records below it along. The table is read as a map from generations to records. -/

namespace AntX.Credo

def capDomains : Nat := 16

abbrev CapBits := BitVec 64

def CapBits.contains (owned required : CapBits) : Bool := owned &&& required == required

def CapBits.diff (bits other : CapBits) : CapBits := bits &&& ~~~ other

/-- What the engine asks of a capability matrix. `exchange` is `compare_exchange` with the
value just read; it meets no rival, so that the loops of the source go round once. -/
class CapabilityMatrix (M : Type) where
  get : M → Nat → Option CapBits
  exchange : M → Nat → CapBits → M

def InMemoryMatrix : Type := Nat → CapBits

instance : CapabilityMatrix InMemoryMatrix where
  get m domain := if domain < capDomains then some (m domain) else none
  exchange m domain bits := if domain < capDomains then Function.update m domain bits else m

def fsDomain : Nat := 1
def procDomain : Nat := 3
def userMgmtDomain : Nat := 5

def viableFloor (domain : Nat) : CapBits :=
  if domain = fsDomain then 0b101
  else if domain = procDomain then 0b11
  else if domain = userMgmtDomain then 0b1
  else 0

inductive GrantResult where
  | granted
  | noAuthority
  | invalidDomain
  | empty
deriving DecidableEq, Repr

section Policy

variable {M : Type} [CapabilityMatrix M]

def policyGrant (source target : M) (domain : Nat) (bits : CapBits) : M × GrantResult :=
  if ¬ domain < capDomains then (target, .invalidDomain)
  else if bits = 0 then (target, .empty)
  else
    match CapabilityMatrix.get source domain with
    | none => (target, .noAuthority)
    | some owned =>
      if owned.contains bits then
        (CapabilityMatrix.exchange target domain
          ((CapabilityMatrix.get target domain).getD 0 ||| bits), .granted)
      else (target, .noAuthority)

inductive RevokeResult where
  | revoked
  | noChange
  | invalidDomain
  | floorProtected
deriving DecidableEq, Repr

def policyRevoke (m : M) (domain : Nat) (bits : CapBits) : M × RevokeResult :=
  if ¬ domain < capDomains then (m, .invalidDomain)
  else if bits = 0 then (m, .noChange)
  else
    let revocable := bits.diff (viableFloor domain)
    if revocable = 0 then (m, .floorProtected)
    else (CapabilityMatrix.exchange m domain
      (CapBits.diff ((CapabilityMatrix.get m domain).getD 0) revocable), .revoked)

end Policy

structure GrantRecord where
  fromPwm : Nat
  toPwm : Nat
  domain : Nat
  bits : CapBits
  createdTick : Nat
  expiresTick : Nat
  generation : Nat
  parentGen : Nat
  nonDelegatable : Bool
  revoked : Bool
deriving DecidableEq, Repr

def GrantRecord.empty : GrantRecord :=
  ⟨0, 0, 0, 0, 0, 0, 0, 0, false, false⟩

def grantTableCapacity : Nat := 256

/-- `next_gen` and `used` are 32-bit counters that wrap. -/
structure GrantTable where
  records : List GrantRecord
  nextGen : Nat
  used : Nat

def GrantTable.new : GrantTable :=
  { records := List.replicate grantTableCapacity GrantRecord.empty, nextGen := 1, used := 0 }

def occupy (record : GrantRecord) : List GrantRecord → Option (List GrantRecord)
  | [] => none
  | r :: rs =>
    if r.generation = 0 then some (record :: rs) else (occupy record rs).map (r :: ·)

def strike (gen : Nat) : List GrantRecord → List GrantRecord × Bool
  | [] => ([], false)
  | r :: rs =>
    if r.generation = gen then
      if r.revoked then (r :: rs, false)
      else ({ r with revoked := true, generation := 0 } :: rs, true)
    else (r :: (strike gen rs).1, (strike gen rs).2)

namespace GrantTable

variable (t : GrantTable)

def add (record : GrantRecord) : GrantTable × Option Nat :=
  if t.used ≥ grantTableCapacity then (t, none)
  else
    let gen := t.nextGen
    let t := { t with nextGen := (t.nextGen + 1) % 2 ^ 32 }
    match occupy { record with generation := gen } t.records with
    | some records => ({ t with records := records, used := (t.used + 1) % 2 ^ 32 }, some gen)
    | none => (t, none)

def get (gen : Nat) : Option GrantRecord :=
  if gen = 0 then none else t.records.find? (·.generation == gen)

/-- The generations below `parent`. The recursion of the source goes down the chains of the
table; `fuel` bounds their length. -/
def collectDescendants (t : GrantTable) : Nat → Nat → List Nat
  | 0, _ => []
  | fuel + 1, parent =>
    t.records.flatMap fun r =>
      if r.generation ≠ 0 ∧ r.parentGen = parent then
        r.generation :: t.collectDescendants fuel r.generation
      else []

def strikeOne (gen : Nat) : GrantTable :=
  { t with
    records := (strike gen t.records).1
    used := if (strike gen t.records).2 then (t.used + (2 ^ 32 - 1)) % 2 ^ 32 else t.used }

/-- The record and all those below it. Generations are 32-bit numbers that grow along the
chains until `next_gen` has wrapped, so that the recursion goes no deeper. -/
def victims (gen : Nat) : List Nat :=
  gen :: t.collectDescendants (2 ^ 32) gen

def markRevoked (gen : Nat) : GrantTable :=
  (t.victims gen).foldl strikeOne t

def isValid (gen currentTick : Nat) : Bool :=
  match t.get gen with
  | some r => !r.revoked && !(r.expiresTick != 0 && decide (currentTick ≥ r.expiresTick))
  | none => false

end GrantTable

/-- No function answers `nonDelegatable`. -/
inductive DelegationDeny where
  | nonDelegatable
  | tableFull
  | invalidExpiry
  | samePwm
  | policy (result : GrantResult)
deriving DecidableEq, Repr

inductive DelegationResult where
  | granted (gen : Nat)
  | denied (reason : DelegationDeny)
deriving DecidableEq, Repr

structure Delegation where
  fromPwm : Nat
  toPwm : Nat
  domain : Nat
  bits : CapBits
  currentTick : Nat
  expiresTick : Nat
  parentGen : Nat
  nonDelegatable : Bool
deriving DecidableEq, Repr

def Delegation.record (d : Delegation) : GrantRecord :=
  { fromPwm := d.fromPwm, toPwm := d.toPwm, domain := d.domain, bits := d.bits
    createdTick := d.currentTick, expiresTick := d.expiresTick, generation := 0
    parentGen := d.parentGen, nonDelegatable := d.nonDelegatable, revoked := false }

section Engine

variable {M : Type} [CapabilityMatrix M]

def delegate (t : GrantTable) (source target : M) (d : Delegation) : GrantTable × M × DelegationResult :=
  if d.fromPwm = d.toPwm then (t, target, .denied .samePwm)
  else if d.expiresTick ≠ 0 ∧ d.expiresTick ≤ d.currentTick then
    (t, target, .denied .invalidExpiry)
  else if d.parentGen ≠ 0 ∧ t.isValid d.parentGen d.currentTick = false then
    (t, target, .denied .invalidExpiry)
  else
    match policyGrant source target d.domain d.bits with
    | (target, .granted) =>
      -- the receiver has the bits even if the table is full
      match t.add d.record with
      | (t, some gen) => (t, target, .granted gen)
      | (t, none) => (t, target, .denied .tableFull)
    | (target, other) => (t, target, .denied (.policy other))

def revoke (t : GrantTable) (m : M) (gen : Nat) : GrantTable × M × Bool :=
  match t.get gen with
  | none => (t, m, false)
  | some rec =>
    if rec.revoked then (t, m, false)
    else (t.markRevoked gen, (policyRevoke m rec.domain rec.bits).1, true)

end Engine

open AntX.Lib Function List GrantRecord GrantTable
open Option hiding map_map

def lookup (rs : List GrantRecord) (gen : Nat) : Option GrantRecord :=
  if gen = 0 then none else rs.find? (·.generation == gen)

variable {r : GrantRecord} {rs rs' : List GrantRecord} {gen fuel tick : Nat}

theorem lookup_cons (hg : gen ≠ 0) :
    lookup (r :: rs) gen = if r.generation = gen then some r else lookup rs gen := by
  by_cases h : r.generation = gen <;> simp [lookup, hg, h]

theorem lookup_none (h : lookup rs gen = none) (hg : gen ≠ 0) (hm : r ∈ rs) : r.generation ≠ gen := by
  simp only [lookup, if_neg hg, find?_eq_none] at h
  simpa using h r hm

theorem lookup_append (xs ys : List GrantRecord) :
    lookup (xs ++ ys) gen = (lookup xs gen).or (lookup ys gen) := by
  by_cases hg : gen = 0 <;> simp [lookup, hg]

theorem lookup_some (h : lookup rs gen = some r) : gen ≠ 0 ∧ r ∈ rs ∧ r.generation = gen := by
  unfold lookup at h
  split_ifs at h with hg
  have hfound := find?_some h
  exact ⟨hg, mem_of_find?_eq_some h, by simpa using hfound⟩

/-- No two records in use have one generation, and none of them is marked revoked. -/
structure Live (rs : List GrantRecord) : Prop where
  unrevoked : ∀ r ∈ rs, r.generation ≠ 0 → r.revoked = false
  distinct : rs.Pairwise fun r r' => r.generation = r'.generation → r.generation = 0

theorem lookup_zero (rs : List GrantRecord) : lookup rs 0 = none := if_pos rfl

theorem Live.tail (h : Live (r :: rs)) : Live rs :=
  ⟨fun r' hm => h.unrevoked r' (mem_cons_of_mem r hm), h.distinct.of_cons⟩

theorem Live.apart (h : Live (r :: rs)) (hr : r.generation ≠ 0) {r' : GrantRecord} (hm : r' ∈ rs) :
    r.generation ≠ r'.generation :=
  fun heq => hr (rel_of_pairwise_cons h.distinct hm heq)

theorem Live.lookup_mem (h : Live rs) (hm : r ∈ rs) (hr : r.generation ≠ 0) :
    lookup rs r.generation = some r := by
  induction rs with
  | nil => cases hm
  | cons r' rs ih =>
    rw [lookup_cons hr]
    rcases mem_cons.mp hm with rfl | hm
    · exact if_pos rfl
    · have hne : r'.generation ≠ r.generation := fun heq => h.apart (heq ▸ hr) hm heq
      rw [if_neg hne, ih h.tail hm]

def inUse (rs : List GrantRecord) : Nat := rs.countP (·.generation != 0)

/-- The first free record is the one that is replaced. -/
theorem occupy_eq_some {record : GrantRecord} (h : occupy record rs = some rs') :
    ∃ xs r ys, r.generation = 0 ∧ rs = xs ++ r :: ys ∧ rs' = xs ++ record :: ys := by
  induction rs generalizing rs' with
  | nil => cases h
  | cons r rs ih =>
    rw [occupy] at h
    split_ifs at h with hr
    · exact ⟨[], r, rs, hr, rfl, (some.inj h).symm⟩
    · obtain ⟨rs'', ho, rfl⟩ := map_eq_some_iff.mp h
      obtain ⟨xs, r', ys, hr', rfl, rfl⟩ := ih ho
      exact ⟨r :: xs, r', ys, hr', rfl, rfl⟩

section Occupy

variable {record : GrantRecord} (ho : occupy record rs = some rs') (hg : record.generation ≠ 0)
include ho hg

theorem lookup_occupy (hfresh : lookup rs record.generation = none) :
    lookup rs' = update (lookup rs) record.generation (some record) := by
  obtain ⟨xs, r, ys, hr, rfl, rfl⟩ := occupy_eq_some ho
  rw [lookup_append, or_eq_none_iff] at hfresh
  funext gen
  by_cases heq : gen = record.generation
  · rw [heq, update_self, lookup_append, hfresh.1, lookup_cons hg, if_pos rfl, none_or]
  rw [update_of_ne heq]
  by_cases hgen : gen = 0
  · rw [hgen, lookup_zero, lookup_zero]
  · rw [lookup_append, lookup_append, lookup_cons hgen, lookup_cons hgen, if_neg (Ne.symm heq),
      if_neg (hr ▸ Ne.symm hgen)]

theorem Live.occupy (h : Live rs) (hfresh : lookup rs record.generation = none)
    (hr : record.revoked = false) : Live rs' := by
  have hnone := fun r => lookup_none (r := r) hfresh hg
  obtain ⟨xs, r, ys, -, rfl, rfl⟩ := occupy_eq_some ho
  have hlive := h.unrevoked
  have hdistinct := h.distinct
  constructor
  · grind
  · simp only [pairwise_append, pairwise_cons, mem_append, mem_cons] at *
    grind

theorem inUse_occupy : inUse rs' = inUse rs + 1 ∧ rs'.length = rs.length := by
  obtain ⟨xs, r, ys, hr, rfl, rfl⟩ := occupy_eq_some ho
  simp [inUse, hr, hg]
  omega

end Occupy

def GrantRecord.cleared (r : GrantRecord) : GrantRecord :=
  { r with revoked := true, generation := 0 }

def clearIn (gens : List Nat) (r : GrantRecord) : GrantRecord :=
  if r.generation ∈ gens then r.cleared else r

theorem lookup_clearIn (gens : List Nat) :
    lookup (rs.map (clearIn gens)) = fun g => if g ∈ gens then none else lookup rs g := by
  funext g
  by_cases hg : g = 0
  · simp only [hg, lookup_zero, ite_self]
  induction rs with
  | nil => simp [lookup]
  | cons r rs ih =>
    rw [map_cons, lookup_cons hg, ih, lookup_cons hg, clearIn]
    by_cases hr : r.generation ∈ gens
    · rw [if_pos hr, if_neg (show r.cleared.generation ≠ g from Ne.symm hg)]
      by_cases heq : r.generation = g
      · rw [if_pos (heq ▸ hr), if_pos (heq ▸ hr)]
      · rw [if_neg heq]
    · rw [if_neg hr]
      by_cases heq : r.generation = g
      · rw [if_pos heq, if_neg (heq ▸ hr), if_pos heq]
      · rw [if_neg heq, if_neg heq]

theorem Live.clearIn (h : Live rs) (gens : List Nat) : Live (rs.map (Credo.clearIn gens)) := by
  have hkept : ∀ r, (Credo.clearIn gens r).generation ≠ 0 → Credo.clearIn gens r = r := by
    intro r hr
    rw [Credo.clearIn] at hr ⊢
    split_ifs at hr ⊢ with hm
    · exact absurd rfl hr
    · rfl
  refine ⟨fun r' hm hr => ?_, pairwise_map.mpr (h.distinct.imp fun {a b} hab heq => ?_)⟩
  · obtain ⟨r, hrs, rfl⟩ := mem_map.mp hm
    rw [hkept r hr] at *
    exact h.unrevoked r hrs hr
  · by_contra hused
    have ha := hkept a hused
    have hb := hkept b (heq ▸ hused)
    rw [ha] at hused
    exact hused (hab (by rw [← ha, heq, hb]))

theorem strike_eq_map (h : Live rs) (hg : gen ≠ 0) : (strike gen rs).1 = rs.map (clearIn [gen]) := by
  induction rs with
  | nil => rfl
  | cons r rs ih =>
    rw [strike, map_cons, clearIn]
    by_cases hr : r.generation = gen
    · have hlive := h.unrevoked r mem_cons_self (hr ▸ hg)
      have hrest : rs.map (clearIn [gen]) = rs := by
        refine (map_congr_left fun r' hm => if_neg fun heq => ?_).trans (map_id rs)
        exact h.apart (hr ▸ hg) hm (hr.trans (mem_singleton.mp heq).symm)
      rw [if_pos hr, if_neg (by simp [hlive]), if_pos (by simp [hr]), hrest]
      rfl
    · rw [if_neg hr, if_neg (by simpa using hr), ih h.tail]

theorem inUse_strike (hg : gen ≠ 0) : inUse (strike gen rs).1 + (strike gen rs).2.toNat = inUse rs := by
  induction rs with
  | nil => rfl
  | cons r rs ih =>
    rw [strike]
    by_cases hr : r.generation = gen
    · cases hv : r.revoked with
      | true => simp [hr]
      | false => simp [hr, hg, inUse]
    · rw [if_neg hr]
      simp only [inUse, countP_cons] at ih ⊢
      omega

theorem inUse_of_full {record : GrantRecord} (ho : occupy record rs = none) : inUse rs = rs.length := by
  induction rs with
  | nil => rfl
  | cons r rs ih =>
    rw [occupy] at ho
    split_ifs at ho with hr
    simpa [inUse, hr] using ih (map_eq_none_iff.mp ho)

/-- A grant gives no more than its parent: to whom the parent was given, in its domain, among
its bits, for no longer. -/
def GrantRecord.Attenuates (parent child : GrantRecord) : Prop :=
  parent.nonDelegatable = false ∧ parent.toPwm = child.fromPwm ∧ parent.domain = child.domain ∧
    parent.bits.contains child.bits = true ∧
    (parent.expiresTick = 0 ∨ child.expiresTick ≠ 0 ∧ child.expiresTick ≤ parent.expiresTick)

instance (parent child : GrantRecord) : Decidable (parent.Attenuates child) :=
  inferInstanceAs (Decidable (_ ∧ _))

def GrantRecord.parent (r : GrantRecord) : Option Nat :=
  if r.parentGen = 0 then none else some r.parentGen

theorem GrantRecord.parent_eq_some : r.parent = some gen ↔ r.parentGen = gen ∧ gen ≠ 0 := by
  unfold parent
  split_ifs with h
  · simp only [false_iff, not_and, not_not]
    intro heq
    rw [← heq, h]
  · rw [some.injEq]
    exact ⟨fun heq => ⟨heq, heq ▸ h⟩, And.left⟩

namespace GrantTable

/-- A table with `n` grants behind it, in which `ok` relates every grant to its parent. -/
structure Grown (ok : GrantRecord → GrantRecord → Prop) (n : Nat) (t : GrantTable) : Prop where
  live : Live t.records
  length : t.records.length = grantTableCapacity
  used : t.used = inUse t.records
  next : t.nextGen = (n + 1) % 2 ^ 32
  bound : n < 2 ^ 32
  below : ∀ gen r, t.get gen = some r → r.parentGen < gen ∧ gen ≤ n
  linked : Linked GrantRecord.parent ok t.get

variable {t : GrantTable} {parent n : Nat} {ok : GrantRecord → GrantRecord → Prop}

theorem Grown.child_below (h : t.Grown ok n) (hm : r ∈ t.records) (hr : r.generation ≠ 0) :
    r.parentGen < r.generation ∧ r.generation ≤ n :=
  h.below r.generation r (h.live.lookup_mem hm hr)

theorem Grown.used_le (h : t.Grown ok n) : t.used ≤ grantTableCapacity := by
  rw [h.used, ← h.length]
  exact countP_le_length

theorem mem_collectDescendants : gen ∈ t.collectDescendants (fuel + 1) parent ↔
      ∃ r ∈ t.records, r.generation ≠ 0 ∧ r.parentGen = parent ∧
        (gen = r.generation ∨ gen ∈ t.collectDescendants fuel r.generation) := by
  simp only [collectDescendants, mem_flatMap]
  constructor
  · rintro ⟨r, hm, hgen⟩
    split_ifs at hgen with hr
    · exact ⟨r, hm, hr.1, hr.2, mem_cons.mp hgen⟩
    · cases hgen
  · rintro ⟨r, hm, hr, hp, hgen⟩
    exact ⟨r, hm, by rw [if_pos ⟨hr, hp⟩]; exact mem_cons.mpr hgen⟩

theorem Grown.collectDescendants_closed (h : t.Grown ok n) (hfuel : n ≤ parent + fuel)
    (hm : r ∈ t.records) (hr : r.generation ≠ 0)
    (hp : r.parentGen = parent ∨ r.parentGen ∈ t.collectDescendants fuel parent) :
    r.generation ∈ t.collectDescendants fuel parent := by
  induction fuel generalizing parent with
  | zero =>
    rcases hp with hp | hp
    · have hlt := h.child_below hm hr
      omega
    · cases hp
  | succ fuel ih =>
    apply mem_collectDescendants.mpr
    rcases hp with hp | hp
    · exact ⟨r, hm, hr, hp, .inl rfl⟩
    · obtain ⟨r', hm', hused, hparent, hbelow⟩ := mem_collectDescendants.mp hp
      have hlt := h.child_below hm' hused
      exact ⟨r', hm', hused, hparent, .inr (ih (by omega) hbelow)⟩

/-- The recursion stops by itself at the depth the generations allow. -/
theorem Grown.collectDescendants_succ (h : t.Grown ok n) (hfuel : n ≤ parent + fuel) :
    t.collectDescendants (fuel + 1) parent = t.collectDescendants fuel parent := by
  induction fuel generalizing parent with
  | zero =>
    refine flatMap_eq_nil_iff.mpr fun r hm => if_neg fun hr => ?_
    have hlt := h.child_below hm hr.1
    omega
  | succ fuel ih =>
    refine congrArg flatten (map_congr_left fun r hm => ?_)
    split_ifs with hr
    · have hlt := h.child_below hm hr.1
      rw [ih (by omega)]
    · rfl

theorem Grown.occupy (h : t.Grown ok n) (hn : n + 1 < 2 ^ 32) {record : GrantRecord}
    (ho : Credo.occupy { record with generation := n + 1 } t.records = some rs)
    (hr : record.revoked = false)
    (hlink : ∀ pk, record.parent = some pk →
      ∃ p, t.get pk = some p ∧ ok p { record with generation := n + 1 }) :
    Grown ok (n + 1) ⟨rs, (t.nextGen + 1) % 2 ^ 32, (t.used + 1) % 2 ^ 32⟩ := by
  have hfresh : t.get (n + 1) = none := by
    cases hget : t.get (n + 1) with
    | none => rfl
    | some r => exact absurd (h.below _ r hget).2 (Nat.not_succ_le_self n)
  have hget : lookup rs = update t.get (n + 1) (some { record with generation := n + 1 }) :=
    lookup_occupy ho (Nat.succ_ne_zero n) hfresh
  obtain ⟨hused, hlen⟩ := inUse_occupy ho (Nat.succ_ne_zero n)
  have hle := h.used_le
  refine ⟨h.live.occupy ho (Nat.succ_ne_zero n) hfresh hr, hlen.trans h.length, ?_, ?_, hn, ?_, ?_⟩
  · rw [hused, ← h.used]
    exact Nat.mod_eq_of_lt (by simp only [grantTableCapacity] at hle; omega)
  · rw [h.next, Nat.mod_eq_of_lt hn]
  · intro gen r hr'
    change lookup rs gen = some r at hr'
    rw [hget] at hr'
    by_cases heq : gen = n + 1
    · subst heq
      rw [update_self] at hr'
      obtain rfl := some.inj hr'
      refine ⟨?_, Nat.le_refl _⟩
      by_cases hp : record.parentGen = 0
      · exact hp ▸ Nat.succ_pos n
      · obtain ⟨p, hp, -⟩ := hlink _ (parent_eq_some.mpr ⟨rfl, hp⟩)
        exact Nat.lt_succ_of_le (h.below _ p hp).2
    · rw [update_of_ne heq] at hr'
      have hlt := h.below gen r hr'
      omega
  · change Linked _ _ (lookup rs)
    rw [hget]
    exact h.linked.insert hfresh hlink

theorem Grown.add_cases (h : t.Grown ok n) (record : GrantRecord) : t.add record = (t, none) ∨
      ∃ rs, Credo.occupy { record with generation := t.nextGen } t.records = some rs ∧
        t.add record = (⟨rs, (t.nextGen + 1) % 2 ^ 32, (t.used + 1) % 2 ^ 32⟩, some t.nextGen) := by
  unfold GrantTable.add
  split_ifs with hfull
  · exact .inl rfl
  cases ho : Credo.occupy { record with generation := t.nextGen } t.records with
  | none =>
    -- the scan finds a slot as long as `used` counts the records
    have hused := inUse_of_full ho
    rw [← h.used, h.length] at hused
    exact absurd (Nat.le_of_eq hused.symm) hfull
  | some rs => exact .inr ⟨rs, rfl, by simp only [ho]⟩

theorem strike_all (h : Live t.records) (hu : t.used = inUse t.records)
    (hlen : t.records.length < 2 ^ 32) {gens : List Nat} (hg : ∀ gen ∈ gens, gen ≠ 0) :
    (gens.foldl strikeOne t).records = t.records.map (clearIn gens) ∧
    (gens.foldl strikeOne t).nextGen = t.nextGen ∧
    (gens.foldl strikeOne t).used = inUse (gens.foldl strikeOne t).records := by
  induction gens generalizing t with
  | nil => exact ⟨(map_id _).symm, rfl, hu⟩
  | cons gen gens ih =>
    have hpos := hg gen (by simp)
    have hrecords : (t.strikeOne gen).records = t.records.map (clearIn [gen]) :=
      strike_eq_map h hpos
    have hused : (t.strikeOne gen).used = inUse (t.strikeOne gen).records := by
      have hcount := @inUse_strike t.records gen hpos
      have hle : inUse t.records ≤ t.records.length := countP_le_length
      simp only [strikeOne, hu]
      cases hs : (strike gen t.records).2 with
      | true =>
        rw [hs, Bool.toNat_true] at hcount
        rw [if_pos rfl]
        omega
      | false =>
        rw [hs, Bool.toNat_false] at hcount
        exact hcount.symm
    obtain ⟨hall, hnext, hcount⟩ := ih (t := t.strikeOne gen) (hrecords ▸ h.clearIn [gen]) hused
      (by rw [hrecords, length_map]; exact hlen) (fun g hm => hg g (by simp [hm]))
    refine ⟨?_, hnext, hcount⟩
    rw [foldl_cons, hall, hrecords, map_map]
    refine map_congr_left fun r _ => ?_
    have hzero : 0 ∉ gens := fun hm => hg 0 (by simp [hm]) rfl
    by_cases hr : r.generation = gen
    · simp [clearIn, cleared, hr, hzero]
    · simp [clearIn, hr]

def IsChild (t : GrantTable) (gen parent : Nat) : Prop :=
  ∃ r ∈ t.records, r.generation ≠ 0 ∧ r.generation = gen ∧ r.parentGen = parent

abbrev LeadsTo (t : GrantTable) : Nat → Nat → Prop := Relation.ReflTransGen t.IsChild

theorem transGen_of_mem (h : gen ∈ t.collectDescendants fuel parent) :
    Relation.TransGen t.IsChild gen parent := by
  induction fuel generalizing parent with
  | zero => cases h
  | succ fuel ih =>
    obtain ⟨r, hm, hr, hp, rfl | hgen⟩ := mem_collectDescendants.mp h
    · exact .single ⟨r, hm, hr, rfl, hp⟩
    · exact (ih hgen).tail ⟨r, hm, hr, rfl, hp⟩

theorem Grown.child_mem_victims (h : t.Grown ok n) (hm : r ∈ t.records) (hr : r.generation ≠ 0)
    (hp : r.parentGen ∈ t.victims gen) : r.generation ∈ t.victims gen :=
  mem_cons_of_mem _ (h.collectDescendants_closed (by have := h.bound; omega) hm hr (mem_cons.mp hp))

theorem Grown.mem_victims (h : t.Grown ok n) {g : Nat} : g ∈ t.victims gen ↔ t.LeadsTo g gen := by
  constructor
  · intro hm
    rcases mem_cons.mp hm with rfl | hm
    · exact .refl
    · exact (transGen_of_mem hm).to_reflTransGen
  · intro hlead
    induction hlead using Relation.ReflTransGen.head_induction_on with
    | refl => exact mem_cons_self
    | head hchild _ ih =>
      obtain ⟨r, hm, hr, rfl, rfl⟩ := hchild
      exact h.child_mem_victims hm hr ih

theorem victims_pos (hg : gen ≠ 0) : ∀ g ∈ t.victims gen, g ≠ 0 := by
  intro g hm
  rcases mem_cons.mp hm with rfl | hm
  · exact hg
  · obtain ⟨_, ⟨_, _, hr, rfl, _⟩, _⟩ := Relation.TransGen.head'_iff.mp (transGen_of_mem hm)
    exact hr

theorem Grown.markRevoked (h : t.Grown ok n) (hg : gen ≠ 0) : (t.markRevoked gen).Grown ok n ∧
    (t.markRevoked gen).records = t.records.map (clearIn (t.victims gen)) := by
  have hlen : t.records.length < 2 ^ 32 := by
    rw [h.length]
    decide
  obtain ⟨hrecords, hnext, hused⟩ := strike_all h.live h.used hlen (victims_pos hg)
  have hget : (t.markRevoked gen).get = fun g => if g ∈ t.victims gen then none else t.get g :=
    (congrArg lookup hrecords).trans (lookup_clearIn _)
  refine ⟨⟨hrecords ▸ h.live.clearIn _, ?_, hused, hnext.trans h.next, h.bound, ?_, ?_⟩, hrecords⟩
  · exact (congrArg List.length hrecords).trans ((length_map _).trans h.length)
  · intro g r hr
    rw [hget] at hr
    beta_reduce at hr
    split_ifs at hr with hgone
    exact h.below g r hr
  · rw [hget]
    apply h.linked.cut
    -- a child of a victim is a victim
    intro g child pk hc hpk hgone
    obtain ⟨hp, -⟩ := parent_eq_some.mp hpk
    obtain ⟨hpos, hm, rfl⟩ := lookup_some hc
    exact h.child_mem_victims hm hpos (hp ▸ hgone)

theorem get_of_isValid (h : t.isValid gen tick = true) : ∃ r, t.get gen = some r := by
  cases hget : t.get gen with
  | none => simp [isValid, hget] at h
  | some r => exact ⟨r, rfl⟩

theorem isValid_iff (h : t.get gen = some r) : t.isValid gen tick = true ↔
      r.revoked = false ∧ (r.expiresTick = 0 ∨ tick < r.expiresTick) := by
  simp only [isValid, h]
  by_cases he : r.expiresTick = 0 <;> simp [he]

end GrantTable

inductive GrantOp (M : Type) where
  | delegate (source target : M) (d : Delegation)
  | revoke (matrix : M) (gen : Nat)

variable {M : Type} [CapabilityMatrix M]

def grantStep (t : GrantTable) : GrantOp M → GrantTable
  | .delegate source target d => (delegate t source target d).1
  | .revoke matrix gen => (revoke t matrix gen).1

def GrantOp.grants (t : GrantTable) : GrantOp M → Nat
  | .delegate source target d =>
    match (Credo.delegate t source target d).2.2 with
    | .granted _ => 1
    | .denied _ => 0
  | .revoke _ _ => 0

def grantsMade (t : GrantTable) : List (GrantOp M) → Nat
  | [] => 0
  | op :: ops => op.grants t + grantsMade (grantStep t op) ops

/-- A delegation names a parent that it attenuates, and `next_gen` does not wrap. -/
def GrantOp.Attenuating (t : GrantTable) : GrantOp M → Prop
  | .delegate _ _ d =>
    t.nextGen + 1 < 2 ^ 32 ∧ ∀ parent, t.get d.parentGen = some parent → parent.Attenuates d.record
  | .revoke _ _ => True

/-- Every valid grant with a parent has a valid one that it attenuates. -/
def GrantTable.Attenuated (t : GrantTable) : Prop :=
  ∀ tick gen child, t.get gen = some child → t.isValid gen tick = true → child.parentGen ≠ 0 →
    ∃ parent, t.get child.parentGen = some parent ∧
      t.isValid child.parentGen tick = true ∧ parent.Attenuates child

variable {t : GrantTable} {n : Nat} {ok : GrantRecord → GrantRecord → Prop}

theorem delegate_cases (t : GrantTable) (source target : M) (d : Delegation) :
    ((delegate t source target d).1 = t ∧ (GrantOp.delegate source target d).grants t = 0) ∨
    (d.parentGen = 0 ∨ t.isValid d.parentGen d.currentTick = true) ∧
      (delegate t source target d).1 = (t.add d.record).1 ∧
      (GrantOp.delegate source target d).grants t = (t.add d.record).2.isSome.toNat := by
  unfold GrantOp.grants delegate
  by_cases hsame : d.fromPwm = d.toPwm
  · simp [hsame]
  by_cases hexp : d.expiresTick ≠ 0 ∧ d.expiresTick ≤ d.currentTick
  · simp [hsame, hexp]
  by_cases hparent : d.parentGen ≠ 0 ∧ t.isValid d.parentGen d.currentTick = false
  · simp [hsame, hexp, hparent]
  simp only [if_neg hsame, if_neg hexp, if_neg hparent]
  have hvalid : d.parentGen = 0 ∨ t.isValid d.parentGen d.currentTick = true := by
    by_cases hp : d.parentGen = 0
    · exact .inl hp
    · exact .inr (by simpa [hp] using hparent)
  rcases policyGrant source target d.domain d.bits with ⟨target', result⟩
  cases result with
  | granted =>
    right
    rcases hadd : t.add d.record with ⟨t', gen⟩
    cases gen with
    | none | some gen => exact ⟨hvalid, rfl, rfl⟩
  | noAuthority | invalidDomain | empty => exact .inl ⟨rfl, rfl⟩

theorem revoke_cases (t : GrantTable) (matrix : M) (gen : Nat) :
    (revoke t matrix gen).1 = t ∨ gen ≠ 0 ∧ (revoke t matrix gen).1 = t.markRevoked gen := by
  unfold revoke
  cases hget : t.get gen with
  | none => exact .inl rfl
  | some r =>
    cases hr : r.revoked with
    | true => simp [hr]
    | false => exact .inr ⟨(lookup_some hget).1, by simp [hr]⟩

theorem GrantTable.Grown.step (h : t.Grown ok n) (op : GrantOp M) (hn : n + op.grants t < 2 ^ 32)
    (hok : ∀ source target d, op = .delegate source target d →
      ∀ p, t.get d.parentGen = some p → ∀ gen, ok p { d.record with generation := gen }) :
    (grantStep t op).Grown ok (n + op.grants t) := by
  cases op with
  | delegate source target d =>
    rcases delegate_cases t source target d with ⟨he, hz⟩ | ⟨hvalid, he, hz⟩
    · rw [grantStep, he, hz]
      exact h
    rw [grantStep, he, hz]
    rw [hz] at hn
    rcases h.add_cases d.record with hadd | ⟨rs, ho, hadd⟩
    · rw [hadd]
      exact h
    · rw [hadd] at hn ⊢
      have hn : n + 1 < 2 ^ 32 := hn
      rw [h.next, Nat.mod_eq_of_lt hn] at ho
      refine h.occupy hn ho rfl fun pk hpk => ?_
      obtain ⟨rfl, hpos⟩ := parent_eq_some.mp hpk
      obtain ⟨p, hget⟩ := get_of_isValid (hvalid.resolve_left hpos)
      exact ⟨p, hget, hok source target d rfl p hget _⟩
  | revoke matrix gen =>
    rcases revoke_cases t matrix gen with he | ⟨hg, he⟩
    · rw [grantStep, he]
      exact h
    · rw [grantStep, he]
      exact (h.markRevoked hg).1

theorem GrantTable.attenuating_step {op : GrantOp M}
    (h : ∃ n, n + 1 < 2 ^ 32 ∧ t.Grown Attenuates n) (hop : op.Attenuating t) :
    ∃ n, n + 1 < 2 ^ 32 ∧ (grantStep t op).Grown Attenuates n := by
  obtain ⟨n, hn, ht⟩ := h
  have hnext : t.nextGen = n + 1 := ht.next.trans (Nat.mod_eq_of_lt hn)
  have hroom : n + op.grants t + 1 < 2 ^ 32 := by
    cases op with
    | delegate source target d =>
      have hroom := hop.1
      simp only [GrantOp.grants]
      split <;> omega
    | revoke matrix gen => exact hn
  refine ⟨n + op.grants t, hroom, ht.step op (by omega) ?_⟩
  rintro source target d rfl p hget gen
  exact hop.2 p hget

theorem lookup_replicate_empty (n : Nat) : lookup (List.replicate n GrantRecord.empty) = fun _ => none := by
  funext gen
  unfold lookup
  split_ifs with hg
  · rfl
  · rw [find?_eq_none]
    intro r hm
    rw [eq_of_mem_replicate hm]
    simpa [GrantRecord.empty] using Ne.symm hg

theorem live_replicate_empty (n : Nat) : Live (List.replicate n GrantRecord.empty) :=
  ⟨fun _ hm hr => absurd (eq_of_mem_replicate hm ▸ rfl) hr, pairwise_replicate.mpr (.inr fun _ => rfl)⟩

theorem GrantTable.new_grown (ok : GrantRecord → GrantRecord → Prop) : new.Grown ok 0 := by
  have hget : GrantTable.new.get = fun _ => none := lookup_replicate_empty _
  refine ⟨live_replicate_empty _, length_replicate, by decide +kernel, rfl, by decide, ?_, ?_⟩
  · intro gen r hr
    rw [hget] at hr
    cases hr
  · rw [hget]
    exact linked_empty

theorem GrantTable.Grown.run (h : t.Grown (fun _ _ => True) n) (ops : List (GrantOp M))
    (hn : n + grantsMade t ops < 2 ^ 32) :
    (Lib.run grantStep t ops).Grown (fun _ _ => True) (n + grantsMade t ops) := by
  induction ops generalizing t n with
  | nil => exact h
  | cons op ops ih =>
    rw [grantsMade, ← Nat.add_assoc] at hn ⊢
    exact ih (h.step op (by omega) fun _ _ _ _ _ _ _ => trivial) hn

theorem GrantTable.Grown.attenuated (h : t.Grown Attenuates n) : t.Attenuated := by
  intro tick gen child hget hvalid hp
  obtain ⟨parent, hparent, hatt⟩ :=
    h.linked gen child hget child.parentGen (parent_eq_some.mpr ⟨rfl, hp⟩)
  refine ⟨parent, hparent, ?_, hatt⟩
  obtain ⟨-, hchild⟩ := (isValid_iff hget).mp hvalid
  obtain ⟨hpos, hm, hgen⟩ := lookup_some hparent
  apply (isValid_iff hparent).mpr
  refine ⟨h.live.unrevoked parent hm (hgen ▸ hpos), ?_⟩
  obtain ⟨-, -, -, -, hexp⟩ := hatt
  omega

/-- In every run in which each delegation attenuates its parent, every valid grant does. -/
theorem delegations_attenuate (ops : List (GrantOp M))
    (h : Guarded grantStep GrantOp.Attenuating GrantTable.new ops) :
    (run grantStep GrantTable.new ops).Attenuated := by
  obtain ⟨n, -, ht⟩ := @Guarded.run_invariant _ _ _ _
    (fun t => ∃ n, n + 1 < 2 ^ 32 ∧ t.Grown GrantRecord.Attenuates n) _ _ h
    ⟨0, by decide, new_grown _⟩ (fun _ _ ht hop => attenuating_step ht hop)
  exact ht.attenuated

def chainedGrants (next : Delegation) : List (GrantOp InMemoryMatrix) :=
  [.delegate (fun _ => 7) (fun _ => 0) ⟨1, 2, fsDomain, 7, 10, 50, 0, false⟩,
   .delegate (fun _ => 7) (fun _ => 0) next]

theorem delegations_attenuate_read : (run grantStep GrantTable.new
      (chainedGrants ⟨2, 3, fsDomain, 1, 20, 40, 1, false⟩)).Attenuated := by
  apply delegations_attenuate
  refine ⟨⟨by decide, fun parent hp => ?_⟩, ⟨by decide +kernel, fun parent hp => ?_⟩, trivial⟩
  · cases hp
  · cases hp
    decide

/-- A stranger names the grant of pwm 2 as its parent and hands on a network right for ever. -/
theorem delegation_amplifies :
    ¬ ∀ ops : List (GrantOp InMemoryMatrix), (run grantStep GrantTable.new ops).Attenuated := by
  intro h
  obtain ⟨parent, hget, -, hatt⟩ := h (chainedGrants ⟨8, 9, 2, 4, 20, 0, 1, false⟩) 20 2 _ rfl
    (by decide +kernel) (by decide)
  cases hget
  exact absurd hatt (by decide)

/-- Revoking a generation ends, and clears its record and those whose parents lead to it. -/
def GrantTable.RevokesSubtree (t : GrantTable) (gen : Nat) : Prop :=
  (∀ fuel ≥ 2 ^ 32, t.collectDescendants fuel gen = t.collectDescendants (2 ^ 32) gen) ∧
    Forall₂ (fun r r' => (r.generation ≠ 0 ∧ t.LeadsTo r.generation gen → r' = r.cleared) ∧
      (¬ (r.generation ≠ 0 ∧ t.LeadsTo r.generation gen) → r' = r))
      t.records (t.markRevoked gen).records

theorem GrantTable.Grown.revokesSubtree (h : t.Grown ok n) (hg : gen ≠ 0) :
    t.RevokesSubtree gen := by
  constructor
  · intro fuel hfuel
    obtain ⟨more, rfl⟩ := Nat.exists_eq_add_of_le hfuel
    have hbound := h.bound
    induction more with
    | zero => rfl
    | succ more ih => rw [← Nat.add_assoc, h.collectDescendants_succ (by omega), ih (by omega)]
  · rw [(h.markRevoked hg).2, forall₂_map_right_iff, forall₂_same]
    intro r hm
    rw [← h.mem_victims, clearIn]
    constructor
    · exact fun hr => if_pos hr.2
    · exact fun hr => if_neg fun hv => hr ⟨victims_pos hg _ hv, hv⟩

/-- With fewer than `2 ^ 32` grants behind it, the table revokes whole subtrees and no more, its
generations are unique and `used` counts its records. -/
theorem revocation_removes_subtree (ops : List (GrantOp M)) (h : grantsMade GrantTable.new ops < 2 ^ 32) :
    (∀ gen r, (run grantStep GrantTable.new ops).get gen = some r →
      (run grantStep GrantTable.new ops).RevokesSubtree gen) ∧
    (run grantStep GrantTable.new ops).records.Pairwise
      (fun r r' => r.generation = r'.generation → r.generation = 0) ∧
    (run grantStep GrantTable.new ops).used =
      (run grantStep GrantTable.new ops).records.countP (·.generation != 0) := by
  have hgrown := (new_grown fun _ _ => True).run ops (by rwa [Nat.zero_add])
  refine ⟨fun gen r hget => ?_, hgrown.live.distinct, hgrown.used⟩
  exact hgrown.revokesSubtree (lookup_some hget).1

theorem revocation_removes_subtree_two : (run grantStep GrantTable.new
    (chainedGrants ⟨2, 3, fsDomain, 1, 20, 40, 1, false⟩)).RevokesSubtree 1 :=
  (revocation_removes_subtree _ (by decide +kernel)).1 1 _ rfl

end AntX.Credo
