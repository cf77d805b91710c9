import Mathlib.Tactic.Common

/-! The session of a process: `framework/credo/{identity,engine,session}.rs`. A smaller level is a
higher privilege. A set-id call compares the owner of the new id with the caller the wrong way round. -/

namespace AntX.Credo

structure PwmEntry where
  pwm : Nat
  uid : Nat
  gid : Nat
  privilegeLevel : Nat
deriving DecidableEq, Repr

def PwmEntry.isValid (e : PwmEntry) : Bool := e.pwm != 0

abbrev IdentityTable := List PwmEntry

def noId : Nat := 0xFFFFFFFF

namespace IdentityTable

def find (t : IdentityTable) (pwm : Nat) : Option PwmEntry :=
  if pwm = 0 then none else List.find? (·.pwm == pwm) t

def findByUid (t : IdentityTable) (uid : Nat) : Option PwmEntry :=
  if uid = noId then none else List.find? (fun e => e.isValid && e.uid == uid) t

def findByGid (t : IdentityTable) (gid : Nat) : Option PwmEntry :=
  if gid = noId then none else List.find? (fun e => e.isValid && e.gid == gid) t

def checkPrivilege (t : IdentityTable) (operatorPwm targetPwm : Nat) : Bool :=
  if operatorPwm = 0 then true
  else
    match t.find operatorPwm with
    | none => false
    | some operator =>
      match t.find targetPwm with
      | none => false
      | some target => decide (operator.privilegeLevel < target.privilegeLevel)

end IdentityTable

/-- The real, effective and saved id of one kind: `cached_uid`, `euid` and `saved_euid`, or
`cached_gid`, `egid` and `saved_egid`. -/
structure Ids where
  real : Nat
  effective : Nat
  saved : Nat
deriving DecidableEq, Repr

structure PwmContext where
  sessionPwm : Nat
  user : Ids
  group : Ids
  activeDomainId : Nat
  elevationGrantedPwm : Nat
deriving DecidableEq, Repr

def maxElevationDepth : Nat := 8

/-- `elevStack` has `maxElevationDepth` places. -/
structure Session where
  ctx : PwmContext
  elevStack : Nat → PwmContext
  elevDepth : Nat

def PwmContext.elevated (ctx : PwmContext) (target : PwmEntry) (targetPwm : Nat) : PwmContext :=
  { ctx with
    user := { ctx.user with effective := target.uid, saved := target.uid }
    group := { ctx.group with effective := target.gid, saved := target.gid }
    activeDomainId := target.uid
    elevationGrantedPwm := targetPwm }

variable (t : IdentityTable)

def elevateForSuid (s : Session) (targetPwm : Nat) : Session × Bool :=
  match t.find targetPwm with
  | none => (s, false)
  | some target =>
    if s.elevDepth ≥ maxElevationDepth then (s, false)
    else
      -- the copy is taken after the context was changed
      let snapshot := s.ctx.elevated target targetPwm
      ({ ctx := snapshot
         elevStack := Function.update s.elevStack s.elevDepth snapshot
         elevDepth := s.elevDepth + 1 }, true)

def dropElevation (s : Session) : Session × Bool :=
  if s.elevDepth = 0 then (s, false)
  else
    ({ s with ctx := s.elevStack (s.elevDepth - 1), elevDepth := s.elevDepth - 1 }, true)

def hasElevationAuthority (s : Session) (targetPwm : Nat) : Bool :=
  s.ctx.elevationGrantedPwm == targetPwm

def trySetuid (s : Session) (targetUid : Nat) : Session × Bool :=
  match t.findByUid targetUid with
  | none => (s, false)
  | some target =>
    if t.checkPrivilege target.pwm s.ctx.sessionPwm || hasElevationAuthority s target.pwm then
      elevateForSuid t s target.pwm
    else (s, false)

/-- The calls that set the effective id; `find` looks up ids of their kind. -/
def trySetEffective (find : Nat → Option PwmEntry) (currentPwm : Nat)
    (ids : Ids) (target : Nat) : Ids × Bool :=
  if target = ids.effective then (ids, true)
  else
    match find target with
    | none => (ids, false)
    | some entry =>
      if t.checkPrivilege entry.pwm currentPwm then
        ({ ids with effective := target, saved := target }, true)
      else if target = ids.real ∨ target = ids.saved then
        ({ ids with effective := target }, true)
      else (ids, false)

/-- `has_uid_privilege` and `has_gid_privilege`. -/
def hasIdPrivilege (find : Nat → Option PwmEntry) (id currentPwm : Nat) : Bool :=
  (find id).any fun entry => t.checkPrivilege entry.pwm currentPwm

def chosen (target old : Nat) : Nat := if target ≠ noId then target else old

/-- The calls that set the real and the effective id. -/
def trySetBoth (find : Nat → Option PwmEntry) (currentPwm : Nat)
    (ids : Ids) (targetReal targetEffective : Nat) : Ids × Bool :=
  let realIsSet := targetReal ≠ noId
  let effectiveIsSet := targetEffective ≠ noId
  let newReal := chosen targetReal ids.real
  let newEffective := chosen targetEffective ids.effective
  if newReal = ids.real ∧ newEffective = ids.effective then (ids, true)
  else if realIsSet ∧ newReal ≠ ids.real ∧
      ¬ (hasIdPrivilege t find newReal currentPwm = true ∨ newReal = ids.effective) then
    (ids, false)
  else if effectiveIsSet ∧ newEffective ≠ ids.effective ∧
      ¬ (hasIdPrivilege t find newEffective currentPwm = true ∨ newEffective = ids.real ∨
        newEffective = ids.saved) then
    (ids, false)
  else
    ({ real := newReal
       effective := newEffective
       saved := if realIsSet ∨ (effectiveIsSet ∧ newEffective ≠ ids.real) then newEffective
         else ids.saved }, true)

section

variable (s : Session) (result : Ids × Bool)

def Session.withUser : Session × Bool :=
  ({ s with ctx := { s.ctx with user := result.1 } }, result.2)

def Session.withGroup : Session × Bool :=
  ({ s with ctx := { s.ctx with group := result.1 } }, result.2)

def trySeteuid (targetEuid : Nat) : Session × Bool :=
  s.withUser (trySetEffective t t.findByUid s.ctx.sessionPwm s.ctx.user targetEuid)

def trySetgid (targetGid : Nat) : Session × Bool :=
  s.withGroup (trySetEffective t t.findByGid s.ctx.sessionPwm s.ctx.group targetGid)

def trySetegid (targetEgid : Nat) : Session × Bool :=
  s.withGroup (trySetEffective t t.findByGid s.ctx.sessionPwm s.ctx.group targetEgid)

def trySetreuid (targetRuid targetEuid : Nat) : Session × Bool :=
  s.withUser (trySetBoth t t.findByUid s.ctx.sessionPwm s.ctx.user targetRuid targetEuid)

def trySetregid (targetRgid targetEgid : Nat) : Session × Bool :=
  s.withGroup (trySetBoth t t.findByGid s.ctx.sessionPwm s.ctx.group targetRgid targetEgid)

end

open Function

/-- A properly nested sequence of elevations and drops: `elevate target inner rest` raises
to the target, goes through `inner`, drops, and goes on with `rest`. -/
inductive Nesting where
  | done
  | elevate (targetPwm : Nat) (inner rest : Nesting)
deriving DecidableEq, Repr

namespace Nesting

def targets : Nesting → List Nat
  | done => []
  | elevate targetPwm inner rest => targetPwm :: (inner.targets ++ rest.targets)

def run (t : IdentityTable) (s : Session) : Nesting → Option Session
  | done => some s
  | elevate targetPwm inner rest =>
    match elevateForSuid t s targetPwm with
    | (_, false) => none
    | (s₁, true) =>
      match inner.run t s₁ with
      | none => none
      | some s₂ =>
        match dropElevation s₂ with
        | (_, false) => none
        | (s₃, true) => rest.run t s₃

def Restores (t : IdentityTable) (s : Session) : Nesting → Prop
  | done => True
  | elevate targetPwm inner rest =>
    ∀ s₁ s₂ s₃, elevateForSuid t s targetPwm = (s₁, true) → inner.run t s₁ = some s₂ →
      dropElevation s₂ = (s₃, true) → inner.Restores t s₁ ∧ s₃.ctx = s.ctx ∧ rest.Restores t s₃

end Nesting

variable {t : IdentityTable} {s s₁ s₂ s₃ s' : Session} {targetPwm : Nat} {inner rest n : Nesting}

theorem elevate_cases (h : elevateForSuid t s targetPwm = (s₁, true)) :
    ∃ target, t.find targetPwm = some target ∧ s₁.ctx = s.ctx.elevated target targetPwm ∧
      s₁.elevDepth = s.elevDepth + 1 ∧
      s₁.elevStack = update s.elevStack s.elevDepth s₁.ctx := by
  unfold elevateForSuid at h
  cases hf : t.find targetPwm with
  | none => simp [hf] at h
  | some target =>
    by_cases hd : s.elevDepth ≥ maxElevationDepth
    · simp [hf, hd] at h
    · simp only [hf, hd, if_false, Prod.mk.injEq, and_true] at h
      subst h
      exact ⟨target, rfl, rfl, rfl, rfl⟩

theorem drop_cases (h : dropElevation s₂ = (s₃, true)) :
    s₃.ctx = s₂.elevStack (s₂.elevDepth - 1) ∧ s₃.elevDepth = s₂.elevDepth - 1 ∧
      s₃.elevStack = s₂.elevStack := by
  unfold dropElevation at h
  by_cases hd : s₂.elevDepth = 0
  · simp [hd] at h
  · simp only [hd, if_false, Prod.mk.injEq, and_true] at h
    subst h
    exact ⟨rfl, rfl, rfl⟩

theorem run_elevate (h : (Nesting.elevate targetPwm inner rest).run t s = some s') :
    ∃ s₁ s₂ s₃, elevateForSuid t s targetPwm = (s₁, true) ∧ inner.run t s₁ = some s₂ ∧
      dropElevation s₂ = (s₃, true) ∧ rest.run t s₃ = some s' := by
  rw [Nesting.run] at h
  cases he : elevateForSuid t s targetPwm with
  | mk s₁ ok =>
    cases ok with
    | false => simp [he] at h
    | true =>
      cases hi : inner.run t s₁ with
      | none => simp [he, hi] at h
      | some s₂ =>
        cases hd : dropElevation s₂ with
        | mk s₃ ok =>
          cases ok with
          | false => simp [he, hi, hd] at h
          | true =>
            simp only [he, hi, hd] at h
            exact ⟨s₁, s₂, s₃, rfl, hi, hd, h⟩

theorem run_stack (h : n.run t s = some s') :
    s'.elevDepth = s.elevDepth ∧ ∀ i < s.elevDepth, s'.elevStack i = s.elevStack i := by
  induction n generalizing s s' with
  | done =>
    cases h
    exact ⟨rfl, fun _ _ => rfl⟩
  | elevate targetPwm inner rest ihInner ihRest =>
    obtain ⟨s₁, s₂, s₃, he, hi, hd, hr⟩ := run_elevate h
    obtain ⟨target, -, -, hdepth, hstack⟩ := elevate_cases he
    obtain ⟨hdepth₂, hstack₂⟩ := ihInner hi
    obtain ⟨-, hdepth₃, hstack₃⟩ := drop_cases hd
    obtain ⟨hdepth', hstack'⟩ := ihRest hr
    refine ⟨by omega, ?_⟩
    intro i hlt
    rw [hstack' i (by omega), hstack₃, hstack₂ i (by omega), hstack, update_of_ne (by omega)]

theorem drop_ctx (he : elevateForSuid t s targetPwm = (s₁, true)) (hi : inner.run t s₁ = some s₂)
    (hd : dropElevation s₂ = (s₃, true)) : s₃.ctx = s₁.ctx := by
  obtain ⟨target, -, -, hdepth, hstack⟩ := elevate_cases he
  obtain ⟨hdepth₂, hstack₂⟩ := run_stack hi
  obtain ⟨hctx, -, -⟩ := drop_cases hd
  have htop : s₂.elevDepth - 1 = s.elevDepth := by omega
  rw [hctx, htop, hstack₂ _ (by omega), hstack, update_self]

def AlreadyElevated (t : IdentityTable) (ctx : PwmContext) (targetPwm : Nat) : Prop :=
  ∀ target, t.find targetPwm = some target → ctx.user.effective = target.uid ∧ ctx.user.saved = target.uid ∧
    ctx.group.effective = target.gid ∧ ctx.group.saved = target.gid ∧
    ctx.activeDomainId = target.uid ∧ ctx.elevationGrantedPwm = targetPwm

theorem elevated_eq_iff {ctx : PwmContext} {target : PwmEntry} : ctx.elevated target targetPwm = ctx ↔
      ctx.user.effective = target.uid ∧ ctx.user.saved = target.uid ∧
      ctx.group.effective = target.gid ∧ ctx.group.saved = target.gid ∧
      ctx.activeDomainId = target.uid ∧ ctx.elevationGrantedPwm = targetPwm := by
  obtain ⟨session, ⟨ruid, euid, suid⟩, ⟨rgid, egid, sgid⟩, domain, granted⟩ := ctx
  simp only [PwmContext.elevated, PwmContext.mk.injEq, Ids.mk.injEq, true_and]
  omega

theorem elevate_ctx_eq_iff (he : elevateForSuid t s targetPwm = (s₁, true)) :
    s₁.ctx = s.ctx ↔ AlreadyElevated t s.ctx targetPwm := by
  obtain ⟨target, hf, hctx, -, -⟩ := elevate_cases he
  rw [hctx, elevated_eq_iff]
  constructor
  · intro h target' hf'
    rw [hf] at hf'
    cases hf'
    exact h
  · intro h
    exact h target hf

/-- Every drop of a nested sequence restores the context from before its elevation exactly
when none of the elevations has anything to change. -/
theorem elevations_restore_iff (t : IdentityTable) (s : Session) (n : Nesting)
    (h : (n.run t s).isSome = true) :
    n.Restores t s ↔ ∀ targetPwm ∈ n.targets, AlreadyElevated t s.ctx targetPwm := by
  induction n generalizing s with
  | done => simp [Nesting.Restores, Nesting.targets]
  | elevate targetPwm inner rest ihInner ihRest =>
    obtain ⟨s', hs'⟩ := Option.isSome_iff_exists.mp h
    obtain ⟨s₁, s₂, s₃, he, hi, hd, hr⟩ := run_elevate hs'
    have hback := drop_ctx he hi hd
    have hinner := ihInner s₁ (by rw [hi]; rfl)
    have hrest := ihRest s₃ (by rw [hr]; rfl)
    rw [hback] at hrest
    rw [Nesting.targets, List.forall_mem_cons, List.forall_mem_append, ← elevate_ctx_eq_iff he]
    constructor
    · intro hrestores
      obtain ⟨h₁, h₂, h₃⟩ := hrestores s₁ s₂ s₃ he hi hd
      have hsame : s₁.ctx = s.ctx := hback.symm.trans h₂
      rw [hsame] at hinner hrest
      exact ⟨hsame, hinner.mp h₁, hrest.mp h₃⟩
    · rintro ⟨hsame, h₁, h₃⟩ u₁ u₂ u₃ hu₁ hu₂ hu₃
      rw [he, Prod.mk.injEq] at hu₁
      obtain ⟨rfl, -⟩ := hu₁
      rw [hi] at hu₂
      cases hu₂
      rw [hd, Prod.mk.injEq] at hu₃
      obtain ⟨rfl, -⟩ := hu₃
      rw [hsame] at hinner hrest
      exact ⟨hinner.mpr h₁, hback.trans hsame, hrest.mpr h₃⟩

def sampleTable : IdentityTable := [⟨5, 1000, 1000, 1⟩, ⟨6, 0, 0, 0⟩]

def sampleSession (id granted : Nat) : Session :=
  { ctx := ⟨5, ⟨1000, id, id⟩, ⟨1000, id, id⟩, id, granted⟩
    elevStack := fun _ => ⟨0, ⟨0, 0, 0⟩, ⟨0, 0, 0⟩, 0, 0⟩
    elevDepth := 0 }

theorem elevations_restore_own : (Nesting.elevate 5 (.elevate 5 .done .done) .done).Restores sampleTable
      (sampleSession 1000 5) := by
  apply (elevations_restore_iff _ _ _ rfl).mpr
  intro targetPwm hm target hf
  obtain rfl : targetPwm = 5 := by simpa [Nesting.targets] using hm
  cases hf
  decide

theorem elevation_stays : ¬ ∀ (t : IdentityTable) (s : Session) (n : Nesting), (n.run t s).isSome = true →
      n.Restores t s := by
  intro h
  have hroot := h sampleTable (sampleSession 1000 0) (.elevate 6 .done .done) rfl _ _ _ rfl rfl rfl
  exact absurd hroot.2.1 (by decide)

def Ids.has (ids : Ids) (id : Nat) : Prop := id = ids.real ∨ id = ids.effective ∨ id = ids.saved

instance (ids : Ids) (id : Nat) : Decidable (ids.has id) := inferInstanceAs (Decidable (_ ∨ _))

section

variable (t : IdentityTable) (find : Nat → Option PwmEntry) (caller : Nat) (ids : Ids)

def OwnerBelow (id : Nat) : Prop :=
  ∃ owner, find id = some owner ∧ t.checkPrivilege caller owner.pwm = true

/-- Every id that a call brings in has an owner below the caller. -/
def BringsBelow (result : Ids × Bool) : Prop :=
  result.2 = true → ∀ id, result.1.has id → ¬ ids.has id → OwnerBelow t find caller id

/-- An id of an outranking owner is among the caller's own. -/
def Owned (id : Nat) : Prop := hasIdPrivilege t find id caller = true → ids.has id

/-- An id that may be asked for: none, one of the caller's own, or one of an outranking owner. -/
def Permitted (own : Nat → Prop) (target : Nat) : Prop :=
  target = noId ∨ own target ∨ hasIdPrivilege t find target caller = true

def PermittedReal : Nat → Prop := Permitted t find caller fun id => id = ids.real ∨ id = ids.effective

def PermittedEffective : Nat → Prop := Permitted t find caller ids.has

def BothOwned (real effective : Nat) : Prop :=
  PermittedReal t find caller ids real → PermittedEffective t find caller ids effective →
    Owned t find caller ids real ∧ Owned t find caller ids effective

end

variable {t : IdentityTable} {caller target : Nat} {s : Session}

theorem checkPrivilege_asymm {other : Nat} (hc : caller ≠ 0)
    (h : t.checkPrivilege other caller = true) : t.checkPrivilege caller other = false := by
  by_cases ho : other = 0
  · subst ho
    simp only [IdentityTable.checkPrivilege, hc, if_false, IdentityTable.find, if_true]
    split <;> rfl
  · simp only [IdentityTable.checkPrivilege, ho, hc, if_false] at h ⊢
    cases h₁ : t.find other with
    | none => simp [h₁] at h
    | some o =>
      cases h₂ : t.find caller with
      | none => simp [h₁, h₂] at h
      | some c =>
        simp only [h₁, h₂, decide_eq_true_eq] at h
        simp only [decide_eq_false_iff_not]
        omega

theorem not_ownerBelow {find : Nat → Option PwmEntry} {id : Nat} (hc : caller ≠ 0)
    (h : hasIdPrivilege t find id caller = true) : ¬ OwnerBelow t find caller id := by
  rintro ⟨owner, hf, hbelow⟩
  rw [hasIdPrivilege, hf, Option.any_some] at h
  rw [checkPrivilege_asymm hc h] at hbelow
  cases hbelow

section Ids

variable {t : IdentityTable} {find : Nat → Option PwmEntry} {caller : Nat} {ids : Ids}

theorem trySetEffective_cases (target : Nat) :
    (target = ids.effective ∧ trySetEffective t find caller ids target = (ids, true)) ∨
    (hasIdPrivilege t find target caller = true ∧ trySetEffective t find caller ids target =
      ({ ids with effective := target, saved := target }, true)) ∨
    (hasIdPrivilege t find target caller = false ∧ (target = ids.real ∨ target = ids.saved) ∧
      trySetEffective t find caller ids target = ({ ids with effective := target }, true)) ∨
    (hasIdPrivilege t find target caller = false ∧
      trySetEffective t find caller ids target = (ids, false)) := by
  unfold trySetEffective hasIdPrivilege
  by_cases hsame : target = ids.effective
  · exact .inl ⟨hsame, if_pos hsame⟩
  · cases hf : find target with
    | none => simp [hsame]
    | some entry =>
      cases hpriv : t.checkPrivilege entry.pwm caller with
      | true => simp [hsame, hpriv]
      | false =>
        by_cases hown : target = ids.real ∨ target = ids.saved <;> simp [hsame, hpriv, hown]

theorem trySetEffective_below_iff (hc : caller ≠ 0) (target : Nat) :
    BringsBelow t find caller ids (trySetEffective t find caller ids target) ↔ Owned t find caller ids target := by
  unfold BringsBelow Owned Ids.has
  rcases trySetEffective_cases target with ⟨hsame, he⟩ | ⟨hpriv, he⟩ | ⟨hpriv, hown, he⟩ | ⟨hpriv, he⟩
  · rw [he]
    constructor
    · intro _ _
      exact .inr (.inl hsame)
    · intro _ _ id hnew hold
      exact absurd hnew hold
  · rw [he]
    constructor
    · intro h _
      by_contra hold
      exact not_ownerBelow hc hpriv (h rfl target (.inr (.inl rfl)) hold)
    · intro h _ id hnew hold
      rcases hnew with rfl | rfl | rfl <;> tauto
  · rw [he]
    constructor
    · intro _ hp
      rw [hpriv] at hp
      cases hp
    · intro _ _ id hnew hold
      rcases hnew with rfl | rfl | rfl <;> tauto
  · rw [he, hpriv]
    constructor
    · intro _ hp
      cases hp
    · intro _ hok
      cases hok

section

variable {own P : Nat → Prop} {old : Nat}

theorem permitted_iff (hown : ∀ id, own id ↔ id = old ∨ P id) (target : Nat) :
    Permitted t find caller own target ↔ ¬ (target ≠ noId ∧ chosen target old ≠ old ∧
      ¬ (hasIdPrivilege t find (chosen target old) caller = true ∨ P (chosen target old))) := by
  unfold Permitted chosen
  rw [hown]
  by_cases hset : target = noId
  · simp [hset]
  · simp only [hset, ne_eq, not_false_eq_true, if_true, false_or, true_and]
    tauto

theorem Permitted.has_chosen (h : Permitted t find caller own target) (hown : ∀ id, own id → ids.has id)
    (hold : ids.has old) (hpriv : Owned t find caller ids target) :
    ids.has (chosen target old) := by
  unfold chosen
  split_ifs with hset
  · rcases h with hno | hmine | hp
    · exact absurd hno hset
    · exact hown target hmine
    · exact hpriv hp
  · exact hold

end

theorem trySetBoth_cases (real effective : Nat) :
    (PermittedReal t find caller ids real ∧ PermittedEffective t find caller ids effective ∧
      ∃ saved, (saved = ids.saved ∨ saved = chosen effective ids.effective) ∧
        trySetBoth t find caller ids real effective =
          (⟨chosen real ids.real, chosen effective ids.effective, saved⟩, true)) ∨
    (¬ (PermittedReal t find caller ids real ∧ PermittedEffective t find caller ids effective) ∧
      trySetBoth t find caller ids real effective = (ids, false)) := by
  have hown : ∀ id, ids.has id ↔ id = ids.effective ∨ id = ids.real ∨ id = ids.saved := fun _ => or_left_comm
  rw [PermittedReal, PermittedEffective, permitted_iff (P := (· = ids.effective)) (fun _ => Iff.rfl),
    permitted_iff hown]
  unfold trySetBoth
  simp only
  split_ifs with hsame hreal heffective hsaved
  · left
    simp only [hsame.1, hsame.2, ne_eq, not_true_eq_false, false_and, and_false, not_false_eq_true, true_and]
    exact ⟨ids.saved, .inl rfl, rfl⟩
  · exact .inr ⟨fun h => h.1 hreal, rfl⟩
  · exact .inr ⟨fun h => h.2 heffective, rfl⟩
  · exact .inl ⟨hreal, heffective, _, .inr rfl, rfl⟩
  · exact .inl ⟨hreal, heffective, _, .inl rfl, rfl⟩

theorem chosen_of_privilege (hnone : find noId = none)
    (h : hasIdPrivilege t find target caller = true) (old : Nat) : chosen target old = target := by
  apply if_pos
  intro hno
  rw [hno, hasIdPrivilege, hnone] at h
  cases h

theorem trySetBoth_below_iff (hc : caller ≠ 0) (hnone : find noId = none) (real effective : Nat) :
    BringsBelow t find caller ids (trySetBoth t find caller ids real effective) ↔
      BothOwned t find caller ids real effective := by
  rcases trySetBoth_cases real effective with ⟨hr, he, saved, hsaved, heq⟩ | ⟨hrefused, heq⟩
  · rw [heq]
    constructor
    · intro h _ _
      constructor
      · intro hp
        by_contra hold
        rw [chosen_of_privilege hnone hp] at h
        exact not_ownerBelow hc hp (h rfl real (.inl rfl) hold)
      · intro hp
        by_contra hold
        rw [chosen_of_privilege hnone hp] at h
        exact not_ownerBelow hc hp (h rfl effective (.inr (.inl rfl)) hold)
    · intro h _ id hnew hold
      have hr' := hr.has_chosen (fun _ => Or.imp_right .inl) (.inl rfl) (h hr he).1
      have he' := he.has_chosen (fun _ hid => hid) (.inr (.inl rfl)) (h hr he).2
      exfalso
      apply hold
      rcases hnew with rfl | rfl | rfl
      · exact hr'
      · exact he'
      · rcases hsaved with rfl | rfl
        · exact .inr (.inr rfl)
        · exact he'
  · rw [heq]
    constructor
    · intro _ hr he
      exact absurd ⟨hr, he⟩ hrefused
    · intro _ hok
      cases hok

end Ids

theorem findByUid_valid {uid : Nat} {owner : PwmEntry} (h : t.findByUid uid = some owner) :
    owner.pwm ≠ 0 := by
  unfold IdentityTable.findByUid at h
  split_ifs at h
  have hvalid := List.find?_some h
  simp only [PwmEntry.isValid, Bool.and_eq_true, bne_iff_ne] at hvalid
  exact hvalid.1

theorem checkPrivilege_find {operator : Nat} (ho : operator ≠ 0)
    (h : t.checkPrivilege operator target = true) : ∃ entry, t.find operator = some entry := by
  cases hf : t.find operator with
  | none => simp [IdentityTable.checkPrivilege, ho, hf] at h
  | some entry => exact ⟨entry, rfl⟩

/-- The ways in which `try_setuid` ends in a session without an elevation: an identity that
outranks the caller is elevated to, and no other. -/
theorem trySetuid_cases (t : IdentityTable) (hg : s.ctx.elevationGrantedPwm = 0) (uid : Nat) :
    (hasIdPrivilege t t.findByUid uid s.ctx.sessionPwm = false ∧ trySetuid t s uid = (s, false)) ∨
    ∃ owner target, t.findByUid uid = some owner ∧ t.find owner.pwm = some target ∧
      hasIdPrivilege t t.findByUid uid s.ctx.sessionPwm = true ∧
      trySetuid t s uid = elevateForSuid t s owner.pwm := by
  cases hf : t.findByUid uid with
  | none => simp [trySetuid, hasIdPrivilege, hf]
  | some owner =>
    have hvalid := findByUid_valid hf
    cases hpriv : t.checkPrivilege owner.pwm s.ctx.sessionPwm with
    | false =>
      simp [trySetuid, hasIdPrivilege, hf, hpriv, hasElevationAuthority, hg, hvalid.symm]
    | true =>
      obtain ⟨target, htarget⟩ := checkPrivilege_find hvalid hpriv
      right
      exact ⟨owner, target, rfl, htarget, by simp [hasIdPrivilege, hf, hpriv], by simp [trySetuid, hf, hpriv]⟩

inductive SetIdCall where
  | setuid (uid : Nat)
  | seteuid (euid : Nat)
  | setreuid (ruid euid : Nat)
  | setgid (gid : Nat)
  | setegid (egid : Nat)
  | setregid (rgid egid : Nat)
deriving DecidableEq, Repr

namespace SetIdCall

section

variable (t : IdentityTable) (s : Session)

def run : SetIdCall → Session × Bool
  | setuid uid => trySetuid t s uid
  | seteuid euid => trySeteuid t s euid
  | setreuid ruid euid => trySetreuid t s ruid euid
  | setgid gid => trySetgid t s gid
  | setegid egid => trySetegid t s egid
  | setregid rgid egid => trySetregid t s rgid egid

/-- A successful call that brings in an id does so for an identity below the caller. A
`setuid` brings in the user and group ids of the identity that owns the uid asked for. -/
def NoEscalation (call : SetIdCall) : Prop :=
  match call with
  | setuid uid =>
    (call.run t s).2 = true → (∃ id, ((call.run t s).1.ctx.user.has id ∧ ¬ s.ctx.user.has id) ∨
        ((call.run t s).1.ctx.group.has id ∧ ¬ s.ctx.group.has id)) →
      OwnerBelow t t.findByUid s.ctx.sessionPwm uid
  | seteuid _ | setreuid _ _ =>
    BringsBelow t t.findByUid s.ctx.sessionPwm s.ctx.user ((call.run t s).1.ctx.user, (call.run t s).2)
  | setgid _ | setegid _ | setregid _ _ =>
    BringsBelow t t.findByGid s.ctx.sessionPwm s.ctx.group ((call.run t s).1.ctx.group, (call.run t s).2)

/-- What the caller's ids and the table must be for the call to raise nobody: the call is
refused by one of its other tests, or the ids of outranking owners are the caller's own. -/
def Harmless : SetIdCall → Prop
  | setuid uid =>
    hasIdPrivilege t t.findByUid uid s.ctx.sessionPwm = true → s.elevDepth ≥ maxElevationDepth ∨
      ∀ owner target, t.findByUid uid = some owner → t.find owner.pwm = some target →
        s.ctx.user.has target.uid ∧ s.ctx.group.has target.gid
  | seteuid euid => Owned t t.findByUid s.ctx.sessionPwm s.ctx.user euid
  | setreuid ruid euid => BothOwned t t.findByUid s.ctx.sessionPwm s.ctx.user ruid euid
  | setgid gid | setegid gid => Owned t t.findByGid s.ctx.sessionPwm s.ctx.group gid
  | setregid rgid egid => BothOwned t t.findByGid s.ctx.sessionPwm s.ctx.group rgid egid

end

theorem elevated_has_iff (ctx : PwmContext) (target : PwmEntry) (pwm : Nat) :
    (∃ id, ((ctx.elevated target pwm).user.has id ∧ ¬ ctx.user.has id) ∨
      ((ctx.elevated target pwm).group.has id ∧ ¬ ctx.group.has id)) ↔
    ¬ (ctx.user.has target.uid ∧ ctx.group.has target.gid) := by
  constructor
  · rintro ⟨id, ⟨hnew, hold⟩ | ⟨hnew, hold⟩⟩ ⟨hu, hgr⟩
    · rcases hnew with rfl | rfl | rfl
      · exact hold (.inl rfl)
      · exact hold hu
      · exact hold hu
    · rcases hnew with rfl | rfl | rfl
      · exact hold (.inl rfl)
      · exact hold hgr
      · exact hold hgr
  · intro h
    by_cases hu : ctx.user.has target.uid
    · exact ⟨target.gid, .inr ⟨.inr (.inl rfl), fun hgr => h ⟨hu, hgr⟩⟩⟩
    · exact ⟨target.uid, .inl ⟨.inr (.inl rfl), hu⟩⟩

theorem setuid_iff (hp : s.ctx.sessionPwm ≠ 0) (hg : s.ctx.elevationGrantedPwm = 0) (uid : Nat) :
    (setuid uid).NoEscalation t s ↔ (setuid uid).Harmless t s := by
  unfold NoEscalation Harmless run
  rcases trySetuid_cases t hg uid with ⟨hpriv, he⟩ | ⟨owner, target, ho, ht, hpriv, he⟩
  · simp [hpriv, he]
  · have hbelow := not_ownerBelow hp hpriv
    by_cases hdepth : s.elevDepth ≥ maxElevationDepth
    · simp [he, elevateForSuid, ht, hdepth]
    · have helev : (elevateForSuid t s owner.pwm).2 = true ∧
          (elevateForSuid t s owner.pwm).1.ctx = s.ctx.elevated target owner.pwm := by
        simp [elevateForSuid, ht, hdepth]
      simp only [he, helev.1, helev.2, elevated_has_iff, hbelow, hpriv, ho, hdepth]
      constructor
      · intro h _
        right
        intro owner' target' ho' ht'
        obtain rfl := Option.some.inj ho'
        obtain rfl := Option.some.inj (ht.symm.trans ht')
        simpa using h trivial
      · intro h _ hnew
        simp only [false_or] at h
        exact hnew (h trivial owner target rfl ht)

end SetIdCall

/-- A set-id call of a logged-in process raises nobody exactly when it is harmless. -/
theorem set_id_no_escalation_iff (t : IdentityTable) (s : Session) (call : SetIdCall)
    (hp : s.ctx.sessionPwm ≠ 0) (hg : s.ctx.elevationGrantedPwm = 0) :
    call.NoEscalation t s ↔ call.Harmless t s := by
  cases call with
  | setuid uid => exact SetIdCall.setuid_iff hp hg uid
  | seteuid id | setgid id | setegid id => exact trySetEffective_below_iff hp id
  | setreuid real effective | setregid real effective =>
    exact trySetBoth_below_iff hp (if_pos rfl) real effective

theorem setreuid_own_no_escalation :
    (SetIdCall.setreuid 0 1000).NoEscalation sampleTable (sampleSession 0 0) := by
  apply (set_id_no_escalation_iff _ _ _ (by decide) rfl).mpr
  intro _ _
  exact ⟨fun _ => .inr (.inl rfl), fun _ => .inl rfl⟩

theorem setuid_root_escalates :
    ¬ ∀ (t : IdentityTable) (s : Session) (call : SetIdCall), s.ctx.sessionPwm ≠ 0 →
      s.ctx.elevationGrantedPwm = 0 → call.NoEscalation t s := by
  intro h
  obtain ⟨owner, hf, hbelow⟩ := h sampleTable (sampleSession 1000 0) (.setuid 0) (by decide) rfl
    rfl ⟨0, .inl ⟨.inr (.inl rfl), by decide⟩⟩
  cases hf
  exact absurd hbelow (by decide)

end AntX.Credo
