import Mathlib.Data.List.Basic
import Mathlib.Tactic.Ring

/-! Runs of total and fallible steps and of machines that end, with the rule that carries an
invariant through a run whose actions are admissible in the states they meet. -/

namespace AntX.Lib

variable {σ α : Type*}

def run (step : σ → α → σ) (s : σ) (as : List α) : σ := as.foldl step s

/-- Every action of the list meets `ok` in the state it is executed in. -/
def Guarded (step : σ → α → σ) (ok : σ → α → Prop) : σ → List α → Prop
  | _, [] => True
  | s, a :: as => ok s a ∧ Guarded step ok (step s a) as

variable {step : σ → α → σ} {ok : σ → α → Prop}

instance Guarded.decidable [∀ s a, Decidable (ok s a)] :
    (s : σ) → (as : List α) → Decidable (Guarded step ok s as)
  | _, [] => isTrue trivial
  | s, a :: as =>
    have := Guarded.decidable (step s a) as
    inferInstanceAs (Decidable (ok s a ∧ Guarded step ok (step s a) as))

@[simp] theorem run_nil (s : σ) : run step s [] = s := rfl

@[simp] theorem run_cons (s : σ) (a : α) (as : List α) : run step s (a :: as) = run step (step s a) as := rfl

theorem run_append (s : σ) (as bs : List α) : run step s (as ++ bs) = run step (run step s as) bs :=
  List.foldl_append

theorem run_invariant {P : σ → Prop} (hstep : ∀ s a, P s → P (step s a)) {s : σ} (hs : P s)
    (as : List α) : P (run step s as) := List.foldlRecOn as step hs fun s h a _ => hstep s a h

theorem Guarded.run_invariant {inv : σ → Prop} {s : σ} {as : List α} (hg : Guarded step ok s as) (hs : inv s)
    (hstep : ∀ s a, inv s → ok s a → inv (step s a)) : inv (run step s as) := by
  induction as generalizing s with
  | nil => exact hs
  | cons a as ih => exact ih hg.2 (hstep s a hs hg.1)

/-- A relation to an abstract state that admissible steps preserve holds after the runs. -/
theorem Guarded.run_simulates {τ : Type*} {step' : τ → α → τ} {rel : σ → τ → Prop} {s : σ} {t : τ} {as : List α}
    (hg : Guarded step ok s as) (hs : rel s t)
    (hstep : ∀ s t a, rel s t → ok s a → rel (step s a) (step' t a)) : rel (run step s as) (run step' t as) := by
  induction as generalizing s t with
  | nil => exact hs
  | cons a as ih => exact ih hg.2 (hstep s t a hs hg.1)

/-- A property that each step keeps exactly when its action is admissible. -/
theorem run_iff_guarded {inv P : σ → Prop} (hinv : ∀ s a, inv s → inv (step s a))
    (hstep : ∀ s a, inv s → (P (step s a) ↔ P s ∧ ok s a)) {s : σ} (hs : inv s) (as : List α) :
    P (run step s as) ↔ P s ∧ Guarded step ok s as := by
  induction as generalizing s with
  | nil => simp [Guarded]
  | cons a as ih => rw [run_cons, ih (hinv s a hs), hstep s a hs, Guarded, and_assoc]

/-- The state after all actions, if every step returns. -/
def runOpt (step : σ → α → Option σ) (s : σ) (as : List α) : Option σ := as.foldlM step s

/-- Every action meets `ok` in the state it is executed in, as far as the steps return. -/
def Along (step : σ → α → Option σ) (ok : σ → α → Prop) : σ → List α → Prop
  | _, [] => True
  | s, a :: as => ok s a ∧ ∀ s', step s a = some s' → Along step ok s' as

section
variable {step : σ → α → Option σ} {granted ok : σ → α → Prop} {inv : σ → Prop}

theorem runOpt_cons (s : σ) (a : α) (as : List α) :
    runOpt step s (a :: as) = (step s a).bind fun s' => runOpt step s' as := by
  rfl

theorem runOpt_append (s : σ) (as bs : List α) :
    runOpt step s (as ++ bs) = (runOpt step s as).bind fun s' => runOpt step s' bs := by
  rw [runOpt, List.foldlM_append]
  rfl

instance Along.decidable [∀ s a, Decidable (ok s a)] :
    (s : σ) → (as : List α) → Decidable (Along step ok s as)
  | _, [] => isTrue trivial
  | s, a :: as =>
    match h : step s a with
    | none => decidable_of_iff (ok s a)
        ⟨fun hok => ⟨hok, fun _ hs => absurd (h.symm.trans hs) (by simp)⟩, And.left⟩
    | some s' =>
      have := Along.decidable s' as
      decidable_of_iff (ok s a ∧ Along step ok s' as)
        ⟨fun hok => ⟨hok.1, fun _ hs => Option.some.inj (h.symm.trans hs) ▸ hok.2⟩,
          fun hok => ⟨hok.1, hok.2 s' h⟩⟩

/-- What an admissible step preserves if it returns holds after a run of such steps that returns. -/
theorem Along.runOpt_invariant (hinv : ∀ s a s', inv s → ok s a → step s a = some s' → inv s') {s s' : σ}
    (hs : inv s) {as : List α} (has : Along step ok s as) (hr : runOpt step s as = some s') : inv s' := by
  induction as generalizing s with
  | nil =>
    cases hr
    exact hs
  | cons a as ih =>
    obtain ⟨s₁, hstep, hrest⟩ := Option.bind_eq_some_iff.mp hr
    exact ih (hinv s a s₁ hs has.1 hstep) (has.2 s₁ hstep) hrest

theorem Along.of_forall (h : ∀ s a, ok s a) (s : σ) (as : List α) : Along step ok s as := by
  induction as generalizing s with
  | nil => trivial
  | cons a as ih => exact ⟨h s a, fun s' _ => ih s'⟩

/-- What every step that returns preserves holds after a run that returns. -/
theorem runOpt_invariant (hinv : ∀ s a s', inv s → step s a = some s' → inv s') {s s' : σ} (hs : inv s)
    {as : List α} (hr : runOpt step s as = some s') : inv s' :=
  Along.runOpt_invariant (fun s a s' h _ => hinv s a s' h) hs (Along.of_forall (fun _ _ => trivial) s as) hr

/-- When a granted step returns just under a condition, so does a granted run. -/
theorem runOpt_isSome_iff (hinv : ∀ s a s', inv s → granted s a → step s a = some s' → inv s')
    (hret : ∀ s a, inv s → granted s a → ((step s a).isSome = true ↔ ok s a)) {s : σ} (hs : inv s)
    {as : List α} (has : Along step granted s as) :
    (runOpt step s as).isSome = true ↔ Along step ok s as := by
  induction as generalizing s with
  | nil => exact ⟨fun _ => trivial, fun _ => rfl⟩
  | cons a as ih =>
    have hstep := hret s a hs has.1
    rw [runOpt_cons, Along, ← hstep]
    cases hcase : step s a with
    | none => simp
    | some s' =>
      have htail := ih (hinv s a s' hs has.1 hcase) (has.2 s' hcase)
      rw [Option.bind_some, htail]
      simp

theorem runOpt_returns_iff (hret : ∀ s a, (step s a).isSome = true ↔ ok s a) (s : σ) (as : List α) :
    (runOpt step s as).isSome = true ↔ Along step ok s as :=
  @runOpt_isSome_iff _ _ step (fun _ _ => True) ok (fun _ => True) (fun _ _ _ _ _ _ => trivial)
    (fun s a _ _ => hret s a) s trivial as (Along.of_forall (fun _ _ => trivial) s as)

end

/-- The state after a run and the answers of its steps, if all of them return. -/
def answers {β : Type*} (step : σ → α → Option (σ × β)) : σ → List α → Option (σ × List β)
  | s, [] => some (s, [])
  | s, a :: as => (step s a).bind fun x => (answers step x.1 as).map fun y => (y.1, x.2 :: y.2)

/-- Two machines whose related states answer alike and stay related answer alike through runs. -/
theorem answers_simulates {τ β : Type*} {step : σ → α → Option (σ × β)} {step' : τ → α → Option (τ × β)}
    {R : σ → τ → Prop} {P : α → Prop} (hstep : ∀ s t a, R s t → P a →
      ∃ s' t' b, step s a = some (s', b) ∧ step' t a = some (t', b) ∧ R s' t') {s : σ} {t : τ} (h : R s t)
    {as : List α} (has : ∀ a ∈ as, P a) :
    ∃ s' t' bs, answers step s as = some (s', bs) ∧ answers step' t as = some (t', bs) ∧ R s' t' := by
  induction as generalizing s t with
  | nil => exact ⟨s, t, [], rfl, rfl, h⟩
  | cons a as ih =>
    obtain ⟨s₁, t₁, b, hs, ht, h₁⟩ := hstep s t a h (has a (by simp))
    obtain ⟨s₂, t₂, bs, hs₂, ht₂, h₂⟩ := ih h₁ fun a ha => has a (by simp [ha])
    exact ⟨s₂, t₂, b :: bs, by simp [answers, hs, hs₂], by simp [answers, ht, ht₂], h₂⟩

/-- Runs the body over the list; a body that answers `false` ends the loop. -/
def forEach (body : σ → α → σ × Bool) : σ → List α → σ × Bool
  | s, [] => (s, true)
  | s, a :: as =>
    match body s a with
    | (s, true) => forEach body s as
    | (s, false) => (s, false)

variable {body : σ → α → σ × Bool} {as : List α} {inv : σ → Prop} {post : α → σ → Prop}

theorem forEach_inv (hbody : ∀ s, ∀ a ∈ as, inv s → inv (body s a).1) {s : σ} (hs : inv s) :
    inv (forEach body s as).1 := by
  induction as generalizing s with
  | nil => exact hs
  | cons a as ih =>
    have ha := hbody s a (by simp) hs
    rw [forEach]
    cases hb : body s a with
    | mk s' ok =>
      rw [hb] at ha
      cases ok with
      | true => exact ih (fun s a hm => hbody s a (by simp [hm])) ha
      | false => exact ha

/-- What the body achieves for an element and does not undo for another one holds for all of
them when the loop comes to its end. -/
theorem forEach_post (hbody : ∀ s, ∀ a ∈ as, inv s → inv (body s a).1)
    (hpost : ∀ s, ∀ a ∈ as, inv s → (body s a).2 = true → post a (body s a).1)
    (hkeep : ∀ s, ∀ a ∈ as, inv s → ∀ b, b ≠ a → post b s → post b (body s a).1)
    {s : σ} (hs : inv s) (hend : (forEach body s as).2 = true) :
    ∀ b, (b ∈ as ∨ post b s) → post b (forEach body s as).1 := by
  induction as generalizing s with
  | nil => simp [forEach]
  | cons a as ih =>
    intro b hb
    have ha := hbody s a (by simp) hs
    have hdone := hpost s a (by simp) hs
    have hother := hkeep s a (by simp) hs b
    rw [forEach] at hend ⊢
    cases hr : body s a with
    | mk s' ok =>
      rw [hr] at ha hdone hother hend
      cases ok with
      | false => cases hend
      | true =>
        refine ih (fun s a hm => hbody s a (by simp [hm])) (fun s a hm => hpost s a (by simp [hm]))
          (fun s a hm => hkeep s a (by simp [hm])) ha hend b ?_
        by_cases hba : b = a
        · exact .inr (hba ▸ hdone rfl)
        · rcases hb with hb | hb
          · exact .inl (by simpa [hba] using hb)
          · exact .inr (hother hba hb)

section Machine

variable {σ ε : Type*} {step : σ → σ ⊕ ε} {s u u' : σ} {n k : Nat} {e : ε}

def after (step : σ → σ ⊕ ε) : Nat → σ → σ ⊕ ε
  | 0, s => .inl s
  | n + 1, s =>
    match step s with
    | .inl s' => after step n s'
    | .inr e => .inr e

theorem after_succ_of_step (h : step s = .inl u) : after step (n + 1) s = after step n u := by
  rw [after, h]

theorem after_succ_of_end (h : step s = .inr e) : after step (n + 1) s = .inr e := by
  rw [after, h]

theorem after_succ (h : after step n s = .inl u) : after step (n + 1) s = step u := by
  induction n generalizing s with
  | zero =>
    obtain rfl := Sum.inl.inj h
    cases hs : step s with
    | inl u => exact after_succ_of_step hs
    | inr e => exact after_succ_of_end hs
  | succ n ih =>
    cases hs : step s with
    | inl v =>
      rw [after_succ_of_step hs] at h ⊢
      exact ih h
    | inr e =>
      rw [after_succ_of_end hs] at h
      cases h

theorem after_ended (h : after step n s = .inr e) : after step (n + 1) s = .inr e := by
  induction n generalizing s with
  | zero => cases h
  | succ n ih =>
    cases hs : step s with
    | inl v =>
      rw [after_succ_of_step hs] at h ⊢
      exact ih h
    | inr e' =>
      rw [after_succ_of_end hs] at h ⊢
      exact h

theorem after_ended_of_le (h : after step n s = .inr e) (hk : n ≤ k) : after step k s = .inr e := by
  induction hk with
  | refl => exact h
  | step _ ih => exact after_ended ih

theorem after_running_succ (h : after step (n + 1) s = .inl u') :
    ∃ u, after step n s = .inl u ∧ step u = .inl u' := by
  cases hn : after step n s with
  | inl u => exact ⟨u, rfl, after_succ hn ▸ h⟩
  | inr e =>
    rw [after_ended hn] at h
    cases h

theorem ended_at (h : after step n s = .inr e) : ∃ k < n, ∃ u, after step k s = .inl u ∧ step u = .inr e := by
  induction n with
  | zero => cases h
  | succ n ih =>
    cases hn : after step n s with
    | inl u => exact ⟨n, Nat.lt_succ_self n, u, hn, after_succ hn ▸ h⟩
    | inr e' =>
      rw [after_ended hn] at h
      obtain rfl := Sum.inr.inj h
      obtain ⟨k, hk, hu⟩ := ih hn
      exact ⟨k, Nat.lt_succ_of_lt hk, hu⟩

/-- An invariant that a step keeps when it is taken in a state that is `ok`. -/
theorem after_invariant (inv ok : σ → Prop) (hs : inv s)
    (hstep : ∀ u u', inv u → ok u → step u = .inl u' → inv u')
    (hok : ∀ k < n, ∀ u, after step k s = .inl u → ok u) (h : after step n s = .inl u) :
    inv u := by
  induction n generalizing u with
  | zero =>
    obtain rfl := Sum.inl.inj h
    exact hs
  | succ n ih =>
    obtain ⟨v, hv, hvu⟩ := after_running_succ h
    have hinv : inv v := ih (fun k hk => hok k (by omega)) hv
    exact hstep v u hinv (hok n (by omega) v hv) hvu

/-- A machine that can go on from every state of an invariant, and stays in it, never ends. -/
theorem after_progress (inv : σ → Prop) (hstep : ∀ u, inv u → ∃ u', step u = .inl u' ∧ inv u')
    (hs : inv s) (n : Nat) : ∃ u, after step n s = .inl u ∧ inv u := by
  induction n with
  | zero => exact ⟨s, rfl, hs⟩
  | succ n ih =>
    obtain ⟨u, hu, hinv⟩ := ih
    obtain ⟨u', hu', hinv'⟩ := hstep u hinv
    exact ⟨u', by rw [after_succ hu, hu'], hinv'⟩

theorem after_add (h : after step n s = .inl u) : after step (n + k) s = after step k u := by
  induction n generalizing s with
  | zero =>
    obtain rfl := Sum.inl.inj h
    rw [Nat.zero_add]
  | succ n ih =>
    cases hs : step s with
    | inl v =>
      rw [after_succ_of_step hs] at h
      rw [Nat.add_right_comm, after_succ_of_step hs]
      exact ih h
    | inr e =>
      rw [after_succ_of_end hs] at h
      cases h

section Forward

variable {pos : σ → Nat} {bound : Nat} {back : σ → Prop}

theorem pos_of_forward (hforward : ∀ k u u', after step k s = .inl u → step u = .inl u' →
      ¬ back u → pos u < pos u')
    (hn : ∀ k ≥ n, ∀ u, after step k s = .inl u → ¬ back u) :
    ∀ j u, after step (n + j) s = .inl u → j ≤ pos u := by
  intro j
  induction j with
  | zero =>
    intro u _
    exact Nat.zero_le _
  | succ j ih =>
    intro u hu
    obtain ⟨v, hv, hvu⟩ := after_running_succ hu
    have hlt := hforward (n + j) v u hv hvu (hn (n + j) (by omega) v hv)
    have hle := ih v hv
    omega

/-- A run within a bounded range ends exactly when it goes back finitely often. -/
theorem ends_iff_eventually_forward (hbound : ∀ k u, after step k s = .inl u → pos u < bound)
    (hforward : ∀ k u u', after step k s = .inl u → step u = .inl u' → ¬ back u → pos u < pos u') :
    (∃ n e, after step n s = .inr e) ↔ ∃ n, ∀ k ≥ n, ∀ u, after step k s = .inl u → ¬ back u := by
  constructor
  · rintro ⟨n, e, h⟩
    refine ⟨n, fun k hk u hu => ?_⟩
    rw [after_ended_of_le h hk] at hu
    cases hu
  · rintro ⟨n, hn⟩
    cases h : after step (n + bound) s with
    | inl u =>
      have hle := pos_of_forward hforward hn bound u h
      have hlt := hbound _ u h
      omega
    | inr e => exact ⟨n + bound, e, h⟩

end Forward

end Machine

open List

variable {α β σ : Type} {l : List α} {a : α} {f : σ → α → Option σ}

theorem mapM_some {f : α → Option β} {g : α → β} (hf : ∀ a ∈ l, f a = some (g a)) :
    l.mapM f = some (l.map g) := by
  induction l with
  | nil => rfl
  | cons b l ih =>
    have hb := hf b mem_cons_self
    have hl := ih fun c hc => hf c (mem_cons_of_mem _ hc)
    simp [mapM_cons, hb, hl]

theorem mapM_mapIdx_some {γ : Type} {F : Nat → α → γ} {f : γ → Option β} {g : α → β}
    (hf : ∀ i, ∀ a ∈ l, f (F i a) = some (g a)) : (l.mapIdx F).mapM f = some (l.map g) := by
  induction l generalizing F with
  | nil => rfl
  | cons b l ih =>
    have hb := hf 0 b mem_cons_self
    have hl := @ih (fun i => F (i + 1)) fun i c hc => hf (i + 1) c (mem_cons_of_mem _ hc)
    simp [mapIdx_cons, mapM_cons, hb, hl]

theorem mapM_none {f : α → Option β} (ha : a ∈ l) (hf : f a = none) : l.mapM f = none := by
  induction l with
  | nil => cases ha
  | cons b l ih =>
    rcases mem_cons.mp ha with rfl | hl
    · simp [mapM_cons, hf]
    · cases hb : f b <;> simp [mapM_cons, hb, ih hl]

theorem foldlM_some {g : σ → α → σ} (hf : ∀ s, ∀ a ∈ l, f s a = some (g s a))
    (s : σ) : l.foldlM f s = some (l.foldl g s) := by
  induction l generalizing s with
  | nil => rfl
  | cons b l ih =>
    rw [foldlM_cons, hf s b mem_cons_self]
    exact ih (fun s c hc => hf s c (mem_cons_of_mem _ hc)) (g s b)

theorem foldlM_none (ha : a ∈ l) (hf : ∀ s, f s a = none) (s : σ) : l.foldlM f s = none := by
  induction l generalizing s with
  | nil => cases ha
  | cons b l ih =>
    rw [foldlM_cons]
    rcases mem_cons.mp ha with rfl | hl
    · rw [hf s]
      rfl
    · cases f s b with
      | none => rfl
      | some s' => exact ih hl s'

/-- A check before a computation that answers has passed when the answer is no error. -/
theorem ok_of_check {ε : Type} {c : Prop} [Decidable c] {e : ε} {x : Option (Except ε α)}
    (h : (if c then some (.error e) else x) = some (.ok a)) : ¬ c ∧ x = some (.ok a) := by
  by_cases hc : c
  · rw [if_pos hc] at h
    cases h
  · rw [if_neg hc] at h
    exact ⟨hc, h⟩

theorem ok_of_check_state {ε : Type} {c : Prop} [Decidable c] {e : ε} {s s' : σ} {x : Option (Except ε α × σ)}
    (h : (if c then some (.error e, s) else x) = some (.ok a, s')) : ¬ c ∧ x = some (.ok a, s') := by
  by_cases hc : c
  · rw [if_pos hc] at h
    cases h
  · rw [if_neg hc] at h
    exact ⟨hc, h⟩

end AntX.Lib
