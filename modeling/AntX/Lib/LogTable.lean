import Mathlib.Logic.Function.Iterate

/-! Multiplication by tables of powers and logarithms of a generator; what multiplication by the
generator distributes over, all products do. -/

namespace AntX.Lib

structure LogTable (α : Type*) where
  zero : α
  order : Nat
  exp : Nat → α
  log : α → Nat

namespace LogTable

variable {α : Type*} [DecidableEq α] {T : LogTable α} {turn : α → α}

def mul (T : LogTable α) (a b : α) : α :=
  if a = T.zero ∨ b = T.zero then T.zero else T.exp ((T.log a + T.log b) % T.order)

structure Generated (T : LogTable α) (turn : α → α) : Prop where
  pos : 0 < T.order
  exp_ne : ∀ i, i < T.order → T.exp i ≠ T.zero
  log_exp : ∀ i, i < T.order → T.log (T.exp i) = i
  exp_log : ∀ x, x ≠ T.zero → T.log x < T.order ∧ T.exp (T.log x) = x
  step : ∀ i, i < T.order → T.exp ((i + 1) % T.order) = turn (T.exp i)
  turn_zero : turn T.zero = T.zero

theorem mul_comm (a b : α) : T.mul a b = T.mul b a := by
  simp only [mul, or_comm, Nat.add_comm]

theorem mul_zero (a : α) : T.mul a T.zero = T.zero := if_pos (.inr rfl)

theorem zero_mul (a : α) : T.mul T.zero a = T.zero := if_pos (.inl rfl)

namespace Generated

variable {a b x y : α} {i j : Nat}

omit [DecidableEq α] in
theorem exp_mod_ne (h : T.Generated turn) (i : Nat) : T.exp (i % T.order) ≠ T.zero :=
  h.exp_ne _ (Nat.mod_lt _ h.pos)

theorem exp_mul_exp (h : T.Generated turn) (i j : Nat) :
    T.mul (T.exp (i % T.order)) (T.exp (j % T.order)) = T.exp ((i + j) % T.order) := by
  have hne : ¬ (T.exp (i % T.order) = T.zero ∨ T.exp (j % T.order) = T.zero) := by
    simp [h.exp_mod_ne]
  rw [mul, if_neg hne, h.log_exp _ (Nat.mod_lt _ h.pos), h.log_exp _ (Nat.mod_lt _ h.pos), ← Nat.add_mod]

omit [DecidableEq α] in
theorem exists_exp (h : T.Generated turn) (ha : a ≠ T.zero) : ∃ i, a = T.exp (i % T.order) := by
  obtain ⟨hlt, hexp⟩ := h.exp_log a ha
  exact ⟨T.log a, by rw [Nat.mod_eq_of_lt hlt, hexp]⟩

theorem mul_assoc (h : T.Generated turn) (a b c : α) : T.mul a (T.mul b c) = T.mul (T.mul a b) c := by
  by_cases ha : a = T.zero
  · simp [ha, zero_mul]
  by_cases hb : b = T.zero
  · simp [hb, zero_mul, mul_zero]
  by_cases hc : c = T.zero
  · simp [hc, mul_zero]
  obtain ⟨i, rfl⟩ := h.exists_exp ha
  obtain ⟨j, rfl⟩ := h.exists_exp hb
  obtain ⟨k, rfl⟩ := h.exists_exp hc
  simp only [h.exp_mul_exp, Nat.add_assoc]

theorem one_mul (h : T.Generated turn) (x : α) : T.mul (T.exp 0) x = x := by
  by_cases hx : x = T.zero
  · rw [hx, mul_zero]
  · obtain ⟨j, rfl⟩ := h.exists_exp hx
    have hone := h.exp_mul_exp 0 j
    rwa [Nat.zero_mod, Nat.zero_add] at hone

theorem exp_mul (h : T.Generated turn) (i : Nat) (x : α) : T.mul (T.exp (i % T.order)) x = turn^[i] x := by
  induction i with
  | zero =>
    exact h.one_mul x
  | succ i ih =>
    rw [Function.iterate_succ_apply', ← ih]
    by_cases hx : x = T.zero
    · rw [hx, mul_zero, mul_zero, h.turn_zero]
    · obtain ⟨j, rfl⟩ := h.exists_exp hx
      have hturn := h.step ((i + j) % T.order) (Nat.mod_lt _ h.pos)
      rw [h.exp_mul_exp, h.exp_mul_exp, ← hturn, Nat.mod_add_mod]
      congr 2
      omega

theorem mul_cancel (h : T.Generated turn) (ha : a ≠ T.zero) (hxy : T.mul a x = T.mul a y) : x = y := by
  obtain ⟨i, rfl⟩ := h.exists_exp ha
  -- The power that completes `i` to a multiple of the order takes the factor away.
  have hback : ∀ z, T.mul (T.exp ((i * (T.order - 1)) % T.order)) (T.mul (T.exp (i % T.order)) z) = z := by
    intro z
    have hsum : i * (T.order - 1) + i = T.order * i := by
      have hpos := h.pos
      rw [Nat.mul_sub, Nat.mul_one, Nat.sub_add_cancel (Nat.le_mul_of_pos_right i hpos), Nat.mul_comm]
    rw [h.mul_assoc, h.exp_mul_exp, hsum, Nat.mul_mod_right]
    exact h.one_mul z
  rw [← hback x, hxy, hback y]

variable {op : α → α → α}

theorem mul_op (h : T.Generated turn) (hop : ∀ x y, turn (op x y) = op (turn x) (turn y))
    (hzero : op T.zero T.zero = T.zero) (a x y : α) :
    T.mul a (op x y) = op (T.mul a x) (T.mul a y) := by
  by_cases ha : a = T.zero
  · rw [ha, zero_mul, zero_mul, zero_mul, hzero]
  · obtain ⟨i, rfl⟩ := h.exists_exp ha
    simp only [h.exp_mul]
    induction i with
    | zero => rfl
    | succ i ih =>
      have hne := h.exp_mod_ne i
      simp only [Function.iterate_succ_apply', ih hne, hop]

theorem mul_foldl (h : T.Generated turn) (hop : ∀ x y, turn (op x y) = op (turn x) (turn y))
    (hzero : op T.zero T.zero = T.zero) {ι : Type*} (a : α) (f : ι → α) (l : List ι) (z : α) :
    T.mul a (l.foldl (fun v c => op v (f c)) z) = l.foldl (fun v c => op v (T.mul a (f c))) (T.mul a z) := by
  induction l generalizing z with
  | nil => rfl
  | cons c l ih =>
    rw [List.foldl_cons, List.foldl_cons, ih, h.mul_op hop hzero]

end Generated

end LogTable

end AntX.Lib
