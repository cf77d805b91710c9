import AntX.Bpf.ControlFlow

/-! Where the loads and stores of accepted programs go: the verifier follows the text, the run the
jumps. Without jumps the constants that the verifier knows are right. -/

namespace AntX.Bpf

open AntX.Lib BitVec

def BpfEnv.Owns (env : BpfEnv) (x : Nat) : Prop :=
  (env.stack ≤ x ∧ x < env.stack + bpfStackSize) ∨ (env.ctxData ≤ x ∧ x < env.ctxData + env.ctxLen)

def Access.Inside (env : BpfEnv) (a : Access) : Prop :=
  ∀ i < a.size, env.Owns (a.addr + BitVec.ofNat 64 i).toNat

def BpfEnv.pointer (env : BpfEnv) : RegType → Nat
  | .stackPtr => env.stack + bpfStackSize
  | .ctxPtr => env.ctxData
  | _ => 0

theorem effectiveAddr_toNat (insn : BpfInsn) (start i : Nat)
    (h₀ : 0 ≤ start + insn.off.toInt + i) (h₁ : start + insn.off.toInt + i < 2 ^ 64) :
    ((effectiveAddr insn (BitVec.ofNat 64 start) + BitVec.ofNat 64 i).toNat : Int) =
      start + insn.off.toInt + i := by
  rw [effectiveAddr, BitVec.signExtend, ← ofInt_natCast, ← ofInt_natCast,
    ← ofInt_add, ← ofInt_add, toNat_ofInt]
  omega

/-- The offsets that keep an access within what a pointer of the kind points to. -/
def InReach (env : BpfEnv) (kind : RegType) (off : Int) (size : Nat) : Prop :=
  (kind = .stackPtr → -bpfStackSize ≤ off ∧ off + size ≤ 0) ∧
    (kind = .ctxPtr → 0 ≤ off ∧ off + size ≤ env.ctxLen)

theorem inside_of_inReach {env : BpfEnv} {insn : BpfInsn} {kind : RegType} {size : Nat}
    (hk : kind.isPointer) (h : InReach env kind insn.off.toInt size) :
    Access.Inside env ⟨effectiveAddr insn (BitVec.ofNat 64 (env.pointer kind)), size⟩ := by
  intro i hi
  change i < size at hi
  have hstack := env.stack_lt
  have hctx := env.ctx_lt
  simp only [bpfStackSize] at hstack
  rcases hk with rfl | rfl
  · obtain ⟨h₁, h₂⟩ := h.1 rfl
    simp only [bpfStackSize] at h₁
    have haddr := effectiveAddr_toNat insn (env.stack + 512) i (by omega) (by omega)
    left
    simp only [BpfEnv.pointer, bpfStackSize]
    omega
  · obtain ⟨h₁, h₂⟩ := h.2 rfl
    have haddr := effectiveAddr_toNat insn env.ctxData i (by omega) (by omega)
    right
    simp only [BpfEnv.pointer]
    omega

section

variable (p : BpfProg) (env : BpfEnv) (s : BpfState)

/-- What the verifier leaves open about the next instruction: an access is in reach of its
pointer, a 32-bit move copies no wider pointer, a call does not overwrite a known pointer with
its result, and a jump leads to a place where the verifier knows no other pointers. -/
structure Careful (insn : BpfInsn) (v : VerifyState) :
    Prop where
  stack : ∀ size, insn.accessSize = some size → (v.regs insn.base).type = .stackPtr →
    (insn.isStore → -bpfStackSize ≤ insn.off.toInt) ∧ insn.off.toInt + size ≤ 0
  ctx : ∀ size, insn.accessSize = some size → (v.regs insn.base).type = .ctxPtr →
    0 ≤ insn.off.toInt ∧ insn.off.toInt + size ≤ env.ctxLen
  move : insn.isMove → insn.insnClass = Opcode.alu → (v.regs insn.src).type.isPointer →
    (s.regs insn.src).toNat < 2 ^ 32
  call : insn.isCall → ¬ (v.regs 0).type.isPointer
  jump : insn.isBranch → insn.taken s.regs → ∀ v', passState p (jumpPc insn s.pc) = .ok v' →
    ∀ r, (v'.regs r).type.isPointer → (v'.regs r).type = (v.regs r).type

def CarefulStep : Prop :=
  ∀ insn v, p.insns[s.pc]? = some insn → passState p s.pc = .ok v → Careful p env s insn v

structure Tracked : Prop where
  pc_lt : s.pc < p.insnCnt
  pointers : ∀ v, passState p s.pc = .ok v → ∀ r, (v.regs r).type.isPointer →
    s.regs r = BitVec.ofNat 64 (env.pointer (v.regs r).type)
  inside : ∀ a ∈ s.touched, a.Inside env

end

theorem tracked_start {p : BpfProg} (h : Accepted p) (env : BpfEnv) : Tracked p env env.start := by
  refine ⟨h.nonempty, ?_, ?_⟩
  · intro v hv r hr
    obtain rfl : VerifyState.initial = v := Except.ok.inj hv
    by_cases h₁ : r = 1
    · subst h₁
      rfl
    · by_cases h₁₀ : r = 10
      · subst h₁₀
        rfl
      · simp [VerifyState.initial, h₁, h₁₀, RegState.new, RegType.isPointer] at hr
  · intro a ha
    cases ha

section Step

variable {p : BpfProg} {env : BpfEnv} {s s' : BpfState} {insn : BpfInsn} {v v' : VerifyState}

theorem Checked.base_isPointer (hck : Checked p.insnCnt s.pc insn v v') {size : Nat}
    (h : insn.accessSize = some size) : (v.regs insn.base).type.isPointer := by
  unfold BpfInsn.accessSize at h
  unfold BpfInsn.base
  by_cases hst : insn.isStore
  · rw [if_pos hst]
    exact hck.store hst
  · rw [if_neg hst] at h ⊢
    exact (hck.load (loadSize_class h)).1

theorem Checked.inReach (hck : Checked p.insnCnt s.pc insn v v') (hc : Careful p env s insn v)
    {size : Nat} (h : insn.accessSize = some size) :
    InReach env (v.regs insn.base).type insn.off.toInt size := by
  refine ⟨fun hk => ?_, hc.ctx size h⟩
  obtain ⟨hlow, hhigh⟩ := hc.stack size h hk
  refine ⟨?_, hhigh⟩
  unfold BpfInsn.accessSize at h
  unfold BpfInsn.base at hk
  by_cases hst : insn.isStore
  · exact hlow hst
  · rw [if_neg hst] at h hk
    exact (hck.load (loadSize_class h)).2 hk

section

variable (h : Tracked p env s) (hv : passState p s.pc = .ok v)
  (hck : Checked p.insnCnt s.pc insn v v') (hstep : Stepped insn s s')

include h hv hck hstep

theorem Tracked.inside_step (hc : Careful p env s insn v) : ∀ a ∈ s'.touched, a.Inside env := by
  intro a ha
  rcases hstep.touched with heq | ⟨size, hsize, heq⟩
  · rw [heq] at ha
    exact h.inside a ha
  · rw [heq] at ha
    rcases List.mem_cons.mp ha with rfl | ha
    · have hp := hck.base_isPointer hsize
      rw [h.pointers v hv insn.base hp]
      exact inside_of_inReach hp (hck.inReach hc hsize)
    · exact h.inside a ha

theorem Tracked.pointer_next (hc : Careful p env s insn v) {r : Nat} (hr : (v'.regs r).type.isPointer) :
    s'.regs r = BitVec.ofNat 64 (env.pointer (v'.regs r).type) := by
  rcases hck.pointer r hr with ⟨htype, hkept⟩ | ⟨hmove, rfl, htype⟩
  · rw [htype] at hr ⊢
    have hcall : insn.isCall → r ≠ 0 := by
      rintro hcall rfl
      exact hc.call hcall hr
    rw [hstep.regs r hkept hcall, h.pointers v hv r hr]
  · rw [htype] at hr ⊢
    rw [hstep.move hmove]
    split_ifs with h64
    · exact h.pointers v hv _ hr
    · have hlow := hc.move hmove (hmove.1.resolve_right h64) hr
      rw [← h.pointers v hv _ hr]
      apply eq_of_toNat_eq
      simp only [toNat_setWidth]
      omega

end

theorem Tracked.pointer_jump (h : Tracked p env s) (hv : passState p s.pc = .ok v)
    (hstep : Stepped insn s s') (hb : insn.isBranch) {u : VerifyState} {r : Nat}
    (hsame : (u.regs r).type = (v.regs r).type) (hr : (u.regs r).type.isPointer) :
    s'.regs r = BitVec.ofNat 64 (env.pointer (u.regs r).type) := by
  rw [hsame] at hr ⊢
  rw [hstep.regs r ?_ fun hcall => absurd hcall.2 hb.2.2, h.pointers v hv r hr]
  rintro (ha | hl)
  · exact absurd hb.1 (insn.families_disjoint.1 ha).2.2
  · exact absurd hb.1 (insn.families_disjoint.2.1 hl).2

theorem Tracked.step (h : Tracked p env s) (ha : Accepted p) (hc : CarefulStep p env s)
    (hs : Bpf.step p env s = .inl s') : Tracked p env s' := by
  obtain ⟨insn, v, v', hi, hv, hv', hck, hstep, hlt⟩ := ha.running h.pc_lt hs
  have hcare := hc insn v hi hv
  refine ⟨hlt, ?_, h.inside_step hv hck hstep hcare⟩
  intro w hw r hr
  by_cases hj : insn.isBranch ∧ insn.taken s.regs
  · rw [hstep.jump hj.1 hj.2] at hw
    exact h.pointer_jump hv hstep hj.1 (hcare.jump hj.1 hj.2 w hw r hr) hr
  · rw [hstep.next hj, hv'] at hw
    obtain rfl := Except.ok.inj hw
    exact h.pointer_next hv hck hstep hcare hr

end Step

/-- In a run of an accepted program whose steps are careful, every load and every store stays
on the stack or in the context data. -/
theorem accesses_confined (p : BpfProg) (h : verify p = .ok ()) (env : BpfEnv) (n : Nat)
    (s : BpfState) (hr : runFor p env n = .inl s)
    (hc : ∀ k < n, ∀ u, runFor p env k = .inl u → CarefulStep p env u) :
    ∀ a ∈ s.touched, a.Inside env := by
  have ha := accepted_of_verify h
  apply Tracked.inside (p := p)
  apply after_invariant (Tracked p env) (CarefulStep p env) (tracked_start ha env) _ hc hr
  intro u u' hu hcare hs
  exact hu.step ha hcare hs

def loadProgram (off : BitVec 16) : BpfProg :=
  ⟨[.new (Opcode.ldx ||| Opcode.mem ||| Opcode.dw) 0 10 off 0, exitInsn], by simp⟩

theorem accesses_confined_top :
    ∃ s, runFor (loadProgram (-8)) sampleEnv 1 = .inl s ∧ s.touched = [⟨0x11f8, 8⟩] ∧
      ∀ a ∈ s.touched, a.Inside sampleEnv := by
  refine ⟨_, rfl, rfl, accesses_confined (loadProgram (-8)) rfl sampleEnv 1 _ rfl ?_⟩
  intro k hk u hu insn v hi hv
  obtain rfl : k = 0 := by omega
  cases hu
  cases hi
  cases hv
  refine ⟨fun size hsize _ => ?_, fun size _ hctx => ?_, fun hm => absurd hm.1 (by decide),
    fun hcall => absurd hcall.1 (by decide), fun hb => absurd hb.1 (by decide)⟩
  · cases hsize
    decide
  · cases hctx

/-- The verifier lets a load begin at the upper end of the stack. -/
theorem load_above_stack : ¬ ∀ (p : BpfProg) (env : BpfEnv) (n : Nat) (s : BpfState), verify p = .ok () →
      runFor p env n = .inl s → ∀ a ∈ s.touched, a.Inside env := by
  intro h
  have hload := h (loadProgram 0) sampleEnv 1 _ rfl rfl ⟨0x1200, 8⟩ (.head _) 0 (by decide)
  revert hload
  unfold BpfEnv.Owns
  decide

open Option

def BpfProg.JumpFree (p : BpfProg) : Prop := ∀ insn ∈ p.insns, ¬ insn.isBranch

def Knows (v : VerifyState) (s : BpfState) : Prop :=
  ∀ r c, (v.regs r).range = some (c, c) → s.regs r = c

/-- What a constant survives: a 32-bit move brings in no more than 32 bits, and a call finds
no constant in `R0`. -/
structure Lossless (insn : BpfInsn) (v : VerifyState) : Prop where
  imm : insn.insnClass = Opcode.alu → insn.opLow = Opcode.mov → insn.usesSrc = false → insn.imm.toNat < 2 ^ 31
  reg : insn.insnClass = Opcode.alu → insn.isMove → ∀ c, (v.regs insn.src).range = some (c, c) →
    c.toNat < 2 ^ 32
  call : insn.isCall → ∀ c, (v.regs 0).range ≠ some (c, c)

variable {p : BpfProg} {env : BpfEnv} {insn : BpfInsn} {v v' : VerifyState} {s s' : BpfState}
  {x y c : BitVec 64}

theorem setWidth_of_lt (h : c.toNat < 2 ^ 32) : (c.setWidth 32).setWidth 64 = c := by
  apply eq_of_toNat_eq
  simp only [toNat_setWidth]
  omega

theorem immU64_lt (h : insn.imm.toNat < 2 ^ 31) : insn.immU64.toNat < 2 ^ 32 := by
  have hmsb : insn.imm.msb = false := by
    rw [msb_eq_decide, decide_eq_false_iff_not]
    omega
  rw [BpfInsn.immU64, signExtend_eq_setWidth_of_msb_false hmsb, toNat_setWidth]
  omega

theorem aluCheckedRange_exact {dstRange srcRange : Option (BitVec 64 × BitVec 64)}
    (h : aluCheckedRange insn.opLow dstRange srcRange insn.usesSrc insn.immU64 = some (some (c, c)))
    (hx : ∀ a, dstRange = some (a, a) → x = a) (hy : ∀ b, srcRange = some (b, b) → y = b) :
    aluResult insn x (if insn.usesSrc then y else insn.immU64) = c := by
  obtain _ | ⟨a, a'⟩ := dstRange
  · cases h
  simp only [aluCheckedRange] at h
  by_cases ha : a = a'
  swap
  · rw [if_pos ha] at h
    cases h
  subst ha
  obtain rfl := hx a rfl
  rw [if_neg (not_not.mpr rfl)] at h
  -- the operand that the verifier computes with is the one of the interpreter
  have hoperand : ∀ b, (if insn.usesSrc then srcRange.bind fun p =>
      if p.1 = p.2 then some p.1 else none else some insn.immU64) = some b →
      (if insn.usesSrc then y else insn.immU64) = b := by
    intro b hb
    split_ifs at hb ⊢ with hsrc
    · obtain ⟨⟨b₀, b₁⟩, hr, hb⟩ := bind_eq_some_iff.mp hb
      simp only at hb
      split_ifs at hb with heq
      cases hb
      exact hy b (heq ▸ hr)
    · exact some.inj hb
  split at h
  · cases h
  · rename_i b hb
    rw [hoperand b hb, aluResult]
    split_ifs at h with hadd _ hsub _ hmul _
    all_goals
      simp only [some.injEq, Prod.mk.injEq, reduceCtorEq] at h
    · rw [if_pos hadd, ← h.1, ofInt_add]
      simp
    · rw [if_neg hadd, if_pos hsub, ← h.1, Int.sub_eq_add_neg, ofInt_add, ofInt_neg]
      simp [sub_eq_add_neg]
    · rw [if_neg hadd, if_neg hsub, if_pos hmul, ← h.1, ofInt_mul]
      simp

theorem step_alu (hc : insn.isAlu) (hi : p.insns[s.pc]? = some insn) (hlt : s.pc < p.insnCnt)
    (hd : insn.dst < bpfRegNum) (hr : insn.src < bpfRegNum) (hs : step p env s = .inl s') :
    s'.regs insn.dst =
      let result := aluResult insn (s.regs insn.dst) (insn.secondOperand s.regs)
      if insn.insnClass = Opcode.alu64 then result else (result.setWidth 32).setWidth 64 := by
  simp only [step, if_pos hlt, hi, if_pos hc, execAlu_eq hd hr, advance] at hs
  cases hs
  exact Function.update_self ..

theorem Knows.alu {state : RegState} (h : Knows v s) (hx : Lossless insn v) (hc : insn.isAlu)
    (hst : AluState insn v state) (hr : state.range = some (c, c)) :
    (let result := aluResult insn (s.regs insn.dst) (insn.secondOperand s.regs)
      if insn.insnClass = Opcode.alu64 then result else (result.setWidth 32).setWidth 64) = c := by
  cases hst with
  | copied hm =>
    have hsrc := h _ _ hr
    simp only [aluResult_mov hm.2.1, BpfInsn.secondOperand, hm.2.2, if_true, hsrc]
    split_ifs with h64
    · rfl
    · exact setWidth_of_lt (hx.reg (hc.resolve_right h64) hm c hr)
  | loaded hmov hsrc =>
    obtain rfl : insn.immU64 = c := by
      simp only [RegState.constValue, some.injEq, Prod.mk.injEq] at hr
      exact hr.1
    simp only [aluResult_mov hmov, BpfInsn.secondOperand, hsrc, Bool.false_eq_true, if_false]
    split_ifs with h64
    · rfl
    · exact setWidth_of_lt (immU64_lt (hx.imm (hc.resolve_right h64) hmov hsrc))
  | computed h64 hrange =>
    simp only [if_pos h64]
    exact aluCheckedRange_exact (hrange.trans (congrArg some hr)) (h _) (h _)
  | unknown => cases hr

theorem Knows.step (h : Knows v s) (hx : Lossless insn v) (hfree : ¬ insn.isBranch)
    (hck : checkInsn p.insnCnt s.pc insn v = .ok v') (hi : p.insns[s.pc]? = some insn)
    (hlt : s.pc < p.insnCnt) (hs : Bpf.step p env s = .inl s') : Knows v' s' ∧ s'.pc = s.pc + 1 := by
  obtain ⟨hd, hr⟩ := (checkInsn_stages hck).1
  obtain ⟨-, he⟩ | ⟨-, u, hu, hstep⟩ := step_spec hd hr env hi hlt
  · rw [he] at hs
    cases hs
  obtain rfl : u = s' := Sum.inl.inj (hu.symm.trans hs)
  refine ⟨fun r c hrange => ?_, hstep.next fun hb => hfree hb.1⟩
  rcases checkInsn_reg hck r with hsc | ⟨hk, hkept⟩ | ⟨hc, rfl, hst⟩
  · rw [hsc] at hrange
    cases hrange
  · rw [hk] at hrange
    rw [hstep.regs r hkept ?_]
    · exact h r c hrange
    · rintro hcall rfl
      exact hx.call hcall c hrange
  · rw [step_alu hc hi hlt hd hr hs]
    exact h.alu hx hc hst hrange

/-- In a run of a jump-free program that was accepted, as long as its instructions lose no
constant, every register the verifier knows after `n` instructions holds its constant. -/
theorem constants_sound (p : BpfProg) (h : verify p = .ok ()) (hfree : p.JumpFree)
    (env : BpfEnv) (n : Nat) (s : BpfState) (hr : runFor p env n = .inl s)
    (hx : ∀ k < n, ∀ insn v, p.insns[k]? = some insn → passState p k = .ok v → Lossless insn v) :
    s.pc = n ∧ ∀ v, passState p n = .ok v → ∀ r c, (v.regs r).range = some (c, c) → s.regs r = c := by
  have ha := accepted_of_verify h
  induction n generalizing s with
  | zero =>
    obtain rfl : env.start = s := Sum.inl.inj hr
    refine ⟨rfl, fun v hv r c hrange => ?_⟩
    obtain rfl : VerifyState.initial = v := Except.ok.inj hv
    simp only [VerifyState.initial] at hrange
    split_ifs at hrange
    cases hrange
  | succ n ih =>
    obtain ⟨u, hu, hs⟩ := after_running_succ hr
    obtain ⟨hpc, hknown⟩ := ih u hu fun k hk => hx k (by omega)
    have hlt : u.pc < p.insnCnt := by
      by_contra hend
      rw [step, if_neg hend] at hs
      cases hs
    have hlen : u.pc < p.insns.length := p.insnCnt_eq ▸ hlt
    have hi : p.insns[u.pc]? = some p.insns[u.pc] := List.getElem?_eq_getElem hlen
    obtain ⟨v, v', hv, hck, hv'⟩ := ha.pass hi
    rw [hpc] at hv hv'
    have hknows : Knows v u := hknown v hv
    have hstep := hknows.step (hx n (by omega) _ v (hpc ▸ hi) hv) (hfree _ (List.getElem_mem hlen))
      hck hi hlt hs
    refine ⟨by rw [hstep.2, hpc], fun w hw => ?_⟩
    obtain rfl : v' = w := Except.ok.inj (hv'.symm.trans hw)
    exact hstep.1

def moveProgram (insnClass : BitVec 8) (imm : BitVec 32) : BpfProg :=
  ⟨[.new (insnClass ||| Opcode.mov) 1 0 0 imm, exitInsn], by simp⟩

theorem moveProgram_jumpFree {insnClass : BitVec 8}
    (h : insnClass = Opcode.alu ∨ insnClass = Opcode.alu64) (imm : BitVec 32) :
    (moveProgram insnClass imm).JumpFree := by
  intro insn hi hb
  simp only [moveProgram, List.mem_cons, List.not_mem_nil, or_false] at hi
  rcases hi with rfl | rfl
  · rcases h with rfl | rfl <;> exact absurd hb.1 (by simp [BpfInsn.insnClass, BpfInsn.new])
  · exact hb.2.1 rfl

theorem constants_sound_negative :
    ∃ s, runFor (moveProgram Opcode.alu64 (-1)) sampleEnv 1 = .inl s ∧ s.regs 1 = -1 := by
  refine ⟨_, rfl, (constants_sound (moveProgram Opcode.alu64 (-1)) rfl (moveProgram_jumpFree (.inr rfl) _)
    sampleEnv 1 _ rfl ?_).2 _ rfl 1 _ rfl⟩
  intro k hk insn v hi hv
  obtain rfl : k = 0 := by omega
  cases hi
  refine ⟨fun hc => absurd hc (by decide), fun hc => absurd hc (by decide), fun hc => ?_⟩
  exact absurd hc.1 (by decide)

/-- A 32-bit move of -1 is tracked with 64 bits. -/
theorem short_move_mistracked :
    ¬ ∀ (p : BpfProg) (env : BpfEnv) (n : Nat) (s : BpfState) (v : VerifyState) (r : Nat)
      (c : BitVec 64), verify p = .ok () → p.JumpFree → runFor p env n = .inl s →
      passState p n = .ok v → (v.regs r).range = some (c, c) → s.regs r = c := by
  intro h
  have hmove := h (moveProgram Opcode.alu (-1)) sampleEnv 1 _ _ 1 (-1) rfl
    (moveProgram_jumpFree (.inl rfl) _) rfl rfl rfl
  revert hmove
  decide

end AntX.Bpf
