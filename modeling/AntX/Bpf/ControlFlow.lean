import AntX.Bpf.Verifier

/-! Control flow of accepted programs. A run stays inside the program and ends at an exit, if it
ends: the verifier counts the jumps of the text that go back, not the times they are taken. -/

namespace AntX.Bpf

open AntX.Lib Function Option BpfInsn

namespace BpfInsn

def secondOperand (insn : BpfInsn) (regs : Regs) : BitVec 64 :=
  if insn.usesSrc then regs insn.src else insn.immU64

def taken (insn : BpfInsn) (regs : Regs) : Prop :=
  insn.opLow = Opcode.ja ∨ condTaken insn (regs insn.dst) (insn.secondOperand regs) = true

instance (insn : BpfInsn) (regs : Regs) : Decidable (insn.taken regs) :=
  inferInstanceAs (Decidable (_ ∨ _))

def base (insn : BpfInsn) : Nat := if insn.isStore then insn.dst else insn.src

def accessSize (insn : BpfInsn) : Option Nat :=
  if insn.isStore then some (storeSize insn.op) else loadSize insn.op

end BpfInsn

structure Stepped (insn : BpfInsn) (s s' : BpfState) : Prop where
  next : ¬ (insn.isBranch ∧ insn.taken s.regs) → s'.pc = s.pc + 1
  jump : insn.isBranch → insn.taken s.regs → s'.pc = jumpPc insn s.pc
  regs : ∀ r, (insn.isAlu ∨ insn.isLoad → r ≠ insn.dst) → (insn.isCall → r ≠ 0) → s'.regs r = s.regs r
  move : insn.isMove → s'.regs insn.dst = if insn.insnClass = Opcode.alu64 then s.regs insn.src
    else ((s.regs insn.src).setWidth 32).setWidth 64
  touched : s'.touched = s.touched ∨ ∃ size, insn.accessSize = some size ∧
    s'.touched = ⟨effectiveAddr insn (s.regs insn.base), size⟩ :: s.touched
  mem : s'.mem = s.mem ∨ insn.isStore ∧ effectiveAddr insn (s.regs insn.base) ≠ 0 ∧ ∃ value,
    s'.mem = s.mem.write (effectiveAddr insn (s.regs insn.base)) (storeSize insn.op) value

section Exec

variable {env : BpfEnv} {insn : BpfInsn} {s s' : BpfState}

theorem aluResult_mov (h : insn.opLow = Opcode.mov) (dst src : BitVec 64) : aluResult insn dst src = src := by
  unfold aluResult
  rw [h]
  rfl

theorem loadSize_class {op : BitVec 8} {size : Nat} (h : loadSize op = some size) :
    op &&& 0x07 = Opcode.ldx := by
  have hall : ∀ op : BitVec 8, (loadSize op).isSome = true → op &&& 0x07 = Opcode.ldx := by
    decide +kernel
  exact hall op (by rw [h]; rfl)

theorem operand_eq (hs : insn.src < bpfRegNum) (regs : Regs) :
    operand insn regs = some (insn.secondOperand regs) := by
  unfold operand secondOperand Regs.get
  split_ifs <;> rfl

theorem stepped_call (env : BpfEnv) (hc : insn.isCall) :
    ∃ s', execJmp env insn s = some (some s') ∧ Stepped insn s s' := by
  have hnb : ¬ insn.isBranch := fun hb => hb.2.2 hc.2
  unfold execJmp
  rw [if_neg (by rw [hc.2]; decide), if_neg (by rw [hc.2]; decide), if_pos hc.2]
  refine ⟨_, rfl, fun _ => rfl, fun hb => absurd hb hnb, ?_, ?_, .inl rfl, .inl rfl⟩
  · intro r _ hr
    exact update_of_ne (hr hc) _ _
  · intro hm
    exact absurd hc.1 (insn.families_disjoint.1 hm.1).2.2

variable (hd : insn.dst < bpfRegNum) (hs : insn.src < bpfRegNum)

include hd hs

theorem execAlu_eq : execAlu insn s = some { s with
      regs := update s.regs insn.dst
        (let result := aluResult insn (s.regs insn.dst) (insn.secondOperand s.regs)
         if insn.insnClass = Opcode.alu64 then result else (result.setWidth 32).setWidth 64) } := by
  simp [execAlu, operand_eq hs, Regs.get, Regs.set, hd]

theorem stepped_alu (hc : insn.isAlu) : ∃ s', advance (execAlu insn s) = .inl s' ∧ Stepped insn s s' := by
  have hj := (insn.families_disjoint.1 hc).2.2
  rw [execAlu_eq hd hs]
  refine ⟨_, rfl, fun _ => rfl, fun hb => absurd hb.1 hj, ?_, ?_, .inl rfl, .inl rfl⟩
  · intro r hr _
    exact update_of_ne (hr (.inl hc)) _ _
  · rintro ⟨-, hmov, hsrc⟩
    simp [aluResult_mov hmov, secondOperand, hsrc]

theorem execLd_spec (hl : insn.isLoad) :
    ∃ s₁, execLd insn s = some s₁ ∧ s₁.pc = s.pc ∧ s₁.mem = s.mem ∧ (∀ r ≠ insn.dst, s₁.regs r = s.regs r) ∧
      (s₁.touched = s.touched ∨ ∃ size, insn.accessSize = some size ∧
        s₁.touched = ⟨effectiveAddr insn (s.regs insn.base), size⟩ :: s.touched) := by
  have hset : ∀ value, s.regs.set insn.dst value = some (update s.regs insn.dst value) :=
    fun value => if_pos hd
  have hother : ∀ value, ∀ r ≠ insn.dst, update s.regs insn.dst value r = s.regs r :=
    fun value r hr => update_of_ne hr _ _
  have hst : ¬ insn.isStore := (insn.families_disjoint.2.1 hl).1
  unfold execLd
  split_ifs with himm habs
  iterate 2
    · rw [hset]
      exact ⟨_, rfl, rfl, rfl, hother _, .inl rfl⟩
  · cases hsize : loadSize insn.op with
    | none => exact ⟨s, rfl, rfl, rfl, fun _ _ => rfl, .inl rfl⟩
    | some size =>
      have hbase : s.regs.get insn.src = some (s.regs insn.base) := by
        rw [Regs.get, if_pos hs, base, if_neg hst]
      simp only [hbase, bind_eq_bind, bind_some]
      split_ifs with hnull
      · rw [hset]
        exact ⟨_, rfl, rfl, rfl, hother _, .inr ⟨size, by rw [accessSize, if_neg hst, hsize], rfl⟩⟩
      · exact ⟨s, rfl, rfl, rfl, fun _ _ => rfl, .inl rfl⟩

theorem stepped_load (hc : insn.isLoad) : ∃ s', advance (execLd insn s) = .inl s' ∧ Stepped insn s s' := by
  have hj := (insn.families_disjoint.2.1 hc).2
  obtain ⟨s₁, he, hpc, hmem, hregs, htouched⟩ := execLd_spec (s := s) hd hs hc
  rw [he]
  refine ⟨_, rfl, fun _ => congrArg (· + 1) hpc, fun hb => absurd hb.1 hj, ?_, ?_, htouched, .inl hmem⟩
  · intro r hr _
    exact hregs r (hr (.inr hc))
  · intro hm
    exact absurd hc (insn.families_disjoint.1 hm.1).1

theorem stepped_store (hc : insn.isStore) : ∃ s', advance (execSt insn s) = .inl s' ∧ Stepped insn s s' := by
  obtain ⟨dalu, dload, dstore⟩ := insn.families_disjoint
  have hbase : s.regs.get insn.dst = some (s.regs insn.base) := by
    rw [Regs.get, if_pos hd, base, if_pos hc]
  obtain ⟨value, hvalue⟩ : ∃ value, storeValue insn s.regs = some value := by
    unfold storeValue
    split_ifs
    · exact ⟨_, rfl⟩
    · exact ⟨_, if_pos hs⟩
  have hsize : insn.accessSize = some (storeSize insn.op) := if_pos hc
  unfold execSt
  simp only [hbase, hvalue, bind_eq_bind, bind_some]
  split_ifs with hnull
  · exact ⟨_, rfl, fun _ => rfl, fun hb => absurd hb.1 (dstore hc), fun _ _ _ => rfl,
      fun hm => absurd hc (dalu hm.1).2.1, .inr ⟨_, hsize, rfl⟩, .inr ⟨hc, hnull, value, rfl⟩⟩
  · exact ⟨_, rfl, fun _ => rfl, fun hb => absurd hb.1 (dstore hc), fun _ _ _ => rfl,
      fun hm => absurd hc (dalu hm.1).2.1, .inl rfl, .inl rfl⟩

theorem execJmp_branch (hb : insn.isBranch) : execJmp env insn s = some (some { s with
      pc := if insn.taken s.regs then jumpPc insn s.pc else s.pc + 1 }) := by
  obtain ⟨-, hexit, hcall⟩ := hb
  unfold execJmp taken
  by_cases hja : insn.opLow = Opcode.ja
  · simp [hja]
  · have hdst : s.regs.get insn.dst = some (s.regs insn.dst) := if_pos hd
    rw [if_neg hja, if_neg hexit, if_neg hcall, hdst, operand_eq hs]
    simp only [bind_eq_bind, bind_some, pure_def, hja, false_or]

theorem stepped_branch (env : BpfEnv) (hb : insn.isBranch) :
    ∃ s', execJmp env insn s = some (some s') ∧ Stepped insn s s' := by
  rw [execJmp_branch hd hs hb]
  refine ⟨_, rfl, ?_, ?_, fun _ _ _ => rfl, ?_, .inl rfl, .inl rfl⟩
  · intro hn
    exact if_neg fun ht => hn ⟨hb, ht⟩
  · intro _ ht
    exact if_pos ht
  · intro hm
    exact absurd hb.1 (insn.families_disjoint.1 hm.1).2.2

theorem step_spec {p : BpfProg} (env : BpfEnv) (hi : p.insns[s.pc]? = some insn) (hlt : s.pc < p.insnCnt) :
    insn.isExit ∧ step p env s = .inr (.exit (s.regs 0)) ∨
    ¬ insn.isExit ∧ ∃ s', step p env s = .inl s' ∧ Stepped insn s s' := by
  obtain ⟨dalu, dload, dstore⟩ := insn.families_disjoint
  simp only [step, if_pos hlt, hi]
  rcases insn.class_cases with hc | hc | hc | hc
  · rw [if_pos hc]
    exact .inr ⟨fun he => (dalu hc).2.2 he.1, stepped_alu hd hs hc⟩
  · rw [if_neg fun ha => (dalu ha).1 hc, if_pos hc]
    exact .inr ⟨fun he => (dload hc).2 he.1, stepped_load hd hs hc⟩
  · rw [if_neg fun ha => (dalu ha).2.1 hc, if_neg fun hl => (dload hl).1 hc, if_pos hc]
    exact .inr ⟨fun he => dstore hc he.1, stepped_store hd hs hc⟩
  · rw [if_neg fun ha => (dalu ha).2.2 hc, if_neg fun hl => (dload hl).2 hc,
      if_neg fun hst => dstore hst hc, if_pos hc]
    rcases isJmp.cases hc with he | hcall | hb
    · rw [execJmp, if_neg (by rw [he.2]; decide), if_pos he.2]
      exact .inl ⟨he, rfl⟩
    · obtain ⟨s', hj, hstep⟩ := stepped_call (s := s) env hcall
      rw [hj]
      exact .inr ⟨fun he => absurd (he.2.symm.trans hcall.2) (by decide), s', rfl, hstep⟩
    · obtain ⟨s', hj, hstep⟩ := stepped_branch (s := s) hd hs env hb
      rw [hj]
      exact .inr ⟨fun he => hb.2.1 he.2, s', rfl, hstep⟩

end Exec

section Step

variable {p : BpfProg} {s s' : BpfState} {insn : BpfInsn} {n : Nat}

theorem Accepted.last_isExit (h : Accepted p) (hi : p.insns[n]? = some insn)
    (hn : n + 1 = p.insnCnt) : insn.isExit := by
  have hlast : p.insns.getLast? = some insn := by
    rw [List.getLast?_eq_getElem?, ← p.insnCnt_eq, ← hn, Nat.add_sub_cancel, hi]
  have hop := h.last insn hlast
  refine ⟨.inl ?_, ?_⟩
  · rw [BpfInsn.insnClass, hop]
    decide
  · rw [BpfInsn.opLow, hop]
    decide

theorem jumpPc_eq (h₀ : 0 ≤ insn.target n) (h₁ : insn.target n < p.insnCnt) :
    (jumpPc insn n : Int) = insn.target n := by
  have hcnt : p.insnCnt < 2 ^ 32 := Nat.mod_lt _ (by decide)
  unfold jumpPc
  omega

theorem Accepted.step (h : Accepted p) (env : BpfEnv) (hlt : s.pc < p.insnCnt) :
    ∃ insn v v', p.insns[s.pc]? = some insn ∧ passState p s.pc = .ok v ∧
      passState p (s.pc + 1) = .ok v' ∧ Checked p.insnCnt s.pc insn v v' ∧
      (insn.isExit ∧ Bpf.step p env s = .inr (.exit (s.regs 0)) ∨
        ∃ s', Bpf.step p env s = .inl s' ∧ Stepped insn s s' ∧ s'.pc < p.insnCnt) := by
  have hlen := hlt
  rw [p.insnCnt_eq] at hlen
  have hi := List.getElem?_eq_getElem hlen
  obtain ⟨v, v', hv, hc, hv'⟩ := h.pass hi
  have hck := checkInsn_ok hc
  refine ⟨_, v, v', hi, hv, hv', hck, ?_⟩
  rcases step_spec hck.dst_lt hck.src_lt env hi hlt with he | ⟨hne, s', hs', hstep⟩
  · exact .inl he
  · refine .inr ⟨s', hs', hstep, ?_⟩
    by_cases hj : (p.insns[s.pc]).isBranch ∧ (p.insns[s.pc]).taken s.regs
    · obtain ⟨h₀, h₁⟩ := hck.branch hj.1
      have hpc := jumpPc_eq h₀ h₁
      rw [hstep.jump hj.1 hj.2]
      omega
    · have hlast : s.pc + 1 ≠ p.insnCnt := fun heq => hne (h.last_isExit hi heq)
      rw [hstep.next hj]
      omega

theorem Accepted.running (h : Accepted p) {env : BpfEnv} (hlt : s.pc < p.insnCnt)
    (hs : Bpf.step p env s = .inl s') :
    ∃ insn v v', p.insns[s.pc]? = some insn ∧ passState p s.pc = .ok v ∧
      passState p (s.pc + 1) = .ok v' ∧ Checked p.insnCnt s.pc insn v v' ∧
      Stepped insn s s' ∧ s'.pc < p.insnCnt := by
  obtain ⟨insn, v, v', hi, hv, hv', hck, ⟨-, he⟩ | ⟨u, hu, hstep⟩⟩ := h.step env hlt
  · rw [he] at hs
    cases hs
  · rw [hu] at hs
    cases hs
    exact ⟨insn, v, v', hi, hv, hv', hck, hstep⟩

theorem Accepted.pc_lt (h : Accepted p) {env : BpfEnv} (hr : runFor p env n = .inl s) : s.pc < p.insnCnt := by
  refine after_invariant (fun s => s.pc < p.insnCnt) (fun _ => True) h.nonempty ?_ (fun _ _ _ _ => trivial) hr
  intro u u' hu _ hstep
  obtain ⟨insn, v, v', -, -, -, -, -, hlt⟩ := h.running hu hstep
  exact hlt

theorem Accepted.ends_at_exit (h : Accepted p) {env : BpfEnv} {e : BpfEnd} (hr : runFor p env n = .inr e) :
    ∃ k < n, ∃ s insn, runFor p env k = .inl s ∧ p.insns[s.pc]? = some insn ∧ insn.isExit ∧
      Bpf.step p env s = .inr e ∧ e = .exit (s.regs 0) := by
  obtain ⟨k, hk, s, hs, hend⟩ := ended_at hr
  obtain ⟨insn, v, v', hi, -, -, -, ⟨hexit, hstep⟩ | ⟨s', hstep, -⟩⟩ := h.step env (h.pc_lt hs)
  · rw [hstep] at hend
    cases hend
    exact ⟨k, hk, s, insn, hs, hi, hexit, hstep, rfl⟩
  · rw [hstep] at hend
    cases hend

end Step

def sampleEnv : BpfEnv where
  stack := 0x1000
  ctxData := 0x5000
  ctxLen := 64
  stack_lt := by decide
  ctx_lt := by decide
  mem := fun _ => 0
  maps := fun _ => none
  clock := fun n => BitVec.ofNat 64 n
  cpu := 0

def exitInsn : BpfInsn := .new (Opcode.jmp ||| Opcode.exit) 0 0 0 0

def clockProgram : BpfProg :=
  ⟨[.new (Opcode.jmp ||| Opcode.call) 0 0 0 HelperId.ktimeGetNs, exitInsn], by decide⟩

/-- The next instruction is a jump that is taken, to itself or to an earlier instruction. -/
def GoesBack (p : BpfProg) (s : BpfState) : Prop :=
  ∃ insn, p.insns[s.pc]? = some insn ∧ insn.isBranch ∧ insn.taken s.regs ∧ insn.target s.pc ≤ s.pc

theorem Accepted.forward {p : BpfProg} (h : Accepted p) {env : BpfEnv} {s s' : BpfState}
    (hlt : s.pc < p.insnCnt) (hs : Bpf.step p env s = .inl s') (hback : ¬ GoesBack p s) :
    s.pc < s'.pc := by
  obtain ⟨insn, v, v', hi, -, -, hck, hstep, -⟩ := h.running hlt hs
  by_cases hj : insn.isBranch ∧ insn.taken s.regs
  · obtain ⟨h₀, h₁⟩ := hck.branch hj.1
    have hpc := jumpPc_eq h₀ h₁
    have hfar : ¬ insn.target s.pc ≤ s.pc := fun hle => hback ⟨insn, hi, hj.1, hj.2, hle⟩
    rw [hstep.jump hj.1 hj.2]
    omega
  · rw [hstep.next hj]
    exact Nat.lt_succ_self _

/-- An accepted program reaches its exit exactly when it jumps back finitely often. -/
theorem terminates_iff (p : BpfProg) (h : verify p = .ok ()) (env : BpfEnv) :
    (∃ n r₀, runFor p env n = .inr (.exit r₀)) ↔
      ∃ n, ∀ k ≥ n, ∀ s, runFor p env k = .inl s → ¬ GoesBack p s := by
  have ha := accepted_of_verify h
  have hends : (∃ n e, runFor p env n = .inr e) ↔
      ∃ n, ∀ k ≥ n, ∀ s, runFor p env k = .inl s → ¬ GoesBack p s :=
    ends_iff_eventually_forward (fun k u hu => ha.pc_lt hu)
      fun k u u' hu hs hb => ha.forward (ha.pc_lt hu) hs hb
  refine Iff.trans ?_ hends
  constructor
  · rintro ⟨n, r₀, he⟩
    exact ⟨n, _, he⟩
  · rintro ⟨n, e, he⟩
    obtain ⟨k, -, s, insn, -, -, -, -, rfl⟩ := ha.ends_at_exit he
    exact ⟨n, _, he⟩

def jumpProgram (off : BitVec 16) : BpfProg :=
  ⟨[.new (Opcode.jmp ||| Opcode.ja) 0 0 off 0, exitInsn], by simp⟩

theorem terminates_forward : ∃ n r₀, runFor (jumpProgram 0) sampleEnv n = .inr (.exit r₀) := by
  apply (terminates_iff (jumpProgram 0) rfl sampleEnv).mpr
  refine ⟨0, fun k _ s _ => ?_⟩
  rintro ⟨insn, hi, hb, -, hback⟩
  rcases hpc : s.pc with _ | _ | pc
  · rw [hpc] at hi hback
    cases hi
    exact absurd hback (by decide)
  · rw [hpc] at hi
    cases hi
    exact hb.2.1 rfl
  · rw [hpc] at hi
    cases hi

theorem self_jump_runs_on : ¬ ∀ (p : BpfProg) (env : BpfEnv), verify p = .ok () →
      ∃ n r₀, runFor p env n = .inr (.exit r₀) := by
  intro h
  obtain ⟨n, r₀, hn⟩ := h (jumpProgram (-1)) sampleEnv rfl
  have hself : step (jumpProgram (-1)) sampleEnv sampleEnv.start = .inl sampleEnv.start := rfl
  have hstays : ∀ n, runFor (jumpProgram (-1)) sampleEnv n = .inl sampleEnv.start := by
    intro n
    induction n with
    | zero => rfl
    | succ n ih => exact (after_succ_of_step hself).trans ih
  rw [hstays n] at hn
  cases hn

/-- The next instruction does not write the frame pointer, as arithmetic and loads can. -/
def KeepsFrame (p : BpfProg) (s : BpfState) : Prop :=
  ∀ insn, p.insns[s.pc]? = some insn → insn.isAlu ∨ insn.isLoad → insn.dst ≠ 10

/-- The verifier guards R10 in stores only, so the arithmetic and the loads of the run have to leave it alone. -/
theorem frame_pointer_kept (p : BpfProg) (h : verify p = .ok ()) (env : BpfEnv) (n : Nat)
    (s : BpfState) (hr : runFor p env n = .inl s)
    (hk : ∀ k < n, ∀ u, runFor p env k = .inl u → KeepsFrame p u) :
    s.regs 10 = env.start.regs 10 := by
  have ha := accepted_of_verify h
  refine after_invariant (fun u => u.regs 10 = env.start.regs 10)
    (fun u => u.pc < p.insnCnt ∧ KeepsFrame p u) rfl ?_ ?_ hr
  · rintro u u' hu ⟨hlt, hkeeps⟩ hs
    obtain ⟨insn, v, v', hi, -, -, -, hstep, -⟩ := ha.running hlt hs
    rw [hstep.regs 10 (fun hw => (hkeeps insn hi hw).symm) fun _ => by decide, hu]
  · intro k hkn u hu
    exact ⟨ha.pc_lt hu, hk k hkn u hu⟩

theorem frame_pointer_kept_clock : ∃ s, runFor clockProgram sampleEnv 1 = .inl s ∧
    s.regs 10 = sampleEnv.start.regs 10 := by
  refine ⟨_, rfl, frame_pointer_kept clockProgram rfl sampleEnv 1 _ rfl ?_⟩
  intro k hk u hu insn hi
  obtain rfl : k = 0 := by omega
  cases hu
  cases hi
  decide

/-- The verifier refuses stores through the frame pointer, which do not write it, and lets a move
to it pass. -/
theorem move_to_frame_pointer_accepted :
    ¬ ∀ (p : BpfProg) (env : BpfEnv) (n : Nat) (s : BpfState), verify p = .ok () →
      runFor p env n = .inl s → s.regs 10 = env.start.regs 10 := by
  intro h
  have hmove := h ⟨[.new (Opcode.alu64 ||| Opcode.mov) 10 0 0 0, exitInsn], by decide⟩ sampleEnv 1 _
    rfl rfl
  revert hmove
  decide

end AntX.Bpf
