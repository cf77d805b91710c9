import AntX.Bpf.Interp

/-! `StandardBpfVerifier`, `services/debug/ebpf_verifier.rs`: one pass in the order of the text. Each
instruction of an accepted program passed its check in the state built before it. -/

namespace AntX.Bpf

open Function

inductive RegType where
  | notInit
  | scalar
  | stackPtr
  | ctxPtr
deriving DecidableEq, Repr

def RegType.debug : RegType → String
  | notInit => "NotInit"
  | scalar => "Scalar"
  | stackPtr => "StackPtr"
  | ctxPtr => "CtxPtr"

structure RegState where
  type : RegType
  range : Option (BitVec 64 × BitVec 64)
deriving DecidableEq, Repr

namespace RegState

def new : RegState := ⟨.notInit, none⟩
def scalar : RegState := ⟨.scalar, none⟩
def constValue (v : BitVec 64) : RegState := ⟨.scalar, some (v, v)⟩
def withRange (range : Option (BitVec 64 × BitVec 64)) : RegState := ⟨.scalar, range⟩

end RegState

def helperMinArgs (id : BitVec 32) : Nat :=
  if id = HelperId.mapUpdateElem then 3
  else if id = HelperId.mapLookupElem ∨ id = HelperId.mapDeleteElem then 2
  else if id = HelperId.tracePrintk then 1
  else 0

def isValidHelper (id : BitVec 32) : Bool :=
  id == HelperId.tracePrintk || id == HelperId.ktimeGetNs || id == HelperId.getSmpProcessor ||
    id == HelperId.mapLookupElem || id == HelperId.mapUpdateElem || id == HelperId.mapDeleteElem

/-- The outer `none` is an overflow, the inner one an unknown result. -/
def aluCheckedRange (opLow : BitVec 8) (dstRange srcRange : Option (BitVec 64 × BitVec 64))
    (srcIsReg : Bool) (imm : BitVec 64) : Option (Option (BitVec 64 × BitVec 64)) :=
  match dstRange with
  | none => some none
  | some (a₀, a₁) =>
    if a₀ ≠ a₁ then some none
    else
      let operand :=
        if srcIsReg then srcRange.bind fun (b₀, b₁) => if b₀ = b₁ then some b₀ else none
        else some imm
      match operand with
      | none => some none
      | some b =>
        let checked (value : Int) : Option (Option (BitVec 64 × BitVec 64)) :=
          if 0 ≤ value ∧ value < 2 ^ 64 then
            some (some (BitVec.ofInt 64 value, BitVec.ofInt 64 value))
          else none
        if opLow = Opcode.add then checked ((a₀.toNat : Int) + b.toNat)
        else if opLow = Opcode.sub then checked ((a₀.toNat : Int) - b.toNat)
        else if opLow = Opcode.mul then checked ((a₀.toNat : Int) * b.toNat)
        else some none

def bpfMaxPathDepth : Nat := 8

structure VerifyState where
  regs : Nat → RegState
  pathDepth : Nat

def VerifyState.initial : VerifyState :=
  { regs := fun r => if r = 1 then ⟨.ctxPtr, none⟩ else if r = 10 then ⟨.stackPtr, none⟩ else .new
    pathDepth := 0 }

def VerifyState.setReg (v : VerifyState) (r : Nat) (state : RegState) : VerifyState :=
  { v with regs := update v.regs r state }

@[simp] theorem VerifyState.setReg_self (v : VerifyState) (r : Nat) (state : RegState) :
    (v.setReg r state).regs r = state := update_self ..

theorem VerifyState.setReg_of_ne (v : VerifyState) {r q : Nat} (h : q ≠ r) (state : RegState) :
    (v.setReg r state).regs q = v.regs q := update_of_ne h ..

section Checks

variable (cnt pc : Nat) (insn : BpfInsn) (v : VerifyState)

def checkRegNums : Except String Unit :=
  let dst := insn.dst
  let src := insn.src
  if dst ≥ bpfRegNum ∨ src ≥ bpfRegNum then
    throw s!"invalid register at pc={pc}: dst={dst} src={src}"
  else pure ()

def checkFramePointer : Except String Unit :=
  if insn.dst = 10 ∧ insn.isStore then
    throw s!"write to R10 (frame pointer) at pc={pc}"
  else pure ()

def checkInit (r : Nat) : Except String Unit :=
  if (v.regs r).type = .notInit then throw s!"use of uninitialized R{r} at pc={pc}" else pure ()

def checkSrc : Except String Unit := if insn.usesSrc then checkInit pc v insn.src else pure ()

def checkTarget (what : String) : Except String VerifyState :=
  let target := insn.target pc
  if target < 0 ∨ target.toNat ≥ cnt then throw s!"{what} at pc={pc}: target={target}"
  else if target < pc then
    if v.pathDepth + 1 > bpfMaxPathDepth then throw s!"too many backward jumps at pc={pc}"
    else pure { v with pathDepth := v.pathDepth + 1 }
  else pure v

def checkCall : Except String VerifyState :=
  let id := insn.imm.toNat
  if isValidHelper insn.imm = false then throw s!"unknown helper {id} at pc={pc}"
  else if (v.regs 1).type = .notInit then throw s!"helper call at pc={pc} with uninitialized R1"
  else
    match (List.range' 1 (helperMinArgs insn.imm)).find? fun r => (v.regs r).type = .notInit with
    | some argReg => throw s!"helper {id} at pc={pc} requires R{argReg} initialized"
    | none => pure (v.setReg 1 .scalar)

def checkJmp : Except String VerifyState :=
  if insn.isJmp then
    if insn.opLow = Opcode.ja then checkTarget cnt pc insn v "jump out of bounds"
    else if insn.opLow = Opcode.call then checkCall pc insn v
    else if insn.opLow ≠ Opcode.exit then do
      let v ← checkTarget cnt pc insn v "conditional jump OOB"
      checkSrc pc insn v
      checkInit pc v insn.dst
      pure v
    else pure v
  else pure v

def checkAlu : Except String VerifyState :=
  if insn.isAlu then do
    -- also asked of a move, which does not read its destination
    checkInit pc v insn.dst
    if insn.opLow = Opcode.mov then
      if insn.usesSrc then do
        checkInit pc v insn.src
        pure (v.setReg insn.dst (v.regs insn.src))
      else pure (v.setReg insn.dst (.constValue insn.immU64))
    else if insn.insnClass = Opcode.alu64 then do
      checkSrc pc insn v
      match aluCheckedRange insn.opLow (v.regs insn.dst).range (v.regs insn.src).range
          insn.usesSrc insn.immU64 with
      | some range => pure (v.setReg insn.dst (.withRange range))
      | none => throw s!"ALU overflow at pc={pc}"
    else pure (v.setReg insn.dst .scalar)
  else pure v

def checkLd : Except String VerifyState :=
  if insn.insnClass = Opcode.ld then
    let off := insn.off.toInt
    if off < -4096 ∨ off > 4096 then throw s!"LD ctx offset out of range at pc={pc}: off={off}"
    else pure (v.setReg insn.dst .scalar)
  else pure v

def checkLdx : Except String VerifyState :=
  if insn.insnClass = Opcode.ldx then do
    checkInit pc v insn.src
    let off := insn.off.toInt
    let src := insn.src
    let type := (v.regs src).type
    let shown := type.debug
    if type = .stackPtr then
      if off < -bpfStackSize ∨ off > 0 then
        throw s!"stack load offset out of range at pc={pc}: off={off}"
      else pure (v.setReg insn.dst .scalar)
    else if type = .ctxPtr then pure (v.setReg insn.dst .scalar)
    else throw s!"LDX from non-pointer register R{src} at pc={pc}: type={shown}"
  else pure v

def checkStore : Except String Unit :=
  if insn.isStore then
    let dst := insn.dst
    let type := (v.regs dst).type
    let shown := type.debug
    if type = .notInit then throw s!"store to uninitialized R{dst} at pc={pc}"
    else if type = .stackPtr ∨ type = .ctxPtr then
      if insn.insnClass = Opcode.stx then checkInit pc v insn.src else pure ()
    else throw s!"store to invalid pointer type {shown} at pc={pc}"
  else pure ()

def checkInsn : Except String VerifyState := do
  checkRegNums pc insn
  checkFramePointer pc insn
  let v ← checkJmp cnt pc insn v
  let v ← checkAlu pc insn v
  let v ← checkLd pc insn v
  let v ← checkLdx pc insn v
  checkStore pc insn v
  pure v

end Checks

def checkFrom (cnt : Nat) : Nat → List BpfInsn → VerifyState → Except String VerifyState
  | _, [], v => pure v
  | pc, insn :: rest, v =>
    if pc ≥ bpfMaxInsns then pure v
    else do
      let v ← checkInsn cnt pc insn v
      checkFrom cnt (pc + 1) rest v

def verify (p : BpfProg) : Except String Unit :=
  if p.insnCnt = 0 then throw "empty program"
  else if p.insnCnt > bpfMaxInsns then throw "program too large"
  else if p.insns.getLast?.any fun last => last.op != Opcode.jmp ||| Opcode.exit then
    throw "program must end with EXIT"
  else do
    let _ ← checkFrom p.insnCnt 0 p.insns .initial
    pure ()

theorem bind_eq_ok {α β : Type} {x : Except String α} {f : α → Except String β} {b : β}
    (h : (x >>= f) = .ok b) : ∃ a, x = .ok a ∧ f a = .ok b := by
  cases x with
  | error e => cases h
  | ok a => exact ⟨a, rfl, h⟩

def passState (p : BpfProg) (n : Nat) : Except String VerifyState :=
  checkFrom p.insnCnt 0 (p.insns.take n) .initial

variable {insn : BpfInsn} {p : BpfProg} {n r : Nat} {u : Unit}

theorem checkFrom_append {cnt pc : Nat} {insns : List BpfInsn} {v : VerifyState}
    (h : pc + insns.length < bpfMaxInsns) :
    checkFrom cnt pc (insns ++ [insn]) v =
      (checkFrom cnt pc insns v >>= checkInsn cnt (pc + insns.length) insn) := by
  induction insns generalizing pc v with
  | nil =>
    have hpc : ¬ pc ≥ bpfMaxInsns := by simpa using h
    simp only [List.nil_append, checkFrom, if_neg hpc, List.length_nil, Nat.add_zero, pure_bind]
    exact bind_pure _
  | cons x xs ih =>
    rw [List.length_cons] at h
    have hpc : ¬ pc ≥ bpfMaxInsns := by omega
    rw [List.cons_append, checkFrom, checkFrom, if_neg hpc, if_neg hpc, bind_assoc]
    have hrest : ∀ v, checkFrom cnt (pc + 1) (xs ++ [insn]) v =
        (checkFrom cnt (pc + 1) xs v >>= checkInsn cnt (pc + (x :: xs).length) insn) := by
      intro v
      rw [ih (by omega), List.length_cons, Nat.add_right_comm, Nat.add_assoc]
    simp only [hrest]

theorem passState_succ (hcnt : p.insnCnt ≤ bpfMaxInsns) (hi : p.insns[n]? = some insn) :
    passState p (n + 1) = (passState p n >>= checkInsn p.insnCnt n insn) := by
  obtain ⟨hlt, hget⟩ := List.getElem?_eq_some_iff.mp hi
  have hlen : (p.insns.take n).length = n := by simp [Nat.min_eq_left (Nat.le_of_lt hlt)]
  have htake : p.insns.take (n + 1) = p.insns.take n ++ [insn] := by
    rw [List.take_succ_eq_append_getElem hlt, hget]
  rw [p.insnCnt_eq] at hcnt
  rw [passState, htake, checkFrom_append (by omega), hlen, Nat.zero_add]
  rfl

structure Accepted (p : BpfProg) : Prop where
  nonempty : 0 < p.insnCnt
  small : p.insnCnt ≤ bpfMaxInsns
  last : ∀ insn, p.insns.getLast? = some insn → insn.op = Opcode.jmp ||| Opcode.exit
  passed : ∃ v, passState p p.insns.length = .ok v

theorem accepted_of_verify (h : verify p = .ok ()) : Accepted p := by
  unfold verify at h
  by_cases h₁ : p.insnCnt = 0
  · rw [if_pos h₁] at h
    cases h
  by_cases h₂ : p.insnCnt > bpfMaxInsns
  · rw [if_neg h₁, if_pos h₂] at h
    cases h
  split_ifs at h with h₃
  obtain ⟨v, hv, -⟩ := bind_eq_ok h
  refine ⟨Nat.pos_of_ne_zero h₁, Nat.le_of_not_gt h₂, ?_, v, ?_⟩
  · intro insn hlast
    rw [hlast] at h₃
    simpa using h₃
  · rw [passState, List.take_length]
    exact hv

theorem Accepted.passState_ok (h : Accepted p) (hn : n ≤ p.insns.length) : ∃ v, passState p n = .ok v := by
  obtain ⟨k, hk⟩ := Nat.exists_eq_add_of_le hn
  induction k generalizing n with
  | zero =>
    obtain rfl : p.insns.length = n := hk
    exact h.passed
  | succ k ih =>
    have hlt : n < p.insns.length := by omega
    obtain ⟨v, hv⟩ := ih (n := n + 1) hlt (by omega)
    rw [passState_succ h.small (List.getElem?_eq_getElem hlt)] at hv
    obtain ⟨u, hu, -⟩ := bind_eq_ok hv
    exact ⟨u, hu⟩

theorem Accepted.pass (h : Accepted p) (hi : p.insns[n]? = some insn) :
    ∃ v v', passState p n = .ok v ∧ checkInsn p.insnCnt n insn v = .ok v' ∧ passState p (n + 1) = .ok v' := by
  obtain ⟨hlt, -⟩ := List.getElem?_eq_some_iff.mp hi
  obtain ⟨v', hv'⟩ := h.passState_ok hlt
  have hsucc := hv'
  rw [passState_succ h.small hi] at hsucc
  obtain ⟨v, hv, hc⟩ := bind_eq_ok hsucc
  exact ⟨v, v', hv, hc, hv'⟩

namespace BpfInsn

theorem class_cases (insn : BpfInsn) : insn.isAlu ∨ insn.isLoad ∨ insn.isStore ∨ insn.isJmp := by
  have h : ∀ op : BitVec 8, (op &&& 0x07 = Opcode.alu ∨ op &&& 0x07 = Opcode.alu64) ∨
      (op &&& 0x07 = Opcode.ld ∨ op &&& 0x07 = Opcode.ldx) ∨
      (op &&& 0x07 = Opcode.st ∨ op &&& 0x07 = Opcode.stx) ∨
      op &&& 0x07 = Opcode.jmp ∨ op &&& 0x07 = Opcode.jmp32 := by decide +kernel
  exact h insn.op

theorem families_disjoint (insn : BpfInsn) : (insn.isAlu → ¬ insn.isLoad ∧ ¬ insn.isStore ∧ ¬ insn.isJmp) ∧
    (insn.isLoad → ¬ insn.isStore ∧ ¬ insn.isJmp) ∧ (insn.isStore → ¬ insn.isJmp) := by
  simp only [isAlu, isLoad, isStore, isJmp]
  generalize insn.insnClass = c
  revert c
  decide +kernel

theorem isJmp.cases (h : insn.isJmp) : insn.isExit ∨ insn.isCall ∨ insn.isBranch := by
  by_cases he : insn.opLow = Opcode.exit
  · exact .inl ⟨h, he⟩
  · by_cases hc : insn.opLow = Opcode.call
    · exact .inr (.inl ⟨h, hc⟩)
    · exact .inr (.inr ⟨h, he, hc⟩)

end BpfInsn

section Checks

variable {cnt pc : Nat} {insn : BpfInsn} {v v' : VerifyState}

theorem checkRegNums_ok (h : checkRegNums pc insn = .ok u) : insn.dst < bpfRegNum ∧ insn.src < bpfRegNum := by
  unfold checkRegNums at h
  simp only at h
  split_ifs at h with hreg
  simpa [not_or] using hreg

theorem checkTarget_ok {what : String} (h : checkTarget cnt pc insn v what = .ok v') :
    0 ≤ insn.target pc ∧ insn.target pc < cnt ∧ v'.regs = v.regs := by
  unfold checkTarget at h
  simp only at h
  split_ifs at h with hout hback hmany
  all_goals
    cases h
    exact ⟨by omega, by omega, rfl⟩

theorem checkCall_ok (h : checkCall pc insn v = .ok v') :
    isValidHelper insn.imm = true ∧ v' = v.setReg 1 .scalar := by
  unfold checkCall at h
  split_ifs at h with hid hr₁
  split at h
  · cases h
  · cases h
    exact ⟨by simpa using hid, rfl⟩

theorem checkJmp_branch (hb : insn.isBranch) (h : checkJmp cnt pc insn v = .ok v') :
    0 ≤ insn.target pc ∧ insn.target pc < cnt ∧ v'.regs = v.regs := by
  obtain ⟨hjmp, hexit, hcall⟩ := hb
  rw [checkJmp, if_pos hjmp] at h
  by_cases hja : insn.opLow = Opcode.ja
  · rw [if_pos hja] at h
    exact checkTarget_ok h
  · rw [if_neg hja, if_neg hcall, if_pos hexit] at h
    obtain ⟨v₁, htarget, h⟩ := bind_eq_ok h
    obtain ⟨_, -, h⟩ := bind_eq_ok h
    obtain ⟨_, -, h⟩ := bind_eq_ok h
    cases h
    exact checkTarget_ok htarget

theorem checkJmp_call (hc : insn.isCall) (h : checkJmp cnt pc insn v = .ok v') :
    isValidHelper insn.imm = true ∧ v' = v.setReg 1 .scalar := by
  obtain ⟨hjmp, hcall⟩ := hc
  rw [checkJmp, if_pos hjmp, if_neg (by rw [hcall]; decide), if_pos hcall] at h
  exact checkCall_ok h

theorem checkJmp_exit (he : insn.isExit) (h : checkJmp cnt pc insn v = .ok v') : v' = v := by
  obtain ⟨hjmp, hexit⟩ := he
  rw [checkJmp, if_pos hjmp, if_neg (by rw [hexit]; decide), if_neg (by rw [hexit]; decide),
    if_neg (not_not.mpr hexit)] at h
  cases h
  rfl

def RegType.isPointer (t : RegType) : Prop := t = .stackPtr ∨ t = .ctxPtr

theorem RegType.scalar_not_pointer : ¬ RegType.scalar.isPointer := by
  rintro (h | h) <;> cases h

inductive AluState (insn : BpfInsn) (v : VerifyState) : RegState → Prop where
  | copied (h : insn.isMove) : AluState insn v (v.regs insn.src)
  | loaded (hmov : insn.opLow = Opcode.mov) (hsrc : insn.usesSrc = false) :
    AluState insn v (.constValue insn.immU64)
  | computed (h64 : insn.insnClass = Opcode.alu64) {range : Option (BitVec 64 × BitVec 64)}
    (hrange : aluCheckedRange insn.opLow (v.regs insn.dst).range (v.regs insn.src).range
      insn.usesSrc insn.immU64 = some range) : AluState insn v (.withRange range)
  | unknown : AluState insn v .scalar

theorem checkAlu_ok (hc : insn.isAlu) (h : checkAlu pc insn v = .ok v') :
    ∃ state, v' = v.setReg insn.dst state ∧ AluState insn v state := by
  rw [checkAlu, if_pos hc] at h
  obtain ⟨_, -, h⟩ := bind_eq_ok h
  by_cases hmov : insn.opLow = Opcode.mov
  · rw [if_pos hmov] at h
    by_cases hsrc : insn.usesSrc = true
    · rw [if_pos hsrc] at h
      obtain ⟨_, -, h⟩ := bind_eq_ok h
      cases h
      exact ⟨_, rfl, .copied ⟨hc, hmov, hsrc⟩⟩
    · rw [if_neg hsrc] at h
      cases h
      exact ⟨_, rfl, .loaded hmov (Bool.eq_false_iff.mpr hsrc)⟩
  · rw [if_neg hmov] at h
    by_cases h64 : insn.insnClass = Opcode.alu64
    · rw [if_pos h64] at h
      obtain ⟨_, -, h⟩ := bind_eq_ok h
      split at h
      · rename_i range hrange
        cases h
        exact ⟨_, rfl, .computed h64 hrange⟩
      · cases h
    · rw [if_neg h64] at h
      cases h
      exact ⟨_, rfl, .unknown⟩

theorem AluState.of_pointer {state : RegState} (h : AluState insn v state)
    (hp : state.type.isPointer) : insn.isMove ∧ state.type = (v.regs insn.src).type := by
  cases h with
  | copied hm => exact ⟨hm, rfl⟩
  | loaded | computed | unknown => exact absurd hp RegType.scalar_not_pointer

theorem checkLd_ok (hc : insn.insnClass = Opcode.ld) (h : checkLd pc insn v = .ok v') :
    v' = v.setReg insn.dst .scalar := by
  rw [checkLd, if_pos hc] at h
  simp only at h
  split_ifs at h
  cases h
  rfl

theorem checkLdx_ok (hc : insn.insnClass = Opcode.ldx) (h : checkLdx pc insn v = .ok v') :
    v' = v.setReg insn.dst .scalar ∧ (v.regs insn.src).type.isPointer ∧
      ((v.regs insn.src).type = .stackPtr → -bpfStackSize ≤ insn.off.toInt) := by
  rw [checkLdx, if_pos hc] at h
  obtain ⟨_, -, h⟩ := bind_eq_ok h
  simp only at h
  split_ifs at h with hstack hoff hctx
  · cases h
    exact ⟨rfl, .inl hstack, fun _ => by omega⟩
  · cases h
    exact ⟨rfl, .inr hctx, fun hs => by rw [hctx] at hs; cases hs⟩

theorem checkStore_ok (hc : insn.isStore) (h : checkStore pc insn v = .ok u) :
    (v.regs insn.dst).type.isPointer := by
  rw [checkStore, if_pos hc] at h
  simp only at h
  split_ifs at h with hinit hptr
  all_goals exact hptr

structure Checked (cnt pc : Nat) (insn : BpfInsn) (v v' : VerifyState) : Prop where
  dst_lt : insn.dst < bpfRegNum
  src_lt : insn.src < bpfRegNum
  branch : insn.isBranch → 0 ≤ insn.target pc ∧ insn.target pc < cnt
  call : insn.isCall → isValidHelper insn.imm = true
  load : insn.insnClass = Opcode.ldx → (v.regs insn.src).type.isPointer ∧
    ((v.regs insn.src).type = .stackPtr → -bpfStackSize ≤ insn.off.toInt)
  store : insn.isStore → (v.regs insn.dst).type.isPointer
  pointer : ∀ r, (v'.regs r).type.isPointer →
    (v'.regs r).type = (v.regs r).type ∧ (insn.isAlu ∨ insn.isLoad → r ≠ insn.dst) ∨
    insn.isMove ∧ r = insn.dst ∧ (v'.regs r).type = (v.regs insn.src).type

open VerifyState

theorem setReg_scalar_cases (v : VerifyState) (q r : Nat) :
    (v.setReg q .scalar).regs r = .scalar ∨ (v.setReg q .scalar).regs r = v.regs r ∧ r ≠ q := by
  by_cases hr : r = q
  · subst hr
    exact .inl (setReg_self ..)
  · exact .inr ⟨setReg_of_ne v hr _, hr⟩

theorem eq_of_skipped {c : Prop} [Decidable c] {x : Except String VerifyState} (hc : ¬ c)
    (h : (if c then x else pure v) = .ok v') : v' = v := by
  rw [if_neg hc] at h
  cases h
  rfl

theorem checkInsn_stages (h : checkInsn cnt pc insn v = .ok v') :
    (insn.dst < bpfRegNum ∧ insn.src < bpfRegNum) ∧
    ∃ v₁ v₂ v₃, checkJmp cnt pc insn v = .ok v₁ ∧ checkAlu pc insn v₁ = .ok v₂ ∧
      checkLd pc insn v₂ = .ok v₃ ∧ checkLdx pc insn v₃ = .ok v' ∧
      checkStore pc insn v' = .ok () := by
  obtain ⟨_, hregs, h⟩ := bind_eq_ok h
  obtain ⟨_, -, h⟩ := bind_eq_ok h
  obtain ⟨v₁, hjmp, h⟩ := bind_eq_ok h
  obtain ⟨v₂, halu, h⟩ := bind_eq_ok h
  obtain ⟨v₃, hld, h⟩ := bind_eq_ok h
  obtain ⟨v₄, hldx, h⟩ := bind_eq_ok h
  obtain ⟨_, hstore, h⟩ := bind_eq_ok h
  cases h
  exact ⟨checkRegNums_ok hregs, v₁, v₂, v₃, hjmp, halu, hld, hldx, hstore⟩

/-- An instruction meets the check of its family and skips the others. -/
theorem checkInsn_family (h : checkInsn cnt pc insn v = .ok v') : (insn.isAlu → checkAlu pc insn v = .ok v') ∧
    (insn.isLoad → (checkLd pc insn v >>= checkLdx pc insn) = .ok v') ∧
    (insn.isStore → v' = v ∧ checkStore pc insn v' = .ok ()) ∧
    (insn.isJmp → checkJmp cnt pc insn v = .ok v') := by
  obtain ⟨-, v₁, v₂, v₃, hjmp, halu, hld, hldx, hstore⟩ := checkInsn_stages h
  obtain ⟨dalu, dload, dstore⟩ := insn.families_disjoint
  have hload : ¬ insn.isLoad → v' = v₂ := fun hl =>
    (eq_of_skipped (fun hx => hl (.inr hx)) hldx).trans (eq_of_skipped (fun hx => hl (.inl hx)) hld)
  refine ⟨fun hc => ?_, fun hc => ?_, fun hc => ⟨?_, hstore⟩, fun hc => ?_⟩
  · rw [hload (dalu hc).1, ← halu, eq_of_skipped (dalu hc).2.2 hjmp]
  · rw [eq_of_skipped (dload hc).2 hjmp] at halu
    rw [eq_of_skipped (fun ha => (dalu ha).1 hc) halu] at hld
    rw [hld]
    exact hldx
  · rw [hload fun hl => (dload hl).1 hc, eq_of_skipped (fun ha => (dalu ha).2.1 hc) halu,
      eq_of_skipped (dstore hc) hjmp]
  · rw [hjmp, hload fun hl => (dload hl).2 hc, eq_of_skipped (fun ha => (dalu ha).2.2 hc) halu]

theorem checkInsn_ldx (hc : insn.insnClass = Opcode.ldx) (h : checkInsn cnt pc insn v = .ok v') :
    checkLdx pc insn v = .ok v' := by
  obtain ⟨u, hld, hldx⟩ := bind_eq_ok ((checkInsn_family h).2.1 (.inr hc))
  rwa [eq_of_skipped (by rw [hc]; decide) hld] at hldx

theorem checkInsn_load_state (hc : insn.isLoad) (h : checkInsn cnt pc insn v = .ok v') :
    v' = v.setReg insn.dst .scalar := by
  rcases hc with hc | hc
  · obtain ⟨u, hld, hldx⟩ := bind_eq_ok ((checkInsn_family h).2.1 (.inl hc))
    rw [eq_of_skipped (by rw [hc]; decide) hldx, checkLd_ok hc hld]
  · exact (checkLdx_ok hc (checkInsn_ldx hc h)).1

theorem checkInsn_reg (h : checkInsn cnt pc insn v = .ok v') (r : Nat) :
    v'.regs r = .scalar ∨ v'.regs r = v.regs r ∧ (insn.isAlu ∨ insn.isLoad → r ≠ insn.dst) ∨
    insn.isAlu ∧ r = insn.dst ∧ AluState insn v (v'.regs r) := by
  obtain ⟨dalu, dload, -⟩ := insn.families_disjoint
  obtain ⟨halu, -, hstore, hjmp⟩ := checkInsn_family h
  rcases insn.class_cases with hc | hc | hc | hc
  · obtain ⟨state, rfl, hstate⟩ := checkAlu_ok hc (halu hc)
    by_cases hrd : r = insn.dst
    · subst hrd
      rw [setReg_self]
      exact .inr (.inr ⟨hc, rfl, hstate⟩)
    · rw [setReg_of_ne _ hrd]
      exact .inr (.inl ⟨rfl, fun _ => hrd⟩)
  · rw [checkInsn_load_state hc h]
    exact (setReg_scalar_cases v insn.dst r).imp_right fun hk => .inl ⟨hk.1, fun _ => hk.2⟩
  · rw [(hstore hc).1]
    refine .inr (.inl ⟨rfl, fun hw => ?_⟩)
    rcases hw with ha | hl
    · exact absurd hc (dalu ha).2.1
    · exact absurd hc (dload hl).1
  · have hkept : insn.isAlu ∨ insn.isLoad → r ≠ insn.dst := by
      rintro (ha | hl)
      · exact absurd hc (dalu ha).2.2
      · exact absurd hc (dload hl).2
    specialize hjmp hc
    rcases BpfInsn.isJmp.cases hc with he | hcall | hb
    · rw [checkJmp_exit he hjmp]
      exact .inr (.inl ⟨rfl, hkept⟩)
    · rw [(checkJmp_call hcall hjmp).2]
      exact (setReg_scalar_cases v 1 r).imp_right fun hk => .inl ⟨hk.1, hkept⟩
    · rw [(checkJmp_branch hb hjmp).2.2]
      exact .inr (.inl ⟨rfl, hkept⟩)

theorem checkInsn_jmp (h : checkInsn cnt pc insn v = .ok v') (hc : insn.isJmp) : checkJmp cnt pc insn v = .ok v' :=
  (checkInsn_family h).2.2.2 hc

theorem checkInsn_ok (h : checkInsn cnt pc insn v = .ok v') : Checked cnt pc insn v v' where
  dst_lt := (checkInsn_stages h).1.1
  src_lt := (checkInsn_stages h).1.2
  branch hb := by
    have htarget := checkJmp_branch hb (checkInsn_jmp h hb.1)
    exact ⟨htarget.1, htarget.2.1⟩
  call hc := (checkJmp_call hc (checkInsn_jmp h hc.1)).1
  load hc := (checkLdx_ok hc (checkInsn_ldx hc h)).2
  store hc := by
    obtain ⟨rfl, hstore⟩ := (checkInsn_family h).2.2.1 hc
    exact checkStore_ok hc hstore
  pointer r hr := by
    rcases checkInsn_reg h r with hs | ⟨hk, hd⟩ | ⟨-, rfl, hst⟩
    · rw [hs] at hr
      exact absurd hr RegType.scalar_not_pointer
    · exact .inl ⟨by rw [hk], hd⟩
    · exact .inr ⟨(hst.of_pointer hr).1, rfl, (hst.of_pointer hr).2⟩

end Checks

end AntX.Bpf
