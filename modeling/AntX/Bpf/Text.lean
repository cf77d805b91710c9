import AntX.Bpf.Confinement

/-! The instructions and the registers of a run lie in memory, where a store through a raw address
reaches them. `pc` and `max_pc` are locals of the interpreter, taken to be in machine registers. -/

namespace AntX.Bpf

open AntX.Lib

abbrev Apart (a n b m : Nat) : Prop := a + n ≤ b ∨ b + m ≤ a

namespace Memory

variable {mem mem' : Memory} {n : Nat} {addr w : BitVec 64}

theorem add_ofNat_succ (addr : BitVec 64) (k : Nat) :
    addr + BitVec.ofNat 64 (k + 1) = addr + 1#64 + BitVec.ofNat 64 k := by
  rw [Nat.add_comm, BitVec.ofNat_add, BitVec.add_assoc]

theorem read_succ : mem.read addr (n + 1) = (mem.read (addr + 1#64) n <<< 8) ||| (mem addr).setWidth 64 := by
  rw [read, read, List.range_succ_eq_map, List.foldr_cons, List.foldr_map, BitVec.add_zero]
  simp only [Nat.succ_eq_add_one, ← add_ofNat_succ]

theorem getLsbD_read {i : Nat} (hi : i < 64)
    (h : ∀ k < n, mem (addr + BitVec.ofNat 64 k) = (w >>> (8 * k)).setWidth 8) :
    (mem.read addr n).getLsbD i = (decide (i < 8 * n) && w.getLsbD i) := by
  induction n generalizing addr w i with
  | zero => simp [read]
  | succ n ih =>
    have hbyte : mem addr = w.setWidth 8 := by simpa using h 0 (by omega)
    have hrest : ∀ k < n, mem (addr + 1#64 + BitVec.ofNat 64 k) = ((w >>> 8) >>> (8 * k)).setWidth 8 := by
      intro k hk
      rw [← add_ofNat_succ, h (k + 1) (by omega), Nat.mul_add, Nat.add_comm, BitVec.shiftRight_add]
    rw [read_succ, BitVec.getLsbD_or, BitVec.getLsbD_shiftLeft, ih (by omega) hrest, hbyte]
    by_cases hlow : i < 8
    · simp [hlow, hi, show i < 8 * (n + 1) by omega]
    · simp [hlow, hi, show i - 8 < 8 * n ↔ i < 8 * (n + 1) by omega, show 8 + (i - 8) = i by omega]

theorem read_bytes (h : ∀ k < 8, mem (addr + BitVec.ofNat 64 k) = (w >>> (8 * k)).setWidth 8) :
    mem.read addr 8 = w := by
  refine BitVec.eq_of_getLsbD_eq fun i hi => ?_
  rw [getLsbD_read hi h]
  simp [hi]

/-- The word with this index in an array. -/
def word (mem : Memory) (base i : Nat) : BitVec 64 := mem.read (BitVec.ofNat 64 (base + 8 * i)) 8

def place (mem : Memory) (base count : Nat) (words : Nat → BitVec 64) : Memory := fun a =>
  if base ≤ a.toNat ∧ a.toNat < base + 8 * count then
    (words ((a.toNat - base) / 8) >>> (8 * ((a.toNat - base) % 8))).setWidth 8
  else mem a

variable {base count base' count' i : Nat} {words words' : Nat → BitVec 64}

section

variable (hlt : base + 8 * count ≤ 2 ^ 64)

include hlt

/-- Bytes of an array. -/
theorem toNat_byte (hi : i < count) {k : Nat} (hk : k < 8) :
    (BitVec.ofNat 64 (base + 8 * i) + BitVec.ofNat 64 k).toNat = base + 8 * i + k := by
  rw [← BitVec.ofNat_add, BitVec.toNat_ofNat, Nat.mod_eq_of_lt (by omega)]

theorem word_place (hi : i < count) : (mem.place base count words).word base i = words i := by
  refine read_bytes fun k hk => ?_
  have haddr := toNat_byte hlt hi hk
  rw [place, if_pos (by omega), haddr, show (base + 8 * i + k - base) / 8 = i by omega,
    show (base + 8 * i + k - base) % 8 = k by omega]

theorem word_congr (hi : i < count) (h : ∀ a, base ≤ a.toNat → a.toNat < base + 8 * count → mem' a = mem a) :
    mem'.word base i = mem.word base i := by
  rw [word, word, read, read]
  refine List.foldr_ext _ _ _ fun k hk acc => ?_
  have haddr := toNat_byte hlt hi (List.mem_range.mp hk)
  have hk := List.mem_range.mp hk
  rw [h _ (by omega) (by omega)]

theorem word_place_of_apart (hi : i < count) (hd : Apart base (8 * count) base' (8 * count')) :
    (mem.place base' count' words).word base i = mem.word base i := by
  refine word_congr hlt hi fun a h₀ h₁ => if_neg ?_
  unfold Apart at hd
  omega

end

end Memory

namespace BpfInsn

/-- `repr(C)`: the fields in their order, from the lowest byte on. -/
def encode (insn : BpfInsn) : BitVec 64 := insn.imm ++ insn.off ++ insn.dstReg ++ insn.op

def decode (w : BitVec 64) : BpfInsn :=
  ⟨w.setWidth 8, (w >>> 8).setWidth 8, (w >>> 16).setWidth 16, (w >>> 32).setWidth 32⟩

theorem decode_encode (insn : BpfInsn) : decode insn.encode = insn := by
  cases insn
  simp only [decode, encode, mk.injEq]
  refine ⟨?_, ?_, ?_, ?_⟩ <;> ext i hi <;> simp <;> grind

end BpfInsn

/-- Where the instructions and the registers lie. -/
structure BpfLayout (p : BpfProg) (env : BpfEnv) where
  text : Nat
  regs : Nat
  text_lt : text + 8 * p.insns.length < 2 ^ 64
  regs_lt : regs + 8 * bpfRegNum < 2 ^ 64
  apart : Apart text (8 * p.insns.length) regs (8 * bpfRegNum)
  text_stack : Apart text (8 * p.insns.length) env.stack bpfStackSize
  text_ctx : Apart text (8 * p.insns.length) env.ctxData env.ctxLen
  regs_stack : Apart regs (8 * bpfRegNum) env.stack bpfStackSize
  regs_ctx : Apart regs (8 * bpfRegNum) env.ctxData env.ctxLen

namespace BpfLayout

variable {p : BpfProg} {env : BpfEnv} (L : BpfLayout p env)

def textWord (q : BpfProg) (i : Nat) : BitVec 64 := ((q.insns[i]?).map BpfInsn.encode).getD 0

/-- The state with the instructions and the registers in its memory. -/
def shown (q : BpfProg) (s : BpfState) : BpfState :=
  { s with mem := (s.mem.place L.text q.insns.length (textWord q)).place L.regs bpfRegNum s.regs }

/-- What the interpreter finds after a store. -/
def reload (q : BpfProg) (s : BpfState) : BpfProg × BpfState :=
  (⟨(List.range q.insns.length).map fun i => .decode (s.mem.word L.text i), by
      rw [List.length_map, List.length_range]; exact q.length_lt⟩,
    { s with regs := fun r => if r < bpfRegNum then s.mem.word L.regs r else s.regs r })

def rawStep (x : BpfProg × BpfState) : (BpfProg × BpfState) ⊕ BpfEnd :=
  match step x.1 env (L.shown x.1 x.2) with
  | .inr e => .inr e
  | .inl s => .inl (if (x.1.insns[x.2.pc]?).any (·.isStore) then L.reload x.1 s else (x.1, s))

def rawRun (n : Nat) : (BpfProg × BpfState) ⊕ BpfEnd := after L.rawStep n (p, env.start)

/-- The next instruction does not store to another place than the stack and the context data. -/
def StoresInside (env : BpfEnv) (x : BpfProg × BpfState) : Prop :=
  ∀ insn, x.1.insns[x.2.pc]? = some insn → insn.isStore → effectiveAddr insn (x.2.regs insn.base) ≠ 0 →
    Access.Inside env ⟨effectiveAddr insn (x.2.regs insn.base), storeSize insn.op⟩

theorem reload_eq {s : BpfState} (htext : ∀ i < p.insns.length, s.mem.word L.text i = textWord p i)
    (hregs : ∀ r < bpfRegNum, s.mem.word L.regs r = s.regs r) : L.reload p s = (p, s) := by
  refine Prod.ext ?_ ?_
  · obtain ⟨insns, hlt⟩ := p
    rw [reload, BpfProg.mk.injEq]
    refine List.ext_getElem (by simp) fun i h₁ h₂ => ?_
    simp [htext i h₂, textWord, List.getElem?_eq_getElem h₂, BpfInsn.decode_encode]
  · have hsame : (fun r => if r < bpfRegNum then s.mem.word L.regs r else s.regs r) = s.regs := by
      funext r
      split_ifs with hr
      · exact hregs r hr
      · rfl
    rw [reload, hsame]

theorem shown_text (s : BpfState) {i : Nat} (hi : i < p.insns.length) :
    (L.shown p s).mem.word L.text i = textWord p i := by
  have hlt := L.text_lt.le
  rw [shown, Memory.word_place_of_apart hlt hi L.apart, Memory.word_place hlt hi]

theorem shown_regs (s : BpfState) {r : Nat} (hr : r < bpfRegNum) :
    (L.shown p s).mem.word L.regs r = s.regs r := Memory.word_place L.regs_lt.le hr

theorem write_apart {mem : Memory} {a : Access} (ha : a.Inside env) (value : BitVec 64) {base n : Nat}
    (hs : Apart base n env.stack bpfStackSize) (hc : Apart base n env.ctxData env.ctxLen) (b : BitVec 64)
    (h₀ : base ≤ b.toNat) (h₁ : b.toNat < base + n) : mem.write a.addr a.size value b = mem b := by
  refine if_neg fun hlt => ?_
  have hown := ha _ hlt
  rw [BitVec.ofNat_toNat, BitVec.setWidth_eq, BitVec.add_comm, BitVec.sub_add_cancel] at hown
  unfold BpfEnv.Owns at hown
  unfold Apart at hs hc
  omega

/-- A step whose store stays inside is a step of the accepted program. -/
theorem rawStep_eq (ha : Accepted p) {s : BpfState} (hlt : s.pc < p.insnCnt) (hin : StoresInside env (p, s)) :
    L.rawStep (p, s) = (step p env (L.shown p s)).map (Prod.mk p) id := by
  rw [rawStep]
  cases hstep : step p env (L.shown p s) with
  | inr e => rfl
  | inl s' =>
    obtain ⟨insn, v, v', hi, -, -, -, hs, -⟩ := ha.running (s := L.shown p s) hlt hstep
    change p.insns[s.pc]? = some insn at hi
    refine congrArg Sum.inl ?_
    dsimp only
    split_ifs with hst
    · obtain ⟨dalu, dload, dstore⟩ := insn.families_disjoint
      have hst : insn.isStore := by
        rw [hi] at hst
        exact of_decide_eq_true hst
      have hregs : ∀ r, s'.regs r = s.regs r := fun r => hs.regs r
        (fun hw => absurd hst (hw.elim (fun h => (dalu h).2.1) fun h => (dload h).1))
        fun hc => absurd hc.1 (dstore hst)
      have hkept : ∀ {base count i}, base + 8 * count < 2 ^ 64 → i < count →
          Apart base (8 * count) env.stack bpfStackSize → Apart base (8 * count) env.ctxData env.ctxLen →
          s'.mem.word base i = (L.shown p s).mem.word base i := by
        intro base count i hlt hi' hstack hctx
        rcases hs.mem with hmem | ⟨-, hnull, value, hmem⟩
        · rw [hmem]
        · rw [hmem]
          exact Memory.word_congr hlt.le hi' (write_apart (hin insn hi hst hnull) value hstack hctx)
      refine L.reload_eq (fun i hi => ?_) fun r hr => ?_
      · rw [hkept L.text_lt hi L.text_stack L.text_ctx, L.shown_text s hi]
      · rw [hkept L.regs_lt hr L.regs_stack L.regs_ctx, L.shown_regs s hr, hregs]
    · rfl

variable {L} {n : Nat}

theorem rawRun_keeps (ha : Accepted p) (hin : ∀ k < n, ∀ x, L.rawRun k = .inl x → StoresInside env x)
    {x : BpfProg × BpfState} (hx : L.rawRun n = .inl x) : x.1 = p ∧ x.2.pc < p.insnCnt := by
  refine after_invariant (fun x => x.1 = p ∧ x.2.pc < p.insnCnt) (StoresInside env)
    ⟨rfl, ha.nonempty⟩ ?_ hin hx
  rintro ⟨q, s⟩ ⟨q', s'⟩ ⟨rfl, hlt⟩ hins hstep
  rw [L.rawStep_eq ha hlt hins] at hstep
  cases hs : step q env (L.shown q s) with
  | inr e =>
    rw [hs] at hstep
    cases hstep
  | inl t =>
    rw [hs] at hstep
    cases hstep
    obtain ⟨insn, v, v', -, -, -, -, -, hlt'⟩ := ha.running (s := L.shown q s) hlt hs
    exact ⟨rfl, hlt'⟩

end BpfLayout

open BpfLayout

def knownHelpers : List (BitVec 32) :=
  [HelperId.mapLookupElem, HelperId.mapUpdateElem, HelperId.mapDeleteElem, HelperId.ktimeGetNs,
    HelperId.tracePrintk, HelperId.getSmpProcessor]

theorem isValidHelper_iff {id : BitVec 32} : isValidHelper id = true ↔ id ∈ knownHelpers := by
  simp only [isValidHelper, knownHelpers, Bool.or_eq_true, beq_iff_eq, List.mem_cons, List.not_mem_nil]
  tauto

/-- While the stores of a run stay in the stack and the context data, the instructions are those that
were accepted, the next one is inside the program, with registers and helpers that exist, and a run
that ends has executed an exit. -/
theorem control_flow_safe (p : BpfProg) (h : verify p = .ok ()) (env : BpfEnv) (L : BpfLayout p env)
    (n : Nat) (hin : ∀ k < n, ∀ x, L.rawRun k = .inl x → StoresInside env x) :
    (∀ x, L.rawRun n = .inl x → x.1 = p ∧ x.2.pc < p.insnCnt ∧ ∃ insn, p.insns[x.2.pc]? = some insn ∧
      insn.dst < bpfRegNum ∧ insn.src < bpfRegNum ∧ (insn.isCall → insn.imm ∈ knownHelpers)) ∧
    (∀ e, L.rawRun n = .inr e → ∃ k < n, ∃ x insn, L.rawRun k = .inl x ∧ p.insns[x.2.pc]? = some insn ∧
      insn.isExit ∧ e = .exit (x.2.regs 0)) := by
  have ha := accepted_of_verify h
  constructor
  · intro x hx
    obtain ⟨hp, hlt⟩ := rawRun_keeps ha hin hx
    obtain ⟨insn, v, v', hi, -, -, hck, -⟩ := ha.step env hlt
    exact ⟨hp, hlt, insn, hi, hck.dst_lt, hck.src_lt, fun hc => isValidHelper_iff.mp (hck.call hc)⟩
  · intro e he
    obtain ⟨k, hk, x, hx, hend⟩ := ended_at he
    obtain ⟨hp, hlt⟩ := rawRun_keeps ha (fun j hj => hin j (hj.trans hk)) hx
    obtain ⟨q, s⟩ := x
    obtain rfl : q = p := hp
    rw [L.rawStep_eq ha hlt (hin k hk _ hx)] at hend
    obtain ⟨insn, v, v', hi, -, -, -, ⟨hexit, hstep⟩ | ⟨s', hstep, -⟩⟩ :=
      ha.step (s := L.shown q s) env hlt
    · rw [hstep] at hend
      cases hend
      exact ⟨k, hk, _, insn, hx, hi, hexit, rfl⟩
    · rw [hstep] at hend
      cases hend

def moveFrame : BpfInsn := .new (Opcode.alu64 ||| Opcode.mov ||| Opcode.x) 1 10 0 0

def storeFive (off : BitVec 16) : BpfInsn :=
  .new (Opcode.st ||| Opcode.mem ||| Opcode.dw) 1 0 off 5

def localProgram : BpfProg := ⟨[moveFrame, storeFive (-8), exitInsn], by decide⟩

def localLayout : BpfLayout localProgram sampleEnv where
  text := 0x8000
  regs := 0x9000
  text_lt := by decide
  regs_lt := by decide
  apart := by decide
  text_stack := by decide
  text_ctx := by decide
  regs_stack := by decide
  regs_ctx := by decide

/-- A store to the stack, through a copy of the frame pointer. -/
theorem control_flow_safe_local : ∃ k < 3, ∃ x insn, localLayout.rawRun k = .inl x ∧
    localProgram.insns[x.2.pc]? = some insn ∧ insn.isExit ∧ BpfEnd.exit 0 = .exit (x.2.regs 0) := by
  refine (control_flow_safe localProgram rfl sampleEnv localLayout 3 ?_).2 (.exit 0) rfl
  intro k hk x hx insn hi hst _
  obtain rfl | rfl | rfl : k = 0 ∨ k = 1 ∨ k = 2 := by omega
  · cases hx
    cases hi
    exact absurd hst (by decide)
  · cases hx
    cases hi
    exact (inside_of_inReach (.inl rfl) ⟨fun _ => by decide, fun h => by cases h⟩ :
      Access.Inside sampleEnv ⟨effectiveAddr (storeFive (-8))
        (BitVec.ofNat 64 (sampleEnv.pointer .stackPtr)), 8⟩)
  · cases hx
    cases hi
    exact absurd hst (by decide +kernel)

def wildProgram : BpfProg :=
  ⟨[.new (Opcode.alu64 ||| Opcode.mov) 1 0 0 (-32768), .new (Opcode.alu64 ||| Opcode.lsh) 1 0 0 32,
    .new (Opcode.alu64 ||| Opcode.or) 1 0 0 0x401008, .new (Opcode.jmp ||| Opcode.ja) 0 0 1 0,
    moveFrame, storeFive 0, exitInsn], by decide⟩

/-- The last instruction lies where the store of `wildProgram` goes. -/
def wildLayout : BpfLayout wildProgram sampleEnv where
  text := 0xFFFF800000400FD8
  regs := 0x9000
  text_lt := by decide
  regs_lt := by decide
  apart := by decide
  text_stack := by decide
  text_ctx := by decide
  regs_stack := by decide
  regs_ctx := by decide

/-- The verifier takes `R1` for the frame pointer, which the jump leaves out: the store makes a jump
of the exit, and the run ends behind the program. -/
theorem exit_overwritten : ¬ ∀ (p : BpfProg) (env : BpfEnv) (L : BpfLayout p env) (n : Nat) (e : BpfEnd),
    verify p = .ok () → L.rawRun n = .inr e → ∃ r₀, e = .exit r₀ := by
  intro h
  have hend : (wildLayout.rawRun 7).getRight? = some (.offEnd 0) := by decide +kernel
  obtain ⟨r₀, he⟩ := h wildProgram sampleEnv wildLayout 7 (.offEnd 0) rfl (Sum.getRight?_eq_some_iff.mp hend)
  cases he

end AntX.Bpf
