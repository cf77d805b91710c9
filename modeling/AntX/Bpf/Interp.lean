import AntX.Lib.Run

/-! eBPF programs, `BpfMap`, `BpfHelper` and `BpfInterpreter`: `framework/debug/ebpf.rs`. A register
number out of range is a panic. The log of memory accesses is read by no instruction. -/

namespace AntX.Bpf

def bpfMaxInsns : Nat := 4096
def bpfStackSize : Nat := 512
def bpfRegNum : Nat := 11

namespace Opcode

-- classes
abbrev ld : BitVec 8 := 0x00
abbrev ldx : BitVec 8 := 0x01
abbrev st : BitVec 8 := 0x02
abbrev stx : BitVec 8 := 0x03
abbrev alu : BitVec 8 := 0x04
abbrev jmp : BitVec 8 := 0x05
abbrev jmp32 : BitVec 8 := 0x06
abbrev alu64 : BitVec 8 := 0x07

-- sizes
abbrev w : BitVec 8 := 0x00
abbrev h : BitVec 8 := 0x08
abbrev b : BitVec 8 := 0x10
abbrev dw : BitVec 8 := 0x18

-- modes
abbrev imm : BitVec 8 := 0x00
abbrev abs : BitVec 8 := 0x20
abbrev ind : BitVec 8 := 0x40
abbrev mem : BitVec 8 := 0x60

-- arithmetic
abbrev add : BitVec 8 := 0x00
abbrev sub : BitVec 8 := 0x10
abbrev mul : BitVec 8 := 0x20
abbrev div : BitVec 8 := 0x30
abbrev or : BitVec 8 := 0x40
abbrev and : BitVec 8 := 0x50
abbrev lsh : BitVec 8 := 0x60
abbrev rsh : BitVec 8 := 0x70
abbrev neg : BitVec 8 := 0x80
abbrev mod : BitVec 8 := 0x90
abbrev xor : BitVec 8 := 0xa0
abbrev mov : BitVec 8 := 0xb0
abbrev arsh : BitVec 8 := 0xc0
abbrev «end» : BitVec 8 := 0xd0

-- jumps
abbrev ja : BitVec 8 := 0x00
abbrev jeq : BitVec 8 := 0x10
abbrev jgt : BitVec 8 := 0x20
abbrev jge : BitVec 8 := 0x30
abbrev jset : BitVec 8 := 0x40
abbrev jne : BitVec 8 := 0x50
abbrev jsgt : BitVec 8 := 0x60
abbrev jsge : BitVec 8 := 0x70
abbrev call : BitVec 8 := 0x80
abbrev exit : BitVec 8 := 0x90
abbrev jlt : BitVec 8 := 0xa0
abbrev jle : BitVec 8 := 0xb0
abbrev jslt : BitVec 8 := 0xc0
abbrev jsle : BitVec 8 := 0xd0

abbrev x : BitVec 8 := 0x08

end Opcode

namespace HelperId

abbrev mapLookupElem : BitVec 32 := 1
abbrev mapUpdateElem : BitVec 32 := 2
abbrev mapDeleteElem : BitVec 32 := 3
abbrev ktimeGetNs : BitVec 32 := 5
abbrev tracePrintk : BitVec 32 := 6
abbrev getSmpProcessor : BitVec 32 := 8

end HelperId

/-- `off` and `imm` are signed; the low half of `dstReg` is the destination, the high half
the source. -/
structure BpfInsn where
  op : BitVec 8
  dstReg : BitVec 8
  off : BitVec 16
  imm : BitVec 32
deriving DecidableEq, Repr

namespace BpfInsn

def new (op dst src : BitVec 8) (off : BitVec 16) (imm : BitVec 32) : BpfInsn :=
  { op := op, dstReg := (dst &&& 0xf) ||| ((src &&& 0xf) <<< 4), off := off, imm := imm }

variable (insn : BpfInsn)

def dst : Nat := (insn.dstReg &&& 0xf).toNat

def src : Nat := ((insn.dstReg >>> 4) &&& 0xf).toNat

def insnClass : BitVec 8 := insn.op &&& 0x07

def opLow : BitVec 8 := insn.op &&& 0xf0

def usesSrc : Bool := insn.op &&& Opcode.x != 0

def immU64 : BitVec 64 := insn.imm.signExtend 64

/-- `pc as i64 + 1 + i64::from(insn.off)`. -/
def target (pc : Nat) : Int := pc + 1 + insn.off.toInt

-- the families that the verifier and the interpreter tell apart
abbrev isAlu : Prop := insn.insnClass = Opcode.alu ∨ insn.insnClass = Opcode.alu64
abbrev isLoad : Prop := insn.insnClass = Opcode.ld ∨ insn.insnClass = Opcode.ldx
abbrev isStore : Prop := insn.insnClass = Opcode.st ∨ insn.insnClass = Opcode.stx
abbrev isJmp : Prop := insn.insnClass = Opcode.jmp ∨ insn.insnClass = Opcode.jmp32

def isExit : Prop := insn.isJmp ∧ insn.opLow = Opcode.exit
def isCall : Prop := insn.isJmp ∧ insn.opLow = Opcode.call

def isBranch : Prop :=
  insn.isJmp ∧ insn.opLow ≠ Opcode.exit ∧ insn.opLow ≠ Opcode.call

def isMove : Prop :=
  insn.isAlu ∧ insn.opLow = Opcode.mov ∧ insn.usesSrc = true

end BpfInsn

/-- `BpfProg::new` keeps the length of the vector as a `u32`. The vectors come from `sys_bpf`,
which is given their length as a `u32`. -/
structure BpfProg where
  insns : List BpfInsn
  length_lt : insns.length < 2 ^ 32

def BpfProg.insnCnt (p : BpfProg) : Nat := p.insns.length % 2 ^ 32

theorem BpfProg.insnCnt_eq (p : BpfProg) : p.insnCnt = p.insns.length :=
  Nat.mod_eq_of_lt p.length_lt

abbrev Memory := BitVec 64 → BitVec 8

namespace Memory

section

variable (mem : Memory) (addr : BitVec 64) (size : Nat)

def read : BitVec 64 :=
  (List.range size).foldr (fun i acc => (acc <<< 8) ||| (mem (addr + BitVec.ofNat 64 i)).setWidth 64) 0

def write (value : BitVec 64) : Memory :=
  fun a => if (a - addr).toNat < size then (value >>> (8 * (a - addr).toNat)).setWidth 8 else mem a

def slice : List (BitVec 8) :=
  (List.range size).map fun i => mem (addr + BitVec.ofNat 64 i)

end

end Memory

structure BpfMapDef where
  keySize : Nat
  valueSize : Nat
  maxEntries : Nat
deriving DecidableEq, Repr

inductive BpfMap where
  | hash (mapDef : BpfMapDef) (data : List (List (BitVec 8) × List (BitVec 8)))
  | array (mapDef : BpfMapDef) (data : List (Option (List (BitVec 8))))

namespace BpfMap

def mapDef : BpfMap → BpfMapDef
  | hash mapDef _ => mapDef
  | array mapDef _ => mapDef

def keyToIndex (key : List (BitVec 8)) (keySize : Nat) : Option Nat :=
  if keySize = 1 ∨ keySize = 2 ∨ keySize = 4 ∨ keySize = 8 then
    some ((key.take keySize).foldr (fun byte acc => acc * 256 + byte.toNat) 0)
  else none

def lookup (m : BpfMap) (key : List (BitVec 8)) : Bool :=
  key.length == m.mapDef.keySize &&
    match m with
    | hash _ data => (data.lookup key).isSome
    | array d data => (keyToIndex key d.keySize).any fun i => (data[i]?.join).isSome

def update (m : BpfMap) (key value : List (BitVec 8)) : BpfMap × Bool :=
  if key.length ≠ m.mapDef.keySize ∨ value.length ≠ m.mapDef.valueSize then (m, false)
  else
    match m with
    | hash d data =>
      if data.length ≥ d.maxEntries ∧ (data.lookup key).isNone then (m, false)
      else (hash d ((key, value) :: data.filter (·.1 != key)), true)
    | array d data =>
      match keyToIndex key d.keySize with
      | none => (m, false)
      | some i => if i < data.length then (array d (data.set i (some value)), true) else (m, false)

def delete (m : BpfMap) (key : List (BitVec 8)) : BpfMap × Bool :=
  match m with
  | hash d data =>
    if key.length ≠ d.keySize then (m, false)
    else (hash d (data.filter (·.1 != key)), (data.lookup key).isSome)
  | array d data =>
    match keyToIndex key d.keySize with
    | none => (m, false)
    | some i => if i < data.length then (array d (data.set i none), true) else (m, false)

end BpfMap

/-- Map file descriptors are 32 bits wide. -/
abbrev BpfMaps := BitVec 32 → Option BpfMap

/-- `BpfHelper::execute`: the maps and `R0` afterwards. `clock` and `cpu` are what the
hardware answers. The keys and values are read where the registers point. -/
def helperExecute (id : BitVec 32) (r₁ r₂ r₃ : BitVec 64) (mem : Memory) (maps : BpfMaps)
    (clock cpu : BitVec 64) : BpfMaps × BitVec 64 :=
  let fd := r₁.setWidth 32
  let failed : BitVec 64 := -1
  if id = HelperId.ktimeGetNs then (maps, clock)
  else if id = HelperId.getSmpProcessor then (maps, cpu)
  else if id = HelperId.tracePrintk then (maps, r₂)
  else if id = HelperId.mapLookupElem then
    match maps fd with
    | none => (maps, 0)
    | some m => (maps, if m.lookup (mem.slice r₂ m.mapDef.keySize) then 1 else 0)
  else if id = HelperId.mapUpdateElem then
    match maps fd with
    | none => (maps, failed)
    | some m =>
      let (m, ok) := m.update (mem.slice r₂ m.mapDef.keySize) (mem.slice r₃ m.mapDef.valueSize)
      (Function.update maps fd (some m), if ok then 0 else failed)
  else if id = HelperId.mapDeleteElem then
    match maps fd with
    | none => (maps, failed)
    | some m =>
      let (m, ok) := m.delete (mem.slice r₂ m.mapDef.keySize)
      (Function.update maps fd (some m), if ok then 0 else failed)
  else (maps, 0)

/-- Where the stack and the context data of a run lie, what is in memory and in the maps
before it, and what the hardware answers. An array does not reach the end of the address
space. -/
structure BpfEnv where
  stack : Nat
  ctxData : Nat
  ctxLen : Nat
  stack_lt : stack + bpfStackSize < 2 ^ 64
  ctx_lt : ctxData + ctxLen < 2 ^ 64
  mem : Memory
  maps : BpfMaps
  clock : Nat → BitVec 64
  cpu : BitVec 64

structure Access where
  addr : BitVec 64
  size : Nat
deriving DecidableEq, Repr

abbrev Regs := Nat → BitVec 64

structure BpfState where
  pc : Nat
  regs : Regs
  mem : Memory
  maps : BpfMaps
  calls : Nat
  touched : List Access

def BpfEnv.start (env : BpfEnv) : BpfState :=
  { pc := 0
    regs := fun r =>
      if r = 1 then BitVec.ofNat 64 env.ctxData
      else if r = 10 then BitVec.ofNat 64 (env.stack + bpfStackSize)
      else 0
    mem := fun a => if env.stack ≤ a.toNat ∧ a.toNat < env.stack + bpfStackSize then 0 else env.mem a
    maps := env.maps
    calls := 0
    touched := [] }

def Regs.get (regs : Regs) (r : Nat) : Option (BitVec 64) :=
  if r < bpfRegNum then some (regs r) else none

def Regs.set (regs : Regs) (r : Nat) (value : BitVec 64) : Option Regs :=
  if r < bpfRegNum then some (Function.update regs r value) else none

variable (insn : BpfInsn)

def operand (regs : Regs) : Option (BitVec 64) :=
  if insn.usesSrc then regs.get insn.src else some insn.immU64

def aluResult (dst src : BitVec 64) : BitVec 64 :=
  let op := insn.opLow
  if op = Opcode.add then dst + src
  else if op = Opcode.sub then dst - src
  else if op = Opcode.mul then dst * src
  else if op = Opcode.div then if src = 0 then 0 else dst / src
  else if op = Opcode.or then dst ||| src
  else if op = Opcode.and then dst &&& src
  else if op = Opcode.lsh then dst <<< (src.toNat % 64)
  else if op = Opcode.rsh then dst >>> (src.toNat % 64)
  else if op = Opcode.neg then ~~~ dst + 1
  else if op = Opcode.mod then if src = 0 then 0 else dst % src
  else if op = Opcode.xor then dst ^^^ src
  else if op = Opcode.mov then src
  else if op = Opcode.arsh then
    if insn.insnClass = Opcode.alu64 then dst.sshiftRight (src.toNat % 64)
    else ((dst.setWidth 32).sshiftRight (src.toNat % 32)).signExtend 64
  else if op = Opcode.end then
    if insn.imm = 16 then (dst.setWidth 16).setWidth 64
    else if insn.imm = 32 then (dst.setWidth 32).setWidth 64
    else dst
  else dst

def execAlu (s : BpfState) : Option BpfState := do
  let src ← operand insn s.regs
  let dst ← s.regs.get insn.dst
  let result := aluResult insn dst src
  let regs ← s.regs.set insn.dst
    (if insn.insnClass = Opcode.alu64 then result else (result.setWidth 32).setWidth 64)
  pure { s with regs := regs }

def effectiveAddr (base : BitVec 64) : BitVec 64 := base + insn.off.signExtend 64

def loadSize (op : BitVec 8) : Option Nat :=
  if op = Opcode.ldx ||| Opcode.mem ||| Opcode.w then some 4
  else if op = Opcode.ldx ||| Opcode.mem ||| Opcode.h then some 2
  else if op = Opcode.ldx ||| Opcode.mem ||| Opcode.b then some 1
  else if op = Opcode.ldx ||| Opcode.mem ||| Opcode.dw then some 8
  else none

def execLd (s : BpfState) : Option BpfState :=
  if insn.op = Opcode.ld ||| Opcode.imm ||| Opcode.dw then do
    let regs ← s.regs.set insn.dst (insn.imm.setWidth 64 ||| ((insn.off.signExtend 32).setWidth 64 <<< 32))
    pure { s with regs := regs }
  else if insn.op = Opcode.ld ||| Opcode.abs ||| Opcode.w ∨
      insn.op = Opcode.ld ||| Opcode.ind ||| Opcode.w then do
    let regs ← s.regs.set insn.dst 0
    pure { s with regs := regs }
  else
    match loadSize insn.op with
    | none => some s
    | some size => do
      let base ← s.regs.get insn.src
      let addr := effectiveAddr insn base
      if addr ≠ 0 then do
        let regs ← s.regs.set insn.dst (s.mem.read addr size)
        pure { s with regs := regs, touched := ⟨addr, size⟩ :: s.touched }
      else pure s

def storeSize (op : BitVec 8) : Nat :=
  if op &&& 0x18 = Opcode.w then 4
  else if op &&& 0x18 = Opcode.h then 2
  else if op &&& 0x18 = Opcode.b then 1
  else 8

def storeValue (regs : Regs) : Option (BitVec 64) :=
  if insn.insnClass = Opcode.st then some insn.immU64 else regs.get insn.src

def execSt (s : BpfState) : Option BpfState := do
  let base ← s.regs.get insn.dst
  let addr := effectiveAddr insn base
  if addr ≠ 0 then do
    let value ← storeValue insn s.regs
    let size := storeSize insn.op
    pure { s with mem := s.mem.write addr size value, touched := ⟨addr, size⟩ :: s.touched }
  else pure s

def evalCond {w : Nat} (op : BitVec 8) (dst src : BitVec w) : Bool :=
  if op = Opcode.jeq then dst == src
  else if op = Opcode.jgt then src.ult dst
  else if op = Opcode.jge then src.ule dst
  else if op = Opcode.jset then dst &&& src != 0
  else if op = Opcode.jne then dst != src
  else if op = Opcode.jsgt then src.slt dst
  else if op = Opcode.jsge then src.sle dst
  else if op = Opcode.jlt then dst.ult src
  else if op = Opcode.jle then dst.ule src
  else if op = Opcode.jslt then dst.slt src
  else if op = Opcode.jsle then dst.sle src
  else false

def evalCond64 (op : BitVec 8) (dst src : BitVec 64) : Bool := evalCond op dst src

def evalCond32 (op : BitVec 8) (dst src : BitVec 32) : Bool := evalCond op dst src

def condTaken (dst src : BitVec 64) : Bool :=
  if insn.insnClass = Opcode.jmp32 then
    evalCond32 insn.opLow (dst.setWidth 32) (src.setWidth 32)
  else evalCond64 insn.opLow dst src

def jumpPc (pc : Nat) : Nat := (insn.target pc % 2 ^ 64).toNat

/-- The state with the next `pc`, or `none` inside for an exit. -/
def execJmp (env : BpfEnv) (insn : BpfInsn) (s : BpfState) : Option (Option BpfState) :=
  if insn.opLow = Opcode.ja then some (some { s with pc := jumpPc insn s.pc })
  else if insn.opLow = Opcode.exit then some none
  else if insn.opLow = Opcode.call then
    let (maps, r₀) := helperExecute insn.imm (s.regs 1) (s.regs 2) (s.regs 3) s.mem s.maps
      (env.clock s.calls) env.cpu
    some (some { s with
      pc := s.pc + 1
      regs := Function.update s.regs 0 r₀
      maps := maps
      calls := s.calls + 1 })
  else do
    let dst ← s.regs.get insn.dst
    let src ← operand insn s.regs
    pure (some { s with pc := if condTaken insn dst src then jumpPc insn s.pc else s.pc + 1 })

inductive BpfEnd where
  | exit (r₀ : BitVec 64)
  | unknownClass (r₀ : BitVec 64)
  | offEnd (r₀ : BitVec 64)
  | panic
deriving DecidableEq, Repr

def advance : Option BpfState → BpfState ⊕ BpfEnd
  | some s => .inl { s with pc := s.pc + 1 }
  | none => .inr .panic

def step (p : BpfProg) (env : BpfEnv) (s : BpfState) : BpfState ⊕ BpfEnd :=
  if s.pc < p.insnCnt then
    match p.insns[s.pc]? with
    | none => .inr .panic
    | some insn =>
      if insn.isAlu then advance (execAlu insn s)
      else if insn.isLoad then advance (execLd insn s)
      else if insn.isStore then advance (execSt insn s)
      else if insn.isJmp then
        match execJmp env insn s with
        | some (some s') => .inl s'
        | some none => .inr (.exit (s.regs 0))
        | none => .inr .panic
      else .inr (.unknownClass (s.regs 0))
  else .inr (.offEnd (s.regs 0))

def runFor (p : BpfProg) (env : BpfEnv) (n : Nat) : BpfState ⊕ BpfEnd :=
  Lib.after (step p env) n env.start

end AntX.Bpf
