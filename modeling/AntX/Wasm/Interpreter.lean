import Mathlib.Tactic.Ring

/-! Calls into a module: `services/wasm/interpreter.rs`. Opcodes and host functions are parameters,
`ρ` the state only they use. Loops take fuel; `none` is one that has not ended. -/

namespace AntX.Wasm

inductive WasmError
  | unknownOpcode (opcode : UInt8) | leb128Overflow | truncated | typeMismatch | stackUnderflow
  | stackOverflow | divisionByZero | integerOverflow | memoryOutOfBounds | memoryGrowFailed
  | callDepthExceeded | gasExhausted | unreachable | functionNotFound | badTypeIndex (idx : Nat)
  | badFuncIndex (idx : Nat) | internalError | terminated

inductive ValueType
  | i32 | i64 | f32 | f64

inductive Value
  | i32 (v : BitVec 32)
  | i64 (v : BitVec 64)
  | f32 (v : BitVec 32)
  | f64 (v : BitVec 64)

def Value.defaultFor : ValueType → Value
  | .i32 => .i32 0
  | .i64 => .i64 0
  | .f32 => .f32 0
  | .f64 => .f64 0

structure FuncType where
  params : List ValueType
  results : List ValueType

structure FunctionBody where
  locals : List (Nat × ValueType)
  code : List UInt8

inductive ImportKind
  | function (typeIdx : Nat) | table | memory | global

structure WasmModule where
  types : List FuncType
  imports : List ImportKind
  functions : List Nat
  code : List FunctionBody

structure CallFrame where
  funcIdx : Nat
  locals : List Value
  pc : Nat
  code : List UInt8
  arity : Nat
  returnPc : Nat
  stackBase : Nat

/-- The head of `callStack` is the innermost frame. -/
structure Interpreter (ρ : Type) where
  stack : List Value
  callStack : List CallFrame
  maxCallDepth : Nat
  maxGas : Nat
  gasUsed : Nat
  wasm : WasmModule
  importFuncCount : Nat
  other : ρ

abbrev Effect (ρ α : Type) := Interpreter ρ → Except WasmError α × Interpreter ρ

variable {ρ : Type}

def push (v : Value) : Effect ρ Unit := fun vm =>
  if vm.stack.length ≥ 4096 then (.error .stackOverflow, vm)
  else (.ok (), { vm with stack := vm.stack ++ [v] })

def pop : Effect ρ Value := fun vm =>
  match vm.stack.getLast? with
  | none => (.error .stackUnderflow, vm)
  | some v => (.ok v, { vm with stack := vm.stack.dropLast })

def pushAll : List Value → Effect ρ Unit
  | [], vm => (.ok (), vm)
  | v :: vs, vm =>
    match push v vm with
    | (.error e, vm) => (.error e, vm)
    | (.ok _, vm) => pushAll vs vm

namespace Interpreter

def importTypeIdx (wasm : WasmModule) (idx : Nat) : Option Nat :=
  (wasm.imports.filterMap fun | .function t => some t | _ => none)[idx]?

def getFuncType (vm : Interpreter ρ) (idx : Nat) : Except WasmError FuncType :=
  let found := if idx < vm.importFuncCount then importTypeIdx vm.wasm idx
    else vm.wasm.functions[idx - vm.importFuncCount]?
  match found with
  | none => .error (.badFuncIndex idx)
  | some t => match vm.wasm.types[t]? with
    | none => .error (.badTypeIndex t)
    | some ty => .ok ty

def getFuncBody (vm : Interpreter ρ) (idx : Nat) : Except WasmError FunctionBody :=
  if idx < vm.importFuncCount then .error .functionNotFound
  else match vm.wasm.code[idx - vm.importFuncCount]? with
    | none => .error (.badFuncIndex idx)
    | some body => .ok body

def callHost (host : Nat → Option (Effect ρ Unit)) (idx : Nat) (ty : FuncType) (args : List Value) :
    Effect ρ (Option Value) := fun vm =>
  match pushAll (args.take ty.params.length) vm with
  | (.error e, vm) => (.error e, vm)
  | (.ok _, vm) => match ((host idx).getD fun vm => (.ok (), vm)) vm with
    | (.error e, vm) => (.error e, vm)
    | (.ok _, vm) =>
      if ty.results.length = 1 then
        match pop vm with
        | (.error e, vm) => (.error e, vm)
        | (.ok v, vm) => (.ok (some v), vm)
      else (.ok none, vm)

/-- The first loop of `execute_call_stack`: it looks at the innermost frame and
changes nothing. -/
def scanFrames : Nat → Interpreter ρ → Option Unit
  | 0, _ => none
  | fuel + 1, vm =>
    match vm.callStack with
    | [] => some ()
    | frame :: _ => if frame.pc ≥ frame.code.length then some () else scanFrames fuel vm

def executeFrames (exec : UInt8 → Effect ρ Unit) :
    Nat → Interpreter ρ → Option (Except WasmError Unit × Interpreter ρ)
  | 0, _ => none
  | fuel + 1, vm =>
    match vm.callStack with
    | [] => some (.ok (), vm)
    | frame :: frames =>
      match frame.code[frame.pc]? with
      | none => executeFrames exec fuel { vm with callStack := frames }
      | some opcode =>
        let vm := { vm with gasUsed := (vm.gasUsed + 1) % 2 ^ 64 }
        if vm.gasUsed > vm.maxGas then some (.error .gasExhausted, vm)
        else match exec opcode vm with
          | (.error e, vm) => some (.error e, vm)
          | (.ok _, vm) => executeFrames exec fuel vm

def executeCallStack (exec : UInt8 → Effect ρ Unit) (fuel : Nat) (vm : Interpreter ρ) :
    Option (Except WasmError Unit × Interpreter ρ) :=
  match scanFrames fuel vm with
  | none => none
  | some _ => executeFrames exec fuel vm

def initialLocals (ty : FuncType) (body : FunctionBody) (args : List Value) : List Value :=
  let locals := List.replicate ty.params.length (.i32 0) ++
    body.locals.flatMap fun p => List.replicate p.1 (Value.defaultFor p.2)
  let given := args.take ty.params.length
  given ++ locals.drop given.length

def finishCall (ty : FuncType) (stackBase : Nat) : Effect ρ (Option Value) := fun vm =>
  match vm.callStack with
  | [] => (.ok none, vm)
  | _ :: frames =>
    let vm := { vm with callStack := frames }
    let actualResults := (vm.stack.length + 2 ^ 64 - stackBase) % 2 ^ 64
    if ty.results.length = 1 ∧ actualResults ≥ 1 then
      match pop vm with
      | (.error e, vm) => (.error e, vm)
      | (.ok v, vm) => (.ok (some v), { vm with stack := vm.stack.take stackBase })
    else (.ok none, { vm with stack := vm.stack.take stackBase })

def callFunc (host : Nat → Option (Effect ρ Unit)) (exec : UInt8 → Effect ρ Unit) (fuel : Nat)
    (vm : Interpreter ρ) (idx : Nat) (args : List Value) :
    Option (Except WasmError (Option Value) × Interpreter ρ) :=
  match vm.getFuncType idx with
  | .error e => some (.error e, vm)
  | .ok ty =>
    if idx < vm.importFuncCount then some (callHost host idx ty args vm)
    else match vm.getFuncBody idx with
      | .error e => some (.error e, vm)
      | .ok body =>
        if vm.callStack.length % 2 ^ 32 ≥ vm.maxCallDepth then
          some (.error .callDepthExceeded, vm)
        else
          let stackBase := vm.stack.length
          let frame : CallFrame :=
            { funcIdx := idx, locals := initialLocals ty body args, pc := 0, code := body.code,
              arity := ty.results.length, returnPc := 0, stackBase }
          match executeCallStack exec fuel { vm with callStack := frame :: vm.callStack } with
          | none => none
          | some (.error e, vm) => some (.error e, vm)
          | some (.ok _, vm) => some (finishCall ty stackBase vm)

variable {vm : Interpreter ρ} {frame : CallFrame} {frames : List CallFrame}

theorem scanFrames_stuck (hs : vm.callStack = frame :: frames) (hc : frame.pc < frame.code.length)
    (fuel : Nat) : scanFrames fuel vm = none := by
  induction fuel with
  | zero => rfl
  | succ fuel ih =>
    have hgo : ¬ frame.pc ≥ frame.code.length := by omega
    simp only [scanFrames, hs, if_neg hgo]
    exact ih

theorem callFunc_stuck {idx : Nat} {ty : FuncType} {body : FunctionBody}
    (host : Nat → Option (Effect ρ Unit)) (exec : UInt8 → Effect ρ Unit)
    (ht : vm.getFuncType idx = .ok ty) (hb : vm.getFuncBody idx = .ok body)
    (hd : vm.callStack.length % 2 ^ 32 < vm.maxCallDepth) (hc : body.code ≠ []) (fuel : Nat)
    (args : List Value) : callFunc host exec fuel vm idx args = none := by
  have hi : ¬ idx < vm.importFuncCount := by
    intro hi
    simp [getFuncBody, hi] at hb
  have hpos : 0 < body.code.length := List.length_pos_iff.mpr hc
  simp only [callFunc, ht, hb, if_neg hi, if_neg (Nat.not_le.mpr hd), executeCallStack]
  rw [scanFrames_stuck rfl hpos]

/-- On an idle interpreter a call comes back, and then within two rounds of each
loop, exactly when no frame with code in it is pushed. -/
theorem callFunc_returns_iff (host : Nat → Option (Effect ρ Unit)) (exec : UInt8 → Effect ρ Unit)
    (vm : Interpreter ρ) (hidle : vm.callStack = []) (idx : Nat) (args : List Value) (fuel : Nat) :
    (callFunc host exec (fuel + 2) vm idx args).isSome ↔
      ∀ ty body, vm.getFuncType idx = .ok ty → vm.getFuncBody idx = .ok body →
        body.code = [] ∨ vm.maxCallDepth = 0 := by
  have hlen : vm.callStack.length % 2 ^ 32 = 0 := by rw [hidle]; rfl
  constructor
  · intro h ty body ht hb
    by_contra hno
    rw [not_or] at hno
    rw [callFunc_stuck host exec ht hb (by omega) hno.1] at h
    cases h
  · intro h
    cases ht : vm.getFuncType idx with
    | error e => simp [callFunc, ht]
    | ok ty =>
      cases hb : vm.getFuncBody idx with
      | error e => by_cases hi : idx < vm.importFuncCount <;> simp [callFunc, ht, hb, hi]
      | ok body =>
        by_cases hi : idx < vm.importFuncCount
        · simp [callFunc, ht, hi]
        by_cases hd : vm.maxCallDepth = 0
        · simp [callFunc, ht, hb, hi, hd]
        · have hc := (h ty body ht hb).resolve_right hd
          simp only [callFunc, ht, hb, if_neg hi, hlen, Nat.le_zero, ge_iff_le, if_neg hd]
          simp [executeCallStack, scanFrames, executeFrames, hidle, hc]

def oneEnd : Interpreter Unit :=
  { stack := [], callStack := [], maxCallDepth := 256, maxGas := 10000000, gasUsed := 0
    wasm := { types := [⟨[], []⟩], imports := [], functions := [0], code := [⟨[], [0x0B]⟩] }
    importFuncCount := 0, other := () }

theorem callFunc_returns_iff_bodyless : (callFunc (fun _ => none) (fun _ vm => (.ok (), vm)) 2
      { oneEnd with wasm := { oneEnd.wasm with code := [⟨[], []⟩] } } 0 []).isSome := by
  refine (callFunc_returns_iff _ _ _ rfl 0 [] 0).mpr fun ty body _ hb => .inl ?_
  cases hb
  rfl

theorem callFunc_never_returns : ¬∃ fuel,
    (callFunc (fun _ => none) (fun _ vm => (.ok (), vm)) fuel oneEnd 0 []).isSome = true := by
  rintro ⟨fuel, h⟩
  rw [callFunc_stuck _ _ rfl rfl (by decide) (by decide) fuel []] at h
  cases h

end Interpreter

end AntX.Wasm
