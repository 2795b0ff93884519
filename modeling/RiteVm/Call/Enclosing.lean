import RiteVm.Call.Dispatch

/-!
Contract: what code sees of the scopes around it.

Owns:
- the environment of the running frame, and those of the scopes that enclose it;
- the arguments and the block of the enclosing method;
- the block and the `self` of the frame that called a method that is no bytecode;
- turning the frame of a proc's call into a frame of the proc.
-/

namespace RiteVm

/-- Where the parameters of an enclosing method are, as one instruction operand says it. -/
structure Outward where
  /-- parameters in front of the rest parameter -/
  leading : Nat
  rest : Bool
  post : Nat
  /-- whether the keyword dictionary lies in front of the block -/
  dictionary : Bool
  /-- number of scopes outward -/
  level : Nat
deriving DecidableEq, Repr

namespace Outward

/-- Reads the operand: six bits, one bit, five bits, one bit and four bits. -/
def ofOperand (operand : Nat) : Outward :=
  { leading := operand >>> 11 % 64
    rest := operand >>> 10 % 2 == 1
    post := operand >>> 5 % 32
    dictionary := operand >>> 4 % 2 == 1
    level := operand % 16 }

/-- The index of the first parameter behind the rest parameter. -/
def postStart (outward : Outward) : Nat := outward.leading + (if outward.rest then 1 else 0)

/-- The index behind the positional parameters. -/
def size (outward : Outward) : Nat := outward.postStart + outward.post

/-- The index of the block. -/
def block (outward : Outward) : Nat := outward.size + (if outward.dictionary then 1 else 0)

end Outward

namespace Query

/-- The proc a number of scopes outward from a proc. -/
def enclosingProc : Nat → Option Handle → Query (Option Handle)
  | 0, proc? => return proc?
  | level + 1, proc? => do
    let upper? ← proc?.bindM fun proc => do
      return (← object proc).proc?.bind (·.upper)
    enclosingProc level upper?

/-- The environment a number of scopes outward from the running proc. -/
def enclosingEnv? (level : Nat) : Query (Option Handle) := do
  let proc? ← enclosingProc level (← frame).proc
  proc?.bindM fun proc => do return (← object proc).proc?.bind (·.env)

/-- The block of the innermost strict frame below the top one. -/
def callerBlock : Query Value := do
  let below := (← context).frames.toList.reverse.drop 1
  let strict? ← below.findM? fun frame =>
    match frame.proc with
    | some proc => isStrict proc
    | none => pure false
  return (strict?.map (·.block)).getD .nil

/-- The `self` of the frame below the top one. -/
def callerSelf? : Query (Option Value) := do
  let context ← context
  match context.frames.toList.reverse.drop 1 with
  | [] => return none
  | frame :: _ => return some (context.slot frame.base)

end Query

namespace VM

/-- The environment of the running frame, created when it is first needed. -/
def frameEnv : VM Handle := do
  let frame ← Query.frame
  match frame.env with
  | some env => return env
  | none =>
    let machine ← get
    let count := (frame.unit.map (·.localCount.toNat)).getD 1
    let env ← allocate
      { classHandle := ← Query.coreClass .object
        content := .env
          { storage := .onStack machine.current machine.currentFiber frame.base count
            method := frame.method, owner := frame.owner } }
    modifyFrame ({ · with env := some env })
    return env

/-- The environment a number of scopes outward; fails for good if there is none. -/
def enclosingEnv (level : Nat) : VM Handle := do
  match ← Query.enclosingEnv? level with
  | some env => return env
  | none => fatal (.noScope level)

/-- The parameter with an index of the method a number of scopes outward. -/
def outwardArg (base level index : Nat) : VM Value := do
  match level with
  | 0 => Query.register base (1 + index)
  | level + 1 => do Query.capturedVar (← enclosingEnv level) (1 + index)

/-- Collects the arguments of the enclosing method for a `super` that names none. -/
def argArray (base register operand : Nat) : VM Unit := do
  let outward := Outward.ofOperand operand
  let argAt := outwardArg base outward.level
  if (← Query.frame).method.isNone then
    raise .noMethodError "super called outside of method"
  let leading ← (List.range outward.leading).mapM argAt
  let rest ←
    if outward.rest then do
      let rest ← argAt outward.leading
      pure ((← Query.array? rest).map (·.toList)).toList.flatten
    else pure []
  let post ← (List.range outward.post).mapM fun index => argAt (outward.postStart + index)
  setRegister base register (← newArray (leading ++ rest ++ post).toArray)
  if outward.dictionary then
    let dictionary ← argAt outward.size
    let block ← argAt outward.block
    setRegister base (register + 1) dictionary
    setRegister base (register + 2) block
  else
    setRegister base (register + 1) (← argAt outward.block)

/-- Loads the block of the enclosing method; raises if there is none. -/
def pushBlock (base register operand : Nat) : VM Unit := do
  let outward := Outward.ofOperand operand
  let block ← outwardArg base outward.level outward.block
  if block.isNil then raise .localJumpError "no block given (yield)"
  setRegister base register block

/-- Turns the running frame, whose receiver is a proc, into a frame of this proc. The
arguments stay in place. -/
def becomeProc : VM Unit := do
  let frame ← Query.frame
  let receiver ← Query.slot frame.base
  let proc ← expectProc receiver
  let record ← Query.procRecord proc
  let (self, method, owner) ←
    match record.env with
    | some env => do
      let captured ← Query.envRecord env
      pure (← Query.capturedVar env 0, captured.method, captured.owner)
    | none => pure (receiver, frame.method, frame.owner)
  setSlot frame.base self
  let top := max frame.top (frame.base + record.unit.registerCount.toNat)
  modifyContext (·.clear frame.top top)
  modifyFrame fun frame =>
    { frame with
      proc := some proc, unit := some record.unit, pc := 0, env := none, top
      targetClass := record.targetClass, method, owner }

end VM

end RiteVm
