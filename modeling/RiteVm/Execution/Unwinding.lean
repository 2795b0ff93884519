import RiteVm.Call.Enclosing

/-!
Contract: leaving frames in any other way than by falling through.

Owns:
- returns, also from an enclosing method, and breaks;
- exceptions and the handlers that receive them;
- jumps that leave protected regions.

Whatever leaves a region with an ensure clause is kept as a pending record while the
clause runs, and goes on at the end of the clause. Frames from `stop` downward belong to
other interpreter loops: once the frame with this index is left, the loop that runs here
ends, and an exit that has to go further down is handed on as a failure.
-/

namespace RiteVm

open RiteVm.Bytecode

namespace Query

/-- The ensure clause of the running frame that covers its address. -/
def coveringEnsure? : Query (Option CatchHandler) := do
  let frame ← frame
  return frame.unit.bind (·.handlerFor? frame.pc (some .ensure))

/-- The index of the highest frame with an environment. -/
def frameWithEnv? (env : Handle) : Query (Option Nat) := do
  let frames := (← context).frames.toList
  return ((frames.zipIdx.reverse).find? fun (frame, _) => frame.env == some env).map (·.2)

/-- The index of the highest frame whose variables a proc sees. -/
def homeFrame? (proc : Handle) : Query (Option Nat) := do
  ((← object proc).proc?.bind (·.env)).bindM frameWithEnv?

/-- The outermost lenient proc around a lenient proc, by fewer steps than the fuel. -/
def outermostLenient : Nat → Handle → Query Handle
  | 0, _ => breach .endless
  | fuel + 1, proc => do
    match (← object proc).proc?.bind (·.upper) with
    | some upper => if ← isStrict upper then return proc else outermostLenient fuel upper
    | none => return proc

end Query

namespace VM

/-- Moves the running frame to a handler, which finds a record pending. -/
def enterHandler (target : Nat) (record : Handle) (kind : CatchKind) : VM Unit := do
  modifyFrame ({ · with pc := target })
  modifyContext ({ · with pending := some { record, kind } })

/-- Moves the running frame to an ensure clause, behind which an exit goes on. -/
def divert (handler : CatchHandler) (target : ExitTarget) (value : Value) : VM Unit := do
  let record ← allocate
    { classHandle := ← Query.coreClass .object, content := .exit { target, value } }
  enterHandler handler.target.toNat record .ensure

/-- Leaves frames down to the one with index `target`, whose caller receives the value.
The last argument is the number of frames. -/
def leaveFrames (target : Nat) (value : Value) (stop : Nat) : Nat → VM (Option Exit)
  | 0 => breach .bottomFrame
  | top + 1 => do
    match ← Query.coveringEnsure? with
    | some handler =>
      modifyFrame ({ · with ensuring := none })
      divert handler (.frame target) value
      return none
    | none =>
      match ← popFrame? with
      | none => breach .bottomFrame
      | some frame =>
        if top = target then
          if top = stop then return some (.returned value)
          setSlot frame.base value
          return none
        else if top = stop then throw (.unwinding target value)
        else leaveFrames target value stop top

/-- Leaves frames down to the one with index `target`, whose caller receives the value. -/
def exitTo (target : Nat) (value : Value) (stop : Nat) : VM (Option Exit) := do
  leaveFrames target value stop (← Query.depth)

/-- Returns from the running frame. -/
def returnValue (value : Value) (stop : Nat) : VM (Option Exit) := do
  exitTo ((← Query.depth) - 1) value stop

/-- Makes the exception that an ensure clause runs for the cause of another one that
leaves the clause, unless that has a cause. -/
def linkCause (exception : Handle) (ensuring : Option Handle) : VM Unit := do
  match ensuring with
  | some previous =>
    if previous ≠ exception then
      modifyException exception fun record =>
        { record with cause := record.cause.or (some previous) }
  | none => return

/-- Moves to the innermost handler of an exception and leaves the frames that have none.
The last argument is the number of frames. -/
def findHandler (exception : Handle) (stop : Nat) : Nat → VM Unit
  | 0 => breach .bottomFrame
  | top + 1 => do
    let frame ← Query.frame
    linkCause exception frame.ensuring
    match frame.unit.bind (·.handlerFor? frame.pc none) with
    | some handler => enterHandler handler.target.toNat exception handler.kind
    | none =>
      let _ ← popFrame?
      if top = stop then throw (.raised exception)
      else findHandler exception stop top

/-- Dispatches a raised exception to its handler. -/
def handleRaise (exception : Handle) (stop : Nat) : VM Unit := do
  fillBacktrace exception
  findHandler exception stop (← Query.depth)

/-- Jumps, but first runs an ensure clause whose region the jump leaves. -/
def jumpUnwinding (target : Nat) : VM Unit := do
  let leaves? ← do
    match ← Query.coveringEnsure? with
    | some handler =>
      let stays := handler.first.toNat ≤ target && target < handler.last.toNat
      pure (if stays then none else some handler)
    | none => pure none
  match leaves? with
  | some handler => divert handler (.address target) .nil
  | none =>
    modifyContext ({ · with pending := none })
    modifyFrame ({ · with ensuring := none, pc := target })

/-- Goes on with what an ensure clause was run for. -/
def resumePending (record : Value) (stop : Nat) : VM (Option Exit) := do
  modifyFrame ({ · with ensuring := none })
  match record with
  | .nil => return none
  | .object handle =>
    match (← Query.object handle).content with
    | .exception _ => throw (.raised handle)
    | .exit { target := .frame target, value } => exitTo target value stop
    | .exit { target := .address pc, .. } =>
      jumpUnwinding pc
      return none
    | _ => raise .typeError "exception object expected"
  | _ => raise .typeError "exception object expected"

/-- Loads the pending record. A frame that loads an exception in an ensure clause keeps
it as the one that the clause runs for. -/
def loadPending : VM Value := do
  match (← Query.context).pending with
  | none => return .nil
  | some pending =>
    modifyContext ({ · with pending := none })
    if pending.kind = .ensure then
      let isException := (← Query.object pending.record).exception?.isSome
      modifyFrame ({ · with ensuring := if isException then some pending.record else none })
    return .object pending.record

/-- Ends the call that the running block was passed to. A strict proc just returns. -/
def breakOut (value : Value) (stop : Nat) : VM (Option Exit) := do
  let top := (← Query.depth) - 1
  match (← Query.frame).proc with
  | none => raise .localJumpError "break from proc-closure"
  | some proc =>
    if ← Query.isStrict proc then exitTo top value stop
    else
      match ← Query.homeFrame? proc with
      | some home =>
        if home < top then exitTo (home + 1) value stop
        else raise .localJumpError "break from proc-closure"
      | none => raise .localJumpError "break from proc-closure"

/-- Returns from the method that the running block was written in. -/
def returnFromMethod (value : Value) (stop : Nat) : VM (Option Exit) := do
  match (← Query.frame).proc with
  | none => returnValue value stop
  | some proc =>
    if ← Query.isStrict proc then returnValue value stop
    else
      let outermost ← Query.outermostLenient (← Query.heapBound) proc
      match (← Query.object outermost).proc?.bind (·.env) with
      | none => returnValue value stop
      | some env =>
        match ← Query.frameWithEnv? env with
        | some home => exitTo home value stop
        | none => raise .localJumpError "unexpected return"

end VM

end RiteVm
