import RiteVm.Call.Args

/-!
Contract: what a running method may start.

Owns:
- how an interpreter loop ends;
- the engine, which runs interpreter loops and method bodies that are no bytecode, and
  what a host provides as a method body;
- the limits on nested frames and nested loops, and the translation of a loop's end for
  the caller that waits for a value.

Methods refer to an engine instead of to each other, so each of them is defined on its
own. `Execution.Loop` ties the knot.
-/

namespace RiteVm

/-- How an interpreter loop ends. -/
inductive Exit where
  /-- the frame that it runs for returned a value -/
  | returned (value : Value)
  /-- the running fiber handed a value over -/
  | yielded (value : Value)
deriving DecidableEq, Repr

/-- The value of an exit. -/
def Exit.value : Exit → Value
  | returned value | yielded value => value

/-- What a running method may start. -/
structure Engine where
  /-- runs until the frame with an index has returned, or the fiber yields -/
  loop : Nat → VM Exit
  /-- runs a method body that is no bytecode -/
  native : NativeMethod → Value → Args → VM Value
  /-- how often a method may call a block from one loop whose length is not known before -/
  rounds : Nat

/-- The body of a method that a host provides. -/
abbrev HostMethod := Engine → Value → Args → VM Value

namespace VM

/-- The value of a result, or its failure. -/
def resolve {α : Type} (result : Except Failure α) : VM α :=
  match result with
  | .ok value => pure value
  | .error failure => throw failure

/-- Raises if the current register stack can hold no further frame. -/
def checkDepth : VM Unit := do
  if (← get).config.maxCallDepth ≤ (← Query.depth) then raiseStackError

/-- Raises if no further interpreter loop can be nested. -/
def checkNativeDepth : VM Unit := do
  let machine ← get
  if machine.config.maxNativeDepth ≤ machine.nativeDepth then raiseStackError

/-- Runs an action one level deeper. The level is left however the action ends. -/
def nested {α : Type} (action : VM α) : VM α := do
  checkNativeDepth
  modify fun machine => { machine with nativeDepth := machine.nativeDepth + 1 }
  let result ← attempt action
  modify fun machine => { machine with nativeDepth := machine.nativeDepth - 1 }
  resolve result

/-- The value of an interpreter loop for a caller that is no bytecode. An exit to a frame
that is gone is reported as an exception. -/
def finishCall (result : Except Failure Exit) : VM Value := do
  match result with
  | .ok (.returned value) => return value
  | .ok (.yielded _) => fatal .yieldAcrossHostCall
  | .error (.unwinding target value) =>
    if (← Query.depth) ≤ target then raise .localJumpError "break from proc-closure"
    else throw (.unwinding target value)
  | .error failure => throw failure

end VM

end RiteVm
