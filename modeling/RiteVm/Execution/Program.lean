import RiteVm.Call.Dispatch
import RiteVm.Call.Frame

/-!
Contract: running a program, and what a host asks a machine to run.

Owns:
- the frame in which a code unit runs as the body of a class or of the main program, and waiting
  for its value;
- programs, given as a code unit or as a binary, for the main object or as the body of a
  class;
- methods called under a name given as text.

A program is validated before its first instruction runs. A refused one leaves the
machine as it was.
-/

namespace RiteVm

open RiteVm.Bytecode

namespace VM

/-- Pushes the frame of a program above all frames of the current register stack. -/
def pushProgramFrame (unit : CodeUnit) (self : Value) (target : Handle) : VM Unit := do
  let proc ← newProc unit none none target true
  let base := (← Query.context).stackTop
  checkDepth
  checkNativeDepth
  let top := base + max unit.registerCount.toNat 1
  modifyContext (·.clear base top)
  setSlot base self
  pushFrame
    { base, top, proc := some proc, unit := some unit, argCount := 0, hasKeywords := false
      method := none, owner := none, targetClass := target, boundary := true
      block := .nil }

/-- Runs a code unit with the given `self` and target of definitions. -/
def runUnit (engine : Engine) (unit : CodeUnit) (self : Value) (target : Handle) :
    VM Value := do
  let height ← Query.depth
  pushProgramFrame unit self target
  finishCall (← attempt (nested (engine.loop height)))

end VM

end RiteVm

namespace RiteVm.VM

open RiteVm.Bytecode

/-- The code unit that a binary holds. -/
def readProgram (binary : Bytes) : VM CodeUnit :=
  match Binary.load binary with
  | .ok unit => pure unit
  | .error error => throw (.load error)

/-- Runs a code unit as the main program. -/
def run (engine : Engine) (unit : CodeUnit) : VM Value := do
  match unit.validate with
  | .error error => throw (.load (.invalid error))
  | .ok () => runUnit engine unit (← Query.mainObject) (← Query.coreClass .object)

/-- Runs a binary as the main program. -/
def load (engine : Engine) (binary : Bytes) : VM Value := do
  run engine (← readProgram binary)

/-- Runs a binary as the body of a class. The object is `self` and takes the definitions;
whether it can do so shows when the first definition is made. -/
def loadInto (engine : Engine) (binary : Bytes) (target : Handle) : VM Value := do
  runUnit engine (← readProgram binary) (.object target) target

/-- Calls a method under a name given as text. A block that is nil is no block. -/
def funcall (engine : Engine) (receiver : Value) (name : String) (args : List Value)
    (block : Value := .nil) : VM Value := do
  callWithArgs engine receiver (← internText name) { positional := args, block }

end RiteVm.VM
