import RiteVm.Bytecode.Operands
import RiteVm.Fiber.Resume

/-!
Contract: the methods of procs and fibers.

Owns: what each of `ClosureMethod` does, and the arity of a code unit.
-/

namespace RiteVm

open RiteVm.Bytecode

namespace Bytecode

/-- The number of required parameters; one less than its negative if more are accepted. -/
def ArgSpec.arity (spec : ArgSpec) : Int :=
  let required : Int := spec.required + spec.post
  if spec.rest || 0 < spec.optional then -required - 1 else required

/-- The arity of a code unit, zero if it does not begin by binding arguments. -/
def CodeUnit.arity (unit : CodeUnit) : Int :=
  match instructionAt? unit.code 0 with
  | some { op := .enter, operands, .. } => (ArgSpec.ofOperand operands.a).arity
  | _ => 0

end Bytecode

namespace VM

/-- Runs a method of procs and fibers. -/
def runClosureMethod (engine : Engine) (self : Value) (args : Args) :
    ClosureMethod → VM Value
  | .isLambda => do
    let proc ← expectProc self
    return .ofBool (← Query.isStrict proc)
  | .arity => do
    let record ← Query.procRecord (← expectProc self)
    return .int (.ofInt record.unit.arity)
  | .newFiber =>
    match args.block? with
    | some block => newFiber block
    | none => raise .argumentError "tried to create Proc object without a block"
  | .yield => yieldFiber args.positional
  | .resume => resume engine self args.positional
  | .isAlive => return .ofBool (((← Query.fiberState? self).map FiberState.isAlive).getD false)

end VM

end RiteVm
