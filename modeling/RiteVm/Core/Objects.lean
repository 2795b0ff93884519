import RiteVm.Call.Enclosing
import RiteVm.Class.Definition

/-!
Contract: the methods of every object.

Owns: what each of `ObjectMethod` does, and the identity of a value as a number.
-/

namespace RiteVm

/-- The number that tells a value from all others. Equal immediate values have the same
one. -/
def Value.identity : Value → Int64
  | .false => 0
  | .nil => 8
  | .true => 20
  | .int number => number * 2 + 1
  | .float number => number.toBits.toInt64 &&& (~~~3) ||| 2
  | .symbol name => Int64.ofNat name.id <<< 8 ||| 12
  | .object handle => Int64.ofNat (handle.identity * 8)

namespace VM

/-- A lambda with the code and the scope of a proc. -/
def strictCopy (proc : Handle) : VM Handle := do
  if ← Query.isStrict proc then return proc
  let record ← Query.procRecord proc
  let classHandle ← Query.coreClass .proc
  allocate { classHandle, content := .proc { record with strict := true } }

/-- Whether a value answers that it equals another one. -/
def answersEqual (engine : Engine) (self other : Value) : VM Bool := do
  return (← callWith engine self .opEq [other]).isTruthy

/-- Calls the method that the first argument names with the other arguments. -/
def forward (engine : Engine) (self : Value) (args : Args) : VM Value := do
  checkArity args 1 none
  let name ← symbolArg args 0
  callWithArgs engine self name args.rest

/-- Raises an exception object whose place is recorded on the way. -/
def raiseObject {α : Type} (exception : Handle) : VM α := do
  fillBacktrace exception
  throw (.raised exception)

/-- The exception that the arguments of `raise` stand for: a class or an exception, which
make one of the other arguments, or an exception itself. -/
def exceptionFor (engine : Engine) (args : Args) : VM Value := do
  let first := args.get 0
  let rest := args.positional.drop 1
  match ← Query.content? first with
  | some (.classOrModule _) => callWith engine first .exception rest
  | some (.exception _) =>
    if rest.isEmpty then return first else callWith engine first .exception rest
  | _ => raise .typeError "exception class/object expected"

/-- Raises what the arguments say: nothing, a message, or an exception. -/
def raiseArgs (engine : Engine) (args : Args) : VM Value := do
  checkArity args 0 (some 2)
  if args.size = 0 then raise .runtimeError "unhandled exception"
  if args.size = 1 ∧ (← Query.string? (args.get 0)).isSome then
    raiseObject (← newException (← Query.coreClass .runtimeError) (args.get 0))
  match ← exceptionFor engine args with
  | .object handle =>
    if (← Query.object handle).exception?.isSome then raiseObject handle
  | _ => pure ()
  raise .typeError "exception object expected"

/-- The text of a value that does not say what it is. -/
def plainText (self : Value) : Query String := do
  match self with
  | .object handle =>
    let typeName ← Query.typeName self
    return s!"#<{typeName}:{Query.identityText handle}>"
  | _ => Query.inspect self

/-- Runs a method of every object. -/
def runObjectMethod (engine : Engine) (self : Value) (args : Args) :
    ObjectMethod → VM Value
  | .initializer => return .nil
  | .same => return .ofBool (self.equal (args.get 0))
  | .not => return .ofBool self.isFalsy
  | .notEqual => return .ofBool !(← answersEqual engine self (args.get 0))
  | .identity => return .int self.identity
  | .methodMissing => do raiseUndefinedCall self (← symbolArg args 0)
  | .send => forward engine self args
  | .raise => raiseArgs engine args
  | .classOf => return .object (← Query.realClassOf self)
  | .isA => do
    let handle ← expectModule (args.get 0)
    return .ofBool (← isKindOf self handle)
  | .respondTo => do
    let name ← symbolArg args 0
    return .ofBool (← respondsTo self name)
  | .isNil => return .ofBool self.isNil
  | .freeze => do
    freeze self
    return self
  | .isFrozen => return .ofBool (← Query.isFrozen self)
  | .singletonClass => return .object (← singletonClass self)
  | .lambda => return .object (← strictCopy (← blockToKeep args))
  | .proc => return .object (← blockToKeep args)
  | .inspect => do newText (← Query.inspect self)
  | .toS => do newText (← plainText self)
  | .caseEqual => return .ofBool (← answersEqual engine self (args.get 0))
  | .getVariable => do
    let name ← symbolArg args 0
    Query.instanceVar self name
  | .setVariable => do
    let name ← symbolArg args 0
    setInstanceVar self name (args.get 1)
    return args.get 1
  | .blockGiven => return .ofBool !(← Query.callerBlock).isNil
  | .alwaysTrue => return .true
  | .emptyText => newText ""
  | .mainText => newText "main"

end VM

end RiteVm
