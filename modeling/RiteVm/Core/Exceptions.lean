import RiteVm.Call.Dispatch

/-!
Contract: the methods of exceptions.

Owns: what each of `ExceptionMethod` does, and how a host reads an exception.
-/

namespace RiteVm

namespace Query

/-- The record of an exception; nothing for another or a reclaimed object. -/
def exceptionRecord? (handle : Handle) : Query (Option ExceptionRecord) := fun machine =>
  .ok ((machine.heap.get? handle).bind Object.exception?)

/-- The name of an exception's class. -/
def exceptionClass? (handle : Handle) : Query (Option String) := do
  match ← exceptionRecord? handle with
  | some _ => some <$> className (← realClassOf (.object handle))
  | none => return none

/-- The message of an exception, the name of its class if it has none. -/
def exceptionMessage? (handle : Handle) : Query (Option String) := do
  match ← exceptionRecord? handle with
  | some record =>
    match ← text? record.message with
    | some message => return some message
    | none => exceptionClass? handle
  | none => return none

/-- Where an exception was raised, the innermost frame first. -/
def exceptionLines (handle : Handle) : Query (List String) := do
  return ((← exceptionRecord? handle).bind (·.backtrace)).getD []

/-- A failure in one line. -/
def describeFailure (failure : Failure) : Query String := do
  match failure with
  | .raised exception =>
    let className := (← exceptionClass? exception).getD ""
    let message := (← exceptionMessage? exception).getD ""
    return s!"{className}: {message}"
  | .load error => return s!"invalid bytecode: {error.message}"
  | .fatal cause => return s!"fatal: {cause.message}"
  | .unwinding _ _ => return "non-local exit escaped its target frame"
  | .breach _ => return "broken invariant"
  | .outOfFuel => return "out of fuel"

end Query

namespace VM

/-- The handle and the record of an exception; raises for other values. -/
def expectException (value : Value) : VM (Handle × ExceptionRecord) := do
  match value with
  | .object handle =>
    if let some record := (← Query.object handle).exception? then return (handle, record)
  | _ => pure ()
  raise .typeError s!"{← Query.inspect value} is not an exception"

/-- What is kept as the message of an exception: nil, a string, or the text of another
value. -/
def messageValue (engine : Engine) (value : Value) : VM Value := do
  if value.isNil ∨ (← Query.string? value).isSome then return value
  newString (← textBytes engine value)

/-- A copy of an exception with another message that was not raised yet. -/
def copyException (engine : Engine) (self message : Value) : VM Value := do
  let message ← messageValue engine message
  let (handle, record) ← expectException self
  let object ← Query.object handle
  let record := { record with message, backtrace := none }
  return .object (← allocate
    { classHandle := object.classHandle, content := .exception record
      fields := object.fields })

/-- Runs a method of exceptions. -/
def runExceptionMethod (engine : Engine) (self : Value) (args : Args) :
    ExceptionMethod → VM Value
  | .create => callWithArgs engine self .new args
  | .initializer => do
    checkArity args 0 (some 1)
    let message ← messageValue engine (args.get 0)
    let (handle, _) ← expectException self
    modifyException handle ({ · with message })
    return .nil
  | .exception => do
    checkArity args 0 (some 1)
    if args.size = 0 ∨ (args.get 0).equal self then return self
    copyException engine self (args.get 0)
  | .message => do
    let (_, record) ← expectException self
    if record.message.isNil then newText (← Query.className (← Query.realClassOf self))
    else return record.message
  | .cause => do
    let (_, record) ← expectException self
    return (record.cause.map .object).getD .nil
  | .backtrace => do
    let (_, record) ← expectException self
    match record.backtrace with
    | some lines => do newArray (← lines.mapM newText).toArray
    | none => return .nil
  | .name => do
    let (_, record) ← expectException self
    return (record.name.map .symbol).getD .nil
  | .receiver => do
    let (_, record) ← expectException self
    return record.receiver.getD .nil

end VM

end RiteVm
