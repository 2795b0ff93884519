import RiteVm.Class.Naming
import RiteVm.Text.Decimal

/-!
Contract: the text of values for readers, new values, and raised exceptions.

Owns:
- the rendering of a value with everything inside it. An array, hash or plain
  object that lies inside its own rendering is shown by a placeholder;
- new strings, arrays, hashes, ranges and plain objects;
- exceptions that the machine itself raises, and where they were raised;
- the checks that raise: frozen objects, and values that have to be a class, a proc
  or a fiber.

The rendering calls no methods and changes nothing. Its fuel bounds how deep values
nest: on the way inward a container is entered at most once, and between two
containers there are at most as many ranges as objects.
-/

namespace RiteVm.Query

/-- The rendering of a value inside the renderings of the objects in `around`. -/
def inspectWithin : Nat → List Handle → Value → Query String
  | _, _, .nil => return "nil"
  | _, _, .true => return "true"
  | _, _, .false => return "false"
  | _, _, .int number => return toString number.toInt
  | _, _, .float number => return Text.floatText number
  | _, _, .symbol symbol => return s!":{← symbolText symbol}"
  | 0, _, .object _ => breach .endless
  | fuel + 1, around, .object handle => do
    let object ← object handle
    if around.contains handle then
      return if object.hash?.isSome then "\x7b...\x7d" else "[...]"
    let inside := handle :: around
    let nominal ← className (← realClassOf (.object handle))
    match object.content with
    | .string bytes => return Text.quoted (Text.lossy bytes)
    | .array items =>
      let texts ← items.toList.mapM (inspectWithin fuel inside)
      return "[" ++ ", ".intercalate texts ++ "]"
    | .hash table =>
      let texts ← table.pairs.mapM fun (key, value) => do
        return s!"{← inspectWithin fuel inside key} => {← inspectWithin fuel inside value}"
      return "\x7b" ++ ", ".intercalate texts ++ "\x7d"
    | .range range =>
      let first ← inspectWithin fuel around range.first
      let last ← inspectWithin fuel around range.last
      return first ++ (if range.exclusive then "..." else "..") ++ last
    | .classOrModule _ => className handle
    | .proc record =>
      let suffix := if record.strict then " (lambda)" else ""
      return s!"#<Proc:{identityText handle}{suffix}>"
    | .fiber record => return s!"#<Fiber:{identityText handle} ({record.state.text})>"
    | .exception record =>
      let message := (← text? record.message).getD nominal
      return s!"#<{nominal}: {message}>"
    | .data record => return s!"#<{nominal}:{record.typeName}>"
    | .plain | .env _ | .exit _ =>
      let texts ← object.fields.entries.mapM fun (name, value) => do
        return s!"{← symbolText name}={← inspectWithin fuel inside value}"
      let shown := if texts.isEmpty then "" else " " ++ ", ".intercalate texts
      return s!"#<{nominal}{shown}>"

/-- The rendering of a value. -/
def inspect (value : Value) : Query String := do
  let bound ← heapBound
  inspectWithin ((bound + 1) * (bound + 1)) [] value

/-- The line of a frame in a backtrace. -/
def frameLine (frame : Frame) : Query String := do
  let name? ← frame.method.mapM symbolText
  match frame.unit with
  | none => return name?.getD "?" ++ "@native"
  | some _ =>
    let label := name?.getD "<main>"
    let block ← match frame.proc with
      | some proc => (! ·) <$> isStrict proc
      | none => pure false
    return if block then s!"block in {label}@{frame.pc}" else s!"{label}@{frame.pc}"

/-- The lines of all frames of the current register stack, the innermost first. -/
def backtrace : Query (List String) := do
  (← context).frames.toList.reverse.mapM frameLine

end RiteVm.Query

namespace RiteVm.VM

/-- A new object of a core class. -/
def newCore (core : CoreClass) (content : Content) : VM Value := do
  let classHandle ← Query.coreClass core
  return .object (← allocate { classHandle, content })

/-- A new string. -/
def newString (bytes : Bytes) : VM Value := newCore .string (.string bytes)

/-- A new string with the bytes of a text. -/
def newText (text : String) : VM Value := newString (Text.utf8 text)

/-- A new array. -/
def newArray (items : Array Value) : VM Value := newCore .array (.array items)

/-- A new hash without entries. -/
def newHash : VM Value := newCore .hash (.hash .empty)

/-- A new hash of pairs. The keys are stored as they are. -/
def newHashOfPairs (pairs : List (Value × Value)) : VM Value := do
  let digest ← Query.digest
  newCore .hash (.hash (.ofPairs digest pairs))

/-- A new range. -/
def newRange (first last : Value) (exclusive : Bool) : VM Value :=
  newCore .range (.range { first, last, exclusive })

/-- A new object of a class with instance variables only. -/
def newObject (classHandle : Handle) : VM Value := do
  return .object (← allocate { classHandle, content := .plain })

/-- Changes an exception. -/
def modifyException (handle : Handle) (change : ExceptionRecord → ExceptionRecord) : VM Unit :=
  modifyObject handle fun object =>
    match object.content with
    | .exception record => { object with content := .exception (change record) }
    | _ => object

/-- Records where an exception was raised, unless that is known. -/
def fillBacktrace (handle : Handle) : VM Unit := do
  match (← Query.object handle).exception? with
  | some { backtrace := none, .. } =>
    let lines ← Query.backtrace
    modifyException handle ({ · with backtrace := some lines })
  | _ => return

/-- A new exception that was not raised yet. -/
def newException (classHandle : Handle) (message : Value) : VM Handle :=
  allocate { classHandle, content := .exception { message } }

/-- A new exception of a core class, raised in the current frame. -/
def exceptionHere (core : CoreClass) (message : String) : VM Handle := do
  let message ← newText message
  let exception ← newException (← Query.coreClass core) message
  fillBacktrace exception
  return exception

/-- Raises an exception of a core class. -/
def raise {α : Type} (core : CoreClass) (message : String) : VM α := do
  throw (.raised (← exceptionHere core message))

/-- Raises an exception about a name. -/
def raiseNameError {α : Type} (message : String) (name : Symbol) : VM α := do
  let exception ← exceptionHere .nameError message
  modifyException exception ({ · with receiver := none, name := some name })
  throw (.raised exception)

/-- Raises an exception about a missing method. -/
def raiseNoMethod {α : Type} (message : String) (receiver : Value) (name : Symbol) :
    VM α := do
  let exception ← exceptionHere .noMethodError message
  modifyException exception ({ · with receiver := some receiver, name := some name })
  throw (.raised exception)

/-- Raises the exception for too deeply nested calls. -/
def raiseStackError {α : Type} : VM α := raise .systemStackError "stack level too deep"

/-- Raises unless an object can be changed. -/
def checkFrozen (value : Value) : VM Unit := do
  if ← Query.isFrozen value then
    raise .frozenError
      s!"can't modify frozen {← Query.typeName value}: {← Query.inspect value}"

/-- The handle of a class or module; raises for other values. -/
def expectModule (value : Value) : VM Handle := do
  match value with
  | .object handle =>
    if (← Query.object handle).class?.isSome then return handle
  | _ => pure ()
  raise .typeError s!"{← Query.inspect value} is not a class/module"

/-- The handle of a proc; raises for other values. -/
def expectProc (value : Value) : VM Handle := do
  match value with
  | .object handle =>
    if (← Query.object handle).proc?.isSome then return handle
  | _ => pure ()
  raise .typeError s!"wrong argument type {← Query.typeName value} (expected Proc)"

/-- The handle of a fiber; raises for other values. -/
def expectFiber (value : Value) : VM Handle := do
  match value with
  | .object handle =>
    if (← Query.object handle).fiber?.isSome then return handle
  | _ => pure ()
  raise .typeError s!"wrong argument type {← Query.typeName value} (expected Fiber)"

/-- The handle of a hash; raises for other values. -/
def expectHash (value : Value) : VM Handle := do
  match value with
  | .object handle =>
    if (← Query.object handle).hash?.isSome then return handle
  | _ => pure ()
  raise .typeError s!"no implicit conversion of {← Query.typeName value} into Hash"

end RiteVm.VM
