import RiteVm.Call.Frame
import RiteVm.Class.Methods

/-!
Contract: calling methods by name.

Owns:
- calls by instructions, which run in the interpreter loop that is already running;
- calls by methods that are no bytecode, which start an interpreter loop of their own;
- `method_missing`, which takes the call of a name that the receiver has no method for;
- `super`;
- the text of a value as string interpolation needs it.
-/

namespace RiteVm

namespace Query

/-- How a receiver is described in messages. -/
def describeReceiver (receiver : Value) : Query String := do
  match receiver with
  | .nil => return "nil"
  | .true => return "true"
  | .false => return "false"
  | .object handle =>
    match (← object handle).class? with
    | some record =>
      let kind := if record.kind = .module then "module" else "class"
      return s!"{kind} {← className handle}"
    | none => return s!"an instance of {← typeName receiver}"
  | _ => return s!"an instance of {← typeName receiver}"

end Query

namespace VM

/-- Raises for a call that found no method. -/
def raiseUndefinedCall {α : Type} (receiver : Value) (name : Symbol) : VM α := do
  let method ← Query.symbolText name
  let description ← Query.describeReceiver receiver
  raiseNoMethod s!"undefined method '{method}' for {description}" receiver name

/-- Takes the value that a fiber hands over. -/
def takeYielded : VM (Option Value) := do
  let yielded := (← get).yielded
  modify fun machine => { machine with yielded := none }
  return yielded

/-- Calls a method that is no bytecode on the arguments at a call site. If the method
fails, its frame stays, to be reported and left by the unwinding. -/
def callNative (engine : Engine) (site : CallSite) (body : NativeMethod) (owner : Handle)
    (name : Symbol) : VM (Option Exit) := do
  checkDepth
  let args ← Query.argsAt site
  let receiver ← Query.slot site.receiverAt
  pushNativeFrame site owner name args.block
  let value ← engine.native body receiver args
  match ← takeYielded with
  | some yielded => return some (.yielded yielded)
  | none =>
    let _ ← popFrame?
    setSlot site.receiverAt value
    return none

/-- Calls a method on the arguments at a call site. -/
def callMethod (engine : Engine) (site : CallSite) (found : FoundMethod) (name : Symbol) :
    VM (Option Exit) := do
  match found.method with
  | .proc body =>
    let block ← Query.slot site.blockAt
    pushProcFrame site body (some found.owner) (some name) block false
    return none
  | .native body => callNative engine site body found.owner name
  | .undefined => fatal .undefinedMethod

/-- Calls the method of a name on the arguments at a call site. -/
def dispatch (engine : Engine) (site : CallSite) (name : Symbol) : VM (Option Exit) := do
  let receiver ← Query.slot site.receiverAt
  let handle ← Query.classOf receiver
  match ← findMethod handle name with
  | some found => callMethod engine site found name
  | none =>
    match ← findMethod handle .methodMissing with
    | some found =>
      let site ← packForMissing site name
      callMethod engine site found .methodMissing
    | none => raiseUndefinedCall receiver name

/-- Calls a method of the receiver in a register. -/
def send (engine : Engine) (base register : Nat) (name : Symbol) (operand : Nat)
    (withBlock : Bool) : VM (Option Exit) := do
  let site ← normalizeArgs (base + register) operand withBlock
  dispatch engine site name

/-- Calls a method of `self`, which is stored in the register of the receiver first. -/
def sendSelf (engine : Engine) (base register : Nat) (name : Symbol) (operand : Nat)
    (withBlock : Bool) : VM (Option Exit) := do
  setRegister base register (← Query.register base 0)
  send engine base register name operand withBlock

/-- Calls the next method of the running name behind the class it was found in. -/
def callSuper (engine : Engine) (base register operand : Nat) : VM (Option Exit) := do
  let frame ← Query.frame
  match frame.method, frame.owner with
  | some name, some owner =>
    let receiver ← Query.register base 0
    match ← findSuperMethod (← Query.classOf receiver) owner name with
    | .unrelated => raise .typeError "self has wrong type to call super in this context"
    | .missing =>
      raiseNoMethod s!"no superclass method '{← Query.symbolText name}'" receiver name
    | .found found =>
      setRegister base register receiver
      let site ← normalizeArgs (base + register) operand true
      callMethod engine site found name
  | _, _ => raise .noMethodError "super called outside of method"

/-- The method that a call by name reaches, and the name and arguments it is called
with. -/
def resolveCall (receiver : Value) (name : Symbol) (args : Args) :
    VM (FoundMethod × Symbol × Args) := do
  let handle ← Query.classOf receiver
  match ← findMethod handle name with
  | some found => return (found, name, args)
  | none =>
    match ← findMethod handle .methodMissing with
    | some found => return (found, .methodMissing, args.prepend (.symbol name))
    | none => raiseUndefinedCall receiver name

/-- Calls a method that is no bytecode and waits for its value. The frames that it leaves
behind are dropped; an exit to its own frame is its value. -/
def callNativeBody (engine : Engine) (receiver : Value) (body : NativeMethod)
    (owner : Handle) (name : Symbol) (args : Args) : VM Value := do
  let site : CallSite := { receiverAt := (← Query.context).stackTop }
  checkDepth
  setSlot site.receiverAt receiver
  setSlot site.blockAt args.block
  let height ← Query.depth
  pushNativeFrame site owner name args.block
  let result ← attempt (nested (engine.native body receiver args))
  truncateFrames height
  match result with
  | .ok value => return value
  | .error (.unwinding target value) =>
    if target = height then return value
    else finishCall (.error (.unwinding target value))
  | .error failure => throw failure

/-- Runs a proc with a loop of its own and waits for its value. -/
def callProcBody (engine : Engine) (receiver : Value) (proc owner : Handle) (name : Symbol)
    (args : Args) : VM Value := do
  let site ← layOutArgs (← Query.context).stackTop receiver args
  let height ← Query.depth
  pushProcFrame site proc (some owner) (some name) args.block true
  finishCall (← attempt (nested (engine.loop height)))

/-- Calls a method by name and waits for its value. -/
def callWithArgs (engine : Engine) (receiver : Value) (name : Symbol) (args : Args) :
    VM Value := do
  checkNativeDepth
  let (found, name, args) ← resolveCall receiver name args
  match found.method with
  | .native body => callNativeBody engine receiver body found.owner name args
  | .proc body => callProcBody engine receiver body found.owner name args
  | .undefined => fatal .undefinedMethod

/-- Calls a method with positional arguments. -/
def callWith (engine : Engine) (receiver : Value) (name : Symbol) (args : List Value) :
    VM Value :=
  callWithArgs engine receiver name (.ofList args)

/-- Calls a proc as `yield` does. -/
def callProc (engine : Engine) (proc : Value) (args : List Value) : VM Value :=
  callWith engine proc .call args

/-- The bytes of a value's text in an interpolated string. An object is asked for its
text; if the answer is no string, the rendering of the object stands in. -/
def textBytes (engine : Engine) (value : Value) : VM Bytes := do
  match value with
  | .nil => return #[]
  | .symbol name => Query.symbolBytes name
  | .object _ =>
    match ← Query.string? value with
    | some bytes => return bytes
    | none =>
      let text ← callWith engine value .toS []
      match ← Query.string? text with
      | some bytes => return bytes
      | none => return Text.utf8 (← Query.inspect value)
  | _ => return Text.utf8 (← Query.inspect value)

end VM

end RiteVm
