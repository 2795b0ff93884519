import RiteVm.Binary.Load
import RiteVm.Machine.Basic

/-!
Contract: how a computation of the machine ends without a value.

Owns:
- the causes of fatal errors, each with its wording;
- breaches, which are broken invariants of the machine;
- failures, and the two monads of the machine: `Query` reads it, `VM` changes it.

A failing computation keeps the changes that it made before it failed.
-/

namespace RiteVm

open RiteVm.Bytecode

/-- Why a machine cannot go on. -/
inductive FatalCause where
  | yieldAcrossHostCall
  | unnamedSymbol (index : Nat)
  | noStringLiteral (index : Nat)
  | noScope (level : Nat)
  | nativeFrameInLoop
  | invalidInstruction (pc : Nat)
  | poolIndex (index : Nat)
  | childIndex (index : Nat)
  | appendToImmediate
  | appendToOther
  | unsupportedPrefix (op : Opcode)
  | undefinedMethod
  /-- declared by a method of the host -/
  | host (message : String)
deriving DecidableEq, Repr

/-- The wording of a fatal error. -/
def FatalCause.message : FatalCause → String
  | yieldAcrossHostCall => "fiber yielded across a host call"
  | unnamedSymbol index => s!"symbol {index} has no name"
  | noStringLiteral index => s!"pool entry {index} is not a string"
  | noScope level => s!"no enclosing scope at level {level}"
  | nativeFrameInLoop => "native frame in the interpreter loop"
  | invalidInstruction pc => s!"invalid instruction at {pc}"
  | poolIndex index => s!"pool index {index} out of range"
  | childIndex index => s!"child {index} out of range"
  | appendToImmediate => "STRCAT on an immediate"
  | appendToOther => "STRCAT on a non-string"
  | unsupportedPrefix op => s!"unsupported prefix {op.mnemonic}"
  | undefinedMethod => "dispatched to an undefined method"
  | host message => message

/-- A broken invariant of the machine. -/
inductive Breach where
  | danglingHandle (handle : Handle)
  | noContext (id : ContextId)
  | noActiveFrame
  | bottomFrame
  | expectedClass (handle : Handle)
  | expectedProc (handle : Handle)
  | expectedEnv (handle : Handle)
  | expectedHash (handle : Handle)
  | expectedFiber (handle : Handle)
  | noSuperclass (handle : Handle)
  | noYieldFrame
  | noResumer
  | noHostMethod (index : Nat)
  /-- an intermediate result of integer arithmetic that does not fit 64 bits -/
  | integerOverflow
  /-- a walk over the heap that does not end -/
  | endless
deriving DecidableEq, Repr

/-- How a computation ends without a value. -/
inductive Failure where
  /-- an exception that nobody has rescued yet -/
  | raised (exception : Handle)
  | load (error : Binary.LoadError)
  | fatal (cause : FatalCause)
  /-- an exit to a frame below a native method -/
  | unwinding (target : Nat) (value : Value)
  | breach (breach : Breach)
  /-- the bound on the length of the run was reached -/
  | outOfFuel
deriving DecidableEq, Repr

/-- A computation that reads the machine. -/
abbrev Query := ReaderT Machine (Except Breach)

/-- A computation that changes the machine. -/
abbrev VM := EStateM Failure Machine

instance : MonadLift Query VM where
  monadLift query := fun machine =>
    match query machine with
    | .ok value => .ok value machine
    | .error breach => .error (.breach breach) machine

namespace VM

/-- Runs a computation and hands over its failure as a value. -/
def attempt {α : Type} (action : VM α) : VM (Except Failure α) := fun machine =>
  match action machine with
  | .ok value machine => .ok (.ok value) machine
  | .error failure machine => .ok (.error failure) machine

/-- Fails for a broken invariant. -/
def breach {α : Type} (cause : Breach) : VM α := throw (.breach cause)

/-- Fails for good. -/
def fatal {α : Type} (cause : FatalCause) : VM α := throw (.fatal cause)

/-- Changes the heap. -/
def modifyHeap (change : Heap → Heap) : VM Unit :=
  modify fun machine => { machine with heap := change machine.heap }

/-- Changes the current register stack. -/
def modifyContext (change : Context → Context) : VM Unit :=
  modify fun machine => machine.modifyContext machine.current change

/-- Changes the frame on top of the current register stack. -/
def modifyFrame (change : Frame → Frame) : VM Unit :=
  modifyContext fun context =>
    { context with frames := context.frames.modify (context.frames.size - 1) change }

/-- Stores a value at an index of the current register stack. -/
def setSlot (index : Nat) (value : Value) : VM Unit :=
  modifyContext (·.setSlot index value)

/-- Stores a value in a register of a frame with the given base. -/
def setRegister (base register : Nat) (value : Value) : VM Unit :=
  setSlot (base + register) value

/-- Allocates an object. -/
def allocate (object : Object) : VM Handle := fun machine =>
  let (heap, handle) := machine.heap.allocate object
  .ok handle { machine with heap }

/-- Changes an object. -/
def modifyObject (handle : Handle) (change : Object → Object) : VM Unit :=
  modifyHeap (·.modify handle change)

/-- Changes what an object stores. -/
def setContent (handle : Handle) (content : Content) : VM Unit :=
  modifyObject handle fun object => { object with content }

/-- Changes the items of an array. -/
def modifyItems (handle : Handle) (change : Array Value → Array Value) : VM Unit :=
  modifyObject handle (·.modifyItems change)

/-- The symbol of a name. -/
def intern (name : Bytes) : VM Symbol := fun machine =>
  let (symbols, symbol) := machine.symbols.intern name
  .ok symbol { machine with symbols }

/-- The symbol of a name given as text. -/
def internText (name : String) : VM Symbol := intern (Text.utf8 name)

end VM

namespace Query

/-- Fails for a broken invariant. -/
def breach {α : Type} (cause : Breach) : Query α := throw cause

/-- The object that a handle leads to. -/
def object (handle : Handle) : Query Object := fun machine =>
  match machine.heap.get? handle with
  | some object => .ok object
  | none => .error (.danglingHandle handle)

/-- The object of a value, unless it is immediate. -/
def object? (value : Value) : Query (Option Object) :=
  match value.handle? with
  | some handle => some <$> object handle
  | none => pure none

/-- A part of the object of a value, if it has it. -/
def part? {α : Type} (select : Object → Option α) (value : Value) : Query (Option α) := do
  return (← object? value).bind select

/-- What the object of a value stores, unless the value is immediate. -/
def content? (value : Value) : Query (Option Content) := do
  return (← object? value).map (·.content)

/-- The bytes of a string. -/
def string? (value : Value) : Query (Option Bytes) := part? Object.string? value

/-- The text of a string. -/
def text? (value : Value) : Query (Option String) := do
  return (← string? value).map Text.lossy

/-- The items of an array. -/
def array? (value : Value) : Query (Option (Array Value)) := part? Object.array? value

/-- The table of a hash. -/
def hash? (value : Value) : Query (Option OrderedHash) := part? Object.hash? value

/-- The ends of a range. -/
def range? (value : Value) : Query (Option RangeRecord) := part? Object.range? value

/-- A class that the machine refers to. -/
def coreClass (core : CoreClass) : Query Handle := fun machine => .ok (machine.coreClass core)

/-- The `self` of programs. -/
def mainObject : Query Value := fun machine => .ok (.object machine.mainObject)

/-- A class or module. -/
def classRecord (handle : Handle) : Query ClassRecord := do
  match (← object handle).class? with
  | some record => return record
  | none => breach (.expectedClass handle)

/-- A proc. -/
def procRecord (handle : Handle) : Query ProcRecord := do
  match (← object handle).proc? with
  | some record => return record
  | none => breach (.expectedProc handle)

/-- Captured variables. -/
def envRecord (handle : Handle) : Query EnvRecord := do
  match (← object handle).env? with
  | some record => return record
  | none => breach (.expectedEnv handle)

/-- A fiber. -/
def fiberRecord (handle : Handle) : Query FiberRecord := do
  match (← object handle).fiber? with
  | some record => return record
  | none => breach (.expectedFiber handle)

/-- The name of a symbol as text. -/
def symbolText (symbol : Symbol) : Query String := fun machine =>
  .ok (machine.symbols.text symbol)

/-- The bytes of a symbol's name. -/
def symbolBytes (symbol : Symbol) : Query Bytes := fun machine =>
  .ok (machine.symbols.bytes symbol)

/-- The current register stack. -/
def context : Query Context := fun machine =>
  match machine.context? machine.current with
  | some context => .ok context
  | none => .error (.noContext machine.current)

/-- Number of frames on the current register stack. -/
def depth : Query Nat := do return (← context).frames.size

/-- The frame on top of the current register stack. -/
def frame : Query Frame := do
  match (← context).frames.back? with
  | some frame => return frame
  | none => breach .noActiveFrame

/-- The value at an index of the current register stack. -/
def slot (index : Nat) : Query Value := do return (← context).slot index

/-- The value in a register of a frame with the given base. -/
def register (base register : Nat) : Query Value := slot (base + register)

/-- The values in registers that follow each other. -/
def registers (base first count : Nat) : Query (List Value) := do
  let context ← context
  return (List.range count).map fun offset => context.slot (base + first + offset)

/-- Whether a proc counts its arguments. -/
def isStrict (proc : Handle) : Query Bool := do
  return ((← object proc).proc?.map (·.strict)).getD false

/-- Whether a value cannot be changed. Immediate values never can. -/
def isFrozen (value : Value) : Query Bool := do
  return ((← object? value).map (·.frozen)).getD true

/-- The digest of a hash key. -/
def digest : Query (Value → KeyDigest) := fun machine =>
  .ok (KeyDigest.ofValue fun handle => (machine.heap.get? handle).bind Object.string?)

/-- The mark that the arena has reached. It is read at once, so that nobody holds the heap
while an instruction changes it. -/
@[noinline] def arenaMark : Query Nat := fun machine => .ok machine.heap.arenaMark

/-- A number that no walk along references of the heap exceeds without a cycle. -/
def heapBound : Query Nat := fun machine => .ok (machine.heap.cells.size + 1)

end Query

end RiteVm
