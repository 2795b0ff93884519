import RiteVm.Heap.Basic

/-!
Contract: the state of a machine.

Owns:
- the limits that a host sets;
- register stacks with the frames that run on them;
- the signals that observers of a fiber share;
- the method cache and the classes that the machine itself refers to;
- the machine, which is all of this together with heap, symbols and globals.
-/

namespace RiteVm

open RiteVm.Bytecode

/-- The limits of a machine. -/
structure Config where
  /-- frames that a register stack may hold -/
  maxCallDepth : Nat := 512
  /-- interpreter loops that may be nested -/
  maxNativeDepth : Nat := 48
  collector : CollectorConfig := {}
deriving DecidableEq, Repr, Inhabited

/-- Why limits are refused. -/
inductive ConfigError where
  | noCallDepth
  | noNativeDepth
  | shrinkingThreshold
deriving DecidableEq, Repr

/-- The limits, if every depth is positive and the threshold does not shrink. -/
def Config.checked (config : Config) : Except ConfigError Config :=
  if config.maxCallDepth = 0 then .error .noCallDepth
  else if config.maxNativeDepth = 0 then .error .noNativeDepth
  else if config.collector.growthPercent < 100 then .error .shrinkingThreshold
  else .ok config

/-- The count of positional arguments that says that they are packed into one array. -/
def packedCount : Nat := 15

/-- The activation of a method, block or program. -/
structure Frame where
  /-- the stack index of register 0 -/
  base : Nat
  /-- the stack index behind the last register -/
  top : Nat
  /-- the running proc; nothing for a native method -/
  proc : Option Handle
  /-- the running code; nothing for a native method -/
  unit : Option CodeUnit
  /-- the address of the next instruction -/
  pc : Nat := 0
  /-- number of positional arguments as they were passed -/
  argCount : Nat
  /-- whether a keyword hash follows them -/
  hasKeywords : Bool
  method : Option Symbol
  /-- the class in which the method was found -/
  owner : Option Handle
  /-- where definitions, constants and class variables go -/
  targetClass : Handle
  /-- the captured variables of the frame, once a closure was created in it -/
  env : Option Handle := none
  /-- whether the frame was pushed by a call that runs its own interpreter loop -/
  boundary : Bool
  /-- the exception whose ensure clause is running in the frame -/
  ensuring : Option Handle := none
  /-- the register that holds the keyword dictionary -/
  keywordRegister : Option Nat := none
  block : Value

/-- An exception or exit record that waits for the handler to load it. -/
structure Pending where
  record : Handle
  kind : CatchKind
deriving DecidableEq, Repr

/-- A register stack with the frames that run on it, the innermost one last. -/
structure Context where
  stack : Array Value := #[]
  frames : Array Frame := #[]
  pending : Option Pending := none
  /-- the fiber that the stack belongs to; nothing for the main program -/
  owner : Option Handle := none
deriving Inhabited

namespace Context

/-- The first stack index above all frames. -/
def stackTop (context : Context) : Nat :=
  context.frames.foldl (fun top frame => max top frame.top) 0

/-- Makes the stack long enough, filled up with nil. -/
def ensureSize (context : Context) (size : Nat) : Context :=
  if context.stack.size < size then
    { context with stack := context.stack ++ Array.replicate (size - context.stack.size) .nil }
  else context

/-- The value at a stack index. -/
def slot (context : Context) (index : Nat) : Value := context.stack.getD index .nil

/-- Stores a value at a stack index. -/
def setSlot (context : Context) (index : Nat) (value : Value) : Context :=
  let context := context.ensureSize (index + 1)
  { context with stack := context.stack.setIfInBounds index value }

/-- Sets the slots from one index up to another to nil. -/
def clear (context : Context) (first last : Nat) : Context :=
  let context := context.ensureSize last
  { context with
    stack := (List.range' first (last - first)).foldl
      (fun stack index => stack.setIfInBounds index .nil) context.stack }

/-- The references of a frame. -/
def frameReferences (frame : Frame) : List Node :=
  Node.ofOption frame.proc ++ Node.ofOption frame.owner ++ [.object frame.targetClass]
    ++ Node.ofOption frame.env ++ Node.ofOption frame.ensuring ++ Node.ofValue frame.block

/-- The references of a register stack: its slots below the top of the frames, the
frames, the pending record and the owner. -/
def references (context : Context) : List Node :=
  Node.ofValues (context.stack.take context.stackTop).toList
    ++ context.frames.toList.flatMap frameReferences
    ++ Node.ofOption (context.pending.map (·.record)) ++ Node.ofOption context.owner

end Context

/-- What wakes a waiting host. Wakers of one name are the same. -/
structure Waker where
  name : String
deriving DecidableEq, Repr

/-- What the observers of a fiber share. It outlives the fiber. -/
structure FiberSignals where
  /-- completed resume cycles -/
  cycles : Nat := 0
  /-- the final state, once the fiber has ended -/
  finished : Option FiberState := none
  resumeWakers : List Waker := []
  terminationWakers : List Waker := []
deriving DecidableEq, Repr, Inhabited

/-- An entry of the method cache with the generation it was filled in. -/
structure CachedMethod where
  generation : Nat
  method : Method
  owner : Handle
deriving DecidableEq, Repr

/-- Found methods by class and name. An entry holds while the generation is the same. -/
structure MethodCache where
  entries : Std.HashMap (Handle × Symbol) CachedMethod := ∅
  /-- grows when a method table or the hierarchy changes -/
  generation : Nat := 0
  /-- grows when a superclass or a list of includes changes -/
  hierarchy : Nat := 0

/-- The classes that the machine itself refers to. -/
inductive CoreClass where
  | basicObject
  | object
  | module
  | classClass
  | kernel
  | nil
  | true
  | false
  | numeric
  | integer
  | float
  | symbol
  | string
  | array
  | hash
  | range
  | proc
  | fiber
  | exception
  | scriptError
  | notImplementedError
  | standardError
  | argumentError
  | localJumpError
  | rangeError
  | floatDomainError
  | runtimeError
  | typeError
  | nameError
  | noMethodError
  | indexError
  | keyError
  | zeroDivisionError
  | frozenError
  | fiberError
  | systemStackError
  | noMemoryError
deriving DecidableEq, Repr

/-- A machine. -/
structure Machine where
  config : Config
  heap : Heap
  symbols : SymbolTable
  /-- register stacks; the first is that of the main program -/
  contexts : Array (Option Context)
  /-- the register stack whose top frame is executing -/
  current : ContextId := ⟨0⟩
  currentFiber : Option Handle := none
  /-- stacks and fibers that wait in a resume, the innermost last -/
  resumers : List (ContextId × Option Handle) := []
  /-- a value that `Fiber.yield` hands over -/
  yielded : Option Value := none
  /-- nested interpreter loops -/
  nativeDepth : Nat := 0
  globals : Table Symbol Value := {}
  coreClasses : Table CoreClass Handle := {}
  /-- the `self` of programs -/
  mainObject : Handle := .null
  methodCache : MethodCache := {}
  signals : Array FiberSignals := #[]
  /-- the wakers that were woken, in order -/
  woken : Array Waker := #[]
  /-- the payloads that were given back to the host, in order -/
  released : Array Int := #[]

namespace Machine

/-- The register stack of the main program. -/
def rootContext : ContextId := ⟨0⟩

/-- A machine without classes. -/
def empty (config : Config) : Machine :=
  { config, heap := .new config.collector, symbols := .initial, contexts := #[some {}] }

instance : Inhabited Machine := ⟨empty {}⟩

/-- A class that the machine refers to. -/
def coreClass (machine : Machine) (core : CoreClass) : Handle :=
  (machine.coreClasses.get? core).getD .null

/-- The register stack with a name, unless its fiber has ended. -/
def context? (machine : Machine) (id : ContextId) : Option Context :=
  (machine.contexts[id.index]?).join

/-- Changes a register stack. -/
def modifyContext (machine : Machine) (id : ContextId) (change : Context → Context) : Machine :=
  { machine with contexts := machine.contexts.modify id.index (·.map change) }

/-- Takes a register stack away. -/
def removeContext (machine : Machine) (id : ContextId) : Machine :=
  { machine with contexts := machine.contexts.setIfInBounds id.index none }

end Machine

end RiteVm
