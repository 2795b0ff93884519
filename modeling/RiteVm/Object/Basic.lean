import RiteVm.Bytecode.CodeUnit
import RiteVm.Object.NativeMethod
import RiteVm.Object.OrderedHash
import RiteVm.Table

/-!
Contract: the objects of the heap.

Owns:
- the kinds of objects and what each of them stores;
- the references of an object to other objects and to fiber contexts.

`Object.references` is what the collector follows: everything a content mentions, the
class of the object and its instance variables.
-/

namespace RiteVm

open RiteVm.Bytecode

/-- The name of a register stack: that of the main program or of a fiber. -/
structure ContextId where
  index : Nat
deriving DecidableEq, Repr, Inhabited, Hashable

/-- What a method name stands for in a class. -/
inductive Method where
  /-- the proc with the bytecode of the method -/
  | proc (body : Handle)
  | native (body : NativeMethod)
  /-- ends the search as if no class had the method -/
  | undefined
deriving DecidableEq, Repr

/-- The kind of a class object. -/
inductive ClassKind where
  | ordinary
  | module
  /-- the class of a single object -/
  | singleton
deriving DecidableEq, Repr

/-- What `new` creates for a class. -/
inductive InstanceKind where
  | plain
  | string
  | array
  | hash
  | exception
  /-- only the machine creates instances -/
  | special
deriving DecidableEq, Repr

/-- An ancestor list with the generation of the class hierarchy it was computed in. -/
structure CachedAncestors where
  generation : Nat
  list : List Handle
deriving DecidableEq, Repr

/-- A class or module. -/
structure ClassRecord where
  kind : ClassKind
  superclass : Option Handle
  instances : InstanceKind
  name : Option String := none
  /-- directly included modules in the order of inclusion -/
  includes : Array Handle := #[]
  methods : Table Symbol Method := {}
  constants : Table Symbol Value := {}
  classVars : Table Symbol Value := {}
  /-- the lexically enclosing class -/
  outer : Option Handle := none
  /-- the object that a singleton class belongs to -/
  attached : Option Handle := none
  ancestors : Option CachedAncestors := none

/-- A range between two values. -/
structure RangeRecord where
  first : Value
  last : Value
  exclusive : Bool
deriving DecidableEq, Repr

/-- Code with the scope it was created in. -/
structure ProcRecord where
  unit : CodeUnit
  /-- the proc whose frame created this one -/
  upper : Option Handle
  /-- the variables of the frame that created this one -/
  env : Option Handle
  /-- where definitions in the body go -/
  targetClass : Handle
  /-- whether arguments are counted and a return leaves only the proc -/
  strict : Bool

/-- Where captured variables are. -/
inductive EnvStorage where
  /-- in the registers of a live frame -/
  | onStack (context : ContextId) (fiber : Option Handle) (base count : Nat)
  /-- copied when the frame was left -/
  | detached (values : Array Value)
deriving DecidableEq, Repr

/-- The captured variables of a frame. -/
structure EnvRecord where
  storage : EnvStorage
  /-- the method that the frame was running -/
  method : Option Symbol
  /-- the class in which that method was found -/
  owner : Option Handle
deriving DecidableEq, Repr

/-- What a fiber is doing. -/
inductive FiberState where
  /-- not resumed yet -/
  | created
  | running
  /-- waiting for a fiber that it resumed -/
  | resumed
  /-- waiting in `Fiber.yield` -/
  | suspended
  /-- the body returned -/
  | dead
  /-- the body raised -/
  | failed
deriving DecidableEq, Repr

namespace FiberState

/-- Whether a fiber may still run. -/
def isAlive : FiberState → Bool
  | dead | failed => false
  | _ => true

/-- The text of a state. -/
def text : FiberState → String
  | created => "created"
  | running => "running"
  | resumed => "resumed"
  | suspended => "suspended"
  | dead => "terminated"
  | failed => "terminated with error"

end FiberState

/-- A fiber. -/
structure FiberRecord where
  context : ContextId
  body : Handle
  state : FiberState
  /-- the number of the signals that its observers share -/
  signals : Nat
deriving DecidableEq, Repr

/-- An exception. -/
structure ExceptionRecord where
  /-- a string, or nil where the class name stands in -/
  message : Value := .nil
  cause : Option Handle := none
  /-- where it was raised, innermost frame first; nothing until then -/
  backtrace : Option (List String) := none
  /-- the receiver of a call that found no method -/
  receiver : Option Value := none
  name : Option Symbol := none
deriving DecidableEq, Repr

/-- A payload of the host. -/
structure DataRecord where
  typeName : String
  payload : Int
deriving DecidableEq, Repr

/-- Where an exit goes on after the ensure clause that intercepted it. -/
inductive ExitTarget where
  /-- leaves the frames down to this one, whose caller receives the value -/
  | frame (index : Nat)
  /-- goes on at an address of the same frame -/
  | address (pc : Nat)
deriving DecidableEq, Repr

/-- An exit that waits for an ensure clause. -/
structure ExitRecord where
  target : ExitTarget
  value : Value
deriving DecidableEq, Repr

/-- What an object stores. -/
inductive Content where
  | plain
  | string (bytes : Bytes)
  | array (items : Array Value)
  | hash (table : OrderedHash)
  | range (record : RangeRecord)
  | classOrModule (record : ClassRecord)
  | proc (record : ProcRecord)
  | env (record : EnvRecord)
  | fiber (record : FiberRecord)
  | exception (record : ExceptionRecord)
  | data (record : DataRecord)
  | exit (record : ExitRecord)

/-- An object of the heap. -/
structure Object where
  classHandle : Handle
  content : Content
  frozen : Bool := false
  /-- instance variables in the order of definition -/
  fields : Table Symbol Value := {}

/-- What a reference leads to. -/
inductive Node where
  | object (handle : Handle)
  | context (id : ContextId)
deriving DecidableEq, Repr, Hashable

namespace Node

/-- The reference in a value. -/
def ofValue : Value → List Node
  | .object handle => [.object handle]
  | _ => []

/-- The references in values. -/
def ofValues (values : List Value) : List Node := values.flatMap ofValue

/-- The reference in an optional handle. -/
def ofOption : Option Handle → List Node
  | some handle => [.object handle]
  | none => []

end Node

namespace Object

def string? (object : Object) : Option Bytes :=
  match object.content with
  | .string bytes => some bytes
  | _ => none

def array? (object : Object) : Option (Array Value) :=
  match object.content with
  | .array items => some items
  | _ => none

def hash? (object : Object) : Option OrderedHash :=
  match object.content with
  | .hash table => some table
  | _ => none

def range? (object : Object) : Option RangeRecord :=
  match object.content with
  | .range record => some record
  | _ => none

def class? (object : Object) : Option ClassRecord :=
  match object.content with
  | .classOrModule record => some record
  | _ => none

def proc? (object : Object) : Option ProcRecord :=
  match object.content with
  | .proc record => some record
  | _ => none

def env? (object : Object) : Option EnvRecord :=
  match object.content with
  | .env record => some record
  | _ => none

def fiber? (object : Object) : Option FiberRecord :=
  match object.content with
  | .fiber record => some record
  | _ => none

def exception? (object : Object) : Option ExceptionRecord :=
  match object.content with
  | .exception record => some record
  | _ => none

def data? (object : Object) : Option DataRecord :=
  match object.content with
  | .data record => some record
  | _ => none

/-- The object with other items, if it is an array. -/
def modifyItems (change : Array Value → Array Value) (object : Object) : Object :=
  match object with
  | { classHandle, content := .array items, frozen, fields } =>
    { classHandle, content := .array (change items), frozen, fields }
  | other => other

/-- Whether the object is the class of a single object. -/
def isSingletonClass (object : Object) : Bool :=
  match object.content with
  | .classOrModule record => record.kind == .singleton
  | _ => false

/-- Whether the object is a module. -/
def isModule (object : Object) : Bool :=
  match object.content with
  | .classOrModule record => record.kind == .module
  | _ => false

/-- The kind that a host sees. -/
def kind (object : Object) : ValueKind :=
  match object.content with
  | .plain | .env _ | .exit _ => .object
  | .string _ => .string
  | .array _ => .array
  | .hash _ => .hash
  | .range _ => .range
  | .classOrModule record => if record.kind = .module then .module else .classObject
  | .proc _ => .proc
  | .fiber _ => .fiber
  | .exception _ => .exception
  | .data _ => .data

/-- Bytes that the object keeps in use, as an estimate that paces the collector. -/
def estimatedSize (object : Object) : Nat :=
  let payload :=
    match object.content with
    | .string bytes => bytes.size
    | .array items => items.size * 16
    | .hash table => table.slots.size * 48
    | .classOrModule record =>
      200 + (record.methods.size + record.constants.size + record.classVars.size) * 64
    | .env { storage := .detached values, .. } => values.size * 16
    | .fiber _ => 32
    | .exception record => (record.backtrace.map List.length).getD 0 * 32
    | _ => 0
  120 + object.fields.size * 24 + payload

end Object

/-- The references of a class beside its superclass and scope. -/
def Method.references : Method → List Node
  | .proc body => [.object body]
  | _ => []

namespace Content

/-- The references of what an object stores. -/
def references : Content → List Node
  | .plain | .string _ | .data _ => []
  | .array items => Node.ofValues items.toList
  | .hash table => table.pairs.flatMap fun (key, value) => Node.ofValue key ++ Node.ofValue value
  | .range record => Node.ofValue record.first ++ Node.ofValue record.last
  | .classOrModule record =>
    Node.ofOption record.superclass ++ Node.ofOption record.outer
      ++ Node.ofOption record.attached ++ record.includes.toList.map .object
      ++ record.methods.values.flatMap Method.references
      ++ Node.ofValues record.constants.values ++ Node.ofValues record.classVars.values
  | .proc record =>
    Node.ofOption record.upper ++ Node.ofOption record.env ++ [.object record.targetClass]
  | .env record =>
    (match record.storage with
      | .onStack context owningFiber _ _ => .context context :: Node.ofOption owningFiber
      | .detached values => Node.ofValues values.toList)
      ++ Node.ofOption record.owner
  | .fiber record => [.object record.body, .context record.context]
  | .exception record =>
    Node.ofValue record.message ++ Node.ofOption record.cause
      ++ (record.receiver.map Node.ofValue).getD []
  | .exit record => Node.ofValue record.value

end Content

/-- The references of an object. -/
def Object.references (object : Object) : List Node :=
  .object object.classHandle :: Node.ofValues object.fields.values
    ++ object.content.references

end RiteVm
