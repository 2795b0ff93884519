import RiteVm.Numeric.Arithmetic

/-!
Contract: the names of method bodies that are no bytecode.

Owns: one constructor for each method of the core classes, grouped by the class it
belongs to, and the numbers of methods that a host defines.

Does not own: what the methods do (`Core`), nor the classes and names they are defined
under (`Core.Boot`).
-/

namespace RiteVm

/-- Methods of every object. -/
inductive ObjectMethod where
  | initializer
  | same
  | not
  | notEqual
  | identity
  | methodMissing
  | send
  | raise
  | classOf
  | isA
  | respondTo
  | isNil
  | freeze
  | isFrozen
  | singletonClass
  | lambda
  | proc
  | inspect
  | toS
  | caseEqual
  | getVariable
  | setVariable
  | blockGiven
  | alwaysTrue
  | emptyText
  | mainText
deriving DecidableEq, Repr

/-- Methods of modules and classes. -/
inductive ModuleMethod where
  | include
  | includes
  | ancestors
  | name
  | toS
  | caseEqual
  | removeMethod
  | undefMethod
  | aliasMethod
  | defineMethod
  | constGet
  | constSet
  | attributes (reader writer : Bool)
  | readAttribute (instanceVar : Symbol)
  | writeAttribute (instanceVar : Symbol)
  | new
  | allocate
  | superclass
deriving DecidableEq, Repr

/-- Methods of exceptions. -/
inductive ExceptionMethod where
  | create
  | initializer
  | exception
  | message
  | cause
  | backtrace
  | name
  | receiver
deriving DecidableEq, Repr

/-- Methods of numbers. -/
inductive NumberMethod where
  | arithmetic (op : ArithOp)
  | comparison (op : CompareOp)
  | equal
  | negate
  | toF
  | toI
  | text
  | isNan
  | times
deriving DecidableEq, Repr

/-- Methods of strings and symbols. -/
inductive TextMethod where
  | concat
  | equal
  | length
  | intern
  | inspect
  | symbolToS
  | self
deriving DecidableEq, Repr

/-- Methods of arrays. -/
inductive ArrayMethod where
  | get
  | set
  | push
  | append
  | pop
  | length
  | first
  | last
  | each
  | equal
deriving DecidableEq, Repr

/-- Methods of hashes. -/
inductive HashMethod where
  | get
  | set
  | length
  | hasKey
  | delete
  | each
  | keys
  | values
deriving DecidableEq, Repr

/-- Methods of ranges. -/
inductive RangeMethod where
  | first
  | last
  | excludesEnd
  | each
deriving DecidableEq, Repr

/-- Methods of procs and fibers. -/
inductive ClosureMethod where
  | isLambda
  | arity
  | newFiber
  | yield
  | resume
  | isAlive
deriving DecidableEq, Repr

/-- A method body that is no bytecode. -/
inductive NativeMethod where
  | object (method : ObjectMethod)
  | module (method : ModuleMethod)
  | exception (method : ExceptionMethod)
  | number (method : NumberMethod)
  | text (method : TextMethod)
  | array (method : ArrayMethod)
  | hash (method : HashMethod)
  | range (method : RangeMethod)
  | closure (method : ClosureMethod)
  /-- the method with this number in the host's list -/
  | host (index : Nat)
deriving DecidableEq, Repr

end RiteVm
