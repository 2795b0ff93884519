import RiteVm.Symbol

/-!
Contract: the values of the machine.

Owns:
- handles, which name objects of the heap;
- values, which are immediate or a handle;
- truth, conversions and the two equalities of values.

Equality as a proposition tells floats apart by their bits. `Value.equal` compares them
as numbers, so it is not reflexive and does not tell the two zeros apart.
-/

namespace RiteVm

/-- The name of a heap object: a slot and the generation of its content. -/
structure Handle where
  slot : Nat
  generation : Nat
deriving DecidableEq, Repr, Inhabited, Hashable

namespace Handle

/-- A handle that never names an object. -/
def null : Handle := ⟨0, 0⟩

/-- The number of an object, unlike that of any other object at any time. -/
def identity (handle : Handle) : Nat := handle.generation <<< 32 + handle.slot

end Handle

/-- A value is immediate or the handle of an object. -/
inductive Value where
  | nil
  | false
  | true
  | int (number : Int64)
  | float (number : Float)
  | symbol (name : Symbol)
  | object (handle : Handle)
deriving DecidableEq, Repr, Inhabited

namespace Value

def ofBool (condition : Bool) : Value := if condition then .true else .false

/-- Everything but nil and false is truthy. -/
def isTruthy : Value → Bool
  | .nil | .false => Bool.false
  | _ => Bool.true

def isFalsy (value : Value) : Bool := !value.isTruthy

def isNil : Value → Bool
  | .nil => Bool.true
  | _ => Bool.false

def int? : Value → Option Int64
  | .int number => some number
  | _ => none

/-- The number of an integer or float, as a float. -/
def float? : Value → Option Float
  | .int number => some number.toFloat
  | .float number => some number
  | _ => none

def isNumeric (value : Value) : Bool := value.float?.isSome

def symbol? : Value → Option Symbol
  | .symbol name => some name
  | _ => none

def handle? : Value → Option Handle
  | .object handle => some handle
  | _ => none

/-- Whether the value is no object of the heap. -/
def isImmediate (value : Value) : Bool := value.handle?.isNone

/-- Equality without looking into objects. Floats are compared as numbers. -/
def equal : Value → Value → Bool
  | .float left, .float right => left == right
  | left, right => left = right

end Value

/-- The kind of a value as a host sees it. -/
inductive ValueKind where
  | nil
  | false
  | true
  | integer
  | float
  | symbol
  | object
  | string
  | array
  | hash
  | range
  | classObject
  | module
  | proc
  | fiber
  | exception
  | data
deriving DecidableEq, Repr

/-- The name of a kind. -/
def ValueKind.name : ValueKind → String
  | .nil => "Nil"
  | .false => "False"
  | .true => "True"
  | .integer => "Integer"
  | .float => "Float"
  | .symbol => "Symbol"
  | .object => "Object"
  | .string => "String"
  | .array => "Array"
  | .hash => "Hash"
  | .range => "Range"
  | .classObject => "Class"
  | .module => "Module"
  | .proc => "Proc"
  | .fiber => "Fiber"
  | .exception => "Exception"
  | .data => "Data"

end RiteVm
