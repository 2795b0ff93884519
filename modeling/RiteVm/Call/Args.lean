import RiteVm.Machine.Collections

/-!
Contract: the arguments of a method that is no bytecode.

Owns:
- positional arguments, keywords in the order of the call, and the block;
- the checks that such methods make: their number, integers, names and blocks.

A missing positional argument reads as nil.
-/

namespace RiteVm

/-- The arguments of a call. -/
structure Args where
  positional : List Value := []
  keywords : List (Value × Value) := []
  block : Value := .nil
deriving DecidableEq, Repr, Inhabited

namespace Args

/-- Positional arguments only. -/
def ofList (positional : List Value) : Args := { positional }

/-- The positional argument at an index. -/
def get (args : Args) (index : Nat) : Value := args.positional.getD index .nil

/-- Number of positional arguments. -/
def size (args : Args) : Nat := args.positional.length

/-- The arguments without the first positional one. -/
def rest (args : Args) : Args := { args with positional := args.positional.drop 1 }

/-- The arguments with a value in front of the positional ones. -/
def prepend (args : Args) (value : Value) : Args :=
  { args with positional := value :: args.positional }

/-- The value of the first keyword with a name. -/
def keyword? (args : Args) (name : Symbol) : Option Value :=
  (args.keywords.find? fun (key, _) => key.equal (.symbol name)).map (·.2)

/-- The block, if one was passed. -/
def block? (args : Args) : Option Value :=
  if args.block.isNil then none else some args.block

end Args

/-- How many arguments a method expects, as it stands in messages. -/
def arityText (fewest : Nat) (most? : Option Nat) : String :=
  match most? with
  | none => s!"{fewest}+"
  | some most => if fewest = most then s!"{fewest}" else s!"{fewest}..{most}"

namespace VM

/-- Raises for a wrong number of arguments. -/
def raiseArity {α : Type} (given : Nat) (expected : String) : VM α :=
  raise .argumentError s!"wrong number of arguments (given {given}, expected {expected})"

/-- Raises unless the number of positional arguments is in a range. -/
def checkArity (args : Args) (fewest : Nat) (most? : Option Nat) : VM Unit := do
  if args.size < fewest ∨ most?.any (· < args.size) then
    raiseArity args.size (arityText fewest most?)

/-- A positional argument that has to be an integer. -/
def intArg (args : Args) (index : Nat) : VM Int64 := do
  match args.get index with
  | .int number => return number
  | other =>
    let given ← Query.className (← Query.classOf other)
    raise .typeError s!"no implicit conversion of {given} into Integer"

/-- The symbol that a value names: itself, or that of a string's bytes. -/
def symbolOf (value : Value) : VM Symbol := do
  match value with
  | .symbol name => return name
  | _ =>
    match ← Query.string? value with
    | some bytes => intern bytes
    | none => raise .typeError s!"{← Query.inspect value} is not a symbol nor a string"

/-- A positional argument that has to be a symbol or a string. -/
def symbolArg (args : Args) (index : Nat) : VM Symbol := symbolOf (args.get index)

/-- The block, which a yielding method cannot do without. -/
def blockToYield (args : Args) : VM Value := do
  match args.block? with
  | some block => return block
  | none => raise .localJumpError "no block given (yield)"

/-- The proc of the block, which a method that keeps it cannot do without. -/
def blockToKeep (args : Args) : VM Handle := do
  match args.block? with
  | some block => expectProc block
  | none => raise .argumentError "tried to create Proc object without a block"

end VM

end RiteVm
