import RiteVm.Execution.Operators

/-!
Contract: the methods of numbers.

Owns: what each of `NumberMethod` does, and the integer that a float is cut off to.
-/

namespace RiteVm

/-- The integer part of a float, if it fits 64 bits. -/
def truncateFloat? (number : Float) : Option Int64 := do
  let part := (← Numeric.Binary.ofFloat? number).integerPart
  if ArithOp.fits part then some (.ofInt part) else none

namespace VM

/-- Calls a block with a number of integers that follow each other. -/
def countWith (engine : Engine) (block : Value) (start : Int) : Nat → VM Unit
  | 0 => return
  | count + 1 => do
    let _ ← callProc engine block [.int (.ofInt start)]
    countWith engine block (start + 1) count

/-- Runs a method of numbers. -/
def runNumberMethod (engine : Engine) (self : Value) (args : Args) :
    NumberMethod → VM Value
  | .arithmetic op => do
    checkArity args 1 (some 1)
    match ← arithmetic op self (args.get 0) with
    | some result => return result
    | none =>
      let given ← Query.typeName (args.get 0)
      raise .typeError s!"{given} can't be coerced into {← Query.typeName self}"
  | .comparison op => do
    checkArity args 1 (some 1)
    match op.onValues? self (args.get 0) with
    | some result => return .ofBool result
    | none =>
      let left ← Query.typeName self
      let right ← Query.typeName (args.get 0)
      raise .argumentError s!"comparison of {left} with {right} failed"
  | .equal => return .ofBool ((Value.quickEqual? self (args.get 0)).getD false)
  | .negate =>
    match self with
    | .int number => return Value.negInt number
    | .float number => return .float (-number)
    | _ => return self
  | .toF => return (self.float?.map .float).getD .nil
  | .toI =>
    match self with
    | .float number =>
      match truncateFloat? number with
      | some integer => return .int integer
      | none => raise .floatDomainError (Text.floatText number)
    | _ => return self
  | .text => do newText (← Query.inspect self)
  | .isNan => return .ofBool ((self.float?.map Float.isNaN).getD false)
  | .times => do
    let block ← blockToYield args
    let count := (self.int?.map Int64.toInt).getD 0
    countWith engine block 0 count.toNat
    return self

end VM

end RiteVm
