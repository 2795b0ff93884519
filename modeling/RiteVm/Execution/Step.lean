import RiteVm.Call.Binding
import RiteVm.Class.Definition
import RiteVm.Execution.Operators
import RiteVm.Execution.Unwinding

/-!
Contract: one instruction.

Owns:
- the tables of the running code unit, with a fatal error for what they do not have;
- what each instruction does.

An instruction finds the address behind it in the frame, so a jump is the last thing it
does. It ends the running interpreter loop only by returning from the frame that the
loop runs for, or by handing a value over from a fiber.
-/

namespace RiteVm

open RiteVm.Bytecode

namespace VM

/-! ### Tables of the code unit -/

/-- The symbol with an index. -/
def unitSymbol (unit : CodeUnit) (index : Nat) : VM Symbol :=
  match unit.symbol? index with
  | some name => intern name
  | none => fatal (.unnamedSymbol index)

/-- The bytes of the string literal with an index. -/
def unitString (unit : CodeUnit) (index : Nat) : VM Bytes :=
  match unit.stringLiteral? index with
  | some bytes => pure bytes
  | none => fatal (.noStringLiteral index)

/-- The child with an index. -/
def unitChild (unit : CodeUnit) (index : Nat) : VM CodeUnit :=
  match unit.children[index]? with
  | some child => pure child
  | none => fatal (.childIndex index)

/-- The value of the literal with an index. -/
def unitLiteral (unit : CodeUnit) (index : Nat) : VM Value :=
  match unit.pool[index]? with
  | some (.string bytes) => newString bytes
  | some (.int number) => pure (.int number)
  | some (.float bits) => pure (.float (.ofBits bits))
  | none => fatal (.poolIndex index)

/-! ### Instructions with parts of their own -/

/-- The class that a definition goes into; nil stands for the lexical class. -/
def definitionScope (scope : Value) : VM Handle := do
  if scope.isNil then return (← Query.frame).targetClass
  expectModule scope

/-- The class that a class definition names as its superclass. -/
def definitionSuperclass (superclass : Value) : VM (Option Handle) := do
  match superclass, ← Query.isClassOrModule superclass, ← Query.isModule superclass with
  | .nil, _, _ => return none
  | .object handle, true, false => return some handle
  | _, _, _ =>
    raise .typeError s!"superclass must be a Class ({← Query.typeName superclass} given)"

/-- A constant under an explicit class or module. -/
def scopedConst (scope : Value) (name : Symbol) : VM Value := do
  let handle ← expectModule scope
  match ← constInAncestors handle name with
  | some value => return value
  | none =>
    let className ← Query.className handle
    raiseNameError s!"uninitialized constant {className}::{← Query.symbolText name}" name

/-- Whether an exception is an instance of the class of a rescue clause. -/
def matchesRescue (exception rescued : Value) : VM Bool := do
  match rescued, ← Query.isClassOrModule rescued with
  | .object handle, true => isKindOf exception handle
  | _, _ => raise .typeError "class or module required for rescue clause"

/-- Appends the text of a value to a string. -/
def appendText (engine : Engine) (target value : Value) : VM Unit := do
  let tail ← textBytes engine value
  checkFrozen target
  match target with
  | .object handle =>
    match (← Query.object handle).content with
    | .string bytes => setContent handle (.string (bytes ++ tail))
    | _ => fatal .appendToOther
  | _ => fatal .appendToImmediate
  grow tail.size

/-- Stores pairs from registers in a hash. -/
def addPairs (base register count : Nat) : VM Unit := do
  let hash ← Query.register base register
  for index in List.range count do
    let key ← Query.register base (register + 1 + index * 2)
    let value ← Query.register base (register + 2 + index * 2)
    hashSet hash key value

/-- Appends what a value contributes to a splat to an array; nil stands for an empty
one. -/
def concatenate (base register : Nat) : VM Unit := do
  let target ← Query.register base register
  let items ← Query.splat (← Query.register base (register + 1))
  if target.isNil then setRegister base register (← newArray items.toArray)
  else arrayExtend target items

/-- A proc that sees the variables of the running frame. -/
def newClosure (unit : CodeUnit) (targetClass : Handle) (strict : Bool) : VM Value := do
  let env ← frameEnv
  let upper := (← Query.frame).proc
  return .object (← newProc unit upper (some env) targetClass strict)

/-- Runs a class body with the class as `self`. -/
def executeBody (base register : Nat) (unit : CodeUnit) (index : Nat) : VM Unit := do
  let target ← expectModule (← Query.register base register)
  let child ← unitChild unit index
  let upper := (← Query.frame).proc
  let proc ← newProc child upper none target true
  setRegister base (register + 1) .nil
  pushProcFrame { receiverAt := base + register } proc none none .nil false

/-- The symbol of a string. -/
def internValue (value : Value) : VM Value := do
  match ← Query.string? value with
  | some bytes => return .symbol (← intern bytes)
  | none => raise .typeError s!"{← Query.inspect value} is not a string"

/-! ### All instructions -/

/-- The surroundings of an instruction. -/
structure Surroundings where
  engine : Engine
  /-- the frame that the running loop ends with -/
  stop : Nat
  frame : Frame
  unit : CodeUnit

/-- Executes an instruction of the running frame. -/
def execute (surroundings : Surroundings) (instruction : Instruction) :
    VM (Option Exit) := do
  let ⟨engine, stop, frame, unit⟩ := surroundings
  let base := frame.base
  let ⟨a, b, c⟩ := instruction.operands
  let set (value : Value) : VM (Option Exit) := do
    setRegister base a value
    return none
  let get (register : Nat) : Query Value := Query.register base register
  let jumpTarget := ((instruction.jumpTarget?).getD instruction.next).toNat
  let jumpWhen (condition : Bool) : VM (Option Exit) := do
    if condition then modifyFrame ({ · with pc := jumpTarget })
    return none
  let done (action : VM Unit) : VM (Option Exit) := do
    action
    return none
  match instruction.op with
  | .nop | .debug => return none
  | .move => set (← get b)
  | .loadLiteral => set (← unitLiteral unit b)
  | .loadByte => set (.int (.ofNat b))
  | .loadNegByte => set (.int (-Int64.ofNat b))
  | .loadMinusOne => set (.int (-1))
  | .loadZero => set (.int 0)
  | .loadOne => set (.int 1)
  | .loadTwo => set (.int 2)
  | .loadThree => set (.int 3)
  | .loadFour => set (.int 4)
  | .loadFive => set (.int 5)
  | .loadSix => set (.int 6)
  | .loadSeven => set (.int 7)
  | .loadShort => set (.int (.ofInt instruction.operands.signedB))
  | .loadWord => set (.int (.ofInt (Int.bmod (b * 65536 + c) 4294967296)))
  | .loadSymbol => set (.symbol (← unitSymbol unit b))
  | .loadNil => set .nil
  | .loadSelf => set (← get 0)
  | .loadTrue => set .true
  | .loadFalse => set .false
  | .getGlobal | .getSpecial => set (← Query.globalVar (← unitSymbol unit b))
  | .setGlobal | .setSpecial => done do
    setGlobalVar (← unitSymbol unit b) (← get a)
  | .getInstanceVar =>
    let name ← unitSymbol unit b
    set (← Query.instanceVar (← get 0) name)
  | .setInstanceVar => done do
    let name ← unitSymbol unit b
    setInstanceVar (← get 0) name (← get a)
  | .getClassVar => set (← getClassVar frame.targetClass (← unitSymbol unit b))
  | .setClassVar => done do
    setClassVar frame.targetClass (← unitSymbol unit b) (← get a)
  | .getConst => set (← lexicalConst frame.targetClass (← unitSymbol unit b))
  | .setConst => done do
    setConst frame.targetClass (← unitSymbol unit b) (← get a)
  | .getScopedConst =>
    let name ← unitSymbol unit b
    set (← scopedConst (← get a) name)
  | .setScopedConst => done do
    let name ← unitSymbol unit b
    let scope ← expectModule (← get (a + 1))
    setConst scope name (← get a)
  | .getCaptured => set (← Query.capturedVar (← enclosingEnv c) b)
  | .setCaptured => done do
    setCapturedVar (← enclosingEnv c) b (← get a)
  | .getIndex => executeGetIndex engine base a
  | .setIndex => executeSetIndex engine base a
  | .jump => jumpWhen true
  | .jumpIf => jumpWhen (← get a).isTruthy
  | .jumpUnless => jumpWhen (← get a).isFalsy
  | .jumpNil => jumpWhen (← get a).isNil
  | .jumpUnwinding => done (jumpUnwinding jumpTarget)
  | .loadPending => set (← loadPending)
  | .matchRescue => done do
    setRegister base b (.ofBool (← matchesRescue (← get a) (← get b)))
  | .resumePending => resumePending (← get a) stop
  | .sendSelf => sendSelf engine base a (← unitSymbol unit b) c false
  | .sendSelfBlock => sendSelf engine base a (← unitSymbol unit b) c true
  | .send => send engine base a (← unitSymbol unit b) c false
  | .sendBlock => send engine base a (← unitSymbol unit b) c true
  | .call => done becomeProc
  | .callSuper => callSuper engine base a b
  | .argArray => done (argArray base a b)
  | .enter => done (enter base (.ofOperand a))
  | .keyPresent => set (.ofBool (← hasKeyword base (← unitSymbol unit b)))
  | .keyEnd => done (checkKeywords base)
  | .keyArg => set (← takeKeyword base (← unitSymbol unit b))
  | .returnValue => returnValue (← get a) stop
  | .returnFromMethod => returnFromMethod (← get a) stop
  | .breakOut => breakOut (← get a) stop
  | .pushBlock => done (pushBlock base a b)
  | .add => executeArithmetic engine base a .add .opAdd
  | .addByte => executeImmediate engine base a b .add .opAdd
  | .sub => executeArithmetic engine base a .sub .opSub
  | .subByte => executeImmediate engine base a b .sub .opSub
  | .mul => executeArithmetic engine base a .mul .opMul
  | .div => executeArithmetic engine base a .div .opDiv
  | .eq => executeEquality engine base a
  | .lt => executeComparison engine base a .lt
  | .le => executeComparison engine base a .le
  | .gt => executeComparison engine base a .gt
  | .ge => executeComparison engine base a .ge
  | .array => set (← newArray (← Query.registers base a b).toArray)
  | .arrayFrom => set (← newArray (← Query.registers base b c).toArray)
  | .arrayConcat => done (concatenate base a)
  | .arrayPush => done do
    arrayExtend (← get a) (← Query.registers base (a + 1) b)
  | .arraySplat => set (← newArray (← Query.splat (← get a)).toArray)
  | .arrayRef => set (← destructuredItem (← get b) c)
  | .arraySet => done do
    arrayStore (← get b) c (← get a)
  | .arrayPost => done (executeDestructure base a b c)
  | .intern => set (← internValue (← get a))
  | .symbol => set (.symbol (← intern (← unitString unit b)))
  | .string => set (← newString (← unitString unit b))
  | .stringConcat => done do
    appendText engine (← get a) (← get (a + 1))
  | .hash => set (← newHashOfPairs (pairUp (← Query.registers base a (b * 2))))
  | .hashAdd => done (addPairs base a b)
  | .hashConcat => done do
    hashMerge (← get a) (← get (a + 1))
  | .lambda => set (← newClosure (← unitChild unit b) frame.targetClass true)
  | .block => set (← newClosure (← unitChild unit b) frame.targetClass false)
  | .method =>
    set (.object (← newProc (← unitChild unit b) none none frame.targetClass true))
  | .rangeInclusive => set (← newRange (← get a) (← get (a + 1)) false)
  | .rangeExclusive => set (← newRange (← get a) (← get (a + 1)) true)
  | .objectClass => set (.object (← Query.coreClass .object))
  | .openClass =>
    let name ← unitSymbol unit b
    let outer ← definitionScope (← get a)
    let superclass? ← definitionSuperclass (← get (a + 1))
    set (.object (← openClass outer name superclass?))
  | .openModule =>
    let name ← unitSymbol unit b
    let outer ← definitionScope (← get a)
    set (.object (← openModule outer name))
  | .exec => done (executeBody base a unit b)
  | .defineMethod =>
    let name ← unitSymbol unit b
    let target ← expectModule (← get a)
    let body ← expectProc (← get (a + 1))
    setMethod target name (.proc body)
    set (.symbol name)
  | .aliasMethod => done do
    let new ← unitSymbol unit a
    let old ← unitSymbol unit b
    aliasMethod frame.targetClass new old
  | .undefMethod => done do
    undefMethod frame.targetClass (← unitSymbol unit a)
  | .singletonClass => set (.object (← singletonClass (← get a)))
  | .targetClass => set (.object frame.targetClass)
  | .raiseJumpError => raise .localJumpError (Text.lossy (← unitString unit a))
  | .ext1 | .ext2 | .ext3 => fatal (.unsupportedPrefix instruction.op)
  | .stop => returnValue (← get unit.localCount.toNat) stop

/-- Executes the next instruction of the running frame. -/
def step (engine : Engine) (stop : Nat) : VM (Option Exit) := do
  let frame ← Query.frame
  match frame.unit with
  | none => fatal .nativeFrameInLoop
  | some unit =>
    match instructionAt? unit.code frame.pc with
    | none => fatal (.invalidInstruction frame.pc)
    | some instruction =>
      modifyFrame ({ · with pc := instruction.next })
      execute { engine, stop, frame, unit } instruction

end VM

end RiteVm
