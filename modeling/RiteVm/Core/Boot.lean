import RiteVm.Class.Definition
import RiteVm.Execution.Program

/-!
Contract: the classes that every machine begins with.

Owns:
- the class hierarchy, in the order in which the classes are created;
- the methods of each class, in the order in which they are defined;
- a new machine.

The order decides which symbols the names get, and so is part of what programs can see.
-/

namespace RiteVm

open RiteVm.Bytecode

/-- A method with its name. -/
abbrev NamedMethod := String × NativeMethod

/-- Methods that the root of the hierarchy has. -/
def rootMethods : List NamedMethod := [
  ("initialize", .object .initializer),
  ("==", .object .same),
  ("equal?", .object .same),
  ("!", .object .not),
  ("!=", .object .notEqual),
  ("__id__", .object .identity),
  ("method_missing", .object .methodMissing),
  ("__send__", .object .send)]

/-- Methods of the module that every object includes. -/
def kernelMethods : List NamedMethod := [
  ("send", .object .send),
  ("object_id", .object .identity),
  ("raise", .object .raise),
  ("class", .object .classOf),
  ("is_a?", .object .isA),
  ("kind_of?", .object .isA),
  ("respond_to?", .object .respondTo),
  ("nil?", .object .isNil),
  ("freeze", .object .freeze),
  ("frozen?", .object .isFrozen),
  ("singleton_class", .object .singletonClass),
  ("lambda", .object .lambda),
  ("proc", .object .proc),
  ("inspect", .object .inspect),
  ("to_s", .object .toS),
  ("===", .object .caseEqual),
  ("instance_variable_get", .object .getVariable),
  ("instance_variable_set", .object .setVariable),
  ("block_given?", .object .blockGiven)]

def nilMethods : List NamedMethod := [
  ("nil?", .object .alwaysTrue),
  ("to_s", .object .emptyText)]

def moduleMethods : List NamedMethod := [
  ("include", .module .include),
  ("include?", .module .includes),
  ("ancestors", .module .ancestors),
  ("name", .module .name),
  ("to_s", .module .toS),
  ("inspect", .module .toS),
  ("===", .module .caseEqual),
  ("remove_method", .module .removeMethod),
  ("undef_method", .module .undefMethod),
  ("alias_method", .module .aliasMethod),
  ("define_method", .module .defineMethod),
  ("const_get", .module .constGet),
  ("const_set", .module .constSet),
  ("attr_reader", .module (.attributes true false)),
  ("attr_writer", .module (.attributes false true)),
  ("attr_accessor", .module (.attributes true true))]

def classMethods : List NamedMethod := [
  ("new", .module .new),
  ("allocate", .module .allocate),
  ("superclass", .module .superclass)]

def exceptionMethods : List NamedMethod := [
  ("initialize", .exception .initializer),
  ("exception", .exception .exception),
  ("message", .exception .message),
  ("to_s", .exception .message),
  ("cause", .exception .cause),
  ("backtrace", .exception .backtrace)]

/-- Methods that integers and floats have alike. -/
def numberMethods : List NamedMethod :=
  [ArithOp.add, .sub, .mul, .div, .mod].map (fun op => (op.name, .number (.arithmetic op)))
    ++ [CompareOp.lt, .le, .gt, .ge].map (fun op => (op.name, .number (.comparison op)))
    ++ [("==", .number .equal),
        ("-@", .number .negate),
        ("to_f", .number .toF),
        ("to_i", .number .toI),
        ("to_s", .number .text),
        ("inspect", .number .text)]

def stringMethods : List NamedMethod := [
  ("+", .text .concat),
  ("==", .text .equal),
  ("length", .text .length),
  ("size", .text .length),
  ("to_sym", .text .intern),
  ("to_s", .text .self),
  ("inspect", .text .inspect)]

def symbolMethods : List NamedMethod := [
  ("to_s", .text .symbolToS),
  ("to_sym", .text .self),
  ("inspect", .text .inspect)]

def arrayMethods : List NamedMethod := [
  ("[]", .array .get),
  ("[]=", .array .set),
  ("push", .array .push),
  ("<<", .array .append),
  ("pop", .array .pop),
  ("length", .array .length),
  ("size", .array .length),
  ("first", .array .first),
  ("last", .array .last),
  ("each", .array .each),
  ("==", .array .equal)]

def hashMethods : List NamedMethod := [
  ("[]", .hash .get),
  ("[]=", .hash .set),
  ("length", .hash .length),
  ("size", .hash .length),
  ("key?", .hash .hasKey),
  ("delete", .hash .delete),
  ("each", .hash .each),
  ("keys", .hash .keys),
  ("values", .hash .values)]

def rangeMethods : List NamedMethod := [
  ("begin", .range .first),
  ("first", .range .first),
  ("end", .range .last),
  ("last", .range .last),
  ("exclude_end?", .range .excludesEnd),
  ("each", .range .each)]

/-- The names under which a proc is called. -/
def procCallNames : List String := ["call", "[]", "yield", "==="]

def procMethods : List NamedMethod := [
  ("lambda?", .closure .isLambda),
  ("arity", .closure .arity)]

/-- Methods of the fiber class itself. -/
def fiberClassMethods : List NamedMethod := [
  ("new", .closure .newFiber),
  ("yield", .closure .yield)]

def fiberMethods : List NamedMethod := [
  ("resume", .closure .resume),
  ("alive?", .closure .isAlive)]

/-- A class of the hierarchy: its name, what it is for the machine, its superclass, and
the instances it creates if these are others than those of the superclass. -/
structure CoreDefinition where
  core : CoreClass
  name : String
  superclass : CoreClass := .object
  instances : Option InstanceKind := none

/-- The classes of values, in the order of their creation. -/
def valueClasses : List CoreDefinition := [
  { core := .nil, name := "NilClass", instances := some .special },
  { core := .true, name := "TrueClass", instances := some .special },
  { core := .false, name := "FalseClass", instances := some .special },
  { core := .numeric, name := "Numeric", instances := some .special },
  { core := .integer, name := "Integer", superclass := .numeric,
    instances := some .special },
  { core := .float, name := "Float", superclass := .numeric, instances := some .special },
  { core := .symbol, name := "Symbol", instances := some .special },
  { core := .range, name := "Range", instances := some .special },
  { core := .proc, name := "Proc", instances := some .special },
  { core := .fiber, name := "Fiber", instances := some .special },
  { core := .string, name := "String", instances := some .string },
  { core := .array, name := "Array", instances := some .array },
  { core := .hash, name := "Hash", instances := some .hash }]

/-- The classes of exceptions, in the order of their creation. -/
def exceptionClasses : List CoreDefinition := [
  { core := .exception, name := "Exception", instances := some .exception },
  { core := .scriptError, name := "ScriptError", superclass := .exception },
  { core := .notImplementedError, name := "NotImplementedError",
    superclass := .scriptError },
  { core := .standardError, name := "StandardError", superclass := .exception },
  { core := .argumentError, name := "ArgumentError", superclass := .standardError },
  { core := .localJumpError, name := "LocalJumpError", superclass := .standardError },
  { core := .rangeError, name := "RangeError", superclass := .standardError },
  { core := .floatDomainError, name := "FloatDomainError", superclass := .rangeError },
  { core := .runtimeError, name := "RuntimeError", superclass := .standardError },
  { core := .frozenError, name := "FrozenError", superclass := .runtimeError },
  { core := .typeError, name := "TypeError", superclass := .standardError },
  { core := .nameError, name := "NameError", superclass := .standardError },
  { core := .noMethodError, name := "NoMethodError", superclass := .nameError },
  { core := .indexError, name := "IndexError", superclass := .standardError },
  { core := .keyError, name := "KeyError", superclass := .indexError },
  { core := .zeroDivisionError, name := "ZeroDivisionError",
    superclass := .standardError },
  { core := .fiberError, name := "FiberError", superclass := .standardError },
  { core := .systemStackError, name := "SystemStackError", superclass := .exception },
  { core := .noMemoryError, name := "NoMemoryError", superclass := .exception }]

/-- The body of a proc's `call`: one instruction, which turns its frame into a frame of
the proc. -/
def callUnit : CodeUnit :=
  { localCount := 1, registerCount := 2, code := #[Opcode.call.toByte], handlers := []
    pool := #[], symbols := #[], children := [] }

namespace VM

/-- Makes a class known to the machine. -/
def setCoreClass (core : CoreClass) (handle : Handle) : VM Unit :=
  modify fun machine =>
    { machine with coreClasses := machine.coreClasses.insert core handle }

/-- Creates a class of the hierarchy. -/
def bootClass (definition : CoreDefinition) : VM Unit := do
  let superclass ← Query.coreClass definition.superclass
  let handle ← defineClass definition.name (some superclass)
  definition.instances.forM fun instances =>
    modifyClass handle fun record => { record with instances }
  setCoreClass definition.core handle

/-- Creates the classes that refer to each other, and gives them their class once it
exists. -/
def bootHierarchy : VM Unit := do
  let basic ← allocateClass .ordinary none .plain
  let object ← allocateClass .ordinary (some basic) .plain
  let module ← allocateClass .ordinary (some object) .special
  let classClass ← allocateClass .ordinary (some module) .special
  [basic, object, module, classClass].forM fun handle =>
    modifyObject handle fun object => { object with classHandle := classClass }
  setCoreClass .basicObject basic
  setCoreClass .object object
  setCoreClass .module module
  setCoreClass .classClass classClass

/-- Names the first classes and creates the module that all objects include. -/
def bootRoots : VM Unit := do
  let object ← Query.coreClass .object
  defineConst object "BasicObject" (.object (← Query.coreClass .basicObject))
  defineConst object "Object" (.object object)
  defineConst object "Module" (.object (← Query.coreClass .module))
  defineConst object "Class" (.object (← Query.coreClass .classClass))
  let kernel ← defineModule "Kernel"
  setCoreClass .kernel kernel
  includeModule object kernel

/-- Creates the `self` of programs. -/
def bootMain : VM Unit := do
  let main ← newObject (← Query.coreClass .object)
  if let some mainObject := main.handle? then
    modify fun machine => { machine with mainObject }
  defineSingletonMethod main "to_s" (.object .mainText)
  defineSingletonMethod main "inspect" (.object .mainText)

/-- Defines methods of a class. -/
def bootMethods (handle : Handle) (methods : List NamedMethod) : VM Unit :=
  methods.forM fun (name, body) => defineMethod handle name body

/-- Defines methods of a core class. -/
def bootCoreMethods (core : CoreClass) (methods : List NamedMethod) : VM Unit := do
  bootMethods (← Query.coreClass core) methods

/-- Defines methods of a core class as an object. -/
def bootClassMethods (core : CoreClass) (methods : List NamedMethod) : VM Unit := do
  bootMethods (← singletonClass (.object (← Query.coreClass core))) methods

/-- Creates the classes of exceptions with their methods. -/
def bootExceptions : VM Unit := do
  exceptionClasses.forM bootClass
  bootClassMethods .exception [("exception", .exception .create)]
  bootCoreMethods .exception exceptionMethods
  bootCoreMethods .nameError [("name", .exception .name)]
  bootCoreMethods .noMethodError [("receiver", .exception .receiver)]

/-- Defines the methods of procs and fibers. All names under which a proc is called share
one body. -/
def bootClosures : VM Unit := do
  let proc ← Query.coreClass .proc
  let body ← newProc callUnit none none proc true
  procCallNames.forM fun name => do
    addMethod proc (← internText name) (.proc body)
  bootCoreMethods .proc procMethods
  bootClassMethods .fiber fiberClassMethods
  bootCoreMethods .fiber fiberMethods

/-- The methods of the core classes, in the order of their definition. -/
def coreMethods : List (CoreClass × List NamedMethod) := [
  (.basicObject, rootMethods),
  (.kernel, kernelMethods),
  (.nil, nilMethods),
  (.module, moduleMethods),
  (.classClass, classMethods),
  (.integer, numberMethods),
  (.float, numberMethods),
  (.float, [("nan?", .number .isNan)]),
  (.integer, [("times", .number .times)]),
  (.string, stringMethods),
  (.symbol, symbolMethods),
  (.array, arrayMethods),
  (.hash, hashMethods),
  (.range, rangeMethods)]

/-- Creates what builds upon the first classes. -/
def bootCore : VM Unit := do
  bootRoots
  valueClasses.forM bootClass
  bootMain
  bootExceptions
  coreMethods.forM fun (core, methods) => bootCoreMethods core methods
  bootClosures
  modifyHeap (·.restoreArena 0)

/-- Creates everything that a machine begins with. -/
def boot : VM Unit := do
  bootHierarchy
  bootCore

end VM

/-- A new machine. -/
def Machine.new (config : Config) : Machine :=
  match VM.boot (.empty config) with
  | .ok _ machine => machine
  | .error _ machine => machine

end RiteVm
