import RiteVm.Core.Boot
import RiteVm.Proofs.Edits.Values

/-!
Contract: the actions on classes are edits.

Owns: one instance for each action on ancestors, methods, constants and new classes, and
for each part of the start of a machine.
-/

namespace RiteVm

namespace VM.Edits

-- the start consists of many parts
set_option synthInstance.maxSize 3000

variable {α : Type}

/-! ### Ancestors -/

instance modifyClass (handle : Handle) (change : ClassRecord → ClassRecord) :
    Edits (modifyClass handle change) where
  editsFrom machine wellFormed := by
    unfold VM.modifyClass
    refine .query_bind fun record read => ?_
    obtain ⟨object, found, isClass⟩ :=
      Option.bind_eq_some_iff.mp (Query.classRecord_eq_ok_iff.mp read)
    have isContent : object.content = .classOrModule record := by
      rw [Object.class?] at isClass
      split at isClass <;> simp_all
    exact .setContent found (isContent ▸ .classOrModule _ _)

instance ancestorsWithin (fuel : Nat) (handle : Handle) : Edits (ancestorsWithin fuel handle) := by
  induction fuel generalizing handle with
  | zero => exact ofBreach _
  | succ fuel inductionHypothesis =>
      unfold VM.ancestorsWithin
      refine behind fun machine => behind fun record => ?_
      split <;> infer_instance

instance ancestors (handle : Handle) : Edits (ancestors handle) := by
  unfold VM.ancestors
  infer_instance

instance isKindOf (value : Value) (handle : Handle) : Edits (isKindOf value handle) := by
  unfold VM.isKindOf
  infer_instance

instance checkClass (handle : Handle) : Edits (checkClass handle) := by
  unfold VM.checkClass
  infer_instance

instance checkFrozenClass (handle : Handle) : Edits (checkFrozenClass handle) := by
  unfold VM.checkFrozenClass
  infer_instance

instance invalidateMethods : Edits invalidateMethods :=
  of_modify fun _ => .aside

instance invalidateHierarchy : Edits invalidateHierarchy := by
  have count : Edits (modify fun machine : Machine =>
      { machine with methodCache.hierarchy := machine.methodCache.hierarchy + 1 } : VM PUnit) :=
    of_modify fun _ => .aside
  unfold VM.invalidateHierarchy
  infer_instance

instance includeModule (handle module : Handle) : Edits (includeModule handle module) := by
  unfold VM.includeModule
  dsimp only
  infer_instance

/-! ### Methods -/

instance cacheMethod (handle : Handle) (name : Symbol) (found : FoundMethod) :
    Edits (cacheMethod handle name found) :=
  of_modify fun _ => .aside

instance findMethod (handle : Handle) (name : Symbol) : Edits (findMethod handle name) := by
  unfold VM.findMethod
  refine behind fun cached? => ?_
  split
  · infer_instance
  · refine behind fun list => behind fun found? => ?_
    split <;> infer_instance

instance findSuperMethod (handle owner : Handle) (name : Symbol) :
    Edits (findSuperMethod handle owner name) := by
  unfold VM.findSuperMethod
  refine behind fun list => ?_
  split
  · infer_instance
  · refine behind fun found? => ?_
    split <;> infer_instance

instance addMethod (handle : Handle) (name : Symbol) (method : Method) :
    Edits (addMethod handle name method) := by
  unfold VM.addMethod
  infer_instance

instance setMethod (handle : Handle) (name : Symbol) (method : Method) :
    Edits (setMethod handle name method) := by
  unfold VM.setMethod
  infer_instance

instance defineMethod (handle : Handle) (name : String) (body : NativeMethod) :
    Edits (defineMethod handle name body) := by
  unfold VM.defineMethod
  infer_instance

instance raiseUndefinedMethod (handle : Handle) (name : Symbol) :
    Edits (raiseUndefinedMethod handle name : VM α) := by
  unfold VM.raiseUndefinedMethod
  infer_instance

instance removeMethod (handle : Handle) (name : Symbol) : Edits (removeMethod handle name) := by
  unfold VM.removeMethod
  refine behind fun _ => behind fun record => ?_
  dsimp only
  split <;> infer_instance

instance undefMethod (handle : Handle) (name : Symbol) : Edits (undefMethod handle name) := by
  unfold VM.undefMethod
  refine behind fun _ => behind fun found? => ?_
  split <;> infer_instance

instance aliasMethod (handle : Handle) (new old : Symbol) :
    Edits (aliasMethod handle new old) := by
  unfold VM.aliasMethod
  refine behind fun _ => behind fun found? => ?_
  split <;> infer_instance

instance respondsTo (value : Value) (name : Symbol) : Edits (respondsTo value name) := by
  unfold VM.respondsTo
  infer_instance

/-! ### Constants and class variables -/

instance nameClass (outer handle : Handle) (name : Symbol) :
    Edits (nameClass outer handle name) := by
  unfold VM.nameClass
  dsimp only
  infer_instance

instance setConst (handle : Handle) (name : Symbol) (value : Value) :
    Edits (setConst handle name value) := by
  unfold VM.setConst
  refine behind fun _ => ?_
  dsimp only
  split <;> infer_instance

instance defineConst (handle : Handle) (name : String) (value : Value) :
    Edits (defineConst handle name value) := by
  unfold VM.defineConst
  infer_instance

instance constInAncestors (handle : Handle) (name : Symbol) :
    Edits (constInAncestors handle name) := by
  unfold VM.constInAncestors
  infer_instance

instance getConst? (handle : Handle) (name : String) : Edits (getConst? handle name) := by
  unfold VM.getConst?
  refine behind fun object => ?_
  split
  · infer_instance
  · refine behind fun machine => ?_
    split <;> infer_instance

instance lexicalConst (scope : Handle) (name : Symbol) : Edits (lexicalConst scope name) := by
  unfold VM.lexicalConst
  refine behind fun bound => behind fun inScope? => ?_
  split
  · infer_instance
  · refine behind fun inAncestors? => ?_
    split <;> infer_instance

instance getClassVar (handle : Handle) (name : Symbol) : Edits (getClassVar handle name) := by
  unfold VM.getClassVar
  refine behind fun list => behind fun entry? => ?_
  split <;> infer_instance

instance setClassVar (handle : Handle) (name : Symbol) (value : Value) :
    Edits (setClassVar handle name value) := by
  unfold VM.setClassVar
  infer_instance

/-! ### New classes -/

instance allocateClass (kind : ClassKind) (superclass : Option Handle)
    (instances : InstanceKind) : Edits (allocateClass kind superclass instances) := by
  have create (classHandle : Handle) (record : ClassRecord) :
      Edits (VM.allocate { classHandle, content := .classOrModule record }) :=
    of_allocate rfl
  unfold VM.allocateClass
  infer_instance

instance reclass (handle classHandle : Handle) :
    Edits (modifyObject handle ({ · with classHandle })) :=
  of_modifyObject fun _ => .same _

instance attachSingleton (handle superclass : Handle) :
    Edits (attachSingleton handle superclass) := by
  unfold VM.attachSingleton
  infer_instance

instance singletonOf (fuel : Nat) (handle : Handle) : Edits (singletonOf fuel handle) := by
  induction fuel generalizing handle with
  | zero => exact ofBreach _
  | succ fuel inductionHypothesis =>
      have attach (object : Object) : Edits (match object.class? with
          | none => VM.attachSingleton handle object.classHandle
          | some record =>
            if record.kind = .module then VM.attachSingleton handle object.classHandle
            else
              match record.superclass with
              | some superclass => do VM.attachSingleton handle (← VM.singletonOf fuel superclass)
              | none => do VM.attachSingleton handle (← Query.coreClass .classClass)) := by
        split
        · infer_instance
        · split
          · infer_instance
          · split <;> infer_instance
      unfold VM.singletonOf
      dsimp only
      infer_instance

instance singletonClass (value : Value) : Edits (singletonClass value) := by
  unfold VM.singletonClass
  split <;> infer_instance

instance openClass (outer : Handle) (name : Symbol) (superclass? : Option Handle) :
    Edits (openClass outer name superclass?) := by
  unfold VM.openClass
  refine behind fun record => ?_
  split
  · refine behind fun existing? => ?_
    split
    · infer_instance
    · dsimp only
      infer_instance
  · dsimp only
    infer_instance

instance openModule (outer : Handle) (name : Symbol) : Edits (openModule outer name) := by
  unfold VM.openModule
  refine behind fun record => ?_
  split
  · refine behind fun isModule => ?_
    split <;> infer_instance
  · infer_instance

instance defineClassUnder (outer : Handle) (name : String) (superclass? : Option Handle) :
    Edits (defineClassUnder outer name superclass?) := by
  unfold VM.defineClassUnder
  infer_instance

instance defineClass (name : String) (superclass? : Option Handle) :
    Edits (defineClass name superclass?) := by
  unfold VM.defineClass
  infer_instance

instance defineModuleUnder (outer : Handle) (name : String) :
    Edits (defineModuleUnder outer name) := by
  unfold VM.defineModuleUnder
  infer_instance

instance defineModule (name : String) : Edits (defineModule name) := by
  unfold VM.defineModule
  infer_instance

instance defineSingletonMethod (value : Value) (name : String) (body : NativeMethod) :
    Edits (defineSingletonMethod value name body) := by
  unfold VM.defineSingletonMethod
  infer_instance

/-! ### The start of a machine -/

instance setCoreClass (core : CoreClass) (handle : Handle) : Edits (setCoreClass core handle) :=
  of_modify fun _ => .aside

instance bootClass (definition : CoreDefinition) : Edits (bootClass definition) := by
  unfold VM.bootClass
  infer_instance

instance bootHierarchy : Edits bootHierarchy := by
  unfold VM.bootHierarchy
  infer_instance

instance bootRoots : Edits bootRoots := by
  unfold VM.bootRoots
  infer_instance

instance bootMain : Edits bootMain := by
  have setMain (mainObject : Handle) : Edits
      (modify fun machine : Machine => { machine with mainObject } : VM PUnit) :=
    of_modify fun _ => .aside
  unfold VM.bootMain
  refine behind fun classHandle => behind fun main => ?_
  dsimp only
  split <;> infer_instance

instance bootMethods (handle : Handle) (methods : List NamedMethod) :
    Edits (bootMethods handle methods) := by
  unfold VM.bootMethods
  infer_instance

instance bootCoreMethods (core : CoreClass) (methods : List NamedMethod) :
    Edits (bootCoreMethods core methods) := by
  unfold VM.bootCoreMethods
  infer_instance

instance bootClassMethods (core : CoreClass) (methods : List NamedMethod) :
    Edits (bootClassMethods core methods) := by
  unfold VM.bootClassMethods
  infer_instance

instance bootExceptions : Edits bootExceptions := by
  unfold VM.bootExceptions
  infer_instance

instance newProc (unit : Bytecode.CodeUnit) (upper env : Option Handle) (targetClass : Handle)
    (strict : Bool) : Edits (newProc unit upper env targetClass strict) := by
  unfold VM.newProc
  infer_instance

instance bootClosures : Edits bootClosures := by
  unfold VM.bootClosures
  infer_instance

instance bootCore : Edits bootCore := by
  unfold VM.bootCore
  infer_instance

instance boot : Edits boot := by
  unfold VM.boot
  infer_instance

end VM.Edits

/-- A new machine comes from one without classes by edits. -/
theorem Machine.edited_new (config : Config) : (empty config).Edited (new config) := by
  rw [VM.new_eq_after_boot]
  exact (VM.Edits.boot.editsFrom _ (Heap.wellFormed_new config.collector)).edited

end RiteVm
