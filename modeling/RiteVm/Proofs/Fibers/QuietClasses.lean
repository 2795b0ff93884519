import RiteVm.Core.Boot
import RiteVm.Proofs.Fibers.QuietValues

/-!
Contract: the actions on classes leave fibers alone.

Owns: one instance for each action on ancestors, methods, constants and new classes, and
for each part of the start of a machine.
-/

namespace RiteVm

namespace VM.Quiet

-- the start consists of many parts
set_option synthInstance.maxSize 3000

variable {α : Type}

/-! ### Ancestors -/

instance modifyClass (handle : Handle) (change : ClassRecord → ClassRecord) :
    Quiet (modifyClass handle change) where
  quietFrom machine := by
    unfold VM.modifyClass
    refine .query_bind fun record read => ?_
    obtain ⟨object, found, isClass⟩ :=
      Option.bind_eq_some_iff.mp (Query.classRecord_eq_ok_iff.mp read)
    have wasPlain : object.fiber? = none := by
      rw [Object.class?] at isClass
      rw [Object.fiber?]
      split at isClass <;> simp_all
    exact .setContent found wasPlain rfl (Object.not_captures rfl)

instance ancestorsWithin (fuel : Nat) (handle : Handle) : Quiet (ancestorsWithin fuel handle) := by
  induction fuel generalizing handle with
  | zero => exact ofBreach _
  | succ fuel inductionHypothesis =>
      unfold VM.ancestorsWithin
      refine @seq _ _ _ _ _ fun machine => @seq _ _ _ _ _ fun record => ?_
      split <;> infer_instance

instance ancestors (handle : Handle) : Quiet (ancestors handle) := by
  unfold VM.ancestors
  infer_instance

instance isKindOf (value : Value) (handle : Handle) : Quiet (isKindOf value handle) := by
  unfold VM.isKindOf
  infer_instance

instance checkClass (handle : Handle) : Quiet (checkClass handle) := by
  unfold VM.checkClass
  infer_instance

instance checkFrozenClass (handle : Handle) : Quiet (checkFrozenClass handle) := by
  unfold VM.checkFrozenClass
  infer_instance

instance invalidateMethods : Quiet invalidateMethods :=
  of_modify fun _ => ⟨rfl, rfl, rfl, rfl, rfl, rfl, rfl, rfl, .refl⟩

instance invalidateHierarchy : Quiet invalidateHierarchy := by
  have count : Quiet (modify fun machine : Machine =>
      { machine with methodCache.hierarchy := machine.methodCache.hierarchy + 1 } : VM PUnit) :=
    of_modify fun _ => ⟨rfl, rfl, rfl, rfl, rfl, rfl, rfl, rfl, .refl⟩
  unfold VM.invalidateHierarchy
  infer_instance

instance includeModule (handle module : Handle) : Quiet (includeModule handle module) := by
  unfold VM.includeModule
  dsimp only
  infer_instance

/-! ### Methods -/

instance cacheMethod (handle : Handle) (name : Symbol) (found : FoundMethod) :
    Quiet (cacheMethod handle name found) :=
  of_modify fun _ => ⟨rfl, rfl, rfl, rfl, rfl, rfl, rfl, rfl, .refl⟩

instance findMethod (handle : Handle) (name : Symbol) : Quiet (findMethod handle name) := by
  unfold VM.findMethod
  refine @seq _ _ _ _ _ fun cached? => ?_
  split
  · infer_instance
  · refine @seq _ _ _ _ _ fun list => @seq _ _ _ _ _ fun found? => ?_
    split <;> infer_instance

instance findSuperMethod (handle owner : Handle) (name : Symbol) :
    Quiet (findSuperMethod handle owner name) := by
  unfold VM.findSuperMethod
  refine @seq _ _ _ _ _ fun list => ?_
  split
  · infer_instance
  · refine @seq _ _ _ _ _ fun found? => ?_
    split <;> infer_instance

instance addMethod (handle : Handle) (name : Symbol) (method : Method) :
    Quiet (addMethod handle name method) := by
  unfold VM.addMethod
  infer_instance

instance setMethod (handle : Handle) (name : Symbol) (method : Method) :
    Quiet (setMethod handle name method) := by
  unfold VM.setMethod
  infer_instance

instance defineMethod (handle : Handle) (name : String) (body : NativeMethod) :
    Quiet (defineMethod handle name body) := by
  unfold VM.defineMethod
  infer_instance

instance raiseUndefinedMethod (handle : Handle) (name : Symbol) :
    Quiet (raiseUndefinedMethod handle name : VM α) := by
  unfold VM.raiseUndefinedMethod
  infer_instance

instance removeMethod (handle : Handle) (name : Symbol) : Quiet (removeMethod handle name) := by
  unfold VM.removeMethod
  refine @seq _ _ _ _ _ fun _ => @seq _ _ _ _ _ fun record => ?_
  dsimp only
  split <;> infer_instance

instance undefMethod (handle : Handle) (name : Symbol) : Quiet (undefMethod handle name) := by
  unfold VM.undefMethod
  refine @seq _ _ _ _ _ fun _ => @seq _ _ _ _ _ fun found? => ?_
  split <;> infer_instance

instance aliasMethod (handle : Handle) (new old : Symbol) :
    Quiet (aliasMethod handle new old) := by
  unfold VM.aliasMethod
  refine @seq _ _ _ _ _ fun _ => @seq _ _ _ _ _ fun found? => ?_
  split <;> infer_instance

instance respondsTo (value : Value) (name : Symbol) : Quiet (respondsTo value name) := by
  unfold VM.respondsTo
  infer_instance

/-! ### Constants and class variables -/

instance nameClass (outer handle : Handle) (name : Symbol) :
    Quiet (nameClass outer handle name) := by
  unfold VM.nameClass
  dsimp only
  infer_instance

instance setConst (handle : Handle) (name : Symbol) (value : Value) :
    Quiet (setConst handle name value) := by
  unfold VM.setConst
  refine @seq _ _ _ _ _ fun _ => ?_
  dsimp only
  split <;> infer_instance

instance defineConst (handle : Handle) (name : String) (value : Value) :
    Quiet (defineConst handle name value) := by
  unfold VM.defineConst
  infer_instance

instance constInAncestors (handle : Handle) (name : Symbol) :
    Quiet (constInAncestors handle name) := by
  unfold VM.constInAncestors
  infer_instance

instance getConst? (handle : Handle) (name : String) : Quiet (getConst? handle name) := by
  unfold VM.getConst?
  refine @seq _ _ _ _ _ fun object => ?_
  split
  · infer_instance
  · refine @seq _ _ _ _ _ fun machine => ?_
    split <;> infer_instance

instance lexicalConst (scope : Handle) (name : Symbol) : Quiet (lexicalConst scope name) := by
  unfold VM.lexicalConst
  refine @seq _ _ _ _ _ fun bound => @seq _ _ _ _ _ fun inScope? => ?_
  split
  · infer_instance
  · refine @seq _ _ _ _ _ fun inAncestors? => ?_
    split <;> infer_instance

instance getClassVar (handle : Handle) (name : Symbol) : Quiet (getClassVar handle name) := by
  unfold VM.getClassVar
  refine @seq _ _ _ _ _ fun list => @seq _ _ _ _ _ fun entry? => ?_
  split <;> infer_instance

instance setClassVar (handle : Handle) (name : Symbol) (value : Value) :
    Quiet (setClassVar handle name value) := by
  unfold VM.setClassVar
  infer_instance

/-! ### New classes -/

instance allocateClass (kind : ClassKind) (superclass : Option Handle)
    (instances : InstanceKind) : Quiet (allocateClass kind superclass instances) := by
  have create (classHandle : Handle) (record : ClassRecord) :
      Quiet (VM.allocate { classHandle, content := .classOrModule record }) :=
    of_allocate rfl rfl
  unfold VM.allocateClass
  infer_instance

instance reclass (handle classHandle : Handle) :
    Quiet (modifyObject handle ({ · with classHandle })) :=
  of_modifyObject fun _ => ⟨rfl, rfl⟩

instance attachSingleton (handle superclass : Handle) :
    Quiet (attachSingleton handle superclass) := by
  unfold VM.attachSingleton
  infer_instance

instance singletonOf (fuel : Nat) (handle : Handle) : Quiet (singletonOf fuel handle) := by
  induction fuel generalizing handle with
  | zero => exact ofBreach _
  | succ fuel inductionHypothesis =>
      have attach (object : Object) : Quiet (match object.class? with
          | none => VM.attachSingleton handle object.classHandle
          | some record =>
            if record.kind = .module then VM.attachSingleton handle object.classHandle
            else
              match record.superclass with
              | some superclass => do VM.attachSingleton handle (← VM.singletonOf fuel superclass)
              | none => do VM.attachSingleton handle (← Query.coreClass .classClass)) := by
        split
        · infer_instance
        · split
          · infer_instance
          · split <;> infer_instance
      unfold VM.singletonOf
      dsimp only
      infer_instance

instance singletonClass (value : Value) : Quiet (singletonClass value) := by
  unfold VM.singletonClass
  split <;> infer_instance

instance openClass (outer : Handle) (name : Symbol) (superclass? : Option Handle) :
    Quiet (openClass outer name superclass?) := by
  unfold VM.openClass
  refine @seq _ _ _ _ _ fun record => ?_
  split
  · refine @seq _ _ _ _ _ fun existing? => ?_
    split
    · infer_instance
    · dsimp only
      infer_instance
  · dsimp only
    infer_instance

instance openModule (outer : Handle) (name : Symbol) : Quiet (openModule outer name) := by
  unfold VM.openModule
  refine @seq _ _ _ _ _ fun record => ?_
  split
  · refine @seq _ _ _ _ _ fun isModule => ?_
    split <;> infer_instance
  · infer_instance

instance defineClassUnder (outer : Handle) (name : String) (superclass? : Option Handle) :
    Quiet (defineClassUnder outer name superclass?) := by
  unfold VM.defineClassUnder
  infer_instance

instance defineClass (name : String) (superclass? : Option Handle) :
    Quiet (defineClass name superclass?) := by
  unfold VM.defineClass
  infer_instance

instance defineModuleUnder (outer : Handle) (name : String) :
    Quiet (defineModuleUnder outer name) := by
  unfold VM.defineModuleUnder
  infer_instance

instance defineModule (name : String) : Quiet (defineModule name) := by
  unfold VM.defineModule
  infer_instance

instance defineSingletonMethod (value : Value) (name : String) (body : NativeMethod) :
    Quiet (defineSingletonMethod value name body) := by
  unfold VM.defineSingletonMethod
  infer_instance

/-! ### The start of a machine -/

instance setCoreClass (core : CoreClass) (handle : Handle) : Quiet (setCoreClass core handle) :=
  of_modify fun _ => ⟨rfl, rfl, rfl, rfl, rfl, rfl, rfl, rfl, .refl⟩

instance bootClass (definition : CoreDefinition) : Quiet (bootClass definition) := by
  unfold VM.bootClass
  infer_instance

instance bootHierarchy : Quiet bootHierarchy := by
  unfold VM.bootHierarchy
  infer_instance

instance bootRoots : Quiet bootRoots := by
  unfold VM.bootRoots
  infer_instance

instance newObject (classHandle : Handle) : Quiet (newObject classHandle) := by
  unfold VM.newObject
  infer_instance

instance bootMain : Quiet bootMain := by
  have setMain (mainObject : Handle) : Quiet
      (modify fun machine : Machine => { machine with mainObject } : VM PUnit) :=
    of_modify fun _ => ⟨rfl, rfl, rfl, rfl, rfl, rfl, rfl, rfl, .refl⟩
  unfold VM.bootMain
  refine @seq _ _ _ _ _ fun classHandle => @seq _ _ _ _ _ fun main => ?_
  dsimp only
  split <;> infer_instance

instance bootMethods (handle : Handle) (methods : List NamedMethod) :
    Quiet (bootMethods handle methods) := by
  unfold VM.bootMethods
  infer_instance

instance bootCoreMethods (core : CoreClass) (methods : List NamedMethod) :
    Quiet (bootCoreMethods core methods) := by
  unfold VM.bootCoreMethods
  infer_instance

instance bootClassMethods (core : CoreClass) (methods : List NamedMethod) :
    Quiet (bootClassMethods core methods) := by
  unfold VM.bootClassMethods
  infer_instance

instance bootExceptions : Quiet bootExceptions := by
  unfold VM.bootExceptions
  infer_instance

instance newProc (unit : Bytecode.CodeUnit) (upper env : Option Handle) (targetClass : Handle)
    (strict : Bool) : Quiet (newProc unit upper env targetClass strict) := by
  unfold VM.newProc
  infer_instance

instance bootClosures : Quiet bootClosures := by
  unfold VM.bootClosures
  infer_instance

instance bootCore : Quiet bootCore := by
  unfold VM.bootCore
  infer_instance

instance boot : Quiet boot := by
  unfold VM.boot
  infer_instance

end VM.Quiet

/-- A new machine runs on the stack of the main program and has no fibers. -/
theorem Machine.keepsFibers_new (config : Config) : (empty config).KeepsFibers (new config) := by
  rw [VM.new_eq_after_boot]
  exact VM.Quiet.boot.quietFrom _

end RiteVm
