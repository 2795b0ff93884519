import RiteVm.Class.Definition
import RiteVm.Proofs.Binary.Recognition
import RiteVm.Proofs.ClassGraph.Failures
import RiteVm.Proofs.Fibers.EntryPoints
import RiteVm.Proofs.Parameters.Keywords
import RiteVm.Proofs.Provenance.Renderings

/-!
Contract: the operations on a class or module refuse every other object before they do anything.

Owns:
- the operations of a host that check the class or module that they are given, as one data type;
- an object of another kind is always shown, also once a name was interned;
- each operation fails on such an object with a type error that shows it, and nothing but a name,
  a message and the exception is new;
- a program that is run as the body of an object makes no such check.

Does not own: failures behind the check (`Failures`).
-/

namespace RiteVm

open Machine

variable {machine : Machine} {context : Context} {handle : Handle}

/-! ### What is shown -/

theorem Machine.Keeps.of_interned {name : Bytes} {handle other : Handle}
    (keeps : (machine.interned name).Keeps handle other) : machine.Keeps handle other := by
  cases keeps with
  | content found notClass stored => exact .content found notClass stored
  | field found stored => exact .field found stored
  | attached known isAttached => exact .attached known isAttached

theorem Value.IsLive.interned {value : Value} (live : value.IsLive machine) (name : Bytes) :
    value.IsLive (machine.interned name) :=
  fun handle other isHandle leads =>
    live handle other isHandle
      (Relation.ReflTransGen.mono (fun _ _ => Keeps.of_interned) handle other leads)

theorem Machine.Hierarchical.interned (hierarchical : machine.Hierarchical) (name : Bytes) :
    (machine.interned name).Hierarchical :=
  hierarchical.of_parents? hierarchical.wellFormed (fun _ => rfl) hierarchical.classes
    hierarchical.coreClasses

/-- A machine that runs on a stack, with a live object that is no class or module. What a type error
takes can be done there: the object can be shown, and an exception can be raised. -/
structure Machine.HasOther (machine : Machine) (context : Context) (handle : Handle) : Prop where
  runs : machine.RunsOn context
  founded : machine.heap.Founded
  hierarchical : machine.Hierarchical
  live : (Value.object handle).IsLive machine
  isOther : machine.class? handle = none

theorem Machine.HasOther.interned (other : machine.HasOther context handle) (name : Bytes) :
    (machine.interned name).HasOther context handle where
  runs := ⟨other.runs.running, other.runs.wellFormed, other.runs.held, other.runs.owned⟩
  founded := other.founded
  hierarchical := other.hierarchical.interned name
  live := other.live.interned name
  isOther := other.isOther

/-- In every machine that a host attains and that runs on a stack, each live object is a class or module
or such an object. -/
theorem Machine.Attained.hasOther {config : Config} {captures : Nat → Set Handle}
    {hosts : Array HostMethod} {place : Place} (keep : HostsKeepWithin captures hosts)
    (attained : Attained config captures hosts place machine) (runs : machine.RunsOn context)
    (live : (Value.object handle).IsLive machine) (isOther : machine.class? handle = none) :
    machine.HasOther context handle := by
  obtain ⟨told, sound, -⟩ := attained.toldAt keep
  exact ⟨runs, told.founded, sound.coherent.hierarchical, live, isOther⟩

/-! ### The check -/

/-- An outcome is a type error that shows an object. All objects that were there are as they were, so no
table, constant or list of ancestors has changed, and no other part of the machine has. -/
def Machine.IsRefusal {α : Type} (machine : Machine) (handle : Handle)
    (outcome : EStateM.Result Failure Machine α) : Prop :=
  ∃ text exception next, Query.inspect (.object handle) machine = .ok text ∧
    outcome = .error (.raised exception) next ∧
    next.Reports .typeError s!"{text} is not a class/module" exception ∧ machine.Alters none next

namespace VM

variable {α : Type}

theorem checkClass_refuses (other : machine.HasOther context handle) :
    machine.IsRefusal handle (checkClass handle machine) := by
  obtain ⟨object, found, -⟩ := other.live.exists_object
  obtain ⟨text, shown⟩ := Query.exists_inspect other.founded other.hierarchical other.live
  obtain ⟨exception, next, raises, reports, alters⟩ :=
    raise_alters (α := Unit) other.runs .typeError s!"{text} is not a class/module"
  have notClass : object.class? = none := by
    have isOther := other.isOther
    rwa [Machine.class?, found] at isOther
  refine ⟨text, exception, next, shown, ?_, reports, alters⟩
  rw [checkClass, bind_of_ok (liftM_of_ok (Query.object_of_found found)), notClass]
  exact (bind_of_ok (liftM_of_ok shown)).trans raises

theorem bind_refuses {β : Type} {action : VM α} {rest : α → VM β}
    (refuses : machine.IsRefusal handle (action machine)) :
    machine.IsRefusal handle ((action >>= rest) machine) := by
  obtain ⟨text, exception, next, shown, raises, reports, alters⟩ := refuses
  exact ⟨text, exception, next, shown, bind_of_error raises, reports, alters⟩

theorem checkFrozenClass_refuses (other : machine.HasOther context handle) :
    machine.IsRefusal handle (checkFrozenClass handle machine) :=
  bind_refuses (checkClass_refuses other)

theorem setMethod_refuses (other : machine.HasOther context handle) (name : Symbol)
    (method : Method) : machine.IsRefusal handle (setMethod handle name method machine) :=
  bind_refuses (checkFrozenClass_refuses other)

theorem setConst_refuses (other : machine.HasOther context handle) (name : Symbol)
    (value : Value) : machine.IsRefusal handle (setConst handle name value machine) :=
  bind_refuses (checkFrozenClass_refuses other)

theorem includeModule_refuses (other : machine.HasOther context handle) {module : Handle}
    (isModule : machine.kind? module = some .module) :
    machine.IsRefusal handle (includeModule handle module machine) := by
  have passes : ((! ·) <$> (liftM (Query.isModule (.object module)) : VM Bool)) machine =
      .ok false machine :=
    map_liftM_eq_ok_iff.mpr ⟨true, Query.isModule_eq_ok_iff.mpr isModule, rfl, rfl⟩
  rw [includeModule, bind_of_ok passes]
  exact bind_refuses (checkFrozenClass_refuses other)

end VM

/-! ### Operations -/

/-- The operations that check the class or module that they are given: they edit it, or they open
another one under it. -/
inductive TargetOperation where
  | edit (operation : ClassOperation)
  | openClass (outer : Handle) (name : String) (superclass? : Option Handle)
  | openModule (outer : Handle) (name : String)

namespace TargetOperation

/-- Runs an operation. -/
def run : TargetOperation → VM Unit
  | edit operation => operation.run
  | openClass outer name superclass? => do let _ ← VM.defineClassUnder outer name superclass?
  | openModule outer name => do let _ ← VM.defineModuleUnder outer name

/-- The object that an operation acts on. -/
def target : TargetOperation → Handle
  | edit (.defineMethod handle _ _) => handle
  | edit (.removeMethod handle _) => handle
  | edit (.undefMethod handle _) => handle
  | edit (.aliasMethod handle _ _) => handle
  | edit (.includeModule handle _) => handle
  | edit (.defineConst handle _ _) => handle
  | openClass outer _ _ => outer
  | openModule outer _ => outer

/-- What is included, if anything, is a module. -/
def IncludesModule (machine : Machine) : TargetOperation → Prop
  | edit (.includeModule _ module) => machine.kind? module = some .module
  | _ => True

/-- Every operation refuses an object that is no class or module. Before the check it interns the name
that it was given, or nothing. -/
theorem refuses_others (operation : TargetOperation)
    (other : machine.HasOther context operation.target)
    (modules : operation.IncludesModule machine) :
    ∃ named, (named = machine ∨ ∃ name, named = machine.interned name) ∧
      named.IsRefusal operation.target (operation.run machine) := by
  cases operation with
  | openClass outer name superclass? =>
      exact ⟨machine, .inl rfl, VM.bind_refuses (VM.bind_refuses (VM.checkClass_refuses other))⟩
  | openModule outer name =>
      exact ⟨machine, .inl rfl, VM.bind_refuses (VM.bind_refuses (VM.checkClass_refuses other))⟩
  | edit operation =>
      cases operation with
      | defineMethod handle name body =>
          exact ⟨_, .inr ⟨Text.utf8 name, rfl⟩, VM.setMethod_refuses (other.interned _) _ _⟩
      | defineConst handle name value =>
          exact ⟨_, .inr ⟨Text.utf8 name, rfl⟩, VM.setConst_refuses (other.interned _) _ _⟩
      | removeMethod handle name =>
          exact ⟨machine, .inl rfl, VM.bind_refuses (VM.checkFrozenClass_refuses other)⟩
      | undefMethod handle name =>
          exact ⟨machine, .inl rfl, VM.bind_refuses (VM.checkClass_refuses other)⟩
      | aliasMethod handle new old =>
          exact ⟨machine, .inl rfl, VM.bind_refuses (VM.checkClass_refuses other)⟩
      | includeModule handle module =>
          exact ⟨machine, .inl rfl, VM.includeModule_refuses other modules⟩

end TargetOperation

/-! ### Programs -/

/-- The smallest program returns a value as the body of every object, a class or not. Whether the object
can take definitions shows only when one is made. -/
theorem VM.Takes.loadInto {hosts : Array HostMethod} {fuel : Nat} (takes : Takes machine)
    (handle : Handle) :
    ∃ value next, VM.loadInto (.ofHosts hosts (fuel + 1)) (Binary.dump haltingUnit) handle machine =
      .ok value next := by
  have fits : haltingUnit.EveryUnit Bytecode.CodeUnit.FitsRecord :=
    .tree ⟨by decide, by decide, by decide, by decide, nofun, nofun⟩ nofun
  have loaded : Binary.load (Binary.dump haltingUnit) = .ok haltingUnit := by
    rw [(Binary.dump_layout fits (by decide +kernel)).load_eq, haltingUnit_validate]
  have read : readProgram (Binary.dump haltingUnit) machine = .ok haltingUnit machine := by
    rw [readProgram, loaded]
    rfl
  rw [VM.loadInto, bind_of_ok read]
  exact takes.runUnit (.object handle) handle

end RiteVm
