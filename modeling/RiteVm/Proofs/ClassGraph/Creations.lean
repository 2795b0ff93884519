import RiteVm.Proofs.ClassGraph.Growth
import RiteVm.Proofs.ClassGraph.Inclusion

/-!
Contract: ancestor lists are exact, and in the order of superclasses.

Owns:
- that opening a class or module grows the machine, and that a new machine has grown;
- the machines that are built from a new one by creations and inclusions;
- the main result about ancestor lists and inclusions: in every machine that a host reaches,
  and in those that are built, with the order of all superclass chains.
-/

namespace RiteVm

namespace VM

variable {α : Type} {machine : Machine} {outer handle : Handle} {name : Symbol}

open Machine (Classed Grows Instantiable)

/-! ### Opened classes -/

namespace KeepsClassed

instance singletonClass (value : Value) : KeepsClassed (singletonClass value) where
  grows machine classed := by
    unfold VM.singletonClass
    split
    · exact (GrowsTo.query_bind classed fun fuel _ => .singletonOf classed fuel).grows
    all_goals exact KeepsClassed.grows machine classed

instance allocateModule : KeepsClassed (allocateClass .module none .special) :=
  ⟨fun _ classed => grows_allocateClass classed nofun⟩

instance openModule (outer : Handle) (name : Symbol) : KeepsClassed (openModule outer name) := by
  unfold VM.openModule
  refine @seq _ _ _ _ _ fun record => ?_
  split
  · refine @seq _ _ _ _ _ fun isModule => ?_
    split <;> infer_instance
  · infer_instance

instance defineModuleUnder (outer : Handle) (name : String) :
    KeepsClassed (defineModuleUnder outer name) := by
  unfold VM.defineModuleUnder
  infer_instance

instance defineModule (name : String) : KeepsClassed (defineModule name) := by
  unfold VM.defineModule
  infer_instance

end KeepsClassed

namespace GrowsTo

/-- A new ordinary class below one that was just read. -/
theorem allocateBelow (classed : machine.Classed) {superclass : Handle} {record : ClassRecord}
    {instances : InstanceKind} (read : Query.classRecord superclass machine = .ok record)
    (isOrdinary : record.kind = .ordinary) :
    GrowsTo machine (VM.allocateClass .ordinary (some superclass) instances) := by
  refine allocateClass classed (by rintro ⟨⟩) ?_
  rintro _ ⟨⟩
  refine .of_class? (Query.classRecord_eq_ok_iff.mp read) ?_
  rw [isOrdinary]
  rintro ⟨⟩

theorem openClass (classed : machine.Classed) {superclass? : Option Handle} :
    GrowsTo machine (VM.openClass outer name superclass?) := by
  unfold VM.openClass
  refine query_bind classed fun outerRecord _ => ?_
  split
  · refine query_bind classed fun existing? read => ?_
    split
    · exact query_bind classed fun _ _ => ⟨KeepsClassed.grows machine classed,
        fun _ _ done => absurd done raise_ne_ok⟩
    · obtain ⟨record, known, isOrdinary⟩ := class?_of_ordinaryClass? read
      refine query_bind classed fun _ _ => ?_
      dsimp only
      split
      · exact query_bind classed fun _ _ => raised classed
      · refine value classed (.of_class? known ?_)
        rw [isOrdinary]
        rintro ⟨⟩
  · refine query_bind classed fun object _ => query_bind classed fun record read => ?_
    dsimp only
    split
    · exact raised classed
    · rename_i isOrdinary
      have created := @allocateBelow _ classed _ _ record.instances read
        (Decidable.not_not.mp isOrdinary)
      refine bind created.grows fun handle _ done grown => ?_
      have isClass := created.returns handle _ done
      refine bind_keeps grown.classed fun _ _ _ first => ?_
      refine bind_keeps first.classed fun _ _ _ second => ?_
      refine bind_keeps second.classed fun _ _ _ third => ?_
      exact value third.classed
        (((isClass.mono first.kinds).mono second.kinds).mono third.kinds)

theorem defineClassUnder (classed : machine.Classed) {name : String}
    {superclass? : Option Handle} : GrowsTo machine (VM.defineClassUnder outer name superclass?) := by
  unfold VM.defineClassUnder
  refine bind_keeps classed fun _ _ _ first => ?_
  refine bind_keeps first.classed fun _ _ _ second => ?_
  exact bind_keeps second.classed fun _ _ _ third => openClass third.classed

theorem defineClass (classed : machine.Classed) {name : String} {superclass? : Option Handle} :
    GrowsTo machine (VM.defineClass name superclass?) :=
  query_bind classed fun _ _ => defineClassUnder classed

end GrowsTo

namespace KeepsClassed

instance openClass (outer : Handle) (name : Symbol) (superclass? : Option Handle) :
    KeepsClassed (openClass outer name superclass?) :=
  ⟨fun _ classed => (GrowsTo.openClass classed).grows⟩

instance checkArity (args : Args) (fewest : Nat) (most? : Option Nat) :
    KeepsClassed (checkArity args fewest most?) := by
  unfold VM.checkArity VM.raiseArity
  infer_instance

instance expectModule (value : Value) : KeepsClassed (expectModule value) := by
  unfold VM.expectModule
  dsimp only
  split <;> infer_instance

/-- A class without a name and without a body. -/
theorem newClass {engine : Engine} {args : Args} (noBody : args.block? = none) :
    KeepsClassed (newClass engine args) := by
  have create (superclass : Handle) : KeepsClassed (do
      let record ← Query.classRecord superclass
      if record.kind ≠ .ordinary then VM.raise .typeError "superclass must be a Class"
      let handle ← allocateClass .ordinary (some superclass) record.instances
      let _ ← VM.singletonClass (.object handle)
      return Value.object handle : VM Value) := by
    refine ⟨fun machine classed => grows_query_bind classed fun record read => ?_⟩
    dsimp only
    split
    · exact grows_bind (KeepsClassed.grows machine classed) fun _ _ done => absurd done raise_ne_ok
    · rename_i isOrdinary
      have created := @GrowsTo.allocateBelow _ classed _ _ record.instances read
        (Decidable.not_not.mp isOrdinary)
      refine grows_bind created.grows fun handle _ _ grown => ?_
      exact seq.grows _ grown.classed
  dsimp only at create
  unfold VM.newClass
  simp only [noBody]
  infer_instance

/-! ### The start of a machine -/

-- the start consists of many parts
set_option synthInstance.maxSize 3000

instance bootClass (definition : CoreDefinition) : KeepsClassed (bootClass definition) := by
  have setInstances (handle : Handle) (instances : InstanceKind) :
      KeepsClassed (VM.modifyClass handle fun record => { record with instances }) :=
    modifyClass (fun _ => rfl) fun _ => rfl
  unfold VM.bootClass
  refine @seq _ _ _ _ _ fun superclass => ⟨fun machine classed => ?_⟩
  have defined := @GrowsTo.defineClass _ classed definition.name (some superclass)
  refine grows_bind defined.grows fun handle next done grown => ?_
  refine grows_bind (KeepsClassed.grows next grown.classed) fun _ last _ changed => ?_
  exact changed.classed.setCoreClass fun _ => (defined.returns handle next done).mono changed.kinds

instance bootRoots : KeepsClassed bootRoots := by
  have setKernel (kernel : Handle) : KeepsClassed (setCoreClass .kernel kernel) :=
    ⟨fun _ classed => classed.setCoreClass fun isClass => absurd rfl isClass⟩
  unfold VM.bootRoots
  infer_instance

instance defineSingletonMethod (value : Value) (name : String) (body : NativeMethod) :
    KeepsClassed (defineSingletonMethod value name body) := by
  unfold VM.defineSingletonMethod
  infer_instance

instance bootMain : KeepsClassed bootMain := by
  have newMain : KeepsClassed (liftM (Query.coreClass .object) >>= newObject) := by
    refine withCoreClass fun machine classed => ?_
    have created := @grows_allocate machine classed
      { classHandle := machine.coreClass .object, content := .plain } rfl
      (classed.coreClasses _ (by rintro ⟨⟩))
    exact grows_bind created fun _ _ _ grown => .refl grown.classed
  have setMain (mainObject : Handle) : KeepsClassed
      (modify fun machine : Machine => { machine with mainObject } : VM PUnit) :=
    ofModify (fun _ => rfl) (fun _ => rfl) fun _ => rfl
  unfold VM.bootMain
  rw [← bind_assoc]
  refine @seq _ _ _ _ _ fun main => ?_
  dsimp only
  split <;> infer_instance

instance bootMethods (handle : Handle) (methods : List NamedMethod) :
    KeepsClassed (bootMethods handle methods) := by
  unfold VM.bootMethods
  infer_instance

instance bootCoreMethods (core : CoreClass) (methods : List NamedMethod) :
    KeepsClassed (bootCoreMethods core methods) := by
  unfold VM.bootCoreMethods
  infer_instance

instance bootClassMethods (core : CoreClass) (methods : List NamedMethod) :
    KeepsClassed (bootClassMethods core methods) := by
  unfold VM.bootClassMethods
  infer_instance

instance bootExceptions : KeepsClassed bootExceptions := by
  unfold VM.bootExceptions
  infer_instance

instance bootClosures : KeepsClassed bootClosures := by
  have newCallProc (proc : Handle) : KeepsClassed (newProc callUnit none none proc true) := by
    unfold VM.newProc
    refine withCoreClass fun machine classed => ?_
    exact grows_allocate classed rfl (classed.coreClasses _ (by rintro ⟨⟩))
  unfold VM.bootClosures
  infer_instance

instance bootCore : KeepsClassed bootCore := by
  have restoreArena : KeepsClassed (modifyHeap (·.restoreArena 0)) :=
    ofModify (fun _ => rfl) (fun _ => rfl) fun _ => rfl
  unfold VM.bootCore
  infer_instance

end KeepsClassed

end VM

namespace Machine

variable {machine next : Machine} {handle : Handle} {list chain : List Handle}
  {record : ClassRecord} {config : Config}

/-! ### Built machines -/

/-- Ordinary classes are no modules, and at first there are no others. -/
theorem Bare.classed (bare : machine.Bare) (hierarchical : machine.Hierarchical) :
    machine.Classed := by
  have instantiable {handle : Handle} (given : machine.IsClassOrNull handle) :
      machine.Instantiable handle := by
    rcases given with isNull | ⟨record, known⟩
    · exact .inl isNull
    · refine .of_class? known ?_
      rw [(bare.records handle record known).1]
      rintro ⟨⟩
  refine ⟨bare.wellFormed, fun core _ => instantiable (hierarchical.coreClasses core),
    fun handle object found => instantiable (hierarchical.classes handle object found),
    fun handle record known parent inherits => ?_⟩
  obtain ⟨list, lineage⟩ := hierarchical.lineages handle record known
  obtain ⟨more, ofParent, -⟩ := lineage.of_parent (parents?_of_class? known)
    (show parent ∈ record.parents by simp [ClassRecord.parents, inherits])
  exact instantiable (.inr (ofParent.class?_of_mem ofParent.mem_self))

theorem classed_new (config : Config) : (new config).Classed := by
  obtain ⟨machine, started, sound⟩ := exists_bootHierarchy config
  have classed := (Bare.of_bootHierarchy started).classed sound.coherent.hierarchical
  rw [new_eq_after_bootCore started]
  exact (VM.KeepsClassed.grows machine classed).classed

/-- The classes of surviving objects survive with them. -/
theorem Classed.collect (classed : machine.Classed) (hierarchical : machine.Hierarchical) :
    machine.collect.Classed := by
  have kept {handle : Handle} (reachable : machine.Reachable (.object handle))
      (given : machine.Instantiable handle) : machine.collect.Instantiable handle := by
    rcases given with isNull | ⟨kind, known, isClass⟩
    · exact .inl isNull
    · refine .inr ⟨kind, ?_, isClass⟩
      rw [kind?, class?, get?_collect_of_reachable reachable]
      exact known
  refine ⟨wellFormed_collect classed.wellFormed, fun core isClass => ?_,
    fun handle object found => ?_, fun handle record survived parent inherits => ?_⟩
  · rw [coreClass_collect]
    rcases Hierarchical.coreClass_cases machine core with isNull | reachable
    · exact .inl isNull
    · exact kept reachable (classed.coreClasses core isClass)
  · obtain ⟨reachable, wasFound⟩ := reachable_of_get?_collect found
    exact kept (.step reachable (.object wasFound .class)) (classed.objects _ _ wasFound)
  · have known := class?_of_class?_collect survived
    rcases classed.superclasses handle record known parent inherits with
      isNull | ⟨kind, wasKnown, isClass⟩
    · exact .inl isNull
    · refine .inr ⟨kind, ?_, isClass⟩
      refine kind?_collect_of_parent hierarchical survived ?_ wasKnown
      simp [ClassRecord.parents, inherits]

/-- The actions that create classes, modules and singleton classes, and the inclusion. -/
inductive Creation : {α : Type} → VM α → Prop where
  | openClass (outer : Handle) (name : Symbol) (superclass? : Option Handle) :
      Creation (VM.openClass outer name superclass?)
  | openModule (outer : Handle) (name : Symbol) : Creation (VM.openModule outer name)
  | defineClassUnder (outer : Handle) (name : String) (superclass? : Option Handle) :
      Creation (VM.defineClassUnder outer name superclass?)
  | defineModuleUnder (outer : Handle) (name : String) :
      Creation (VM.defineModuleUnder outer name)
  | newClass (engine : Engine) (args : Args) :
      args.block? = none → Creation (VM.newClass engine args)
  | singletonClass (value : Value) : Creation (VM.singletonClass value)
  | includeModule (handle module : Handle) : Creation (VM.includeModule handle module)

/-- The machines that are built from a new one by creations and inclusions, with instances of
classes and collections on the way. -/
inductive Built (config : Config) : Machine → Prop where
  | new : Built config (.new config)
  | create {machine : Machine} {α : Type} {action : VM α} :
      Built config machine → Creation action → Built config (action.after machine)
  | instantiate {machine : Machine} {handle : Handle} {record : ClassRecord} :
      Built config machine → machine.class? handle = some record → record.kind ≠ .module →
      Built config ((VM.newObject handle).after machine)
  | collect {machine : Machine} : Built config machine → Built config machine.collect

theorem Creation.evolves {α : Type} {action : VM α} (creation : Creation action) :
    VM.Evolves action := by
  cases creation with
  | newClass engine args noBody =>
      -- without a body, no engine is asked for anything
      have := Engine.evolves_ofHosts (fun _ isHost => absurd isHost (Array.not_mem_empty _)) 0
      have same : VM.newClass engine args = VM.newClass (.ofHosts #[] 0) args := by
        unfold VM.newClass
        simp only [noBody]
      rw [same]
      infer_instance
  | _ => infer_instance

theorem Creation.keepsClassed {α : Type} {action : VM α} (creation : Creation action) :
    VM.KeepsClassed action := by
  cases creation with
  | newClass engine args noBody => exact .newClass noBody
  | defineClassUnder => exact ⟨fun _ classed => (VM.GrowsTo.defineClassUnder classed).grows⟩
  | _ => infer_instance

namespace Built

/-- A built machine is sound, its links are graded, and modules have no instances in it. -/
theorem classed (built : Built config machine) :
    machine.Sound ∧ machine.Graded ∧ machine.Classed := by
  have evolved {machine next : Machine} (sound : machine.Sound) (graded : machine.Graded)
      (evolution : machine.Evolution next) : next.Sound ∧ next.Graded :=
    ⟨sound.of_evolution evolution, graded.of_evolution sound evolution⟩
  induction built with
  | new => exact ⟨sound_new config, graded_new config, classed_new config⟩
  | create _ creation inductionHypothesis =>
      obtain ⟨sound, graded, classed⟩ := inductionHypothesis
      obtain ⟨soundAfter, gradedAfter⟩ := evolved sound graded (creation.evolves.evolvesFrom _)
      exact ⟨soundAfter, gradedAfter, (creation.keepsClassed.grows _ classed).classed⟩
  | @instantiate machine handle record _ known isClass inductionHypothesis =>
      obtain ⟨sound, graded, classed⟩ := inductionHypothesis
      have evolves : VM.EvolvesFrom machine (VM.newObject handle) :=
        .bind (.allocate rfl (.known known)) fun _ _ _ => .of_evolves
      obtain ⟨soundAfter, gradedAfter⟩ := evolved sound graded evolves
      refine ⟨soundAfter, gradedAfter, @Grows.classed machine _ ?_⟩
      refine VM.grows_bind (VM.grows_allocate classed rfl (.of_class? known isClass)) ?_
      exact fun _ _ _ grown => .refl grown.classed
  | collect _ inductionHypothesis =>
      obtain ⟨sound, graded, classed⟩ := inductionHypothesis
      have hierarchical := sound.coherent.hierarchical
      exact ⟨sound.collect, graded.collect hierarchical, classed.collect hierarchical⟩

end Built

/-- Superclasses are no modules where modules have no instances. -/
theorem Classed.kind?_ne_module (classed : machine.Classed)
    (superclasses : machine.Superclasses handle chain) :
    ∀ parent ∈ chain.tail, machine.kind? parent ≠ some .module := by
  induction superclasses with
  | top => exact fun _ isMember => absurd isMember (List.not_mem_nil)
  | @step handle parent record chain known inherits above inductionHypothesis =>
      have notModule : machine.kind? parent ≠ some .module := by
        intro isModule
        rcases classed.superclasses handle record known parent inherits with
          rfl | ⟨kind, isKind, isClass⟩
        · rw [kind?, class?, classed.wellFormed.get?_null] at isModule
          cases isModule
        · exact isClass (Option.some.inj (isKind.symm.trans isModule))
      intro other isMember
      rw [List.tail_cons] at isMember
      cases above with
      | top =>
          rw [List.mem_singleton.mp isMember]
          exact notModule
      | step =>
          rcases List.mem_cons.mp isMember with rfl | isAbove
          · exact notModule
          · exact inductionHypothesis other isAbove

/-! ### Exact class graphs -/

/-- Each class and each module has an exact ancestor list, and the inclusion of any module in
it is exact as well. -/
def GraphIsExact (machine : Machine) : Prop :=
  ∀ handle record, machine.class? handle = some record →
    ∃ list, machine.ListsAncestors handle list ∧
      ∀ module, machine.IncludesExactly handle list module

theorem Sound.graphIsExact (sound : machine.Sound) (graded : machine.Graded) :
    machine.GraphIsExact := by
  intro handle record known
  obtain ⟨list, lineage⟩ := sound.coherent.hierarchical.lineages handle record known
  exact ⟨list, sound.listsAncestors graded lineage, sound.includesExactly lineage⟩

/-- Ancestor lists and inclusions are exact in every machine that a host reaches. In those that
are built by creations and inclusions, every chain of superclasses stands in the list in its
order, without the condition that it has in `ListsAncestors`. -/
theorem ancestors_exact {hosts : Array HostMethod} (regular : HostsAreRegular hosts) :
    (∀ machine, Reached config hosts machine → machine.GraphIsExact) ∧
      ∀ machine, Built config machine → machine.GraphIsExact ∧
        ∀ handle list chain, machine.ListsAncestors handle list →
          machine.Superclasses handle chain → chain.Sublist list := by
  refine ⟨fun machine reached => ?_, fun machine built => ?_⟩
  · exact (reached.sound regular).graphIsExact (reached.graded regular)
  · obtain ⟨sound, graded, classed⟩ := built.classed
    refine ⟨sound.graphIsExact graded, fun handle list chain lists superclasses => ?_⟩
    exact lists.ordered chain superclasses (.inr (classed.kind?_ne_module superclasses))

/-- The class of classes of a new machine has an exact ancestor list, in the order of its
superclasses. -/
theorem ancestors_exact_new :
    HostsAreRegular #[] ∧ ∃ list, (new {}).ListsAncestors ((new {}).coreClass .classClass) list ∧
      ∀ chain, (new {}).Superclasses ((new {}).coreClass .classClass) chain →
        chain.Sublist list := by
  have regular : HostsAreRegular #[] := fun _ isHost => absurd isHost (Array.not_mem_empty _)
  obtain ⟨exact, inOrder⟩ := (ancestors_exact regular).2 (new {}) .new
  obtain ⟨record, known⟩ := (sound_new {}).classClass
  obtain ⟨list, lists, -⟩ := exact _ record known
  exact ⟨regular, list, lists, fun chain => inOrder _ list chain lists⟩

end Machine

end RiteVm
