import RiteVm.Proofs.Evolution.Runs
import RiteVm.Proofs.Evolution.Startup
import RiteVm.Proofs.MethodCache.Soundness

/-!
Contract: the method cache is never stale.

Owns:
- that a new machine is sound, and so is every machine that a host reaches from it;
- that a search for a method returns what a search without any cache returns.
-/

namespace RiteVm

namespace Machine

/-! ### New machines -/

theorem coherent_empty (config : Config) : (empty config).Coherent := by
  have missing (handle : Handle) : (empty config).heap.get? handle = none := Heap.get?_new _ handle
  have noClass (handle : Handle) : (empty config).class? handle = none := by
    rw [class?, missing, Option.bind_none]
  refine ⟨⟨Heap.wellFormed_new _, ?_, fun _ => .inl rfl, ?_⟩, ⟨?_, ?_⟩, ⟨?_, ?_⟩⟩
  · exact fun handle object found => by cases (missing handle).symm.trans found
  · exact fun handle record known => by cases (noClass handle).symm.trans known
  · exact fun handle record _ known => by cases (noClass handle).symm.trans known
  · intro handle list isCached
    obtain ⟨record, known, -⟩ := cachedAncestors?_eq_some_iff.mp isCached
    cases (noClass handle).symm.trans known
  · intro key entry stored
    simp [empty] at stored
  · intro handle name entry stored
    simp [empty] at stored

section Startup

variable {machine : Machine}

/-- A class is created coherently if its superclass is a class. -/
theorem Coherent.allocateClass_eq_ok (coherent : machine.Coherent) (kind : ClassKind)
    (superclass : Option Handle) (instances : InstanceKind)
    (known : ∀ parent, superclass = some parent → ∃ record, machine.class? parent = some record) :
    ∃ handle next, VM.allocateClass kind superclass instances machine = .ok handle next ∧
      next.Coherent ∧ (∃ record, next.class? handle = some record) ∧
      ∀ other record, machine.class? other = some record → next.class? other = some record := by
  have wellFormed := coherent.hierarchical.wellFormed
  let object : Object :=
    { classHandle := machine.coreClass (if kind = .module then .module else .classClass)
      content := .classOrModule { kind, superclass, instances } }
  have isClass : object.class? = some { kind, superclass, instances } := rfl
  refine ⟨(machine.heap.place object).2, machine.allocate object, rfl, ?_, ?_, ?_⟩
  · refine coherent.allocateClass isClass rfl (coherent.hierarchical.coreClasses _) ?_
    intro parent isParent
    exact known parent (by simpa [ClassRecord.parents] using isParent)
  · refine ⟨{ kind, superclass, instances }, ?_⟩
    rw [Hierarchical.class?_allocate wellFormed, if_pos rfl, isClass]
  · intro other record wasKnown
    rw [Hierarchical.class?_allocate wellFormed, if_neg, wasKnown]
    rintro rfl
    cases wasKnown.symm.trans (Hierarchical.class?_place_snd wellFormed object)

/-- Objects are given a class coherently. -/
theorem Coherent.reclass_eq_ok (coherent : machine.Coherent) {classHandle : Handle}
    (known : ∃ record, machine.class? classHandle = some record) (handles : List Handle) :
    ∃ next, handles.forM (fun handle =>
        VM.modifyObject handle fun object => { object with classHandle }) machine = .ok ⟨⟩ next ∧
      next.Coherent ∧ ∀ other, next.class? other = machine.class? other := by
  induction handles generalizing machine with
  | nil => exact ⟨machine, rfl, coherent, fun _ => rfl⟩
  | cons handle rest inductionHypothesis =>
      have same (other : Handle) : (machine.rewrite handle fun object =>
          { object with classHandle }).class? other = machine.class? other :=
        class?_reclass classHandle other
      obtain ⟨record, isClass⟩ := known
      obtain ⟨next, changed, nextCoherent, sameRest⟩ := inductionHypothesis
        (coherent.rewrite (fun _ _ => .inr ⟨record, isClass⟩) same)
        ⟨record, (same classHandle).trans isClass⟩
      exact ⟨next, changed, nextCoherent, fun other => (sameRest other).trans (same other)⟩

/-- A class becomes a core class coherently. -/
theorem Coherent.setCoreClass_eq_ok (coherent : machine.Coherent) (core : CoreClass)
    {handle : Handle} (known : ∃ record, machine.class? handle = some record) :
    ∃ next, VM.setCoreClass core handle machine = .ok ⟨⟩ next ∧ next.Coherent ∧
      (∀ other, next.class? other = machine.class? other) ∧ next.coreClass core = handle := by
  refine ⟨_, rfl, coherent.setCoreClass core (.inr known), fun _ => rfl, ?_⟩
  rw [coreClass, Table.get?_insert, if_pos rfl]
  rfl

/-- The machine with the first four classes is sound. -/
theorem exists_bootHierarchy (config : Config) :
    ∃ machine, VM.bootHierarchy (.empty config) = .ok ⟨⟩ machine ∧ machine.Sound := by
  have knownParent {machine : Machine} {handle : Handle}
      (known : ∃ record, machine.class? handle = some record) (parent : Handle)
      (same : some handle = some parent) : ∃ record, machine.class? parent = some record :=
    Option.some.inj same ▸ known
  -- the four classes, each above the last one
  obtain ⟨basic, first, newBasic, coherent, isBasic, -⟩ :=
    (coherent_empty config).allocateClass_eq_ok .ordinary none .plain (by rintro parent ⟨⟩)
  obtain ⟨object, second, newObject, coherent, isObject, kept⟩ :=
    coherent.allocateClass_eq_ok .ordinary (some basic) .plain (knownParent isBasic)
  replace isBasic := isBasic.imp (kept basic)
  obtain ⟨module, third, newModule, coherent, isModule, kept⟩ :=
    coherent.allocateClass_eq_ok .ordinary (some object) .special (knownParent isObject)
  replace isBasic := isBasic.imp (kept basic)
  replace isObject := isObject.imp (kept object)
  obtain ⟨classClass, fourth, newClassClass, coherent, isClassClass, kept⟩ :=
    coherent.allocateClass_eq_ok .ordinary (some module) .special (knownParent isModule)
  replace isBasic := isBasic.imp (kept basic)
  replace isObject := isObject.imp (kept object)
  replace isModule := isModule.imp (kept module)
  -- their own class, and their places among the core classes
  obtain ⟨fifth, reclassed, coherent, same⟩ :=
    coherent.reclass_eq_ok isClassClass [basic, object, module, classClass]
  simp only [← same] at isBasic isObject isModule isClassClass
  obtain ⟨sixth, setBasic, coherent, same, -⟩ := coherent.setCoreClass_eq_ok .basicObject isBasic
  simp only [← same] at isObject isModule isClassClass
  obtain ⟨seventh, setObject, coherent, same, -⟩ := coherent.setCoreClass_eq_ok .object isObject
  simp only [← same] at isModule isClassClass
  obtain ⟨eighth, setModule, coherent, same, -⟩ := coherent.setCoreClass_eq_ok .module isModule
  simp only [← same] at isClassClass
  obtain ⟨last, setClassClass, coherent, same, isCore⟩ :=
    coherent.setCoreClass_eq_ok .classClass isClassClass
  simp only [← same] at isClassClass
  refine ⟨last, ?_, coherent, ?_⟩
  · rw [VM.bootHierarchy, VM.bind_of_ok newBasic, VM.bind_of_ok newObject,
      VM.bind_of_ok newModule, VM.bind_of_ok newClassClass, VM.bind_of_ok reclassed,
      VM.bind_of_ok setBasic, VM.bind_of_ok setObject, VM.bind_of_ok setModule, setClassClass]
  · rw [isCore]
    exact isClassClass

theorem sound_new (config : Config) : (new config).Sound := by
  obtain ⟨machine, started, sound⟩ := exists_bootHierarchy config
  exact sound.of_evolution (evolution_new started)

end Startup

/-! ### Reached machines -/

variable {config : Config} {hosts : Array HostMethod} {machine : Machine}

/-- Every machine that a host reaches is sound. -/
theorem Reached.sound (reached : Reached config hosts machine) (regular : HostsAreRegular hosts) :
    machine.Sound :=
  (sound_new config).of_evolution (reached.evolution regular)

/-! ### Searches -/

/-- A cached method of the current generation is what the lineage resolves the name to. -/
theorem Coherent.resolve_of_cachedMethod? (coherent : machine.Coherent) {handle : Handle}
    {list : List Handle} {name : Symbol} {found : FoundMethod}
    (lineage : machine.Lineage handle list)
    (read : Query.cachedMethod? handle name machine = .ok (some found)) :
    machine.resolve name list = some found := by
  replace read := Except.ok.inj read
  split at read
  · rename_i entry stored
    split at read
    · rename_i isCurrent
      obtain ⟨cachedList, isLineage, resolved⟩ :=
        coherent.methods.current handle name entry stored isCurrent
      rw [lineage.unique isLineage, resolved]
      exact read
    · exact nomatch read
  · exact nomatch read

/-- On a coherent machine a search finds what the lineage resolves the name to. -/
theorem Coherent.findMethod_eq (coherent : machine.Coherent) {handle : Handle}
    {list : List Handle} (lineage : machine.Lineage handle list) (name : Symbol) :
    ∃ next, VM.findMethod handle name machine = .ok (machine.resolve name list) next := by
  obtain ⟨cached?, read⟩ : ∃ cached?, Query.cachedMethod? handle name machine = .ok cached? :=
    ⟨_, rfl⟩
  rw [VM.findMethod, VM.bind_of_ok (VM.liftM_of_ok read)]
  cases cached? with
  | some found =>
      rw [coherent.resolve_of_cachedMethod? lineage read]
      exact ⟨machine, rfl⟩
  | none =>
      have caches := VM.caches_ancestors coherent lineage
      obtain ⟨next, computed⟩ := caches.returns trivial
      have same := caches.same
      rw [VM.after_of_ok computed] at same
      have searched : Query.lookupMethod name list next = .ok (machine.resolve name list) := by
        have lineage := same.lineage lineage
        rw [lookupMethod_eq fun owner isOwner => lineage.class?_of_mem isOwner,
          resolve_congr fun owner _ => same.entries name owner]
      dsimp only
      rw [VM.bind_of_ok computed, VM.bind_of_ok (VM.liftM_of_ok searched)]
      cases machine.resolve name list with
      | none => exact ⟨next, rfl⟩
      | some found => exact ⟨_, rfl⟩

/-- In every reached machine, the search for a method returns what a search in freshly
computed ancestors returns: the first entry for the name with its class, unless that is
undefined or missing. -/
theorem findMethod_fresh (reached : Reached config hosts machine)
    (regular : HostsAreRegular hosts) {handle : Handle} {record : ClassRecord}
    (known : machine.class? handle = some record) (name : Symbol) :
    ∃ list next, Query.freshAncestors handle machine = .ok list ∧
      VM.findMethod handle name machine = .ok (machine.resolve name list) next := by
  have coherent := (reached.sound regular).coherent
  obtain ⟨list, lineage⟩ := coherent.hierarchical.lineages handle record known
  obtain ⟨next, found⟩ := coherent.findMethod_eq lineage name
  exact ⟨list, next, lineage.freshAncestors_eq, found⟩

/-- A new machine finds the method that initializes classes. -/
theorem findMethod_fresh_new :
    ∃ record, (new {}).class? ((new {}).coreClass .classClass) = some record ∧
      ∃ list next, Query.freshAncestors ((new {}).coreClass .classClass) (new {}) = .ok list ∧
        VM.findMethod ((new {}).coreClass .classClass) .initMethod (new {}) =
          .ok ((new {}).resolve .initMethod list) next := by
  obtain ⟨record, known⟩ := (sound_new {}).classClass
  have regular : HostsAreRegular #[] := fun _ isHost => absurd isHost (Array.not_mem_empty _)
  exact ⟨record, known, findMethod_fresh (.new : Reached {} #[] _) regular known _⟩

end Machine

end RiteVm
