import RiteVm.Proofs.ClassGraph.Inclusion
import RiteVm.Proofs.ClassGraph.Metaclasses

/-!
Contract: class methods are inherited.

Owns:
- that the search for the singleton class of a class succeeds in every mirrored machine;
- the singleton classes of a class and its superclasses, which stand among the ancestors of the
  first one in the order of the superclasses;
- what is right about the singleton class of each class, in every machine that evolves from a
  new one.

A method is inherited unless an ancestor in front of its owner has an entry for the name.
-/

namespace RiteVm

namespace Machine

variable {machine next : Machine} {handle singleton parent superclass owner : Handle}
  {list more chain : List Handle} {name : Symbol} {found : FoundMethod}

/-! ### Searches succeed -/

/-- An object whose class leads nowhere is no class. -/
theorem Mirrored.exists_class (mirrored : machine.Mirrored) (hierarchical : machine.Hierarchical)
    {object : Object} {record : ClassRecord} (isFound : machine.heap.get? handle = some object)
    (isClass : object.class? = some record) :
    ∃ classObject, machine.heap.get? object.classHandle = some classObject := by
  have housed := mirrored.housed handle object isFound (by simp [isClass])
  obtain ⟨_, known⟩ := (hierarchical.classes handle object isFound).resolve_left housed
  obtain ⟨classObject, live, -⟩ := Option.bind_eq_some_iff.mp known
  exact ⟨classObject, live⟩

/-- The singleton class of a class is found or created, together with those above it. -/
theorem Mirrored.singletonOf_eq_ok (mirrored : machine.Mirrored)
    (hierarchical : machine.Hierarchical) {fuel : Nat} (lineage : machine.Lineage handle list)
    (enough : list.length ≤ fuel) :
    ∃ singleton next, VM.singletonOf fuel handle machine = .ok singleton next := by
  induction fuel generalizing handle list with
  | zero => exact absurd enough (Nat.not_le.mpr (List.length_pos_of_mem lineage.mem_self))
  | succ fuel inductionHypothesis =>
      obtain ⟨record, known⟩ := lineage.class?_of_mem lineage.mem_self
      obtain ⟨object, isFound, isClass⟩ := Option.bind_eq_some_iff.mp known
      obtain ⟨classObject, live⟩ := mirrored.exists_class hierarchical isFound isClass
      by_cases exists_own : ∃ singleton, machine.OwnSingleton handle singleton
      · obtain ⟨singleton, own⟩ := exists_own
        exact ⟨singleton, machine, VM.singletonOf_of_own own⟩
      · -- the class above is given, or found by a shorter chain of superclasses
        obtain ⟨parent, between, done⟩ : ∃ parent between,
            VM.singletonParent fuel object machine = .ok parent between := by
          rw [VM.singletonParent, isClass]
          dsimp only
          split
          · exact ⟨_, _, rfl⟩
          · cases inherits : record.superclass with
            | none => exact ⟨_, _, rfl⟩
            | some superclass =>
                have isParent : superclass ∈ record.parents := by
                  simp [ClassRecord.parents, inherits]
                obtain ⟨more, ofParent, -⟩ := lineage.of_parent (parents?_of_class? known) isParent
                have shorter :=
                  lineage.length_lt_of_parent (parents?_of_class? known) isParent ofParent
                exact inductionHypothesis ofParent (by omega)
        have search := hierarchical.searchesParent isFound live (hierarchical.searches fuel)
        have keeps := search.keepsContents hierarchical.wellFormed done
        refine ⟨between.nextSingleton parent, between.withSingleton handle parent, ?_⟩
        rw [VM.singletonOf_of_missing isFound live (not_exists.mp exists_own), VM.bind_of_ok done,
          attachSingleton_eq keeps.wellFormed]

/-- Whoever asks for the singleton class of a class gets one that it has for itself. -/
theorem Mirrored.singletonClass_eq_ok (mirrored : machine.Mirrored)
    (hierarchical : machine.Hierarchical) {record : ClassRecord}
    (known : machine.class? handle = some record) :
    ∃ singleton next, VM.singletonClass (.object handle) machine = .ok singleton next ∧
      next.OwnSingleton handle singleton ∧ next.class? handle = some record := by
  obtain ⟨list, lineage⟩ := hierarchical.lineages handle record known
  obtain ⟨singleton, next, done⟩ :=
    mirrored.singletonOf_eq_ok hierarchical lineage (Nat.le_succ_of_le lineage.length_le)
  have search := hierarchical.searches (machine.heap.cells.size + 1) handle
  have keeps := search.keepsContents hierarchical.wellFormed done
  exact ⟨singleton, next, done, (search.finds singleton next done).own, keeps.class? known⟩

/-! ### Chains of singleton classes -/

/-- Above the singleton class of a class with a superclass is the one of the superclass. -/
theorem Mirrored.of_superclass (mirrored : machine.Mirrored) (graded : machine.Graded)
    {record : ClassRecord} (known : machine.class? handle = some record)
    (inherits : record.superclass = some superclass)
    (own : machine.OwnSingleton handle singleton) :
    ∃ parent, machine.OwnSingleton superclass parent ∧
      machine.HasSuperclass singleton parent := by
  obtain ⟨parent, isAbove, mirrors⟩ := mirrored.mirrors handle singleton own
  have notModule : record.kind ≠ .module := by
    intro isModule
    have admitted := graded.superclasses handle record known
    rw [isModule, inherits] at admitted
    cases admitted
  have ofSuperclass := mirrors record known notModule
  rw [inherits] at ofSuperclass
  exact ⟨parent, ofSuperclass, isAbove⟩

/-- The singleton classes of a class and its superclasses begin the superclass chain of the
first one. -/
theorem Mirrored.singletons (mirrored : machine.Mirrored) (graded : machine.Graded)
    (hierarchical : machine.Hierarchical) (superclasses : machine.Superclasses handle chain)
    (own : machine.OwnSingleton handle singleton) :
    ∃ singletons above, List.Forall₂ machine.OwnSingleton chain singletons ∧
      machine.Superclasses singleton (singletons ++ above) := by
  induction superclasses generalizing singleton with
  | top _ _ =>
      obtain ⟨_, record, -, -, known, -⟩ := id own
      obtain ⟨list, lineage⟩ := hierarchical.lineages singleton record known
      obtain ⟨whole, ofSingleton⟩ := lineage.exists_superclasses
      obtain ⟨above, rfl⟩ : ∃ above, whole = singleton :: above := by
        cases ofSingleton with
        | top _ _ => exact ⟨_, rfl⟩
        | step _ _ _ => exact ⟨_, rfl⟩
      exact ⟨[singleton], above, .cons own .nil, ofSingleton⟩
  | step known inherits _ inductionHypothesis =>
      obtain ⟨parent, ofParent, record, isSingleton, isAbove⟩ :=
        mirrored.of_superclass graded known inherits own
      obtain ⟨singletons, above, owned, ofAbove⟩ := inductionHypothesis ofParent
      exact ⟨singleton :: singletons, above, .cons own owned, .step isSingleton isAbove ofAbove⟩

section Owned

variable {singletons above : List Handle}

/-- What belongs to classes one by one belongs to one of them. -/
theorem exists_own_of_mem (owned : List.Forall₂ machine.OwnSingleton chain singletons)
    (isMember : singleton ∈ singletons) : ∃ handle, machine.OwnSingleton handle singleton := by
  induction owned with
  | nil => cases isMember
  | cons own _ inductionHypothesis =>
      rcases List.mem_cons.mp isMember with rfl | isRest
      · exact ⟨_, own⟩
      · exact inductionHypothesis isRest

/-- The singleton classes that begin a superclass chain stand in the lineage in their order,
whatever modules are included in between. -/
theorem Graded.sublist_of_singletons (graded : machine.Graded)
    (lineage : machine.Lineage singleton list)
    (superclasses : machine.Superclasses singleton (singletons ++ above))
    (owned : List.Forall₂ machine.OwnSingleton chain singletons) : singletons.Sublist list := by
  have all : ∀ other ∈ singletons, machine.isNoModule other = true := by
    intro other isMember
    obtain ⟨_, _, record, -, -, known, isSingleton, -⟩ := exists_own_of_mem owned isMember
    rw [isNoModule_iff, kind?_of_class? known, isSingleton]
    exact fun isModule => nomatch isModule
  have inChain : (singletons.filter machine.isNoModule).Sublist
      ((singletons ++ above).filter machine.isNoModule) :=
    (List.sublist_append_left singletons above).filter _
  rw [List.filter_eq_self.mpr all, ← graded.filter_lineage lineage superclasses] at inChain
  exact inChain.trans List.filter_sublist

end Owned

/-! ### Inherited methods -/

/-- What a list of classes resolves a name to is an entry of one of them. -/
theorem mem_of_resolve (resolved : machine.resolve name list = some found) :
    found.owner ∈ list ∧ machine.ownMethod? name found.owner = some found ∧
      found.method ≠ .undefined := by
  obtain ⟨isFirst, isDefined⟩ := Option.filter_eq_some_iff.mp resolved
  obtain ⟨owner, isMember, entry⟩ := List.exists_of_findSome?_eq_some isFirst
  obtain ⟨record, known, isEntry⟩ := Option.bind_eq_some_iff.mp entry
  obtain ⟨method, stored, rfl⟩ := Option.map_eq_some_iff.mp isEntry
  exact ⟨isMember, entry, by simpa using isDefined⟩

/-- The first entry for a name is what a list resolves it to. -/
theorem resolve_of_first (isMember : owner ∈ list)
    (entry : machine.ownMethod? name owner = some found) (isDefined : found.method ≠ .undefined)
    (first : ∀ other ∈ list.takeWhile (· != owner), machine.ownMethod? name other = none) :
    machine.resolve name list = some found := by
  induction list with
  | nil => cases isMember
  | cons head rest inductionHypothesis =>
      rcases eq_or_ne head owner with rfl | isOther
      · rw [resolve_cons_of_some entry, if_neg isDefined]
      · have isRest : owner ∈ rest := (List.mem_cons.mp isMember).resolve_left isOther.symm
        rw [List.takeWhile_cons_of_pos (by simpa using isOther)] at first
        rw [resolve_cons_of_none (first head List.mem_cons_self)]
        exact inductionHypothesis isRest fun other isMember =>
          first other (List.mem_cons_of_mem _ isMember)

/-- A class with the given ancestors finds what one of them finds, unless an ancestor in front of
the owner has an entry for the name. -/
def InheritsMethods (machine : Machine) (handle : Handle) (list : List Handle)
    (ancestor : Handle) : Prop :=
  ∀ name found next, VM.findMethod ancestor name machine = .ok (some found) next →
    found.owner ∈ list ∧
      ((∀ owner ∈ list.takeWhile (· != found.owner), machine.ownMethod? name owner = none) →
        ∃ last, VM.findMethod handle name machine = .ok (some found) last)

theorem Coherent.inheritsMethods (coherent : machine.Coherent)
    (lineage : machine.Lineage handle list) (isAncestor : parent ∈ list) :
    machine.InheritsMethods handle list parent := by
  intro name found next finds
  obtain ⟨more, ofParent, within⟩ := lineage.of_mem isAncestor
  obtain ⟨_, searched⟩ := coherent.findMethod_eq ofParent name
  obtain ⟨resolved, -⟩ := EStateM.Result.ok.inj (searched.symm.trans finds)
  obtain ⟨isMember, entry, isDefined⟩ := mem_of_resolve resolved
  refine ⟨within isMember, fun first => ?_⟩
  obtain ⟨last, searchedToo⟩ := coherent.findMethod_eq lineage name
  rw [resolve_of_first (within isMember) entry isDefined first] at searchedToo
  exact ⟨last, searchedToo⟩

/-! ### Metaclasses -/

/-- What is right about the singleton class of a class. -/
structure MirrorsClass (machine : Machine) (handle : Handle) (record : ClassRecord)
    (singleton : Handle) : Prop where
  /-- the superclass has a singleton class, which is above the one of the class -/
  parallel : ∀ superclass, record.superclass = some superclass →
    ∃ parent, machine.OwnSingleton superclass parent ∧ machine.HasSuperclass singleton parent
  /-- the class of classes is above the singleton class of a root -/
  root : record.kind ≠ .module → record.superclass = none →
    machine.HasSuperclass singleton (machine.coreClass .classClass)
  /-- the singleton classes of the superclasses are ancestors in the order of the superclasses,
  and their methods are inherited -/
  ancestors : ∃ chain singletons list, machine.Superclasses handle chain ∧
    List.Forall₂ machine.OwnSingleton chain singletons ∧ machine.ListsAncestors singleton list ∧
    singletons.Sublist list ∧ ∀ parent ∈ singletons, machine.InheritsMethods singleton list parent

theorem Mirrored.mirrorsClass (mirrored : machine.Mirrored) (sound : machine.Sound)
    (graded : machine.Graded) {record : ClassRecord} (known : machine.class? handle = some record)
    (own : machine.OwnSingleton handle singleton) :
    machine.MirrorsClass handle record singleton where
  parallel superclass inherits := mirrored.of_superclass graded known inherits own
  root notModule noSuperclass := by
    obtain ⟨parent, isAbove, mirrors⟩ := mirrored.mirrors handle singleton own
    have isClassClass := mirrors record known notModule
    rw [noSuperclass] at isClassClass
    exact isClassClass ▸ isAbove
  ancestors := by
    have hierarchical := sound.coherent.hierarchical
    obtain ⟨_, singletonRecord, -, -, isClass, -⟩ := id own
    obtain ⟨_, ofHandle⟩ := hierarchical.lineages handle record known
    obtain ⟨list, ofSingleton⟩ := hierarchical.lineages singleton singletonRecord isClass
    obtain ⟨chain, superclasses⟩ := ofHandle.exists_superclasses
    obtain ⟨singletons, above, owned, inChain⟩ :=
      mirrored.singletons graded hierarchical superclasses own
    have inOrder := graded.sublist_of_singletons ofSingleton inChain owned
    refine ⟨chain, singletons, list, superclasses, owned, sound.listsAncestors graded ofSingleton,
      inOrder, fun _ isMember => ?_⟩
    exact sound.coherent.inheritsMethods ofSingleton (inOrder.subset isMember)

/-- The singleton class of each class that has one mirrors the class. -/
def MirrorsClasses (machine : Machine) : Prop :=
  ∀ handle record singleton, machine.class? handle = some record →
    machine.OwnSingleton handle singleton → machine.MirrorsClass handle record singleton

theorem mirrorsClasses_of_evolution {config : Config} (evolution : (new config).Evolution machine) :
    machine.MirrorsClasses := by
  have sound := (sound_new config).of_evolution evolution
  have graded := (graded_new config).of_evolution (sound_new config) evolution
  have mirrored := (mirrored_new config).of_evolution (sound_new config) evolution
  exact fun _ _ _ known own => mirrored.mirrorsClass sound graded known own

/-- In every machine that a host reaches, the singleton class of each class mirrors the class:
the singleton classes of the superclasses are there and stand above it, below the class of
classes, and class methods are inherited. It is the same in every machine that changes in a row
lead to, however deep in the calls of a program they are made. -/
theorem metaclasses_mirror_classes {config : Config} {hosts : Array HostMethod}
    (regular : HostsAreRegular hosts) :
    (∀ machine, Reached config hosts machine → machine.MirrorsClasses) ∧
      ∀ machine, (new config).Evolution machine → machine.MirrorsClasses :=
  ⟨fun _ reached => mirrorsClasses_of_evolution (reached.evolution regular),
    fun _ evolution => mirrorsClasses_of_evolution evolution⟩

/-- A host asks a new machine for the singleton class of the class of classes, and gets it. -/
theorem metaclasses_mirror_classes_asked :
    HostsAreRegular #[] ∧ ∃ record singleton machine,
      VM.singletonClass (.object ((new {}).coreClass .classClass)) (new {}) =
        .ok singleton machine ∧
      Reached {} #[] machine ∧ machine.OwnSingleton ((new {}).coreClass .classClass) singleton ∧
      machine.MirrorsClass ((new {}).coreClass .classClass) record singleton := by
  have regular : HostsAreRegular #[] := fun _ isHost => absurd isHost (Array.not_mem_empty _)
  obtain ⟨record, known⟩ := (sound_new {}).classClass
  obtain ⟨singleton, machine, asked, own, stillKnown⟩ :=
    (mirrored_new {}).singletonClass_eq_ok (sound_new {}).coherent.hierarchical known
  have reached : Reached {} #[] machine := by
    have behind := Reached.host 0 (.new : Reached {} #[] (new {}))
      (.action (.singletonClass (.object ((new {}).coreClass .classClass))))
    rwa [VM.after_of_ok asked] at behind
  exact ⟨regular, record, singleton, machine, asked, reached, own,
    (metaclasses_mirror_classes regular).1 machine reached _ record singleton stillKnown own⟩

end Machine

end RiteVm
