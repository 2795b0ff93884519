import RiteVm.Proofs.MethodCache.Lineage

/-!
Contract: the class hierarchy stays free of cycles and of missing classes.

Owns:
- the hierarchy invariant: each class has a lineage, and what the machine takes as the
  class of an object is a class;
- that each kind of change preserves it.

Does not own: the cached ancestor lists and methods.
-/

namespace RiteVm.Machine

/-- A handle leads to a class, or it is the one that leads nowhere. -/
def IsClassOrNull (machine : Machine) (handle : Handle) : Prop :=
  handle = .null ∨ ∃ record, machine.class? handle = some record

/-- Every class has a lineage, and objects and core classes have classes. -/
structure Hierarchical (machine : Machine) : Prop where
  wellFormed : machine.heap.WellFormed
  classes : ∀ handle object, machine.heap.get? handle = some object →
    machine.IsClassOrNull object.classHandle
  coreClasses : ∀ core, machine.IsClassOrNull (machine.coreClass core)
  lineages : ∀ handle record, machine.class? handle = some record →
    ∃ list, machine.Lineage handle list

variable {machine next : Machine} {handle : Handle} {record : ClassRecord}

theorem parents?_of_class? (known : machine.class? handle = some record) :
    machine.parents? handle = some record.parents := by
  rw [parents?, known, Option.map_some]

theorem IsClassOrNull.mono (given : machine.IsClassOrNull handle)
    (kept : ∀ other record, machine.class? other = some record →
      ∃ record, next.class? other = some record) : next.IsClassOrNull handle := by
  rcases given with isNull | ⟨record, known⟩
  · exact .inl isNull
  · exact .inr (kept handle record known)

namespace Hierarchical

theorem ne_null (hierarchical : machine.Hierarchical) (known : machine.class? handle = some record) :
    handle ≠ .null := by
  rintro rfl
  rw [class?, hierarchical.wellFormed.get?_null] at known
  cases known

/-! ### Given classes -/

/-- What a machine takes as the class of an object is a class. -/
theorem of_givesClass (hierarchical : machine.Hierarchical) (given : machine.GivesClass handle) :
    machine.IsClassOrNull handle := by
  cases given with
  | core core => exact hierarchical.coreClasses core
  | ofObject found => exact hierarchical.classes _ _ found
  | known isClass => exact .inr ⟨_, isClass⟩

/-- What a machine takes as a superclass is a class, once it has a class of classes. -/
theorem of_givesSuperclass (hierarchical : machine.Hierarchical)
    (classClass : ∃ record, machine.class? (machine.coreClass .classClass) = some record)
    (given : machine.GivesSuperclass handle) : ∃ record, machine.class? handle = some record := by
  cases given with
  | classClass => exact classClass
  | known isClass => exact ⟨_, isClass⟩
  | ofObject found live =>
      rcases hierarchical.classes _ _ found with isNull | isClass
      · rw [isNull, hierarchical.wellFormed.get?_null] at live
        exact nomatch live
      · exact isClass

/-! ### Changes that keep the parents of all classes -/

theorem exists_class?_of_parents?
    (same : ∀ other, next.parents? other = machine.parents? other)
    (known : machine.class? handle = some record) :
    ∃ record, next.class? handle = some record := by
  have kept := (same handle).trans (parents?_of_class? known)
  obtain ⟨record, isClass, -⟩ := Option.map_eq_some_iff.mp kept
  exact ⟨record, isClass⟩

theorem of_parents? (hierarchical : machine.Hierarchical) (wellFormed : next.heap.WellFormed)
    (same : ∀ other, next.parents? other = machine.parents? other)
    (classes : ∀ handle object, next.heap.get? handle = some object →
      machine.IsClassOrNull object.classHandle)
    (coreClasses : ∀ core, machine.IsClassOrNull (next.coreClass core)) :
    next.Hierarchical where
  wellFormed := wellFormed
  classes handle object found :=
    (classes handle object found).mono fun _ _ => exists_class?_of_parents? same
  coreClasses core := (coreClasses core).mono fun _ _ => exists_class?_of_parents? same
  lineages handle record known := by
    obtain ⟨record, wasKnown⟩ := exists_class?_of_parents? (fun other => (same other).symm) known
    obtain ⟨list, lineage⟩ := hierarchical.lineages handle record wasKnown
    exact ⟨list, lineage.of_parents? fun member _ => same member⟩

/-- Another object under a handle, with a class and the same parents. -/
theorem rewrite (hierarchical : machine.Hierarchical) {change : Object → Object}
    (classes : ∀ object, machine.heap.get? handle = some object →
      machine.IsClassOrNull (change object).classHandle)
    (same : ∀ other, (machine.rewrite handle change).parents? other = machine.parents? other) :
    (machine.rewrite handle change).Hierarchical := by
  refine hierarchical.of_parents? (hierarchical.wellFormed.modify handle change) same ?_
    hierarchical.coreClasses
  intro other object found
  rw [get?_rewrite] at found
  split at found
  · obtain ⟨previous, wasFound, rfl⟩ := Option.map_eq_some_iff.mp found
    exact classes previous wasFound
  · exact hierarchical.classes other object found

theorem parents?_setClass (known : machine.class? handle = some record) (changed : ClassRecord)
    (other : Handle) :
    (machine.setClass handle changed).parents? other =
      if other = handle then some changed.parents else machine.parents? other := by
  rw [parents?, class?_setClass known]
  split
  · rfl
  · rfl

theorem parents?_setClass_of_parents (known : machine.class? handle = some record)
    {changed : ClassRecord} (same : changed.parents = record.parents) (other : Handle) :
    (machine.setClass handle changed).parents? other = machine.parents? other := by
  rw [parents?_setClass known]
  split
  · rename_i isHandle
    rw [isHandle, parents?_of_class? known, same]
  · rfl

theorem setClass (hierarchical : machine.Hierarchical)
    (known : machine.class? handle = some record) {changed : ClassRecord}
    (same : changed.parents = record.parents) : (machine.setClass handle changed).Hierarchical :=
  hierarchical.rewrite (fun object found => hierarchical.classes handle object found)
    (parents?_setClass_of_parents known same)

/-! ### Allocation -/

theorem get?_allocate (wellFormed : machine.heap.WellFormed) (object : Object) (other : Handle) :
    (machine.allocate object).heap.get? other =
      if other = (machine.heap.place object).2 then some object else machine.heap.get? other :=
  wellFormed.get?_place object other

theorem class?_allocate (wellFormed : machine.heap.WellFormed) (object : Object) (other : Handle) :
    (machine.allocate object).class? other =
      if other = (machine.heap.place object).2 then object.class? else machine.class? other := by
  rw [class?, class?, get?_allocate wellFormed]
  split
  · rfl
  · rfl

theorem class?_place_snd (wellFormed : machine.heap.WellFormed) (object : Object) :
    machine.class? (machine.heap.place object).2 = none := by
  rw [class?, wellFormed.get?_place_snd, Option.bind_none]

/-- A new object that is no class changes no class. -/
theorem class?_allocate_plain (wellFormed : machine.heap.WellFormed) {object : Object}
    (plain : object.class? = none) (other : Handle) :
    (machine.allocate object).class? other = machine.class? other := by
  rw [class?_allocate wellFormed]
  split
  · rename_i isNew
    rw [isNew, plain, class?_place_snd wellFormed]
  · rfl

/-- The handle of a new object is none of the earlier ones. -/
theorem ne_place_snd (wellFormed : machine.heap.WellFormed) {object other : Object}
    (found : machine.heap.get? handle = some other) : handle ≠ (machine.heap.place object).2 := by
  rintro rfl
  rw [wellFormed.get?_place_snd] at found
  cases found

theorem get?_allocate_of_some (wellFormed : machine.heap.WellFormed) {object other : Object}
    (found : machine.heap.get? handle = some other) :
    (machine.allocate object).heap.get? handle = some other := by
  rw [get?_allocate wellFormed, if_neg (ne_place_snd wellFormed found), found]

/-- The objects of a machine with one more are this one and the earlier ones. -/
theorem get?_allocate_cases (wellFormed : machine.heap.WellFormed) {object other : Object}
    (found : (machine.allocate object).heap.get? handle = some other) :
    other = object ∨ machine.heap.get? handle = some other := by
  rw [get?_allocate wellFormed] at found
  split at found
  · exact .inl (Option.some.inj found).symm
  · exact .inr found

theorem allocate (hierarchical : machine.Hierarchical) {object : Object}
    (plain : object.class? = none) (given : machine.IsClassOrNull object.classHandle) :
    (machine.allocate object).Hierarchical := by
  have wellFormed := hierarchical.wellFormed
  refine hierarchical.of_parents? (wellFormed.allocate object) ?_ ?_ hierarchical.coreClasses
  · intro other
    rw [parents?, parents?, class?_allocate_plain wellFormed plain]
  · intro handle other found
    rcases get?_allocate_cases wellFormed found with rfl | wasFound
    · exact given
    · exact hierarchical.classes handle other wasFound

/-- A new class whose parents are classes. -/
theorem allocateClass (hierarchical : machine.Hierarchical) {object : Object}
    (isClass : object.class? = some record) (given : machine.IsClassOrNull object.classHandle)
    (parents : ∀ parent ∈ record.parents, ∃ record, machine.class? parent = some record) :
    (machine.allocate object).Hierarchical := by
  have wellFormed := hierarchical.wellFormed
  have isNew := class?_place_snd wellFormed object
  have kept {other : Handle} {record : ClassRecord} (known : machine.class? other = some record) :
      (machine.allocate object).class? other = some record := by
    rw [class?_allocate wellFormed, if_neg, known]
    rintro rfl
    cases known.symm.trans isNew
  have extended {other : Handle} {list : List Handle} (lineage : machine.Lineage other list) :
      (machine.allocate object).Lineage other list := by
    refine lineage.of_parents? fun member isMember => ?_
    obtain ⟨record, known⟩ := lineage.class?_of_mem isMember
    rw [parents?, parents?, known, kept known]
  refine ⟨wellFormed.allocate object, ?_, ?_, ?_⟩
  · intro handle other found
    have given : machine.IsClassOrNull other.classHandle := by
      rcases get?_allocate_cases wellFormed found with rfl | wasFound
      · exact given
      · exact hierarchical.classes handle other wasFound
    exact given.mono fun _ record known => ⟨record, kept known⟩
  · exact fun core => (hierarchical.coreClasses core).mono fun _ record known => ⟨record, kept known⟩
  · intro other otherRecord known
    rw [class?_allocate wellFormed] at known
    split at known
    · rename_i isHandle
      obtain rfl := Option.some.inj (isClass.symm.trans known)
      have isKnown : (machine.allocate object).class? other = some record := by
        rw [class?_allocate wellFormed, if_pos isHandle, isClass]
      refine Lineage.exists_of_parents (parents?_of_class? isKnown) fun parent isParent => ?_
      obtain ⟨parentRecord, wasKnown⟩ := parents parent isParent
      obtain ⟨list, lineage⟩ := hierarchical.lineages parent parentRecord wasKnown
      exact ⟨list, extended lineage⟩
    · obtain ⟨list, lineage⟩ := hierarchical.lineages other otherRecord known
      exact ⟨list, extended lineage⟩

/-! ### Inclusion -/

/-- One more parent that does not have the class among its ancestors. -/
theorem addParent (hierarchical : machine.Hierarchical) {changed : ClassRecord} {parent : Handle}
    {list : List Handle} (known : machine.class? handle = some record)
    (lineage : machine.Lineage parent list) (outside : handle ∉ list)
    (parents : ∀ other ∈ changed.parents, other = parent ∨ other ∈ record.parents) :
    (machine.setClass handle changed).Hierarchical := by
  have kept (other : Handle) (otherRecord : ClassRecord)
      (wasKnown : machine.class? other = some otherRecord) :
      ∃ record, (machine.setClass handle changed).class? other = some record := by
    rw [class?_setClass known]
    split
    · exact ⟨changed, rfl⟩
    · exact ⟨otherRecord, wasKnown⟩
  have ofParent : (machine.setClass handle changed).Lineage parent list := by
    refine lineage.of_parents? fun member isMember => ?_
    rw [parents?_setClass known, if_neg]
    rintro rfl
    exact outside isMember
  have again {other : Handle} {otherList : List Handle}
      (wasLineage : machine.Lineage other otherList) :
      ∃ list, (machine.setClass handle changed).Lineage other list := by
    induction wasLineage with
    | @intro other otherParents lineageOf wasKnown lineages inductionHypothesis =>
        by_cases isHandle : other = handle
        · subst isHandle
          obtain rfl : record.parents = otherParents :=
            Option.some.inj ((parents?_of_class? known).symm.trans wasKnown)
          have isKnown := parents?_setClass known changed other
          rw [if_pos rfl] at isKnown
          refine Lineage.exists_of_parents isKnown fun next isParent => ?_
          rcases parents next isParent with rfl | wasParent
          · exact ⟨list, ofParent⟩
          · exact inductionHypothesis next wasParent
        · refine Lineage.exists_of_parents ?_ inductionHypothesis
          rw [parents?_setClass known, if_neg isHandle, wasKnown]
  refine ⟨hierarchical.wellFormed.modify handle _, ?_, ?_, ?_⟩
  · intro other object found
    have given : machine.IsClassOrNull object.classHandle := by
      rw [Machine.setClass, get?_rewrite] at found
      split at found
      · obtain ⟨previous, wasFound, rfl⟩ := Option.map_eq_some_iff.mp found
        exact hierarchical.classes _ previous wasFound
      · exact hierarchical.classes other object found
    exact given.mono kept
  · exact fun core => (hierarchical.coreClasses core).mono kept
  · intro other otherRecord isKnown
    have wasKnown : ∃ record, machine.class? other = some record := by
      rw [class?_setClass known] at isKnown
      split at isKnown
      · rename_i isHandle
        exact ⟨record, isHandle ▸ known⟩
      · exact ⟨otherRecord, isKnown⟩
    obtain ⟨previous, wasKnown⟩ := wasKnown
    obtain ⟨list, wasLineage⟩ := hierarchical.lineages other previous wasKnown
    exact again wasLineage

/-! ### Collection -/

/-- What a class that survives refers to is reachable. -/
theorem reachable_of_class?_collect (survived : machine.collect.class? handle = some record)
    {node : Node} (reference : record.RefersTo node) : machine.Reachable node := by
  obtain ⟨object, found, isClass⟩ := Option.bind_eq_some_iff.mp survived
  obtain ⟨reachable, wasFound⟩ := reachable_of_get?_collect found
  refine .step reachable (.object wasFound (.content ?_))
  rw [Object.class?] at isClass
  split at isClass
  · rename_i stored isStored
    obtain rfl := Option.some.inj isClass
    rw [isStored]
    exact .classOrModule reference
  · cases isClass

/-- A class that survives keeps its lineage. -/
theorem lineage_collect {list : List Handle} (lineage : machine.Lineage handle list)
    (survived : machine.collect.class? handle = some record) :
    machine.collect.Lineage handle list := by
  induction lineage generalizing record with
  | @intro handle parents lineageOf known lineages inductionHypothesis =>
      obtain ⟨object, found, isClass⟩ := Option.bind_eq_some_iff.mp survived
      have wasKnown : machine.class? handle = some record := by
        rw [class?, (reachable_of_get?_collect found).2, Option.bind_some, isClass]
      obtain rfl : record.parents = parents :=
        Option.some.inj ((parents?_of_class? wasKnown).symm.trans known)
      refine .intro lineageOf (parents?_of_class? survived) fun parent isParent => ?_
      have reference : record.RefersTo (.object parent) := by
        rcases List.mem_append.mp isParent with isIncluded | isSuperclass
        · exact .included (by simpa using isIncluded)
        · exact .superclass (by simpa using isSuperclass)
      have parentReachable := reachable_of_class?_collect survived reference
      obtain ⟨parentRecord, isParentClass⟩ := (lineages parent isParent).class?_of_mem
        (lineages parent isParent).mem_self
      have survivedToo : machine.collect.class? parent = some parentRecord := by
        rw [class?, get?_collect_of_reachable parentReachable]
        exact isParentClass
      exact inductionHypothesis parent isParent survivedToo

/-- A core class of the machine is a root. -/
theorem coreClass_cases (machine : Machine) (core : CoreClass) :
    machine.coreClass core = .null ∨ machine.Reachable (.object (machine.coreClass core)) := by
  rw [coreClass]
  cases stored : machine.coreClasses.get? core with
  | none => exact .inl rfl
  | some handle => exact .inr (.root (.coreClass (Table.mem_entries_of_get? stored)))

theorem collect (hierarchical : machine.Hierarchical) : machine.collect.Hierarchical := by
  have kept {handle : Handle} (reachable : machine.Reachable (.object handle))
      (given : machine.IsClassOrNull handle) : machine.collect.IsClassOrNull handle := by
    rcases given with isNull | ⟨record, known⟩
    · exact .inl isNull
    · refine .inr ⟨record, ?_⟩
      rw [class?, get?_collect_of_reachable reachable]
      exact known
  refine ⟨wellFormed_collect hierarchical.wellFormed, ?_, ?_, ?_⟩
  · intro handle object found
    obtain ⟨reachable, wasFound⟩ := reachable_of_get?_collect found
    exact kept (.step reachable (.object wasFound .class)) (hierarchical.classes _ _ wasFound)
  · intro core
    rw [coreClass_collect]
    rcases coreClass_cases machine core with isNull | reachable
    · exact .inl isNull
    · exact kept reachable (hierarchical.coreClasses core)
  · intro handle record known
    obtain ⟨object, found, isClass⟩ := Option.bind_eq_some_iff.mp known
    have wasKnown : machine.class? handle = some record := by
      rw [class?, (reachable_of_get?_collect found).2, Option.bind_some, isClass]
    obtain ⟨list, lineage⟩ := hierarchical.lineages handle record wasKnown
    exact ⟨list, lineage_collect lineage known⟩

end Hierarchical

end RiteVm.Machine
