import RiteVm.Proofs.ClassGraph.Kinds

/-!
Contract: singleton classes stand to each other as their classes do.

Owns:
- mirrored machines, in which the singleton class of a class inherits from that of the
  superclass, and from the class of classes where there is no superclass;
- that each kind of change leads from a sound and mirrored machine to a mirrored one, and that
  new machines are mirrored.

Does not own: what follows for ancestor lists and for methods.
-/

namespace RiteVm

/-- What kind of class a class is, its superclass, and the object it is attached to. -/
def ClassRecord.outline (record : ClassRecord) : ClassKind × Option Handle × Option Handle :=
  (record.kind, record.superclass, record.attached)

namespace Machine

/-- The class of an object and, if it is a class itself, its outline. -/
def outline? (machine : Machine) (handle : Handle) :
    Option (Handle × Option (ClassKind × Option Handle × Option Handle)) :=
  (machine.heap.get? handle).map fun object =>
    (object.classHandle, object.class?.map ClassRecord.outline)

/-- The superclass of a class. -/
def HasSuperclass (machine : Machine) (handle superclass : Handle) : Prop :=
  ∃ record, machine.class? handle = some record ∧ record.superclass = some superclass

/-- The class above the singleton class of a class is the singleton class of the superclass. -/
structure Mirrored (machine : Machine) : Prop where
  /-- what a singleton class is attached to is alive, so that no new object is taken for it -/
  attached : ∀ handle record owner, machine.class? handle = some record →
    record.attached = some owner → ∃ object, machine.heap.get? owner = some object
  mirrors : ∀ handle singleton, machine.OwnSingleton handle singleton →
    ∃ parent, machine.HasSuperclass singleton parent ∧ machine.MirrorsAbove handle parent
  /-- classes and modules have a class, with which the search for their singleton class starts -/
  housed : ∀ handle object, machine.heap.get? handle = some object → object.class? ≠ none →
    object.classHandle ≠ .null
  moduleClass : machine.coreClass .module ≠ .null

variable {machine next : Machine} {handle singleton parent superclass : Handle}
  {object : Object} {record : ClassRecord}

/-! ### Outlines -/

theorem exists_get?_of_outline? (same : next.outline? handle = machine.outline? handle)
    (found : next.heap.get? handle = some object) :
    ∃ previous, machine.heap.get? handle = some previous ∧
      previous.classHandle = object.classHandle ∧
      previous.class?.map ClassRecord.outline = object.class?.map ClassRecord.outline := by
  rw [outline?, found] at same
  obtain ⟨previous, wasFound, isSame⟩ := Option.map_eq_some_iff.mp same.symm
  exact ⟨previous, wasFound, Prod.mk.inj isSame⟩

theorem exists_class?_of_outline? (same : next.outline? handle = machine.outline? handle)
    (known : next.class? handle = some record) :
    ∃ previous, machine.class? handle = some previous ∧ previous.outline = record.outline := by
  obtain ⟨object, found, isClass⟩ := Option.bind_eq_some_iff.mp known
  obtain ⟨previous, wasFound, -, sameOutline⟩ := exists_get?_of_outline? same found
  rw [isClass] at sameOutline
  obtain ⟨previousRecord, wasClass, isSame⟩ := Option.map_eq_some_iff.mp sameOutline
  exact ⟨previousRecord, Option.bind_eq_some_iff.mpr ⟨previous, wasFound, wasClass⟩, isSame⟩

theorem outline_inj {previous : ClassRecord} (same : previous.outline = record.outline) :
    previous.kind = record.kind ∧ previous.superclass = record.superclass ∧
      previous.attached = record.attached := by
  simpa only [ClassRecord.outline, Prod.mk.injEq] using same

theorem OwnSingleton.of_outline? (own : machine.OwnSingleton handle singleton)
    (sameObject : machine.outline? handle = next.outline? handle)
    (sameClass : machine.outline? singleton = next.outline? singleton) :
    next.OwnSingleton handle singleton := by
  obtain ⟨object, record, found, rfl, known, isSingleton, isAttached⟩ := own
  obtain ⟨laterObject, isFound, isClass, -⟩ := exists_get?_of_outline? sameObject found
  obtain ⟨later, isKnown, same⟩ := exists_class?_of_outline? sameClass known
  obtain ⟨sameKind, -, sameOwner⟩ := outline_inj same
  exact ⟨laterObject, later, isFound, isClass, isKnown, sameKind.trans isSingleton,
    sameOwner.trans isAttached⟩

theorem HasSuperclass.of_outline? (hasSuperclass : machine.HasSuperclass handle superclass)
    (same : machine.outline? handle = next.outline? handle) :
    next.HasSuperclass handle superclass := by
  obtain ⟨record, known, inherits⟩ := hasSuperclass
  obtain ⟨later, isKnown, sameOutline⟩ := exists_class?_of_outline? same known
  exact ⟨later, isKnown, (outline_inj sameOutline).2.1.trans inherits⟩

/-- A class that keeps its superclass is mirrored as long as the superclass keeps its singleton
class. -/
theorem MirrorsAbove.mono (mirrors : machine.MirrorsAbove handle parent)
    (classClass : next.coreClass .classClass = machine.coreClass .classClass)
    (classes : ∀ record, next.class? handle = some record →
      ∃ previous, machine.class? handle = some previous ∧ previous.outline = record.outline)
    (owns : ∀ record superclass, next.class? handle = some record →
      record.superclass = some superclass → machine.OwnSingleton superclass parent →
      next.OwnSingleton superclass parent) : next.MirrorsAbove handle parent := by
  intro record known notModule
  obtain ⟨previous, wasKnown, same⟩ := classes record known
  obtain ⟨sameKind, sameSuperclass, -⟩ := outline_inj same
  have mirrored := mirrors previous wasKnown (sameKind ▸ notModule)
  rw [sameSuperclass] at mirrored
  cases inherits : record.superclass with
  | none =>
      rw [inherits] at mirrored
      exact mirrored.trans classClass.symm
  | some superclass =>
      rw [inherits] at mirrored
      exact owns record superclass known inherits mirrored

namespace Mirrored

/-! ### Preservation -/

/-- Nothing that counts for singleton classes has changed. -/
theorem of_outline? (mirrored : machine.Mirrored)
    (same : ∀ handle, next.outline? handle = machine.outline? handle)
    (classClass : next.coreClass .classClass = machine.coreClass .classClass)
    (moduleClass : next.coreClass .module ≠ .null) : next.Mirrored where
  attached handle record owner known isAttached := by
    obtain ⟨previous, wasKnown, sameOutline⟩ := exists_class?_of_outline? (same handle) known
    obtain ⟨object, found⟩ := mirrored.attached handle previous owner wasKnown
      ((outline_inj sameOutline).2.2.trans isAttached)
    obtain ⟨laterObject, isFound, -⟩ := exists_get?_of_outline? (same owner).symm found
    exact ⟨laterObject, isFound⟩
  mirrors handle singleton own := by
    have owned := own.of_outline? (same handle) (same singleton)
    obtain ⟨parent, hasSuperclass, mirrors⟩ := mirrored.mirrors handle singleton owned
    refine ⟨parent, hasSuperclass.of_outline? (same singleton).symm, ?_⟩
    refine mirrors.mono classClass (fun _ => exists_class?_of_outline? (same handle)) ?_
    exact fun _ superclass _ _ owned => owned.of_outline? (same superclass).symm (same parent).symm
  housed handle object found isClass := by
    obtain ⟨previous, wasFound, sameClass, sameOutline⟩ :=
      exists_get?_of_outline? (same handle) found
    rw [← sameClass]
    refine mirrored.housed handle previous wasFound fun noClass => isClass ?_
    rw [noClass] at sameOutline
    exact Option.map_eq_none_iff.mp sameOutline.symm
  moduleClass := moduleClass

theorem outline?_rewrite {change : Object → Object}
    (similar : ∀ object, machine.heap.get? handle = some object →
      (change object).classHandle = object.classHandle ∧
        (change object).class?.map ClassRecord.outline = object.class?.map ClassRecord.outline)
    (other : Handle) : (machine.rewrite handle change).outline? other = machine.outline? other := by
  rw [outline?, outline?, get?_rewrite]
  split
  · rename_i isHandle
    rw [isHandle]
    cases found : machine.heap.get? handle with
    | none => rfl
    | some object =>
        obtain ⟨sameClass, sameOutline⟩ := similar object found
        rw [Option.map_some, Option.map_some, Option.map_some, sameClass, sameOutline]
  · rfl

theorem outline?_setClass (known : machine.class? handle = some record) {changed : ClassRecord}
    (same : changed.outline = record.outline) (other : Handle) :
    (machine.setClass handle changed).outline? other = machine.outline? other := by
  refine @outline?_rewrite _ _ (fun object => { object with content := .classOrModule changed })
    (fun object found => ⟨rfl, ?_⟩) other
  rw [class?, found, Option.bind_some] at known
  rw [known, Option.map_some, ← same]
  rfl

theorem setClass (mirrored : machine.Mirrored) (known : machine.class? handle = some record)
    {changed : ClassRecord} (same : changed.outline = record.outline) :
    (machine.setClass handle changed).Mirrored :=
  mirrored.of_outline? (outline?_setClass known same) rfl mirrored.moduleClass

theorem bump (mirrored : machine.Mirrored) (methods hierarchy : Nat) :
    (machine.bump methods hierarchy).Mirrored :=
  mirrored.of_outline? (fun _ => rfl) rfl mirrored.moduleClass

/-- One more object. If it is a class, it is attached to nothing yet. -/
theorem allocate (mirrored : machine.Mirrored) (wellFormed : machine.heap.WellFormed)
    (unattached : ∀ record, object.class? = some record → record.attached = none)
    (housed : object.class? ≠ none → object.classHandle ≠ .null) :
    (machine.allocate object).Mirrored := by
  have kept {other : Handle} {otherObject : Object}
      (found : machine.heap.get? other = some otherObject) :
      (machine.allocate object).outline? other = machine.outline? other := by
    rw [outline?, outline?, Hierarchical.get?_allocate_of_some wellFormed found, found]
  have attached (other : Handle) (record : ClassRecord) (owner : Handle)
      (known : (machine.allocate object).class? other = some record)
      (isAttached : record.attached = some owner) :
      machine.class? other = some record ∧ ∃ object, machine.heap.get? owner = some object := by
    rw [Hierarchical.class?_allocate wellFormed] at known
    split at known
    · rw [unattached record known] at isAttached
      cases isAttached
    · exact ⟨known, mirrored.attached other record owner known isAttached⟩
  have keptClass {other : Handle} {record : ClassRecord}
      (known : machine.class? other = some record) :
      (machine.allocate object).outline? other = machine.outline? other := by
    obtain ⟨_, found, -⟩ := Option.bind_eq_some_iff.mp known
    exact kept found
  have keeps {other singleton : Handle} (own : machine.OwnSingleton other singleton) :
      (machine.allocate object).OwnSingleton other singleton := by
    obtain ⟨_, _, found, -, known, -⟩ := id own
    exact own.of_outline? (kept found).symm (keptClass known).symm
  refine ⟨fun other record owner known isAttached => ?_, fun other singleton own => ?_,
    fun other otherObject found isClass => ?_, mirrored.moduleClass⟩
  · obtain ⟨_, _, found⟩ := attached other record owner known isAttached
    exact ⟨_, Hierarchical.get?_allocate_of_some wellFormed found⟩
  · obtain ⟨_, record, -, -, known, -, isAttached⟩ := id own
    obtain ⟨wasKnown, _, found⟩ := attached singleton record other known isAttached
    obtain ⟨parent, hasSuperclass, mirrors⟩ := mirrored.mirrors other singleton
      (own.of_outline? (kept found) (keptClass wasKnown))
    refine ⟨parent, hasSuperclass.of_outline? (keptClass wasKnown).symm,
      mirrors.mono rfl (fun _ isKnown => ?_) ?_⟩
    · exact exists_class?_of_outline? (kept found) isKnown
    · exact fun _ _ _ _ owned => keeps owned
  · rcases Hierarchical.get?_allocate_cases wellFormed found with rfl | wasFound
    · exact housed isClass
    · exact mirrored.housed other otherObject wasFound isClass

end Mirrored

section WithSingleton

variable {owner : Handle}

/-- Singleton classes that there were are kept. -/
theorem OwnSingleton.withSingleton (own : machine.OwnSingleton owner singleton)
    (wellFormed : machine.heap.WellFormed)
    (missing : ∀ singleton, ¬ machine.OwnSingleton handle singleton) (superclass : Handle) :
    (machine.withSingleton handle superclass).OwnSingleton owner singleton := by
  have isOther : owner ≠ handle := fun isHandle => missing singleton (isHandle ▸ own)
  obtain ⟨object, record, found, isClass, known, isSingleton, isAttached⟩ := own
  exact ⟨object, record, get?_withSingleton wellFormed isOther found, isClass,
    (keepsContents_withSingleton wellFormed handle superclass).class? known, isSingleton,
    isAttached⟩

/-- The record of an earlier object is the one that it had. -/
theorem class?_of_class?_withSingleton (wellFormed : machine.heap.WellFormed)
    (found : machine.heap.get? owner = some object)
    (known : (machine.withSingleton handle superclass).class? owner = some record) :
    machine.class? owner = some record := by
  rwa [class?_withSingleton wellFormed, if_neg (ne_nextSingleton wellFormed found superclass)]
    at known

theorem MirrorsAbove.withSingleton (above : machine.MirrorsAbove owner parent)
    (wellFormed : machine.heap.WellFormed) (found : machine.heap.get? owner = some object)
    (missing : ∀ singleton, ¬ machine.OwnSingleton handle singleton) (superclass : Handle) :
    (machine.withSingleton handle superclass).MirrorsAbove owner parent :=
  above.mono rfl (fun _ known => ⟨_, class?_of_class?_withSingleton wellFormed found known, rfl⟩)
    fun _ _ _ _ own => own.withSingleton wellFormed missing superclass

namespace Mirrored

/-- A singleton class is the new one of the object, or it was there before. -/
theorem ownSingleton_cases (mirrored : machine.Mirrored) (wellFormed : machine.heap.WellFormed)
    (found : machine.heap.get? handle = some object)
    (own : (machine.withSingleton handle superclass).OwnSingleton owner singleton) :
    (owner = handle ∧ singleton = machine.nextSingleton superclass) ∨
      machine.OwnSingleton owner singleton := by
  obtain ⟨ownerObject, record, isFound, rfl, known, isSingleton, isAttached⟩ := own
  rcases eq_or_ne owner handle with rfl | isOther
  · rw [get?_withSingleton_self wellFormed found] at isFound
    obtain rfl := Option.some.inj isFound
    exact .inl ⟨rfl, rfl⟩
  · rw [class?_withSingleton wellFormed] at known
    split at known
    · obtain rfl := Option.some.inj known
      exact absurd (Option.some.inj isAttached).symm isOther
    · obtain ⟨previous, wasFound⟩ := mirrored.attached _ record owner known isAttached
      rw [get?_withSingleton wellFormed isOther wasFound] at isFound
      obtain rfl := Option.some.inj isFound
      exact .inr ⟨previous, record, wasFound, rfl, known, isSingleton, isAttached⟩

/-- A new singleton class below the one that belongs above it. -/
theorem withSingleton (mirrored : machine.Mirrored) (wellFormed : machine.heap.WellFormed)
    (classClass : machine.coreClass .classClass ≠ .null)
    (found : machine.heap.get? handle = some object)
    (missing : ∀ singleton, ¬ machine.OwnSingleton handle singleton)
    (above : machine.MirrorsAbove handle superclass) :
    (machine.withSingleton handle superclass).Mirrored := by
  have keeps := keepsContents_withSingleton wellFormed handle superclass
  have isNew := get?_withSingleton_new wellFormed found superclass
  refine ⟨fun other record owner known isAttached => ?_, fun owner singleton own => ?_,
    fun other otherObject isFound isClass => ?_, mirrored.moduleClass⟩
  · obtain ⟨ownerObject, isFound⟩ : ∃ object, machine.heap.get? owner = some object := by
      rw [class?_withSingleton wellFormed] at known
      split at known
      · obtain rfl := Option.some.inj known
        exact ⟨object, Option.some.inj isAttached ▸ found⟩
      · exact mirrored.attached other record owner known isAttached
    obtain ⟨_, isKept⟩ := keeps.objects owner ownerObject isFound
    exact ⟨_, isKept⟩
  · rcases mirrored.ownSingleton_cases wellFormed found own with ⟨rfl, rfl⟩ | owned
    · refine ⟨superclass, ⟨attachedRecord owner superclass, ?_, rfl⟩,
        above.withSingleton wellFormed found missing superclass⟩
      rw [class?_withSingleton wellFormed, if_pos rfl]
    · obtain ⟨parent, ⟨record, known, inherits⟩, mirrors⟩ := mirrored.mirrors owner singleton owned
      obtain ⟨ownerObject, _, isFound, -⟩ := owned
      exact ⟨parent, ⟨record, keeps.class? known, inherits⟩,
        mirrors.withSingleton wellFormed isFound missing superclass⟩
  · rcases eq_or_ne other handle with rfl | isOther
    · rw [get?_withSingleton_self wellFormed found] at isFound
      obtain rfl := Option.some.inj isFound
      intro isNull
      rw [show machine.nextSingleton superclass = .null from isNull,
        keeps.wellFormed.get?_null] at isNew
      cases isNew
    · rcases eq_or_ne other (machine.nextSingleton superclass) with rfl | isOld
      · rw [isNew] at isFound
        obtain rfl := Option.some.inj isFound
        exact classClass
      · rw [get?_withSingleton_of_ne wellFormed isOther isOld] at isFound
        exact mirrored.housed other otherObject isFound isClass

end Mirrored

end WithSingleton

namespace Mirrored

theorem of_attachments (mirrored : machine.Mirrored) (sound : machine.Sound)
    (attachments : machine.Attachments next) : next.Mirrored := by
  induction attachments with
  | refl => exact mirrored
  | tail before attaches inductionHypothesis =>
      have soundBefore := sound.of_attachments before
      obtain ⟨found, missing, -, above⟩ := attaches
      exact inductionHypothesis.withSingleton soundBefore.coherent.hierarchical.wellFormed
        soundBefore.classClass_ne_null found missing above

end Mirrored

/-- An object that survives keeps its singleton class. -/
theorem OwnSingleton.collect (own : machine.OwnSingleton handle singleton)
    (reachable : machine.Reachable (.object handle)) :
    machine.collect.OwnSingleton handle singleton := by
  obtain ⟨object, record, found, rfl, known, isSingleton, isAttached⟩ := own
  have reachableToo : machine.Reachable (.object object.classHandle) :=
    .step reachable (.object found .class)
  refine ⟨object, record, (get?_collect_of_reachable reachable).trans found, rfl, ?_, isSingleton,
    isAttached⟩
  rw [class?, get?_collect_of_reachable reachableToo]
  exact known

namespace Mirrored

theorem collect (mirrored : machine.Mirrored) : machine.collect.Mirrored := by
  refine ⟨fun handle record owner survived isAttached => ?_, fun handle singleton own => ?_,
    fun handle object survived isClass => ?_, ?_⟩
  · obtain ⟨object, found⟩ := mirrored.attached handle record owner
      (class?_of_class?_collect survived) isAttached
    have reachable := Hierarchical.reachable_of_class?_collect survived (.attached isAttached)
    exact ⟨object, (get?_collect_of_reachable reachable).trans found⟩
  · obtain ⟨object, record, survived, isClass, known, isSingleton, isAttached⟩ := own
    have wasKnown := class?_of_class?_collect known
    obtain ⟨parent, ⟨previous, isPrevious, inherits⟩, mirrors⟩ := mirrored.mirrors handle singleton
      ⟨object, record, (reachable_of_get?_collect survived).2, isClass, wasKnown, isSingleton,
        isAttached⟩
    obtain rfl := Option.some.inj (wasKnown.symm.trans isPrevious)
    refine ⟨parent, ⟨record, known, inherits⟩, mirrors.mono (coreClass_collect _)
      (fun _ survived => ⟨_, class?_of_class?_collect survived, rfl⟩) ?_⟩
    -- a superclass survives with the class, and its singleton class with the superclass
    intro ofClass superclass isClass isSuperclass own
    exact own.collect (Hierarchical.reachable_of_class?_collect isClass (.superclass isSuperclass))
  · exact mirrored.housed handle object (reachable_of_get?_collect survived).2 isClass
  · rw [coreClass_collect]
    exact mirrored.moduleClass

/-- Each kind of change leads from a sound and mirrored machine to a mirrored one. -/
theorem of_change (mirrored : machine.Mirrored) (sound : machine.Sound)
    (change : machine.Change next) : next.Mirrored := by
  have hierarchical := sound.coherent.hierarchical
  have wellFormed := hierarchical.wellFormed
  cases change with
  | outside cells _ coreClasses _ =>
      refine mirrored.of_outline? (fun handle => ?_) ?_ ?_
      · rw [outline?, outline?, Heap.get?, Heap.get?, cells]
      · rw [coreClass, coreClasses, coreClass]
      · rw [coreClass, coreClasses]
        exact mirrored.moduleClass
  | allocate plain _ =>
      refine mirrored.allocate wellFormed (fun _ isClass => ?_) fun isClass => absurd plain isClass
      cases plain.symm.trans isClass
  | allocateClass _ _ =>
      refine mirrored.allocate wellFormed (fun record isClass => ?_) fun _ => ?_
      · obtain rfl := Option.some.inj isClass
        rfl
      · dsimp only
        split
        · exact mirrored.moduleClass
        · exact sound.classClass_ne_null
  | rewrite similar =>
      refine mirrored.of_outline? (outline?_rewrite fun object found => ?_) rfl mirrored.moduleClass
      obtain ⟨sameClass, sameRecord⟩ := similar object found
      exact ⟨sameClass, congrArg _ sameRecord⟩
  | @attachSingletons fuel handle =>
      exact mirrored.of_attachments sound (hierarchical.searches fuel handle).attachments
  | setInstances known => exact mirrored.setClass known rfl
  | setConstant known => exact mirrored.setClass known rfl
  | setClassVar known => exact mirrored.setClass known rfl
  | nameClass known _ => exact mirrored.setClass known rfl
  | defineMethod known => exact .bump (.setClass mirrored known (by rfl)) 1 0
  | removeMethod known => exact .bump (.setClass mirrored known (by rfl)) 1 0
  | discardMethod known _ => exact mirrored.setClass known rfl
  | «include» known _ _ _ => exact .bump (.setClass mirrored known (by rfl)) 1 1
  | invalidate => exact mirrored.bump _ _
  | @cacheAncestors fuel handle =>
      have sameCore := @VM.kept_ancestorsWithin _ Machine.coreClasses (fun _ _ _ _ _ => rfl) fuel
        handle machine
      refine mirrored.of_outline? (fun other => ?_) ?_ ?_
      · exact @VM.kept_ancestorsWithin _ (·.outline? other)
          (fun _ _ _ _ known => outline?_setClass known (by rfl) other) fuel handle machine
      · rw [coreClass, sameCore, coreClass]
      · rw [coreClass, sameCore]
        exact mirrored.moduleClass
  | cacheMethod _ _ => exact mirrored.of_outline? (fun _ => rfl) rfl mirrored.moduleClass
  | @setCoreClass core handle record known isOther =>
      refine mirrored.of_outline? (fun _ => rfl) ?_ ?_
      · rw [coreClass, Table.get?_insert, if_neg isOther]
        rfl
      · rw [coreClass, Table.get?_insert]
        split
        · exact hierarchical.ne_null known
        · exact mirrored.moduleClass
  | collect => exact mirrored.collect

/-- An evolution leads from a sound and mirrored machine to such a one. -/
theorem of_evolution (mirrored : machine.Mirrored) (sound : machine.Sound)
    (evolution : machine.Evolution next) : next.Mirrored := by
  induction evolution with
  | refl => exact mirrored
  | tail before change inductionHypothesis =>
      exact inductionHypothesis.of_change (sound.of_evolution before) change

end Mirrored

/-! ### New machines -/

theorem of_allocateClass (wellFormed : machine.heap.WellFormed) {kind : ClassKind}
    {superclass : Option Handle} {instances : InstanceKind}
    (created : VM.allocateClass kind superclass instances machine = .ok handle next) :
    next.heap.WellFormed ∧ handle ≠ .null ∧ ∀ other object, next.heap.get? other = some object →
      other = handle ∨ ∃ object, machine.heap.get? other = some object := by
  let object : Object :=
    { classHandle := machine.coreClass (if kind = .module then .module else .classClass)
      content := .classOrModule { kind, superclass, instances } }
  have allocated : VM.allocateClass kind superclass instances machine =
    .ok (machine.heap.place object).2 (machine.allocate object) := rfl
  obtain ⟨rfl, rfl⟩ := EStateM.Result.ok.inj (allocated.symm.trans created)
  have placed := Hierarchical.get?_allocate wellFormed object
  have isWellFormed : (machine.allocate object).heap.WellFormed := wellFormed.allocate object
  refine ⟨isWellFormed, fun isNull => ?_, fun other otherObject found => ?_⟩
  · have isNew := placed (machine.heap.place object).2
    rw [if_pos rfl, isNull, isWellFormed.get?_null] at isNew
    cases isNew
  · rw [placed] at found
    split at found
    · exact .inl ‹_›
    · exact .inr ⟨otherObject, found⟩

/-- Objects are given a class one after the other. -/
theorem classHandle_of_reclass {handles : List Handle} {classHandle : Handle}
    (others : ∀ other object, machine.heap.get? other = some object →
      other ∈ handles ∨ object.classHandle = classHandle)
    (changed : handles.forM (fun handle =>
      VM.modifyObject handle fun object => { object with classHandle }) machine = .ok ⟨⟩ next) :
    ∀ other object, next.heap.get? other = some object → object.classHandle = classHandle := by
  induction handles generalizing machine with
  | nil =>
      cases changed
      exact fun other object found => (others other object found).resolve_left (List.not_mem_nil)
  | cons first rest inductionHypothesis =>
      obtain ⟨_, between, isFirst, isRest⟩ := VM.bind_eq_ok_iff.mp
        (show (VM.modifyObject first _ >>= fun _ => rest.forM _) machine = _ from changed)
      obtain rfl := VM.modifyObject_eq_ok_iff.mp isFirst
      refine inductionHypothesis (fun other object found => ?_) isRest
      rw [get?_rewrite] at found
      split at found
      · obtain ⟨_, -, rfl⟩ := Option.map_eq_some_iff.mp found
        exact .inr rfl
      · rename_i isOther
        exact (others other object found).imp_left fun isMember =>
          (List.mem_cons.mp isMember).resolve_left isOther

theorem Mirrored.of_bare (bare : machine.Bare)
    (housed : ∀ handle object, machine.heap.get? handle = some object →
      object.classHandle ≠ .null)
    (moduleClass : machine.coreClass .module ≠ .null) : machine.Mirrored := by
  refine ⟨fun handle record owner known isAttached => ?_, fun handle singleton own => ?_,
    fun handle object found _ => housed handle object found, moduleClass⟩
  · rw [(bare.records handle record known).2.2] at isAttached
    cases isAttached
  · obtain ⟨_, record, -, -, known, isSingleton, -⟩ := own
    cases isSingleton.symm.trans (bare.records singleton record known).1

/-- The first four classes have no singleton classes, and all have a class. -/
theorem Mirrored.of_bootHierarchy {config : Config}
    (started : VM.bootHierarchy (.empty config) = .ok ⟨⟩ machine) : machine.Mirrored := by
  have bare := Bare.of_bootHierarchy started
  rw [VM.bootHierarchy] at started
  obtain ⟨basic, first, newBasic, started⟩ := VM.bind_eq_ok_iff.mp started
  obtain ⟨object, second, newObject, started⟩ := VM.bind_eq_ok_iff.mp started
  obtain ⟨module, third, newModule, started⟩ := VM.bind_eq_ok_iff.mp started
  obtain ⟨classClass, fourth, newClassClass, started⟩ := VM.bind_eq_ok_iff.mp started
  obtain ⟨_, fifth, reclassed, started⟩ := VM.bind_eq_ok_iff.mp started
  obtain ⟨wellFormed, -, firstOnly⟩ := of_allocateClass (Heap.wellFormed_new _) newBasic
  obtain ⟨wellFormed, -, secondOnly⟩ := of_allocateClass wellFormed newObject
  obtain ⟨wellFormed, moduleNotNull, thirdOnly⟩ := of_allocateClass wellFormed newModule
  obtain ⟨-, classNotNull, fourthOnly⟩ := of_allocateClass wellFormed newClassClass
  have allReclassed := classHandle_of_reclass (fun other otherObject found => .inl ?_) reclassed
  · cases started
    refine .of_bare bare (fun handle object found => ?_) ?_
    · rw [allReclassed handle object found]
      exact classNotNull
    · simpa [coreClass, Table.get?_insert] using moduleNotNull
  · -- the heap was empty, so that all objects are the four classes
    rcases fourthOnly other otherObject found with rfl | ⟨_, found⟩
    · simp
    · rcases thirdOnly other _ found with rfl | ⟨_, found⟩
      · simp
      · rcases secondOnly other _ found with rfl | ⟨_, found⟩
        · simp
        · rcases firstOnly other _ found with rfl | ⟨_, found⟩
          · simp
          · cases (Heap.get?_new _ other).symm.trans found

theorem mirrored_new (config : Config) : (new config).Mirrored := by
  obtain ⟨machine, started, sound⟩ := exists_bootHierarchy config
  exact (Mirrored.of_bootHierarchy started).of_evolution sound (evolution_new started)

end Machine

end RiteVm
