import RiteVm.Proofs.MethodCache.Freshness

/-!
Contract: which kinds of classes are linked to each other.

Owns:
- graded machines, in which classes include modules only, modules have no superclass and
  ordinary classes inherit from ordinary classes;
- that each kind of change leads from a graded machine to a graded one, and that every
  machine that a host reaches is graded.

A singleton class may have any superclass: an object is an instance of a module if a host
says so, and the singleton class of this object then inherits from the module.
-/

namespace RiteVm.Machine

/-- Classes include modules only, and have a superclass that their kind admits. -/
structure Graded (machine : Machine) : Prop where
  superclasses : ∀ handle record, machine.class? handle = some record →
    machine.Admits record.kind record.superclass
  includes : ∀ handle record, machine.class? handle = some record →
    ∀ module ∈ record.includes, machine.kind? module = some .module

/-- What a class is, and the classes that it is linked to. -/
def links? (machine : Machine) (handle : Handle) :
    Option (ClassKind × Option Handle × Array Handle) :=
  (machine.class? handle).map fun record => (record.kind, record.superclass, record.includes)

variable {machine next : Machine} {handle : Handle} {record : ClassRecord}

theorem kind?_of_class? (known : machine.class? handle = some record) :
    machine.kind? handle = some record.kind := by
  rw [kind?, known, Option.map_some]

theorem kind?_congr (same : next.links? handle = machine.links? handle) :
    next.kind? handle = machine.kind? handle := by
  have kind (machine : Machine) : machine.kind? handle = (machine.links? handle).map (·.1) := by
    rw [kind?, links?, Option.map_map]
    rfl
  rw [kind, kind, same]

theorem Admits.mono {kind : ClassKind} {superclass : Option Handle}
    (admitted : machine.Admits kind superclass)
    (kept : ∀ parent, superclass = some parent → machine.kind? parent = some .ordinary →
      next.kind? parent = some .ordinary) : next.Admits kind superclass := by
  cases kind with
  | ordinary => exact fun parent same => kept parent same (admitted parent same)
  | module => exact admitted
  | singleton => trivial

theorem class?_of_class?_collect (survived : machine.collect.class? handle = some record) :
    machine.class? handle = some record := by
  obtain ⟨object, found, isClass⟩ := Option.bind_eq_some_iff.mp survived
  rw [class?, (reachable_of_get?_collect found).2, Option.bind_some, isClass]

/-- What a class that survives a collection is linked to survives with it. -/
theorem kind?_collect_of_parent (hierarchical : machine.Hierarchical) {parent : Handle}
    {kind : ClassKind} (survived : machine.collect.class? handle = some record)
    (isParent : parent ∈ record.parents) (wasKnown : machine.kind? parent = some kind) :
    machine.collect.kind? parent = some kind := by
  obtain ⟨list, lineage⟩ := hierarchical.collect.lineages handle record survived
  obtain ⟨more, ofParent, -⟩ := lineage.of_parent (parents?_of_class? survived) isParent
  obtain ⟨parentRecord, isClass⟩ := ofParent.class?_of_mem ofParent.mem_self
  rw [kind?_of_class? (class?_of_class?_collect isClass)] at wasKnown
  rw [kind?_of_class? isClass, wasKnown]

namespace Graded

/-! ### Preservation -/

/-- Classes stay what they are, and the links of each one are old or allowed. -/
theorem of_kept (graded : machine.Graded)
    (kept : ∀ handle kind, machine.kind? handle = some kind → next.kind? handle = some kind)
    (links : ∀ handle record, next.class? handle = some record →
      next.links? handle = machine.links? handle ∨
        machine.Admits record.kind record.superclass ∧
          ∀ module ∈ record.includes, machine.kind? module = some .module) : next.Graded := by
  have allowed (handle : Handle) (record : ClassRecord) (known : next.class? handle = some record) :
      machine.Admits record.kind record.superclass ∧
        ∀ module ∈ record.includes, machine.kind? module = some .module := by
    rcases links handle record known with same | allowed
    · rw [links?, known] at same
      obtain ⟨previous, wasKnown, isSame⟩ := Option.map_eq_some_iff.mp same.symm
      obtain ⟨sameKind, sameSuperclass, sameIncludes⟩ : previous.kind = record.kind ∧
          previous.superclass = record.superclass ∧ previous.includes = record.includes := by
        simpa only [Prod.mk.injEq] using isSame
      rw [← sameKind, ← sameSuperclass, ← sameIncludes]
      exact ⟨graded.superclasses handle previous wasKnown, graded.includes handle previous wasKnown⟩
    · exact allowed
  refine ⟨fun handle record known => ?_, fun handle record known module isIncluded => ?_⟩
  · exact (allowed handle record known).1.mono fun parent _ => kept parent _
  · exact kept module _ ((allowed handle record known).2 module isIncluded)

theorem of_links (graded : machine.Graded)
    (same : ∀ handle, next.links? handle = machine.links? handle) : next.Graded :=
  graded.of_kept (fun handle _ known => (kind?_congr (same handle)).trans known)
    fun handle _ _ => .inl (same handle)

theorem of_class? (graded : machine.Graded)
    (same : ∀ handle, next.class? handle = machine.class? handle) : next.Graded :=
  graded.of_links fun handle => by rw [links?, links?, same]

theorem links?_setClass (known : machine.class? handle = some record) {changed : ClassRecord}
    (kind : changed.kind = record.kind) (superclass : changed.superclass = record.superclass)
    (includes : changed.includes = record.includes) (other : Handle) :
    (machine.setClass handle changed).links? other = machine.links? other := by
  rw [links?, class?_setClass known]
  split
  · rename_i isHandle
    rw [links?, isHandle, known, Option.map_some, Option.map_some, kind, superclass, includes]
  · rfl

theorem setClass (graded : machine.Graded) (known : machine.class? handle = some record)
    {changed : ClassRecord} (kind : changed.kind = record.kind)
    (superclass : changed.superclass = record.superclass)
    (includes : changed.includes = record.includes) : (machine.setClass handle changed).Graded :=
  graded.of_links (links?_setClass known kind superclass includes)

theorem bump (graded : machine.Graded) (methods hierarchy : Nat) :
    (machine.bump methods hierarchy).Graded :=
  graded.of_class? fun _ => rfl

/-- One more class, whose superclass is admitted. -/
theorem allocateClass (graded : machine.Graded) (wellFormed : machine.heap.WellFormed)
    {object : Object} (isClass : object.class? = some record)
    (admitted : machine.Admits record.kind record.superclass) (isNew : record.includes = #[]) :
    (machine.allocate object).Graded := by
  have placed (other : Handle) := Hierarchical.class?_allocate wellFormed object other
  refine graded.of_kept (fun other kind wasKnown => ?_) fun other otherRecord known => ?_
  · rw [kind?, placed, if_neg, ← kind?, wasKnown]
    rintro rfl
    rw [kind?, Hierarchical.class?_place_snd wellFormed] at wasKnown
    cases wasKnown
  · rw [placed] at known
    split at known
    · obtain rfl := Option.some.inj (isClass.symm.trans known)
      refine .inr ⟨admitted, fun module isIncluded => ?_⟩
      rw [isNew] at isIncluded
      exact absurd isIncluded (Array.not_mem_empty module)
    · rename_i isOld
      exact .inl (by rw [links?, links?, placed, if_neg isOld])

/-- One more included module. -/
theorem addModule (graded : machine.Graded) (known : machine.class? handle = some record)
    {module : Handle} (isModule : machine.kind? module = some .module) :
    (machine.setClass handle { record with includes := record.includes.push module }).Graded := by
  refine graded.of_kept (fun other kind wasKnown => ?_) fun other otherRecord isKnown => ?_
  · rw [kind?, class?_setClass known]
    split
    · rename_i isHandle
      rw [← wasKnown, isHandle, kind?_of_class? known]
      rfl
    · exact wasKnown
  · rw [class?_setClass known] at isKnown
    split at isKnown
    · obtain rfl := Option.some.inj isKnown
      refine .inr ⟨graded.superclasses handle record known, fun other isIncluded => ?_⟩
      rcases Array.mem_push.mp isIncluded with wasIncluded | rfl
      · exact graded.includes handle record known other wasIncluded
      · exact isModule
    · rename_i isOther
      exact .inl (by rw [links?, links?, class?_setClass known, if_neg isOther])

theorem withSingleton (graded : machine.Graded) (wellFormed : machine.heap.WellFormed)
    (handle superclass : Handle) : (machine.withSingleton handle superclass).Graded := by
  have created : (machine.allocate (machine.newSingleton superclass)).Graded :=
    graded.allocateClass wellFormed rfl trivial rfl
  have attached := @setClass _ _ _ created (class?_allocate_newSingleton wellFormed superclass)
    (attachedRecord handle superclass) rfl rfl rfl
  exact (attached.of_class? (class?_reclass _)).bump 1 1

theorem of_attachments (graded : machine.Graded) (wellFormed : machine.heap.WellFormed)
    (attachments : machine.Attachments next) : next.Graded := by
  induction attachments with
  | refl => exact graded
  | tail before attaches inductionHypothesis =>
      obtain ⟨-, -, -, -⟩ := attaches
      have keeps := Attachments.keepsContents before wellFormed
      exact inductionHypothesis.withSingleton keeps.wellFormed _ _

theorem cacheAncestors (graded : machine.Graded) (fuel : Nat) (handle : Handle) :
    ((VM.ancestorsWithin fuel handle).after machine).Graded := by
  refine graded.of_links fun other => ?_
  refine @VM.kept_ancestorsWithin _ (·.links? other) (fun machine handle record list known => ?_)
    fuel handle machine
  refine links?_setClass known ?_ ?_ ?_ other <;> rfl

theorem collect (graded : machine.Graded) (hierarchical : machine.Hierarchical) :
    machine.collect.Graded := by
  refine ⟨fun handle record survived => ?_, fun handle record survived module isIncluded => ?_⟩
  · have admitted := graded.superclasses handle record (class?_of_class?_collect survived)
    refine admitted.mono fun parent same => ?_
    exact kind?_collect_of_parent hierarchical survived (by simp [ClassRecord.parents, same])
  · have wasModule := graded.includes handle record (class?_of_class?_collect survived) module
      isIncluded
    refine kind?_collect_of_parent hierarchical survived ?_ wasModule
    simp [ClassRecord.parents, isIncluded]

/-- Each kind of change leads from a graded machine to a graded one. -/
theorem of_change (graded : machine.Graded) (sound : machine.Sound)
    (change : machine.Change next) : next.Graded := by
  have hierarchical := sound.coherent.hierarchical
  cases change with
  | outside cells _ _ _ =>
      exact graded.of_class? fun handle => by rw [class?, class?, Heap.get?, Heap.get?, cells]
  | allocate plain _ =>
      exact graded.of_class? (Hierarchical.class?_allocate_plain hierarchical.wellFormed plain)
  | allocateClass _ admitted =>
      exact graded.allocateClass hierarchical.wellFormed rfl admitted rfl
  | rewrite similar =>
      exact graded.of_class? (class?_rewrite fun object found => (similar object found).2)
  | @attachSingletons fuel handle =>
      exact graded.of_attachments hierarchical.wellFormed
        (hierarchical.searches fuel handle).attachments
  | setInstances known => exact graded.setClass known rfl rfl rfl
  | setConstant known => exact graded.setClass known rfl rfl rfl
  | setClassVar known => exact graded.setClass known rfl rfl rfl
  | nameClass known _ => exact graded.setClass known rfl rfl rfl
  | defineMethod known => refine .bump (.setClass graded known ?_ ?_ ?_) 1 0 <;> rfl
  | removeMethod known => refine .bump (.setClass graded known ?_ ?_ ?_) 1 0 <;> rfl
  | discardMethod known _ => exact graded.setClass known rfl rfl rfl
  | «include» known isModule _ _ => exact (graded.addModule known isModule).bump 1 1
  | invalidate => exact graded.bump _ _
  | cacheAncestors => exact graded.cacheAncestors _ _
  | cacheMethod _ _ => exact graded.of_class? fun _ => rfl
  | setCoreClass _ _ => exact graded.of_class? fun _ => rfl
  | collect => exact graded.collect hierarchical

/-- An evolution leads from a sound and graded machine to such a one. -/
theorem of_evolution (graded : machine.Graded) (sound : machine.Sound)
    (evolution : machine.Evolution next) : next.Graded := by
  induction evolution with
  | refl => exact graded
  | tail before change inductionHypothesis =>
      exact inductionHypothesis.of_change (sound.of_evolution before) change

end Graded

/-! ### New machines -/

/-- A machine with ordinary classes only, none of which includes a module or is attached to an
object. -/
structure Bare (machine : Machine) : Prop where
  wellFormed : machine.heap.WellFormed
  records : ∀ handle record, machine.class? handle = some record →
    record.kind = .ordinary ∧ record.includes = #[] ∧ record.attached = none

namespace Bare

theorem of_class? (bare : machine.Bare) (wellFormed : next.heap.WellFormed)
    (same : ∀ handle, next.class? handle = machine.class? handle) : next.Bare :=
  ⟨wellFormed, fun handle record known =>
    bare.records handle record ((same handle).symm.trans known)⟩

theorem allocateClass (bare : machine.Bare) {superclass : Option Handle}
    {instances : InstanceKind}
    (created : VM.allocateClass .ordinary superclass instances machine = .ok handle next) :
    next.Bare := by
  let object : Object :=
    { classHandle := machine.coreClass .classClass
      content := .classOrModule { kind := .ordinary, superclass, instances } }
  have allocated : VM.allocateClass .ordinary superclass instances machine =
    .ok (machine.heap.place object).2 (machine.allocate object) := rfl
  obtain ⟨-, rfl⟩ := EStateM.Result.ok.inj (allocated.symm.trans created)
  refine ⟨bare.wellFormed.allocate object, fun other record known => ?_⟩
  rw [Hierarchical.class?_allocate bare.wellFormed] at known
  split at known
  · obtain rfl := Option.some.inj known
    exact ⟨rfl, rfl, rfl⟩
  · exact bare.records other record known

theorem reclass (bare : machine.Bare) {classHandle : Handle} {handles : List Handle}
    (changed : handles.forM (fun handle =>
      VM.modifyObject handle fun object => { object with classHandle }) machine = .ok ⟨⟩ next) :
    next.Bare := by
  induction handles generalizing machine with
  | nil =>
      cases changed
      exact bare
  | cons handle rest inductionHypothesis =>
      obtain ⟨_, between, first, changed⟩ := VM.bind_eq_ok_iff.mp
        (show (VM.modifyObject handle _ >>= fun _ => rest.forM _) machine = _ from changed)
      obtain rfl := VM.modifyObject_eq_ok_iff.mp first
      refine inductionHypothesis ?_ changed
      exact bare.of_class? (bare.wellFormed.modify handle _) (class?_reclass classHandle)

theorem graded (bare : machine.Bare) (hierarchical : machine.Hierarchical) : machine.Graded := by
  refine ⟨fun handle record known => ?_, fun handle record known module isIncluded => ?_⟩
  · rw [(bare.records handle record known).1]
    intro parent isParent
    obtain ⟨list, lineage⟩ := hierarchical.lineages handle record known
    obtain ⟨more, ofParent, -⟩ := lineage.of_parent (parents?_of_class? known)
      (show parent ∈ record.parents by simp [ClassRecord.parents, isParent])
    obtain ⟨parentRecord, isClass⟩ := ofParent.class?_of_mem ofParent.mem_self
    rw [kind?_of_class? isClass, (bare.records parent parentRecord isClass).1]
  · rw [(bare.records handle record known).2.1] at isIncluded
    exact absurd isIncluded (Array.not_mem_empty module)

/-- The first four classes are bare. -/
theorem of_bootHierarchy {config : Config}
    (started : VM.bootHierarchy (.empty config) = .ok ⟨⟩ machine) : machine.Bare := by
  have empty : (Machine.empty config).Bare := by
    refine ⟨Heap.wellFormed_new _, fun handle record known => ?_⟩
    have missing : (Machine.empty config).heap.get? handle = none := Heap.get?_new _ handle
    rw [class?, missing] at known
    cases known
  rw [VM.bootHierarchy] at started
  obtain ⟨basic, first, newBasic, started⟩ := VM.bind_eq_ok_iff.mp started
  obtain ⟨object, second, newObject, started⟩ := VM.bind_eq_ok_iff.mp started
  obtain ⟨module, third, newModule, started⟩ := VM.bind_eq_ok_iff.mp started
  obtain ⟨classClass, fourth, newClassClass, started⟩ := VM.bind_eq_ok_iff.mp started
  obtain ⟨_, fifth, reclassed, started⟩ := VM.bind_eq_ok_iff.mp started
  have bare := ((((empty.allocateClass newBasic).allocateClass newObject).allocateClass
    newModule).allocateClass newClassClass).reclass reclassed
  -- what is left enters the classes as core classes
  cases started
  exact bare.of_class? bare.wellFormed fun _ => rfl

end Bare

theorem graded_new (config : Config) : (new config).Graded := by
  obtain ⟨machine, started, sound⟩ := exists_bootHierarchy config
  exact ((Bare.of_bootHierarchy started).graded sound.coherent.hierarchical).of_evolution sound
    (evolution_new started)

/-! ### Reached machines -/

/-- Every machine that a host reaches is graded. -/
theorem Reached.graded {config : Config} {hosts : Array HostMethod}
    (reached : Reached config hosts machine) (regular : HostsAreRegular hosts) :
    machine.Graded :=
  (graded_new config).of_evolution (sound_new config) (reached.evolution regular)

end RiteVm.Machine
