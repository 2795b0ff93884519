import RiteVm.Proofs.ClassGraph.Singletons
import RiteVm.Proofs.Evolution.Classes
import RiteVm.Proofs.MethodCache.Coherence

/-!
Contract: whatever a machine does keeps its caches coherent.

Owns:
- machines that differ in cached ancestor lists only, and actions that return one value if any, on
  coherent machines, and cache lists only;
- that the computation of ancestors is such an action and returns on every class;
- sound machines: coherent ones that have a class of classes;
- that each kind of change, and so any evolution, leads from a sound machine to a sound one.
-/

namespace RiteVm

namespace Machine

variable {machine next last : Machine} {handle : Handle} {list : List Handle} {record : ClassRecord}

/-- Machines that differ in cached ancestor lists only, as far as searches can tell. -/
structure SameButLists (machine next : Machine) : Prop where
  parents : ∀ handle, next.parents? handle = machine.parents? handle
  entries : ∀ name owner, next.ownMethod? name owner = machine.ownMethod? name owner
  size : next.heap.cells.size = machine.heap.cells.size
  coreClasses : next.coreClasses = machine.coreClasses
  cache : next.methodCache = machine.methodCache

namespace SameButLists

theorem refl (machine : Machine) : machine.SameButLists machine :=
  ⟨fun _ => rfl, fun _ _ => rfl, rfl, rfl, rfl⟩

theorem trans (first : machine.SameButLists next) (second : next.SameButLists last) :
    machine.SameButLists last where
  parents handle := (second.parents handle).trans (first.parents handle)
  entries name owner := (second.entries name owner).trans (first.entries name owner)
  size := second.size.trans first.size
  coreClasses := second.coreClasses.trans first.coreClasses
  cache := second.cache.trans first.cache

theorem lineage (same : machine.SameButLists next) (lineage : machine.Lineage handle list) :
    next.Lineage handle list :=
  lineage.of_parents? fun member _ => same.parents member

/-- The list that is cached with a class. -/
theorem setAncestors (known : machine.class? handle = some record)
    (cached : Option CachedAncestors) :
    machine.SameButLists (machine.setClass handle { record with ancestors := cached }) where
  parents other := by
    refine Hierarchical.parents?_setClass_of_parents known ?_ other
    rfl
  entries name owner := by
    rw [Coherent.ownMethod?_setClass known]
    split
    · rename_i isHandle
      rw [ownMethod?, isHandle, known, Option.bind_some]
    · rfl
  size := Array.size_modify
  coreClasses := rfl
  cache := rfl

end SameButLists

/-- A lineage may be cached with its class. -/
theorem Coherent.setAncestors (coherent : machine.Coherent)
    (known : machine.class? handle = some record) (lineage : machine.Lineage handle list) :
    (machine.setClass handle { record with
      ancestors := some { generation := machine.methodCache.hierarchy, list } }).Coherent := by
  have same := SameButLists.setAncestors known
    (some { generation := machine.methodCache.hierarchy, list })
  refine ⟨coherent.hierarchical.setClass known rfl, ⟨?_, ?_⟩, ?_⟩
  · intro other otherRecord cached isKnown stored
    rw [class?_setClass known] at isKnown
    split at isKnown
    · obtain rfl := Option.some.inj isKnown
      obtain rfl := Option.some.inj stored
      exact Nat.le_refl _
    · exact coherent.lists.bounded other otherRecord cached isKnown stored
  · intro other otherList isCached
    obtain ⟨otherRecord, isKnown, stored⟩ := cachedAncestors?_eq_some_iff.mp isCached
    rw [class?_setClass known] at isKnown
    split at isKnown
    · rename_i isHandle
      obtain rfl := Option.some.inj isKnown
      obtain rfl : list = otherList := congrArg CachedAncestors.list (Option.some.inj stored)
      exact isHandle ▸ same.lineage lineage
    · refine same.lineage (coherent.lists.current other otherList ?_)
      exact cachedAncestors?_eq_some_iff.mpr ⟨otherRecord, isKnown, stored⟩
  · refine coherent.methods.of_kept rfl (Nat.le_refl _) ?_
    intro _ other name otherList found isLineage resolved
    refine ⟨otherList, same.lineage isLineage, (resolve_congr fun owner _ => ?_).trans resolved⟩
    exact same.entries name owner

end Machine

namespace VM

variable {α β : Type} {machine : Machine} {handle : Handle} {list : List Handle} {fuel : Nat}

/-- An action that caches ancestor lists only and returns this value or none; under a
condition it returns. -/
structure Caches (machine : Machine) (action : VM α) (value : α) (condition : Prop) : Prop where
  coherent : (action.after machine).Coherent
  same : machine.SameButLists (action.after machine)
  unique : ∀ returned next, action machine = .ok returned next → returned = value
  returns : condition → ∃ next, action machine = .ok value next

namespace Caches

variable {action : VM α} {rest : α → VM β} {value : α} {result : β} {condition : Prop}

theorem finish (coherent : machine.Coherent) (value : α) :
    Caches machine (pure value) value condition where
  coherent := coherent
  same := .refl machine
  unique _ _ returned := (pure_eq_ok_iff.mp returned).1.symm
  returns _ := ⟨machine, rfl⟩

theorem start (coherent : machine.Coherent) :
    Caches machine (MonadState.get : VM Machine) machine condition where
  coherent := coherent
  same := .refl machine
  unique _ _ returned := by
    cases returned
    rfl
  returns _ := ⟨machine, rfl⟩

theorem fail (coherent : machine.Coherent) (failure : Failure) (value : α)
    (excluded : ¬ condition) : Caches machine (throw failure) value condition where
  coherent := coherent
  same := .refl machine
  unique _ _ returned := nomatch returned
  returns holds := absurd holds excluded

theorem weaken {stronger : Prop} (caches : Caches machine action value condition)
    (implies : stronger → condition) : Caches machine action value stronger :=
  ⟨caches.coherent, caches.same, caches.unique, fun holds => caches.returns (implies holds)⟩

theorem query_bind {query : Query α} (read : query machine = .ok value)
    (second : Caches machine (rest value) result condition) :
    Caches machine (liftM query >>= rest) result condition := by
  have step : (liftM query >>= rest) machine = rest value machine :=
    bind_of_ok (liftM_of_ok read)
  have after : (liftM query >>= rest).after machine = (rest value).after machine :=
    after_bind_of_ok (liftM_of_ok read)
  exact ⟨after ▸ second.coherent, after ▸ second.same, step ▸ second.unique, step ▸ second.returns⟩

theorem bind (first : Caches machine action value condition)
    (second : ∀ next, next.Coherent → machine.SameButLists next →
      Caches next (rest value) result condition) :
    Caches machine (action >>= rest) result condition := by
  have behind := second _ first.coherent first.same
  cases outcome : action machine with
  | ok returned next =>
      obtain rfl := first.unique returned next outcome
      rw [after_of_ok outcome] at behind
      have step : (action >>= rest) machine = rest returned next := bind_of_ok outcome
      have after : (action >>= rest).after machine = (rest returned).after next :=
        after_bind_of_ok outcome
      have same := first.same
      rw [after_of_ok outcome] at same
      exact ⟨after ▸ behind.coherent, after ▸ same.trans behind.same, step ▸ behind.unique,
        step ▸ behind.returns⟩
  | error failure next =>
      have step : (action >>= rest) machine = .error failure next := bind_of_error outcome
      have after : (action >>= rest).after machine = action.after machine := by
        rw [after_of_error step, after_of_error outcome]
      refine ⟨after ▸ first.coherent, after ▸ first.same, ?_, ?_⟩
      · intro _ _ returned
        exact nomatch step.symm.trans returned
      · intro holds
        obtain ⟨_, returned⟩ := first.returns holds
        exact nomatch outcome.symm.trans returned

end Caches

/-- Collecting the ancestors of parents merges their lineages. -/
theorem caches_foldlM {lineageOf : Handle → List Handle} {condition : Prop} (parents : List Handle)
    (lineages : ∀ parent ∈ parents, machine.Lineage parent (lineageOf parent))
    (each : ∀ parent ∈ parents, ∀ next : Machine, next.Coherent → machine.SameButLists next →
      Caches next (ancestorsWithin fuel parent) (lineageOf parent) condition)
    (initial : List Handle) (coherent : machine.Coherent) :
    Caches machine
      (parents.foldlM
        (fun list parent => do return appendNew list (← ancestorsWithin fuel parent)) initial)
      ((parents.map lineageOf).foldl appendNew initial) condition := by
  induction parents generalizing initial machine with
  | nil => exact .finish coherent _
  | cons parent rest inductionHypothesis =>
      rw [List.foldlM_cons]
      refine .bind (.bind (each parent List.mem_cons_self machine coherent (.refl machine))
        fun next nextCoherent _ => .finish nextCoherent _) ?_
      intro next nextCoherent same
      refine inductionHypothesis ?_ ?_ _ nextCoherent
      · intro other isRest
        exact same.lineage (lineages other (List.mem_cons_of_mem _ isRest))
      · intro other isRest last lastCoherent sameAgain
        exact each other (List.mem_cons_of_mem _ isRest) last lastCoherent (same.trans sameAgain)

/-- A lineage is cached with its class and returned. -/
theorem caches_setAncestors {condition : Prop} (coherent : machine.Coherent)
    (lineage : machine.Lineage handle list) :
    Caches machine (do
      modifyClass handle fun record => { record with
        ancestors := some { generation := machine.methodCache.hierarchy, list } }
      return list) list condition := by
  obtain ⟨record, known⟩ := lineage.class?_of_mem lineage.mem_self
  have stored : modifyClass handle (fun record => { record with
      ancestors := some { generation := machine.methodCache.hierarchy, list } }) machine =
      .ok ⟨⟩ _ := modifyClass_of_class? known
  have stores : Caches machine (modifyClass handle fun record => { record with
      ancestors := some { generation := machine.methodCache.hierarchy, list } }) ⟨⟩ condition := by
    refine ⟨?_, ?_, fun _ _ _ => rfl, fun _ => ⟨_, stored⟩⟩
    · rw [after_of_ok stored]
      exact coherent.setAncestors known lineage
    · rw [after_of_ok stored]
      exact .setAncestors known _
  exact stores.bind fun next nextCoherent _ => .finish nextCoherent list

/-- The computation of ancestors returns the lineage, for which it needs no more steps
than this has members. -/
theorem caches_ancestorsWithin (coherent : machine.Coherent)
    (lineage : machine.Lineage handle list) :
    Caches machine (ancestorsWithin fuel handle) list (list.length ≤ fuel) := by
  induction fuel generalizing machine handle list with
  | zero =>
      refine .fail coherent _ _ fun enough => ?_
      exact absurd (List.length_pos_of_mem lineage.mem_self) (by omega)
  | succ fuel inductionHypothesis =>
      rw [ancestorsWithin]
      refine .bind (.start coherent) fun next nextCoherent same => ?_
      rw [← same.cache]
      have nextLineage := same.lineage lineage
      have whole := nextLineage
      obtain ⟨lineageOf, isKnown, lineages⟩ := nextLineage
      obtain ⟨record, known, rfl⟩ := Option.map_eq_some_iff.mp isKnown
      refine .query_bind (Query.classRecord_eq_ok_iff.mpr known) ?_
      cases cached : record.cachedAncestors? next.methodCache.hierarchy with
      | some stored =>
          have isCached : next.cachedAncestors? handle = some stored := by
            rw [Machine.cachedAncestors?, known, Option.bind_some, cached]
          rw [whole.unique (nextCoherent.lists.current handle stored isCached)]
          exact .finish nextCoherent stored
      | none =>
          refine .bind (caches_foldlM record.parents lineages ?_ [handle] nextCoherent) ?_
          · intro parent isParent last lastCoherent sameLast
            have ofParent := lineages parent isParent
            refine (inductionHypothesis lastCoherent (sameLast.lineage ofParent)).weaken fun enough => ?_
            have shorter := whole.length_lt_of_parent isKnown isParent ofParent
            omega
          · intro last lastCoherent sameLast
            rw [← sameLast.cache]
            exact caches_setAncestors lastCoherent (sameLast.lineage whole)

theorem after_ancestorsWithin_of_unknown (unknown : machine.class? handle = none) (fuel : Nat) :
    (ancestorsWithin fuel handle).after machine = machine := by
  cases fuel with
  | zero => rfl
  | succ fuel =>
      cases read : Query.classRecord handle machine with
      | ok record => exact nomatch unknown.symm.trans (Query.classRecord_eq_ok_iff.mp read)
      | error breach =>
          have started : (MonadState.get : VM Machine) machine = .ok machine machine := rfl
          rw [ancestorsWithin]
          exact after_of_error ((bind_of_ok started).trans (bind_of_error (liftM_of_error read)))

/-- The ancestors of a class are its lineage. -/
theorem caches_ancestors (coherent : machine.Coherent) (lineage : machine.Lineage handle list) :
    Caches machine (ancestors handle) list True := by
  rw [ancestors]
  refine .query_bind rfl ((caches_ancestorsWithin coherent lineage).weaken fun _ => ?_)
  exact Nat.le_succ_of_le lineage.length_le

end VM

end RiteVm

namespace RiteVm.Machine

/-- A coherent machine with a class of classes, above which singleton classes are created. -/
structure Sound (machine : Machine) : Prop where
  coherent : machine.Coherent
  classClass : ∃ record, machine.class? (machine.coreClass .classClass) = some record

namespace Sound

variable {machine next : Machine} {handle : Handle} {record : ClassRecord}

theorem of_kept (sound : machine.Sound) (coherent : next.Coherent)
    (coreClasses : next.coreClasses = machine.coreClasses)
    (kept : ∀ handle record, machine.class? handle = some record →
      ∃ record, next.class? handle = some record) : next.Sound where
  coherent := coherent
  classClass := by
    obtain ⟨record, known⟩ := sound.classClass
    rw [coreClass, coreClasses]
    exact kept _ record known

/-- A machine with the same classes, whose counters may have grown. -/
theorem of_class? (sound : machine.Sound) (hierarchical : next.Hierarchical)
    (coreClasses : next.coreClasses = machine.coreClasses)
    (same : ∀ handle, next.class? handle = machine.class? handle)
    (cache : next.methodCache = machine.methodCache) : next.Sound := by
  refine sound.of_kept ?_ coreClasses fun handle record known => ⟨record, (same handle).trans known⟩
  exact sound.coherent.of_class? hierarchical same (congrArg MethodCache.entries cache)
    (Nat.le_of_eq (congrArg MethodCache.generation cache.symm))
    (Nat.le_of_eq (congrArg MethodCache.hierarchy cache.symm))

theorem exists_class?_setClass (known : machine.class? handle = some record)
    (changed : ClassRecord) (other : Handle) (otherRecord : ClassRecord)
    (wasKnown : machine.class? other = some otherRecord) :
    ∃ record, (machine.setClass handle changed).class? other = some record := by
  rw [class?_setClass known]
  split
  · exact ⟨changed, rfl⟩
  · exact ⟨otherRecord, wasKnown⟩

/-- A change of nothing that the caches depend on. -/
theorem setClass_same (sound : machine.Sound) (known : machine.class? handle = some record)
    {changed : ClassRecord} (sameParents : changed.parents = record.parents)
    (sameList : changed.ancestors = record.ancestors)
    (sameMethods : changed.methods = record.methods) : (machine.setClass handle changed).Sound :=
  sound.of_kept (sound.coherent.setClass_same known sameParents sameList sameMethods) rfl
    (exists_class?_setClass known changed)

theorem classClass_ne_null (sound : machine.Sound) : machine.coreClass .classClass ≠ .null := by
  obtain ⟨record, known⟩ := sound.classClass
  exact sound.coherent.hierarchical.ne_null known

/-! ### Changes -/

theorem outside (sound : machine.Sound) (cells : next.heap.cells = machine.heap.cells)
    (free : next.heap.free = machine.heap.free) (coreClasses : next.coreClasses = machine.coreClasses)
    (cache : next.methodCache = machine.methodCache) : next.Sound := by
  have hierarchical := sound.coherent.hierarchical
  have sameObjects (handle : Handle) : next.heap.get? handle = machine.heap.get? handle := by
    rw [Heap.get?, Heap.get?, cells]
  have sameClasses (handle : Handle) : next.class? handle = machine.class? handle := by
    rw [class?, class?, sameObjects]
  refine sound.of_class? ?_ coreClasses sameClasses cache
  refine hierarchical.of_parents? (hierarchical.wellFormed.of_cells cells free) ?_ ?_ ?_
  · intro other
    rw [parents?, parents?, sameClasses]
  · intro handle object found
    exact hierarchical.classes handle object ((sameObjects handle).symm.trans found)
  · intro core
    rw [coreClass, coreClasses]
    exact hierarchical.coreClasses core

theorem rewrite (sound : machine.Sound) {change : Object → Object}
    (classes : ∀ object, machine.heap.get? handle = some object →
      machine.IsClassOrNull (change object).classHandle)
    (same : ∀ other, (machine.rewrite handle change).class? other = machine.class? other) :
    (machine.rewrite handle change).Sound := by
  refine sound.of_kept (sound.coherent.rewrite classes same) rfl fun handle record known => ?_
  exact ⟨record, (same handle).trans known⟩

theorem allocate (sound : machine.Sound) {object : Object} (plain : object.class? = none)
    (given : machine.GivesClass object.classHandle) : (machine.allocate object).Sound := by
  have hierarchical := sound.coherent.hierarchical
  exact sound.of_class? (hierarchical.allocate plain (hierarchical.of_givesClass given)) rfl
    (Hierarchical.class?_allocate_plain hierarchical.wellFormed plain) rfl

theorem allocateClass (sound : machine.Sound) {classHandle : Handle} {kind : ClassKind}
    {superclass : Option Handle} {instances : InstanceKind}
    (given : machine.GivesClass classHandle)
    (parents : ∀ parent, superclass = some parent → machine.GivesSuperclass parent) :
    (machine.allocate
      { classHandle, content := .classOrModule { kind, superclass, instances } }).Sound := by
  have hierarchical := sound.coherent.hierarchical
  have isClass : Object.class?
      { classHandle, content := .classOrModule { kind, superclass, instances } } =
        some { kind, superclass, instances } := rfl
  have areClasses : ∀ parent ∈ ClassRecord.parents { kind, superclass, instances },
      ∃ record, machine.class? parent = some record := by
    intro parent isParent
    refine hierarchical.of_givesSuperclass sound.classClass (parents parent ?_)
    simpa [ClassRecord.parents] using isParent
  refine sound.of_kept (sound.coherent.allocateClass isClass rfl
    (hierarchical.of_givesClass given) areClasses) rfl ?_
  intro handle record known
  rw [Hierarchical.class?_allocate hierarchical.wellFormed]
  split
  · exact ⟨_, rfl⟩
  · exact ⟨record, known⟩

theorem bump (sound : machine.Sound) (methods hierarchy : Nat) :
    (machine.bump methods hierarchy).Sound :=
  sound.of_kept (sound.coherent.bump _ _) rfl fun _ record known => ⟨record, known⟩

theorem withSingleton (sound : machine.Sound) {superclass : Handle}
    (given : machine.GivesSuperclass superclass) :
    (machine.withSingleton handle superclass).Sound := by
  have wellFormed := sound.coherent.hierarchical.wellFormed
  have created : (machine.allocate (machine.newSingleton superclass)).Sound :=
    sound.allocateClass (.core _) (by rintro _ ⟨⟩; exact given)
  have isNew := class?_allocate_newSingleton wellFormed superclass
  have attached := @setClass_same _ _ _ created isNew (attachedRecord handle superclass) rfl rfl rfl
  refine (attached.rewrite (fun _ _ => .inr ⟨attachedRecord handle superclass, ?_⟩)
    (class?_reclass _)).bump 1 1
  rw [class?_setClass isNew, if_pos rfl]

theorem of_attachments (sound : machine.Sound) (attachments : machine.Attachments next) :
    next.Sound := by
  induction attachments with
  | refl => exact sound
  | tail _ attaches inductionHypothesis =>
      obtain ⟨-, -, given, -⟩ := attaches
      exact inductionHypothesis.withSingleton given

theorem cacheAncestors (sound : machine.Sound) (fuel : Nat) (handle : Handle) :
    ((VM.ancestorsWithin fuel handle).after machine).Sound := by
  cases known : machine.class? handle with
  | none =>
      rw [VM.after_ancestorsWithin_of_unknown known]
      exact sound
  | some record =>
      obtain ⟨list, lineage⟩ := sound.coherent.hierarchical.lineages handle record known
      have caches : VM.Caches machine (VM.ancestorsWithin fuel handle) list (list.length ≤ fuel) :=
        VM.caches_ancestorsWithin sound.coherent lineage
      refine sound.of_kept caches.coherent caches.same.coreClasses fun other record known => ?_
      exact Hierarchical.exists_class?_of_parents? caches.same.parents known

theorem cacheMethod (sound : machine.Sound) {name : Symbol} {list : List Handle}
    {found : FoundMethod} (cached : machine.cachedAncestors? handle = some list)
    (searched : Query.lookupMethod name list machine = .ok (some found)) :
    ((VM.cacheMethod handle name found).after machine).Sound := by
  have lineage := sound.coherent.lists.current handle list cached
  have resolved : machine.resolve name list = some found := by
    rw [lookupMethod_eq fun owner isOwner => lineage.class?_of_mem isOwner] at searched
    exact Except.ok.inj searched
  have hierarchical := sound.coherent.hierarchical
  have entries : ((VM.cacheMethod handle name found).after machine).methodCache.entries =
      machine.methodCache.entries.insert (handle, name)
        { generation := machine.methodCache.generation, method := found.method,
          owner := found.owner } := rfl
  refine sound.of_kept ⟨?_, ?_, ?_, ?_⟩ rfl fun _ record known => ⟨record, known⟩
  · exact hierarchical.of_parents? hierarchical.wellFormed (fun _ => rfl) hierarchical.classes
      hierarchical.coreClasses
  · refine sound.coherent.lists.of_kept ?_ (Nat.le_refl _) ?_
    · exact fun _ record _ isKnown stored => ⟨record, isKnown, stored⟩
    · exact fun _ _ _ _ _ lineage => lineage.of_parents? fun _ _ => rfl
  · intro key entry stored
    rw [entries, Std.HashMap.getElem?_insert] at stored
    split at stored
    · obtain rfl := Option.some.inj stored
      exact Nat.le_refl _
    · exact sound.coherent.methods.bounded key entry stored
  · intro other otherName entry stored isCurrent
    rw [entries, Std.HashMap.getElem?_insert] at stored
    split at stored
    · rename_i isKey
      obtain ⟨rfl, rfl⟩ := Prod.mk.inj (eq_of_beq isKey)
      obtain rfl := Option.some.inj stored
      exact ⟨list, lineage.of_parents? fun _ _ => rfl, resolved⟩
    · obtain ⟨otherList, otherLineage, otherResolved⟩ :=
        sound.coherent.methods.current other otherName entry stored isCurrent
      exact ⟨otherList, otherLineage.of_parents? fun _ _ => rfl, otherResolved⟩

theorem setCoreClass (sound : machine.Sound) (core : CoreClass)
    (known : machine.class? handle = some record) :
    Sound { machine with coreClasses := machine.coreClasses.insert core handle } := by
  refine ⟨sound.coherent.setCoreClass core (.inr ⟨record, known⟩), ?_⟩
  rw [coreClass, Table.get?_insert]
  split
  · exact ⟨record, known⟩
  · exact sound.classClass

theorem collect (sound : machine.Sound) : machine.collect.Sound := by
  refine ⟨sound.coherent.collect, ?_⟩
  obtain ⟨record, known⟩ := sound.classClass
  rcases Hierarchical.coreClass_cases machine .classClass with isNull | reachable
  · exact absurd isNull sound.classClass_ne_null
  · refine ⟨record, ?_⟩
    rw [coreClass_collect, class?, get?_collect_of_reachable reachable]
    exact known

/-- Each kind of change leads from a sound machine to a sound one. -/
theorem of_change (sound : machine.Sound) (change : machine.Change next) : next.Sound := by
  have hierarchical := sound.coherent.hierarchical
  cases change with
  | outside cells free coreClasses cache => exact sound.outside cells free coreClasses cache
  | allocate plain given => exact sound.allocate plain given
  | allocateClass parents _ => exact sound.allocateClass (.core _) parents
  | rewrite similar =>
      refine sound.rewrite ?_ (class?_rewrite fun object found => (similar object found).2)
      intro object found
      rw [(similar object found).1]
      exact hierarchical.classes _ object found
  | @attachSingletons fuel handle =>
      exact sound.of_attachments (hierarchical.searches fuel handle).attachments
  | setInstances known => exact sound.setClass_same known rfl rfl rfl
  | setConstant known => exact sound.setClass_same known rfl rfl rfl
  | setClassVar known => exact sound.setClass_same known rfl rfl rfl
  | nameClass known _ => exact sound.setClass_same known rfl rfl rfl
  | defineMethod known =>
      exact sound.of_kept (sound.coherent.changeMethods known rfl rfl) rfl
        (exists_class?_setClass known _)
  | removeMethod known =>
      exact sound.of_kept (sound.coherent.changeMethods known rfl rfl) rfl
        (exists_class?_setClass known _)
  | discardMethod known isUndefined =>
      exact sound.of_kept (sound.coherent.discardMethod known isUndefined) rfl
        (exists_class?_setClass known _)
  | @«include» handle module record list known _ cached outside =>
      refine sound.of_kept (sound.coherent.addParent known cached outside ?_ rfl) rfl
        (exists_class?_setClass known _)
      intro other isParent
      simpa [ClassRecord.parents, or_assoc] using isParent
  | invalidate => exact sound.bump _ _
  | cacheAncestors => exact sound.cacheAncestors _ _
  | cacheMethod cached searched => exact sound.cacheMethod cached searched
  | setCoreClass known _ => exact sound.setCoreClass _ known
  | collect => exact sound.collect

/-- An evolution leads from a sound machine to a sound one. -/
theorem of_evolution (sound : machine.Sound) (evolution : machine.Evolution next) : next.Sound := by
  induction evolution with
  | refl => exact sound
  | tail _ change inductionHypothesis => exact inductionHypothesis.of_change change

end Sound

end RiteVm.Machine
