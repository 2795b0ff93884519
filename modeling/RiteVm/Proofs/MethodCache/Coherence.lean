import RiteVm.Proofs.Evolution.Classes
import RiteVm.Proofs.MethodCache.Hierarchy

/-!
Contract: cached ancestor lists and cached methods agree with the class hierarchy.

Owns:
- the method that a list of classes resolves a name to, without any cache;
- the coherence invariant: what is cached in the current generation is what a search finds;
- that each kind of change preserves it.

The removal of an entry that is no method counts as no change of methods. It is safe
because only found methods are cached: an entry that ended a search without a result stands
in front of no cached method.
-/

namespace RiteVm.Machine

/-! ### Resolution -/

/-- The entry for a name in the table of a single class. -/
def ownMethod? (machine : Machine) (name : Symbol) (owner : Handle) : Option FoundMethod :=
  (machine.class? owner).bind fun record =>
    (record.methods.get? name).map fun method => { method, owner }

/-- The first entry for a name in a list of classes, nothing if it is undefined. -/
def resolve (machine : Machine) (name : Symbol) (list : List Handle) : Option FoundMethod :=
  (list.findSome? (machine.ownMethod? name)).filter (·.method != .undefined)

section Resolution

variable {machine next : Machine} {name : Symbol} {handle owner : Handle} {list rest : List Handle}
  {found : FoundMethod}

theorem resolve_cons_of_some (entry : machine.ownMethod? name owner = some found) :
    machine.resolve name (owner :: rest) =
      if found.method = .undefined then none else some found := by
  rw [resolve, List.findSome?_cons, entry, Option.filter_some]
  by_cases isUndefined : found.method = .undefined <;> simp [isUndefined]

theorem resolve_cons_of_none (entry : machine.ownMethod? name owner = none) :
    machine.resolve name (owner :: rest) = machine.resolve name rest := by
  rw [resolve, resolve, List.findSome?_cons, entry]

theorem resolve_congr (same : ∀ owner ∈ list, next.ownMethod? name owner = machine.ownMethod? name owner) :
    next.resolve name list = machine.resolve name list := by
  induction list with
  | nil => rfl
  | cons owner rest inductionHypothesis =>
      have sameRest := inductionHypothesis fun other isRest =>
        same other (List.mem_cons_of_mem _ isRest)
      have sameEntry := same owner List.mem_cons_self
      cases entry : machine.ownMethod? name owner with
      | none =>
          rw [resolve_cons_of_none entry, resolve_cons_of_none (sameEntry.trans entry), sameRest]
      | some found =>
          rw [resolve_cons_of_some entry, resolve_cons_of_some (sameEntry.trans entry)]

/-- A search through a list of classes finds what the list resolves the name to. -/
theorem lookupMethod_eq (areClasses : ∀ owner ∈ list, ∃ record, machine.class? owner = some record) :
    Query.lookupMethod name list machine = .ok (machine.resolve name list) := by
  induction list with
  | nil => rfl
  | cons owner rest inductionHypothesis =>
      obtain ⟨record, known⟩ := areClasses owner List.mem_cons_self
      have searched := inductionHypothesis fun other isRest =>
        areClasses other (List.mem_cons_of_mem _ isRest)
      rw [Query.lookupMethod, Query.bind_eq_ok_iff]
      refine ⟨record, Query.classRecord_eq_ok_iff.mpr known, ?_⟩
      cases stored : record.methods.get? name with
      | none =>
          have entry : machine.ownMethod? name owner = none := by
            rw [ownMethod?, known, Option.bind_some, stored, Option.map_none]
          rw [resolve_cons_of_none entry]
          exact searched
      | some method =>
          have entry : machine.ownMethod? name owner = some { method, owner } := by
            rw [ownMethod?, known, Option.bind_some, stored, Option.map_some]
          rw [resolve_cons_of_some entry]
          cases method <;> rfl

/-- Without an entry that ended a search in front of all others, methods are found as
before. -/
theorem resolve_of_discarded (resolved : machine.resolve name list = some found)
    (kept : ∀ owner, next.ownMethod? name owner = machine.ownMethod? name owner ∨
      next.ownMethod? name owner = none ∧ ∀ entry, machine.ownMethod? name owner = some entry →
        entry.method = .undefined) :
    next.resolve name list = some found := by
  induction list with
  | nil => exact nomatch resolved
  | cons owner rest inductionHypothesis =>
      cases entry : machine.ownMethod? name owner with
      | none =>
          have missing : next.ownMethod? name owner = none := by
            rcases kept owner with same | ⟨missing, -⟩
            · rw [same, entry]
            · exact missing
          rw [resolve_cons_of_none entry] at resolved
          rw [resolve_cons_of_none missing]
          exact inductionHypothesis resolved
      | some first =>
          rw [resolve_cons_of_some entry] at resolved
          rcases kept owner with same | ⟨-, isUndefined⟩
          · rw [resolve_cons_of_some (same.trans entry), resolved]
          · rw [if_pos (isUndefined first entry)] at resolved
            exact nomatch resolved

end Resolution

/-! ### The invariant -/

/-- Cached ancestor lists of the current generation are lineages. -/
structure ListsFresh (machine : Machine) : Prop where
  bounded : ∀ handle record cached, machine.class? handle = some record →
    record.ancestors = some cached → cached.generation ≤ machine.methodCache.hierarchy
  current : ∀ handle list, machine.cachedAncestors? handle = some list →
    machine.Lineage handle list

/-- Cached methods of the current generation are what the lineage resolves to. -/
structure MethodsFresh (machine : Machine) : Prop where
  bounded : ∀ (key : Handle × Symbol) (entry : CachedMethod),
    machine.methodCache.entries[key]? = some entry →
      entry.generation ≤ machine.methodCache.generation
  current : ∀ (handle : Handle) (name : Symbol) (entry : CachedMethod),
    machine.methodCache.entries[(handle, name)]? = some entry →
      entry.generation = machine.methodCache.generation →
      ∃ list, machine.Lineage handle list ∧
        machine.resolve name list = some { method := entry.method, owner := entry.owner }

/-- The hierarchy is sound and the caches agree with it. -/
structure Coherent (machine : Machine) : Prop where
  hierarchical : machine.Hierarchical
  lists : machine.ListsFresh
  methods : machine.MethodsFresh

variable {machine next : Machine} {handle : Handle} {record changed : ClassRecord}

theorem cachedAncestors?_eq_some_iff {list : List Handle} :
    machine.cachedAncestors? handle = some list ↔
      ∃ record, machine.class? handle = some record ∧
        record.ancestors = some { generation := machine.methodCache.hierarchy, list } := by
  rw [cachedAncestors?, Option.bind_eq_some_iff]
  refine exists_congr fun record => and_congr_right fun _ => ?_
  rw [ClassRecord.cachedAncestors?]
  cases record.ancestors with
  | none => simp
  | some cached =>
      obtain ⟨generation, cachedList⟩ := cached
      by_cases isCurrent : generation = machine.methodCache.hierarchy <;> simp [isCurrent]

/-- Lists stay fresh if none is new and the hierarchy is the same or counted as changed. -/
theorem ListsFresh.of_kept (fresh : machine.ListsFresh)
    (kept : ∀ handle record cached, next.class? handle = some record →
      record.ancestors = some cached →
      ∃ record, machine.class? handle = some record ∧ record.ancestors = some cached)
    (later : machine.methodCache.hierarchy ≤ next.methodCache.hierarchy)
    (lineages : next.methodCache.hierarchy = machine.methodCache.hierarchy →
      ∀ handle record list, next.class? handle = some record →
        machine.Lineage handle list → next.Lineage handle list) : next.ListsFresh where
  bounded handle record cached known stored := by
    obtain ⟨record, wasKnown, wasStored⟩ := kept handle record cached known stored
    exact Nat.le_trans (fresh.bounded handle record cached wasKnown wasStored) later
  current handle list isCached := by
    obtain ⟨record, known, stored⟩ := cachedAncestors?_eq_some_iff.mp isCached
    obtain ⟨previous, wasKnown, wasStored⟩ := kept handle record _ known stored
    have same : next.methodCache.hierarchy = machine.methodCache.hierarchy :=
      Nat.le_antisymm (fresh.bounded _ _ _ wasKnown wasStored) later
    refine lineages same handle record list known (fresh.current handle list ?_)
    rw [cachedAncestors?_eq_some_iff, ← same]
    exact ⟨previous, wasKnown, wasStored⟩

/-- Methods stay fresh if none is new and they are found as before, or counted as
changed. -/
theorem MethodsFresh.of_kept (fresh : machine.MethodsFresh)
    (entries : next.methodCache.entries = machine.methodCache.entries)
    (later : machine.methodCache.generation ≤ next.methodCache.generation)
    (resolved : next.methodCache.generation = machine.methodCache.generation →
      ∀ handle name list found, machine.Lineage handle list →
        machine.resolve name list = some found →
        ∃ list, next.Lineage handle list ∧ next.resolve name list = some found) :
    next.MethodsFresh where
  bounded key entry stored := by
    rw [entries] at stored
    exact Nat.le_trans (fresh.bounded key entry stored) later
  current handle name entry stored isCurrent := by
    rw [entries] at stored
    have same : next.methodCache.generation = machine.methodCache.generation :=
      Nat.le_antisymm (isCurrent ▸ fresh.bounded _ entry stored) later
    obtain ⟨list, lineage, found⟩ := fresh.current handle name entry stored (isCurrent.trans same)
    exact resolved same handle name list _ lineage found

namespace Coherent

/-! ### Changes that keep all classes -/

/-- A machine with the same classes, whose counters may have grown. -/
theorem of_class? (coherent : machine.Coherent) (hierarchical : next.Hierarchical)
    (same : ∀ handle, next.class? handle = machine.class? handle)
    (entries : next.methodCache.entries = machine.methodCache.entries)
    (laterMethods : machine.methodCache.generation ≤ next.methodCache.generation)
    (laterHierarchy : machine.methodCache.hierarchy ≤ next.methodCache.hierarchy) :
    next.Coherent := by
  have lineages {handle : Handle} {list : List Handle} (lineage : machine.Lineage handle list) :
      next.Lineage handle list :=
    lineage.of_parents? fun member _ => by rw [parents?, parents?, same]
  refine ⟨hierarchical, ?_, ?_⟩
  · refine coherent.lists.of_kept ?_ laterHierarchy fun _ _ _ _ _ => lineages
    intro handle record cached known stored
    exact ⟨record, (same handle).symm.trans known, stored⟩
  · refine coherent.methods.of_kept entries laterMethods ?_
    intro _ handle name list found lineage resolved
    refine ⟨list, lineages lineage, (resolve_congr fun owner _ => ?_).trans resolved⟩
    rw [ownMethod?, ownMethod?, same]

/-- Another class as a core class. -/
theorem setCoreClass (coherent : machine.Coherent) (core : CoreClass)
    (given : machine.IsClassOrNull handle) :
    Coherent { machine with coreClasses := machine.coreClasses.insert core handle } := by
  refine coherent.of_class? ?_ (fun _ => rfl) rfl (Nat.le_refl _) (Nat.le_refl _)
  refine coherent.hierarchical.of_parents? coherent.hierarchical.wellFormed (fun _ => rfl)
    coherent.hierarchical.classes fun other => ?_
  rw [coreClass, Table.get?_insert]
  split
  · exact given
  · exact coherent.hierarchical.coreClasses other

/-- Another object under a handle, which stores the same class if it is one. -/
theorem rewrite (coherent : machine.Coherent) {change : Object → Object}
    (classes : ∀ object, machine.heap.get? handle = some object →
      machine.IsClassOrNull (change object).classHandle)
    (same : ∀ other, (machine.rewrite handle change).class? other = machine.class? other) :
    (machine.rewrite handle change).Coherent := by
  refine coherent.of_class? ?_ same rfl (Nat.le_refl _) (Nat.le_refl _)
  refine coherent.hierarchical.rewrite classes fun other => ?_
  rw [parents?, parents?, same]

theorem bump (coherent : machine.Coherent) (methods hierarchy : Nat) :
    (machine.bump methods hierarchy).Coherent := by
  have hierarchical : (machine.bump methods hierarchy).Hierarchical :=
    coherent.hierarchical.of_parents? coherent.hierarchical.wellFormed (fun _ => rfl)
      coherent.hierarchical.classes coherent.hierarchical.coreClasses
  exact coherent.of_class? hierarchical (fun _ => rfl) rfl (Nat.le_add_right _ _)
    (Nat.le_add_right _ _)

/-! ### Changes of one class -/

theorem ancestors_setClass (known : machine.class? handle = some record)
    (same : changed.ancestors = record.ancestors) {other : Handle} {otherRecord : ClassRecord}
    (isKnown : (machine.setClass handle changed).class? other = some otherRecord) :
    ∃ record, machine.class? other = some record ∧ record.ancestors = otherRecord.ancestors := by
  rw [class?_setClass known] at isKnown
  split at isKnown
  · rename_i isHandle
    obtain rfl := Option.some.inj isKnown
    exact ⟨record, isHandle ▸ known, same.symm⟩
  · exact ⟨otherRecord, isKnown, rfl⟩

theorem listsFresh_setClass (fresh : machine.ListsFresh)
    (known : machine.class? handle = some record) (sameParents : changed.parents = record.parents)
    (sameList : changed.ancestors = record.ancestors) :
    (machine.setClass handle changed).ListsFresh := by
  refine fresh.of_kept ?_ (Nat.le_refl _) ?_
  · intro other otherRecord cached isKnown stored
    obtain ⟨previous, wasKnown, same⟩ := ancestors_setClass known sameList isKnown
    exact ⟨previous, wasKnown, same.trans stored⟩
  · intro _ other _ list _ lineage
    exact lineage.of_parents? fun member _ =>
      Hierarchical.parents?_setClass_of_parents known sameParents member

/-- Another record of a class with the same parents and the same cached list, where methods
are found as before. -/
theorem setClass (coherent : machine.Coherent) (known : machine.class? handle = some record)
    (sameParents : changed.parents = record.parents)
    (sameList : changed.ancestors = record.ancestors)
    (resolved : ∀ name list found, machine.resolve name list = some found →
      (machine.setClass handle changed).resolve name list = some found) :
    (machine.setClass handle changed).Coherent := by
  refine ⟨coherent.hierarchical.setClass known sameParents,
    listsFresh_setClass coherent.lists known sameParents sameList, ?_⟩
  refine coherent.methods.of_kept rfl (Nat.le_refl _) ?_
  intro _ other name list found lineage isFound
  refine ⟨list, ?_, resolved name list found isFound⟩
  exact lineage.of_parents? fun member _ =>
    Hierarchical.parents?_setClass_of_parents known sameParents member

theorem ownMethod?_setClass (known : machine.class? handle = some record) (changed : ClassRecord)
    (name : Symbol) (owner : Handle) :
    (machine.setClass handle changed).ownMethod? name owner =
      if owner = handle then (changed.methods.get? name).map fun method => { method, owner }
      else machine.ownMethod? name owner := by
  rw [ownMethod?, class?_setClass known]
  split
  · rfl
  · rfl

/-- A change of nothing that the caches depend on. -/
theorem setClass_same (coherent : machine.Coherent) (known : machine.class? handle = some record)
    (sameParents : changed.parents = record.parents)
    (sameList : changed.ancestors = record.ancestors)
    (sameMethods : changed.methods = record.methods) :
    (machine.setClass handle changed).Coherent := by
  refine coherent.setClass known sameParents sameList fun name list found resolved => ?_
  rw [← resolved]
  refine resolve_congr fun owner _ => ?_
  rw [ownMethod?_setClass known, sameMethods]
  split
  · rename_i isHandle
    rw [ownMethod?, isHandle, known, Option.bind_some]
  · rfl

/-- The removal of an entry that is no method. -/
theorem discardMethod (coherent : machine.Coherent) (known : machine.class? handle = some record)
    {name : Symbol}
    (isUndefined : ∀ method, record.methods.get? name = some method → method = .undefined) :
    (machine.setClass handle { record with methods := record.methods.erase name }).Coherent := by
  refine coherent.setClass known rfl rfl fun other list found resolved => ?_
  refine resolve_of_discarded resolved fun owner => ?_
  rw [ownMethod?_setClass known, Table.get?_erase]
  by_cases isHandle : owner = handle
  · rw [if_pos isHandle, ownMethod?, isHandle, known, Option.bind_some]
    by_cases isName : name = other
    · rw [if_pos isName, ← isName]
      refine .inr ⟨rfl, fun entry isEntry => ?_⟩
      obtain ⟨method, stored, rfl⟩ := Option.map_eq_some_iff.mp isEntry
      exact isUndefined method stored
    · rw [if_neg isName]
      exact .inl rfl
  · rw [if_neg isHandle]
    exact .inl rfl

/-- Methods that may be found otherwise than before are counted as changed. -/
theorem methodsFresh_of_later (fresh : machine.MethodsFresh)
    (entries : next.methodCache.entries = machine.methodCache.entries)
    (later : machine.methodCache.generation < next.methodCache.generation) :
    next.MethodsFresh :=
  fresh.of_kept entries (Nat.le_of_lt later) fun same => absurd same (Nat.ne_of_gt later)

/-- Another record of a class with the same parents, counted as a change of methods. -/
theorem changeMethods (coherent : machine.Coherent) (known : machine.class? handle = some record)
    (sameParents : changed.parents = record.parents)
    (sameList : changed.ancestors = record.ancestors) :
    ((machine.setClass handle changed).bump 1 0).Coherent := by
  have hierarchical := coherent.hierarchical.setClass known sameParents
  refine ⟨hierarchical.of_parents? hierarchical.wellFormed (fun _ => rfl) hierarchical.classes
    hierarchical.coreClasses, ?_, methodsFresh_of_later coherent.methods rfl (Nat.lt_succ_self _)⟩
  refine (listsFresh_setClass coherent.lists known sameParents sameList).of_kept ?_ (Nat.le_refl _) ?_
  · exact fun _ record _ isKnown stored => ⟨record, isKnown, stored⟩
  · exact fun _ _ _ _ _ lineage => lineage.of_parents? fun _ _ => rfl

/-- One more parent that does not have the class among its ancestors, counted as a change
of methods and of the hierarchy. -/
theorem addParent (coherent : machine.Coherent) (known : machine.class? handle = some record)
    {parent : Handle} {list : List Handle} (cached : machine.cachedAncestors? parent = some list)
    (outside : handle ∉ list)
    (parents : ∀ other ∈ changed.parents, other = parent ∨ other ∈ record.parents)
    (sameList : changed.ancestors = record.ancestors) :
    ((machine.setClass handle changed).bump 1 1).Coherent := by
  have lineage := coherent.lists.current parent list cached
  have hierarchical := coherent.hierarchical.addParent known lineage outside parents
  refine ⟨hierarchical.of_parents? hierarchical.wellFormed (fun _ => rfl) hierarchical.classes
    hierarchical.coreClasses, ?_, methodsFresh_of_later coherent.methods rfl (Nat.lt_succ_self _)⟩
  refine coherent.lists.of_kept ?_ (Nat.le_succ _) fun same => absurd same (Nat.succ_ne_self _)
  intro other otherRecord cached isKnown stored
  rw [class?_bump] at isKnown
  obtain ⟨previous, wasKnown, same⟩ := ancestors_setClass known sameList isKnown
  exact ⟨previous, wasKnown, same.trans stored⟩

/-! ### Allocation and collection -/

/-- A new class without a cached list, whose parents are classes. -/
theorem allocateClass (coherent : machine.Coherent) {object : Object}
    (isClass : object.class? = some record) (isNew : record.ancestors = none)
    (given : machine.IsClassOrNull object.classHandle)
    (parents : ∀ parent ∈ record.parents, ∃ record, machine.class? parent = some record) :
    (machine.allocate object).Coherent := by
  have hierarchical := coherent.hierarchical.allocateClass isClass given parents
  have wellFormed := coherent.hierarchical.wellFormed
  have kept {handle : Handle} {record : ClassRecord} (known : machine.class? handle = some record) :
      (machine.allocate object).class? handle = some record := by
    rw [Hierarchical.class?_allocate wellFormed, if_neg, known]
    rintro rfl
    cases known.symm.trans (Hierarchical.class?_place_snd wellFormed object)
  have extended {handle : Handle} {list : List Handle} (lineage : machine.Lineage handle list) :
      (machine.allocate object).Lineage handle list := by
    refine lineage.of_parents? fun member isMember => ?_
    obtain ⟨record, known⟩ := lineage.class?_of_mem isMember
    rw [parents?, parents?, known, kept known]
  refine ⟨hierarchical, ?_, ?_⟩
  · refine coherent.lists.of_kept ?_ (Nat.le_refl _) fun _ _ _ _ _ => extended
    intro handle otherRecord cached known stored
    rw [Hierarchical.class?_allocate wellFormed] at known
    split at known
    · obtain rfl := Option.some.inj (isClass.symm.trans known)
      cases isNew.symm.trans stored
    · exact ⟨otherRecord, known, stored⟩
  · refine coherent.methods.of_kept rfl (Nat.le_refl _) ?_
    intro _ handle name list found lineage resolved
    refine ⟨list, extended lineage, (resolve_congr fun owner isOwner => ?_).trans resolved⟩
    obtain ⟨record, known⟩ := lineage.class?_of_mem isOwner
    rw [ownMethod?, ownMethod?, known, kept known]

theorem collect (coherent : machine.Coherent) : machine.collect.Coherent := by
  have cache : machine.collect.methodCache = _ := methodCache_collect
  refine ⟨coherent.hierarchical.collect, ?_, ?_, ?_⟩
  · refine coherent.lists.of_kept ?_ ?_ ?_
    · intro handle record cached known stored
      obtain ⟨object, found, isClass⟩ := Option.bind_eq_some_iff.mp known
      refine ⟨record, ?_, stored⟩
      rw [class?, (reachable_of_get?_collect found).2, Option.bind_some, isClass]
    · exact Nat.le_of_eq (congrArg MethodCache.hierarchy cache).symm
    · intro _ handle record list known lineage
      exact Hierarchical.lineage_collect lineage known
  · intro key entry stored
    rw [cache] at stored
    simp at stored
  · intro handle name entry stored
    rw [cache] at stored
    simp at stored

end Coherent

end RiteVm.Machine
