import RiteVm.Proofs.ClassGraph.Order
import RiteVm.Proofs.ClassGraph.Records

/-!
Contract: ancestor lists are exact in every class graph, before and after an inclusion.

Owns:
- what an inclusion does: nothing where the module is an ancestor already, an exception
  where it would close a cycle, and one more link otherwise;
- what is right about an ancestor list and about the inclusion of any module in a class, in
  every sound machine.
-/

namespace RiteVm

namespace Machine

variable {machine next : Machine} {handle module other : Handle} {list more : List Handle}
  {record : ClassRecord}

/-! ### Inclusion -/

/-- Whether an object can be changed. -/
def IsOpen (machine : Machine) (handle : Handle) : Prop :=
  ∀ object, machine.heap.get? handle = some object → object.frozen = false

/-- An inclusion succeeds only for a module and for a class that can be changed. -/
theorem of_includeModule (included : VM.includeModule handle module machine = .ok ⟨⟩ next) :
    machine.kind? module = some .module ∧ (∃ record, machine.class? handle = some record) ∧
      machine.IsOpen handle := by
  rw [VM.includeModule] at included
  obtain ⟨refused, _, read, included⟩ := VM.bind_eq_ok_iff.mp included
  obtain ⟨isModule, isRead, rfl, isRefused⟩ := VM.map_liftM_eq_ok_iff.mp read
  cases isModule with
  | false =>
      rw [← isRefused] at included
      obtain ⟨_, _, _, included⟩ := VM.bind_eq_ok_iff.mp included
      obtain ⟨_, _, _, included⟩ := VM.bind_eq_ok_iff.mp included
      obtain ⟨_, _, raised, _⟩ := VM.bind_eq_ok_iff.mp included
      exact absurd raised VM.raise_ne_ok
  | true =>
      rw [← isRefused] at included
      obtain ⟨_, _, checked, _⟩ := VM.bind_eq_ok_iff.mp included
      obtain ⟨rfl, isClass, isOpen⟩ := VM.checkFrozenClass_eq_ok_iff.mp checked
      exact ⟨Query.isModule_eq_ok_iff.mp isRead, isClass, isOpen⟩

/-- What the inclusion of a module in a class that can be changed does: it computes the two
ancestor lists and then does nothing, raises or adds the link. -/
theorem includeModule_eq (coherent : machine.Coherent) (lineage : machine.Lineage handle list)
    (ofModule : machine.Lineage module more) (isModule : machine.kind? module = some .module)
    (isOpen : machine.IsOpen handle) :
    ∃ between record, machine.SameButLists between ∧
      (∀ other, between.record? other = machine.record? other) ∧
      between.class? handle = some record ∧
      VM.includeModule handle module machine =
        if module ∈ list then .ok ⟨⟩ between
        else if handle ∈ more then VM.raise .argumentError "cyclic include detected" between
        else .ok ⟨⟩ ((between.setClass handle
          { record with includes := record.includes.push module }).bump 1 1) := by
  have accepted : ((! ·) <$> (liftM (Query.isModule (.object module)) : VM Bool)) machine =
      .ok false machine :=
    VM.map_liftM_eq_ok_iff.mpr ⟨true, Query.isModule_eq_ok_iff.mpr isModule, rfl, rfl⟩
  have checked : VM.checkFrozenClass handle machine = .ok ⟨⟩ machine :=
    VM.checkFrozenClass_eq_ok_iff.mpr ⟨rfl, lineage.class?_of_mem lineage.mem_self, isOpen⟩
  have lists := VM.caches_ancestors coherent lineage
  obtain ⟨listed, isListed⟩ := lists.returns trivial
  have sameFirst := lists.same
  have coherentFirst := lists.coherent
  have wellFormed := coherent.hierarchical.wellFormed
  have recordsFirst := ((VM.KeepsRecords.ancestors handle).keeps machine wellFormed).2
  rw [VM.after_of_ok isListed] at sameFirst coherentFirst recordsFirst
  have classAt {between : Machine} (same : machine.SameButLists between) :
      ∃ record, between.class? handle = some record :=
    (same.lineage lineage).class?_of_mem (same.lineage lineage).mem_self
  by_cases present : module ∈ list
  · obtain ⟨record, known⟩ := classAt sameFirst
    refine ⟨listed, record, sameFirst, recordsFirst, known, ?_⟩
    rw [VM.includeModule, VM.bind_of_ok accepted]
    dsimp only
    rw [if_neg Bool.false_ne_true, VM.bind_of_ok checked, VM.bind_of_ok isListed, if_pos present,
      if_pos (List.contains_iff_mem.mpr present)]
    rfl
  · have moduleLists := VM.caches_ancestors coherentFirst (sameFirst.lineage ofModule)
    obtain ⟨between, isListedToo⟩ := moduleLists.returns trivial
    have same := sameFirst.trans moduleLists.same
    have records := ((VM.KeepsRecords.ancestors module).keeps listed
      coherentFirst.hierarchical.wellFormed).2
    rw [VM.after_of_ok isListedToo] at same records
    obtain ⟨record, known⟩ := classAt same
    refine ⟨between, record, same, fun other => (records other).trans (recordsFirst other),
      known, ?_⟩
    rw [VM.includeModule, VM.bind_of_ok accepted]
    dsimp only
    rw [if_neg Bool.false_ne_true, VM.bind_of_ok checked, VM.bind_of_ok isListed, if_neg present,
      if_neg (fun contained => present (List.contains_iff_mem.mp contained)),
      VM.bind_of_ok isListedToo]
    by_cases cyclic : handle ∈ more
    · rw [if_pos cyclic, if_pos (List.contains_iff_mem.mpr cyclic)]
      obtain ⟨failure, last, raised⟩ : ∃ failure last,
          (VM.raise .argumentError "cyclic include detected" : VM PUnit) between =
            .error failure last := by
        cases outcome : (VM.raise .argumentError "cyclic include detected" : VM PUnit) between with
        | ok => exact absurd outcome VM.raise_ne_ok
        | error failure last => exact ⟨failure, last, rfl⟩
      rw [raised]
      exact VM.bind_of_error raised
    · rw [if_neg cyclic, if_neg (fun contained => cyclic (List.contains_iff_mem.mp contained))]
      exact VM.bind_of_ok (VM.modifyClass_of_class? known)

/-- Behind an inclusion that succeeds, the module is an ancestor of the class, and no link is
lost. -/
theorem descends_of_includeModule (sound : machine.Sound)
    (included : VM.includeModule handle module machine = .ok ⟨⟩ next) :
    (∃ record, next.class? handle = some record) ∧ next.DescendsFrom handle module ∧
      ∀ other ancestor, machine.DescendsFrom other ancestor → next.DescendsFrom other ancestor := by
  have coherent := sound.coherent
  obtain ⟨isModule, ⟨record, known⟩, isOpen⟩ := of_includeModule included
  obtain ⟨moduleRecord, isModuleClass, -⟩ := Option.map_eq_some_iff.mp isModule
  obtain ⟨list, lineage⟩ := coherent.hierarchical.lineages handle record known
  obtain ⟨more, ofModule⟩ := coherent.hierarchical.lineages module moduleRecord isModuleClass
  obtain ⟨between, record, same, -, isKnown, outcome⟩ :=
    includeModule_eq coherent lineage ofModule isModule isOpen
  rw [outcome] at included
  have monotone {last : Machine} (links : ∀ other parent, between.Inherits other parent →
      last.Inherits other parent) (other ancestor : Handle)
      (descends : machine.DescendsFrom other ancestor) : last.DescendsFrom other ancestor :=
    Relation.ReflTransGen.mono (fun other parent (inherits : machine.Inherits other parent) =>
      links other parent (inherits.of_parents? (same.parents other))) _ _ descends
  split at included
  · rename_i present
    cases included
    have kept := monotone fun _ _ inherits => inherits
    exact ⟨⟨record, isKnown⟩, kept handle module (lineage.mem_iff_descends.mp present), kept⟩
  · split at included
    · exact absurd included VM.raise_ne_ok
    · cases included
      have links (other parent : Handle) (inherits : between.Inherits other parent) :
          ((between.setClass handle { record with
            includes := record.includes.push module }).bump 1 1).Inherits other parent := by
        obtain ⟨otherRecord, isOther, linked⟩ := inherits
        rw [Inherits, class?_bump, class?_setClass isKnown]
        split
        · rename_i isHandle
          rw [isHandle, isKnown] at isOther
          obtain rfl := Option.some.inj isOther
          exact ⟨_, rfl, linked.imp_right fun wasIncluded => Array.mem_push_of_mem _ wasIncluded⟩
        · exact ⟨otherRecord, isOther, linked⟩
      have isChanged := class?_setClass isKnown
        { record with includes := record.includes.push module } handle
      rw [if_pos rfl] at isChanged
      exact ⟨⟨_, isChanged⟩, .single ⟨_, isChanged, .inr Array.mem_push_self⟩, monotone links⟩

/-! ### Exact lists and inclusions -/

/-- What is right about the ancestor list of a class. The list is computed whatever is
cached. A superclass is a module only above the singleton class of an object that a host made
an instance of this module. -/
structure ListsAncestors (machine : Machine) (handle : Handle) (list : List Handle) : Prop where
  computed : ∃ next, VM.ancestors handle machine = .ok list next ∧ machine.SameButLists next
  head : list.head? = some handle
  nodup : list.Nodup
  members : ∀ other, other ∈ list ↔ machine.DescendsFrom handle other
  acyclic : ¬ Relation.TransGen machine.Inherits handle handle
  hasSuperclasses : ∃ chain, machine.Superclasses handle chain
  /-- the superclass chain stands in the list in its order -/
  ordered : ∀ chain, machine.Superclasses handle chain →
    (machine.kind? handle ≠ some .singleton ∨
      ∀ parent ∈ chain.tail, machine.kind? parent ≠ some .module) → chain.Sublist list
  /-- the classes in the list are those of the superclass chain in its order, in any case -/
  classes : ∀ chain, machine.Superclasses handle chain →
    chain ⊆ list ∧ list.filter machine.isNoModule = chain.filter machine.isNoModule
  cached : ∀ cached, machine.cachedAncestors? handle = some cached → cached = list
  fresh : Query.freshAncestors handle machine = .ok list

/-- What is right about the inclusion of a module in a class with an ancestor list. -/
structure IncludesExactly (machine : Machine) (handle : Handle) (list : List Handle)
    (module : Handle) : Prop where
  /-- an ancestor is not included again, and no class changes -/
  again : module ∈ list → machine.kind? module = some .module → machine.IsOpen handle →
    ∃ next, VM.includeModule handle module machine = .ok ⟨⟩ next ∧ machine.SameButLists next ∧
      ∀ other, next.record? other = machine.record? other
  /-- an included module is an ancestor of the class and of everything above which it stands -/
  reaches : ∀ next, VM.includeModule handle module machine = .ok ⟨⟩ next →
    (∀ other ancestor, machine.DescendsFrom other ancestor → next.DescendsFrom other ancestor) ∧
      ∀ other, next.DescendsFrom other handle →
        ∃ otherList last, VM.ancestors other next = .ok otherList last ∧ module ∈ otherList
  /-- an inclusion that would close a cycle is refused -/
  cyclic : module ∉ list → machine.DescendsFrom module handle →
    (∀ next, VM.includeModule handle module machine ≠ .ok ⟨⟩ next) ∧
      (machine.kind? module = some .module → machine.IsOpen handle →
        ∃ between, machine.SameButLists between ∧
          VM.includeModule handle module machine =
            VM.raise .argumentError "cyclic include detected" between)
  /-- a refused inclusion changes no class -/
  refused : ∀ failure next, VM.includeModule handle module machine = .error failure next →
    ∀ other, next.record? other = machine.record? other

theorem Sound.listsAncestors (sound : machine.Sound) (graded : machine.Graded)
    (lineage : machine.Lineage handle list) : machine.ListsAncestors handle list where
  computed := by
    have lists := VM.caches_ancestors sound.coherent lineage
    obtain ⟨next, computed⟩ := lists.returns trivial
    exact ⟨next, computed, VM.after_of_ok computed ▸ lists.same⟩
  head := lineage.head?
  nodup := lineage.nodup
  members _ := lineage.mem_iff_descends
  acyclic := lineage.acyclic
  hasSuperclasses := lineage.exists_superclasses
  ordered chain superclasses inOrder := by
    refine graded.sublist_lineage lineage superclasses fun parent isAbove isModule => ?_
    rcases inOrder with noSingleton | noModule
    · obtain ⟨record, known⟩ := lineage.class?_of_mem lineage.mem_self
      rw [kind?_of_class? known] at noSingleton
      cases kind : record.kind with
      | ordinary =>
          have isOrdinary := graded.superclasses_ordinary superclasses
            ((kind?_of_class? known).trans (congrArg some kind)) parent
            (List.mem_of_mem_tail isAbove)
          cases isModule.symm.trans isOrdinary
      | module =>
          have admitted := graded.superclasses handle record known
          rw [kind] at admitted
          cases superclasses with
          | top _ _ => cases isAbove
          | step isKnown inherits _ =>
              obtain rfl := Option.some.inj (known.symm.trans isKnown)
              cases admitted.symm.trans inherits
      | singleton => exact noSingleton (congrArg some kind)
    · exact noModule parent isAbove isModule
  classes chain superclasses :=
    ⟨fun other isMember => lineage.mem_iff_descends.mpr (superclasses.descends other isMember),
      graded.filter_lineage lineage superclasses⟩
  cached _ isCached := (sound.coherent.lists.current handle _ isCached).unique lineage
  fresh := lineage.freshAncestors_eq

theorem Sound.includesExactly (sound : machine.Sound) (lineage : machine.Lineage handle list)
    (module : Handle) : machine.IncludesExactly handle list module where
  again present isModule isOpen := by
    obtain ⟨more, ofModule, -⟩ := lineage.of_mem present
    obtain ⟨between, record, same, records, -, outcome⟩ :=
      includeModule_eq sound.coherent lineage ofModule isModule isOpen
    exact ⟨between, outcome.trans (if_pos present), same, records⟩
  reaches next included := by
    obtain ⟨isClass, descends, monotone⟩ := descends_of_includeModule sound included
    refine ⟨monotone, fun other above => ?_⟩
    have evolution := (VM.Evolves.includeModule handle module).evolvesFrom machine
    rw [VM.EvolvesFrom, VM.after_of_ok included] at evolution
    have coherent := (sound.of_evolution evolution).coherent
    obtain ⟨record, known⟩ : ∃ record, next.class? other = some record := by
      rcases Relation.ReflTransGen.cases_head above with rfl | ⟨_, ⟨record, known, -⟩, -⟩
      · exact isClass
      · exact ⟨record, known⟩
    obtain ⟨otherList, ofOther⟩ := coherent.hierarchical.lineages other record known
    obtain ⟨last, computed⟩ := (VM.caches_ancestors coherent ofOther).returns trivial
    exact ⟨otherList, last, computed, ofOther.mem_iff_descends.mpr (above.trans descends)⟩
  cyclic absent above := by
    have refuses (isModule : machine.kind? module = some .module) (isOpen : machine.IsOpen handle) :
        ∃ between, machine.SameButLists between ∧
          VM.includeModule handle module machine =
            VM.raise .argumentError "cyclic include detected" between := by
      obtain ⟨moduleRecord, isModuleClass, -⟩ := Option.map_eq_some_iff.mp isModule
      obtain ⟨more, ofModule⟩ :=
        sound.coherent.hierarchical.lineages module moduleRecord isModuleClass
      obtain ⟨between, record, same, -, -, outcome⟩ :=
        includeModule_eq sound.coherent lineage ofModule isModule isOpen
      rw [if_neg absent, if_pos (ofModule.mem_iff_descends.mpr above)] at outcome
      exact ⟨between, same, outcome⟩
    refine ⟨fun next included => ?_, refuses⟩
    obtain ⟨isModule, -, isOpen⟩ := of_includeModule included
    obtain ⟨between, -, raised⟩ := refuses isModule isOpen
    exact VM.raise_ne_ok (raised.symm.trans included)
  refused _ _ failed :=
    VM.FailsCleanly.cleanly sound.coherent.hierarchical.wellFormed failed

end Machine

end RiteVm
