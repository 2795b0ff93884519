import Mathlib.Data.List.Basic
import RiteVm.Proofs.ClassGraph.Kinds

/-!
Contract: what an ancestor list consists of, and its order.

Owns:
- the links between classes, and that no class can be reached from itself through them;
- that the members of a lineage are the classes and modules that can be reached;
- the chain of superclasses, and that the classes in a lineage, without the modules, are
  those of the chain in its order.
-/

namespace RiteVm

/-! ### Merging lists -/

section Merging

variable {list more : List Handle} {lists : List (List Handle)} (keep : Handle → Bool)

theorem filter_appendNew :
    (appendNew list more).filter keep = appendNew (list.filter keep) (more.filter keep) := by
  rw [appendNew, appendNew]
  induction more generalizing list with
  | nil => rfl
  | cons first rest inductionHypothesis =>
      rw [List.foldl_cons, inductionHypothesis, List.filter_cons]
      by_cases isPresent : first ∈ list <;> by_cases isKept : keep first <;>
        simp [isPresent, isKept]

theorem filter_foldl_appendNew :
    (lists.foldl appendNew list).filter keep =
      (lists.map (List.filter keep)).foldl appendNew (list.filter keep) := by
  induction lists generalizing list with
  | nil => rfl
  | cons first rest inductionHypothesis =>
      rw [List.foldl_cons, inductionHypothesis, filter_appendNew, List.map_cons, List.foldl_cons]

theorem appendNew_of_disjoint (nodup : more.Nodup) (isNew : ∀ handle ∈ more, handle ∉ list) :
    appendNew list more = list ++ more := by
  rw [appendNew]
  induction more generalizing list with
  | nil => exact (List.append_nil list).symm
  | cons first rest inductionHypothesis =>
      obtain ⟨notRepeated, nodupRest⟩ := List.nodup_cons.mp nodup
      rw [List.foldl_cons, if_neg (isNew first List.mem_cons_self),
        inductionHypothesis nodupRest, List.append_assoc, List.singleton_append]
      intro handle inRest
      rw [List.mem_append, List.mem_singleton, not_or]
      refine ⟨isNew handle (List.mem_cons_of_mem _ inRest), ?_⟩
      rintro rfl
      exact notRepeated inRest

theorem foldl_appendNew_of_empty (empty : ∀ more ∈ lists, more = []) :
    lists.foldl appendNew list = list := by
  induction lists with
  | nil => rfl
  | cons first rest inductionHypothesis =>
      rw [List.foldl_cons, empty first List.mem_cons_self]
      exact inductionHypothesis fun more inRest => empty more (List.mem_cons_of_mem _ inRest)

/-- A list with a first element that is not dropped starts with it, whatever is merged. -/
theorem head?_foldl_appendNew (first : Handle) :
    (lists.foldl appendNew (first :: list)).head? = some first := by
  have single (more : List Handle) (list : List Handle) :
      ∃ rest, appendNew (first :: list) more = first :: rest := by
    rw [appendNew]
    induction more generalizing list with
    | nil => exact ⟨list, rfl⟩
    | cons next rest inductionHypothesis =>
        rw [List.foldl_cons]
        split
        · exact inductionHypothesis list
        · exact inductionHypothesis (list ++ [next])
  induction lists generalizing list with
  | nil => rfl
  | cons more rest inductionHypothesis =>
      obtain ⟨merged, isMerged⟩ := single more list
      rw [List.foldl_cons, isMerged]
      exact inductionHypothesis

end Merging

namespace Machine

variable {machine next : Machine} {handle parent other : Handle} {list more chain : List Handle}
  {record : ClassRecord}

/-! ### Links -/

/-- A class takes over directly from its superclass and from the modules it includes. -/
def Inherits (machine : Machine) (handle parent : Handle) : Prop :=
  ∃ record, machine.class? handle = some record ∧
    (record.superclass = some parent ∨ parent ∈ record.includes)

/-- What can be reached from a class through superclasses and included modules. -/
abbrev DescendsFrom (machine : Machine) : Handle → Handle → Prop :=
  Relation.ReflTransGen machine.Inherits

theorem inherits_iff :
    machine.Inherits handle parent ↔
      ∃ parents, machine.parents? handle = some parents ∧ parent ∈ parents := by
  have isParent (record : ClassRecord) : parent ∈ record.parents ↔
      record.superclass = some parent ∨ parent ∈ record.includes := by
    simp [ClassRecord.parents, or_comm]
  constructor
  · rintro ⟨record, known, linked⟩
    exact ⟨_, parents?_of_class? known, (isParent record).mpr linked⟩
  · rintro ⟨parents, isKnown, linked⟩
    obtain ⟨record, known, rfl⟩ := Option.map_eq_some_iff.mp isKnown
    exact ⟨record, known, (isParent record).mp linked⟩

theorem Inherits.of_parents? (inherits : machine.Inherits handle parent)
    (same : next.parents? handle = machine.parents? handle) : next.Inherits handle parent := by
  obtain ⟨parents, known, isParent⟩ := inherits_iff.mp inherits
  exact inherits_iff.mpr ⟨parents, same.trans known, isParent⟩

/-- The members of a lineage are what can be reached. -/
theorem Lineage.mem_iff_descends (lineage : machine.Lineage handle list) :
    other ∈ list ↔ machine.DescendsFrom handle other := by
  constructor
  · intro isMember
    have whole := lineage
    induction lineage with
    | @intro handle parents lineageOf known lineages inductionHypothesis =>
        rcases whole.mem_cases isMember with
          rfl | ⟨_, parent, _, isKnown, isParent, ofParent, inMore, -⟩
        · exact .refl
        · obtain rfl := Option.some.inj (known.symm.trans isKnown)
          obtain rfl := ofParent.unique (lineages parent isParent)
          exact .head (inherits_iff.mpr ⟨_, known, isParent⟩)
            (inductionHypothesis parent isParent inMore ofParent)
  · intro descends
    induction descends with
    | refl => exact lineage.mem_self
    | tail _ inherits inductionHypothesis =>
        obtain ⟨more, isLineage, within⟩ := lineage.of_mem inductionHypothesis
        obtain ⟨parents, known, isParent⟩ := inherits_iff.mp inherits
        obtain ⟨inherited, ofParent, withinToo⟩ := isLineage.of_parent known isParent
        exact within (withinToo ofParent.mem_self)

/-- No class can be reached from itself. -/
theorem Lineage.acyclic (lineage : machine.Lineage handle list) :
    ¬ Relation.TransGen machine.Inherits handle handle := by
  intro cycle
  obtain ⟨parent, inherits, descends⟩ := Relation.TransGen.head'_iff.mp cycle
  obtain ⟨parents, known, isParent⟩ := inherits_iff.mp inherits
  obtain ⟨more, ofParent, -⟩ := lineage.of_parent known isParent
  exact lineage.not_mem_of_parent known isParent ofParent (ofParent.mem_iff_descends.mpr descends)

theorem Lineage.head? (lineage : machine.Lineage handle list) : list.head? = some handle := by
  obtain ⟨lineageOf, known, lineages⟩ := lineage
  exact head?_foldl_appendNew handle

/-! ### Superclasses -/

/-- A class, its superclass, the superclass of this one and so on. -/
inductive Superclasses (machine : Machine) : Handle → List Handle → Prop where
  | top {handle : Handle} {record : ClassRecord} :
      machine.class? handle = some record → record.superclass = none →
      Superclasses machine handle [handle]
  | step {handle parent : Handle} {record : ClassRecord} {chain : List Handle} :
      machine.class? handle = some record → record.superclass = some parent →
      Superclasses machine parent chain → Superclasses machine handle (handle :: chain)

/-- Whether a handle leads to something else than a module. -/
def isNoModule (machine : Machine) (handle : Handle) : Bool :=
  machine.kind? handle ≠ some .module

theorem isNoModule_iff : machine.isNoModule handle = true ↔ machine.kind? handle ≠ some .module :=
  decide_eq_true_iff

theorem Lineage.exists_superclasses (lineage : machine.Lineage handle list) :
    ∃ chain, machine.Superclasses handle chain := by
  induction lineage with
  | @intro handle parents lineageOf known lineages inductionHypothesis =>
      obtain ⟨record, isClass, rfl⟩ := Option.map_eq_some_iff.mp known
      cases inherits : record.superclass with
      | none => exact ⟨[handle], .top isClass inherits⟩
      | some parent =>
          obtain ⟨chain, above⟩ :=
            inductionHypothesis parent (by simp [ClassRecord.parents, inherits])
          exact ⟨handle :: chain, .step isClass inherits above⟩

theorem Superclasses.descends (superclasses : machine.Superclasses handle chain) :
    ∀ other ∈ chain, machine.DescendsFrom handle other := by
  induction superclasses with
  | top _ _ =>
      rintro other isMember
      rw [List.mem_singleton.mp isMember]
  | step known inherits _ inductionHypothesis =>
      intro other isMember
      rcases List.mem_cons.mp isMember with rfl | isAbove
      · exact .refl
      · exact .head ⟨_, known, .inl inherits⟩ (inductionHypothesis other isAbove)

namespace Graded

/-- Only modules can be reached from a module. -/
theorem descends_module (graded : machine.Graded) (isModule : machine.kind? handle = some .module)
    (descends : machine.DescendsFrom handle other) : machine.kind? other = some .module := by
  induction descends with
  | refl => exact isModule
  | tail _ inherits isModule =>
      obtain ⟨record, known, isSuperclass | isIncluded⟩ := inherits
      · have admitted := graded.superclasses _ record known
        rw [kind?_of_class? known] at isModule
        rw [Option.some.inj isModule, isSuperclass] at admitted
        cases admitted
      · exact graded.includes _ record known _ isIncluded

/-- The superclasses of an ordinary class are ordinary. -/
theorem superclasses_ordinary (graded : machine.Graded)
    (superclasses : machine.Superclasses handle chain)
    (isOrdinary : machine.kind? handle = some .ordinary) :
    ∀ other ∈ chain, machine.kind? other = some .ordinary := by
  induction superclasses with
  | top _ _ =>
      intro other isMember
      rw [List.mem_singleton.mp isMember, isOrdinary]
  | step known inherits _ inductionHypothesis =>
      have admitted := graded.superclasses _ _ known
      rw [kind?_of_class? known] at isOrdinary
      rw [Option.some.inj isOrdinary] at admitted
      intro other isMember
      rcases List.mem_cons.mp isMember with rfl | isAbove
      · rw [kind?_of_class? known, isOrdinary]
      · exact inductionHypothesis (admitted _ inherits) other isAbove

/-- The classes in a lineage are those of the superclass chain, in the same order. -/
theorem filter_lineage (graded : machine.Graded) (lineage : machine.Lineage handle list)
    (superclasses : machine.Superclasses handle chain) :
    list.filter machine.isNoModule = chain.filter machine.isNoModule := by
  induction lineage generalizing chain with
  | @intro handle parents lineageOf known lineages inductionHypothesis =>
      have whole := Lineage.intro lineageOf known lineages
      obtain ⟨record, isClass, rfl⟩ := Option.map_eq_some_iff.mp known
      -- the included modules contribute modules only
      have included : ∀ more ∈ (record.includes.toList.reverse.map lineageOf).map
          (List.filter machine.isNoModule), more = [] := by
        simp only [List.map_map, List.mem_map, Function.comp_apply, forall_exists_index, and_imp]
        rintro _ module inIncludes rfl
        have isIncluded : module ∈ record.includes := by simpa using inIncludes
        have isParent : module ∈ record.parents := by simp [ClassRecord.parents, isIncluded]
        refine List.filter_eq_nil_iff.mpr fun other isMember => ?_
        rw [isNoModule_iff, not_not]
        exact graded.descends_module (graded.includes handle record isClass module isIncluded)
          ((lineages module isParent).mem_iff_descends.mp isMember)
      rw [ClassRecord.parents, List.map_append, List.foldl_append, filter_foldl_appendNew,
        filter_foldl_appendNew, foldl_appendNew_of_empty included]
      cases superclasses with
      | top isKnown inherits =>
          obtain rfl := Option.some.inj (isClass.symm.trans isKnown)
          rw [inherits]
          rfl
      | @step _ parent other chain isKnown inherits above =>
          obtain rfl := Option.some.inj (isClass.symm.trans isKnown)
          have isParent : parent ∈ record.parents := by simp [ClassRecord.parents, inherits]
          have isNoModule : machine.isNoModule handle = true := by
            rw [isNoModule_iff, kind?_of_class? isClass]
            intro isModule
            have admitted := graded.superclasses handle record isClass
            rw [Option.some.inj isModule, inherits] at admitted
            cases admitted
          have ofParent := lineages parent isParent
          have isNew :
              ∀ other ∈ (lineageOf parent).filter machine.isNoModule, other ∉ [handle] := by
            intro other isMember isHandle
            rw [List.mem_singleton.mp isHandle] at isMember
            exact whole.not_mem_of_parent known isParent ofParent (List.mem_of_mem_filter isMember)
          rw [inherits]
          change appendNew ([handle].filter machine.isNoModule)
            ((lineageOf parent).filter machine.isNoModule) = _
          rw [List.filter_cons_of_pos isNoModule, List.filter_nil,
            appendNew_of_disjoint (ofParent.nodup.filter _) isNew,
            inductionHypothesis parent isParent above, List.filter_cons_of_pos isNoModule,
            List.singleton_append]

/-- A superclass chain stands in a lineage in its order, unless a module ends it. -/
theorem sublist_lineage (graded : machine.Graded) (lineage : machine.Lineage handle list)
    (superclasses : machine.Superclasses handle chain)
    (classes : ∀ other ∈ chain.tail, machine.kind? other ≠ some .module) : chain.Sublist list := by
  by_cases isModule : machine.kind? handle = some .module
  · have single : chain = [handle] := by
      cases superclasses with
      | top _ _ => rfl
      | step known inherits _ =>
          have admitted := graded.superclasses handle _ known
          rw [kind?_of_class? known] at isModule
          rw [Option.some.inj isModule, inherits] at admitted
          cases admitted
    rw [single, List.singleton_sublist]
    exact lineage.mem_self
  · have all : ∀ other ∈ chain, machine.isNoModule other = true := by
      intro other isMember
      rw [isNoModule_iff]
      cases superclasses with
      | top _ _ => exact List.mem_singleton.mp isMember ▸ isModule
      | step _ _ _ =>
          rcases List.mem_cons.mp isMember with rfl | isAbove
          · exact isModule
          · exact classes other isAbove
    rw [← List.filter_eq_self.mpr all, ← graded.filter_lineage lineage superclasses]
    exact List.filter_sublist

end Graded

end Machine

end RiteVm
