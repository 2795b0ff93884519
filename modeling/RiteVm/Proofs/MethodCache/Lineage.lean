import Mathlib.Data.List.Nodup
import Mathlib.Data.List.Perm.Subperm
import Mathlib.Tactic.Choose
import RiteVm.Proofs.Collector.Allocation
import RiteVm.Proofs.Evolution.Actions

/-!
Contract: the ancestors of a class as its superclass and its included modules give them.

Owns:
- the lineage of a class, which depends on no cached list and exists for a class only if
  no cycle can be reached from it;
- its uniqueness, its members, and its length, which shrinks from a class to its parents;
- the computation of ancestors that ignores every cached list.
-/

namespace RiteVm

/-! ### Merging lists -/

section Merging

variable {list more : List Handle} {lists : List (List Handle)} {handle : Handle}

theorem mem_appendNew : handle ∈ appendNew list more ↔ handle ∈ list ∨ handle ∈ more := by
  rw [appendNew]
  induction more generalizing list with
  | nil => simp
  | cons first rest inductionHypothesis =>
      rw [List.foldl_cons, inductionHypothesis, List.mem_cons]
      by_cases isPresent : first ∈ list
      · rw [if_pos isPresent]
        constructor
        · rintro (inList | inRest)
          · exact .inl inList
          · exact .inr (.inr inRest)
        · rintro (inList | rfl | inRest)
          · exact .inl inList
          · exact .inl isPresent
          · exact .inr inRest
      · rw [if_neg isPresent, List.mem_append, List.mem_singleton, or_assoc]

theorem nodup_appendNew (nodup : list.Nodup) : (appendNew list more).Nodup := by
  rw [appendNew]
  induction more generalizing list with
  | nil => exact nodup
  | cons first rest inductionHypothesis =>
      rw [List.foldl_cons]
      apply inductionHypothesis
      by_cases isPresent : first ∈ list
      · rw [if_pos isPresent]
        exact nodup
      · rw [if_neg isPresent]
        exact List.Nodup.append nodup (List.nodup_singleton first) (by simpa using isPresent)

theorem mem_foldl_appendNew :
    handle ∈ lists.foldl appendNew list ↔ handle ∈ list ∨ ∃ more ∈ lists, handle ∈ more := by
  induction lists generalizing list with
  | nil => simp
  | cons first rest inductionHypothesis =>
      rw [List.foldl_cons, inductionHypothesis, mem_appendNew, or_assoc, List.exists_mem_cons_iff]

theorem nodup_foldl_appendNew (nodup : list.Nodup) : (lists.foldl appendNew list).Nodup := by
  induction lists generalizing list with
  | nil => exact nodup
  | cons first rest inductionHypothesis => exact inductionHypothesis (nodup_appendNew nodup)

end Merging

namespace Machine

/-- The classes that a class takes over from directly. -/
def parents? (machine : Machine) (handle : Handle) : Option (List Handle) :=
  (machine.class? handle).map (·.parents)

/-- The ancestors of a class: the class itself, and the ancestors of its parents. -/
inductive Lineage (machine : Machine) : Handle → List Handle → Prop where
  | intro {handle : Handle} {parents : List Handle} (lineageOf : Handle → List Handle) :
      machine.parents? handle = some parents →
      (∀ parent ∈ parents, Lineage machine parent (lineageOf parent)) →
      Lineage machine handle ((parents.map lineageOf).foldl appendNew [handle])

variable {machine next : Machine} {handle parent : Handle} {list more parents : List Handle}

namespace Lineage

/-! ### Members -/

theorem mem_self (lineage : machine.Lineage handle list) : handle ∈ list := by
  obtain ⟨lineageOf, known, lineages⟩ := lineage
  exact mem_foldl_appendNew.mpr (.inl (List.mem_singleton_self handle))

theorem nodup (lineage : machine.Lineage handle list) : list.Nodup := by
  obtain ⟨lineageOf, known, lineages⟩ := lineage
  exact nodup_foldl_appendNew (List.nodup_singleton handle)

theorem exists_parents? (lineage : machine.Lineage handle list) :
    ∃ parents, machine.parents? handle = some parents := by
  obtain ⟨lineageOf, known, lineages⟩ := lineage
  exact ⟨_, known⟩

/-- A class has one lineage at most. -/
theorem unique (lineage : machine.Lineage handle list) (other : machine.Lineage handle more) :
    list = more := by
  induction lineage generalizing more with
  | @intro handle parents lineageOf known lineages inductionHypothesis =>
      obtain ⟨otherLineageOf, otherKnown, otherLineages⟩ := other
      obtain rfl : parents = _ := Option.some.inj (known.symm.trans otherKnown)
      have same : parents.map lineageOf = parents.map otherLineageOf :=
        List.map_congr_left fun parent isParent =>
          inductionHypothesis parent isParent (otherLineages parent isParent)
      rw [same]

/-- A parent has a lineage, all of which is inherited. -/
theorem of_parent (lineage : machine.Lineage handle list) (known : machine.parents? handle = some parents)
    (isParent : parent ∈ parents) : ∃ more, machine.Lineage parent more ∧ more ⊆ list := by
  obtain ⟨lineageOf, isKnown, lineages⟩ := lineage
  obtain rfl := Option.some.inj (known.symm.trans isKnown)
  refine ⟨lineageOf parent, lineages parent isParent, fun handle isMember => ?_⟩
  exact mem_foldl_appendNew.mpr (.inr ⟨_, List.mem_map_of_mem isParent, isMember⟩)

/-- A member is the class itself or comes from a parent. -/
theorem mem_cases {member : Handle} (lineage : machine.Lineage handle list) (isMember : member ∈ list) :
    member = handle ∨ ∃ parents parent more, machine.parents? handle = some parents ∧
      parent ∈ parents ∧ machine.Lineage parent more ∧ member ∈ more ∧ more ⊆ list := by
  have whole := lineage
  obtain ⟨lineageOf, known, lineages⟩ := lineage
  rcases mem_foldl_appendNew.mp isMember with isHandle | ⟨more, isLineage, inMore⟩
  · exact .inl (List.mem_singleton.mp isHandle)
  · obtain ⟨parent, isParent, rfl⟩ := List.mem_map.mp isLineage
    obtain ⟨more, hasLineage, inherited⟩ := whole.of_parent known isParent
    obtain rfl := hasLineage.unique (lineages parent isParent)
    exact .inr ⟨_, parent, _, known, isParent, hasLineage, inMore, inherited⟩

/-- A member has a lineage, all of which is inherited. -/
theorem of_mem {member : Handle} (lineage : machine.Lineage handle list)
    (isMember : member ∈ list) : ∃ more, machine.Lineage member more ∧ more ⊆ list := by
  have whole := lineage
  induction lineage with
  | @intro handle parents lineageOf known lineages inductionHypothesis =>
      rcases whole.mem_cases isMember with rfl | ⟨_, parent, _, isKnown, isParent, hasLineage, inMore, inherited⟩
      · exact ⟨_, whole, fun _ => id⟩
      · obtain rfl := Option.some.inj (known.symm.trans isKnown)
        obtain rfl := hasLineage.unique (lineages parent isParent)
        obtain ⟨more, isLineage, within⟩ := inductionHypothesis parent isParent inMore hasLineage
        exact ⟨more, isLineage, fun _ inMore => inherited (within inMore)⟩

/-- A member is a class. -/
theorem class?_of_mem {member : Handle} (lineage : machine.Lineage handle list)
    (isMember : member ∈ list) : ∃ record, machine.class? member = some record := by
  obtain ⟨more, isLineage, -⟩ := lineage.of_mem isMember
  obtain ⟨parents, known⟩ := isLineage.exists_parents?
  obtain ⟨record, isClass, -⟩ := Option.map_eq_some_iff.mp known
  exact ⟨record, isClass⟩

/-- No class is among the ancestors of its parents. -/
theorem not_mem_of_parent (lineage : machine.Lineage handle list)
    (known : machine.parents? handle = some parents) (isParent : parent ∈ parents)
    (ofParent : machine.Lineage parent more) : handle ∉ more := by
  induction lineage generalizing parents parent more with
  | @intro handle parents' lineageOf isKnown lineages inductionHypothesis =>
      have whole := Lineage.intro lineageOf isKnown lineages
      obtain rfl := Option.some.inj (known.symm.trans isKnown)
      intro isMember
      rcases ofParent.mem_cases isMember with
        rfl | ⟨_, grandparent, _, isKnownToo, isGrandparent, hasLineage, inMore, inherited⟩
      · exact inductionHypothesis handle isParent isKnown isParent ofParent isMember
      · -- otherwise the parent would be among the ancestors of its own parent
        obtain ⟨ofHandle, isLineage, within⟩ := hasLineage.of_mem inMore
        obtain ⟨ofParentAgain, isLineageAgain, inheritedByHandle⟩ := isLineage.of_parent isKnown isParent
        exact inductionHypothesis parent isParent isKnownToo isGrandparent hasLineage
          (within (inheritedByHandle isLineageAgain.mem_self))

/-- The lineage of a parent is shorter. -/
theorem length_lt_of_parent (lineage : machine.Lineage handle list)
    (known : machine.parents? handle = some parents) (isParent : parent ∈ parents)
    (ofParent : machine.Lineage parent more) : more.length < list.length := by
  obtain ⟨inheritedList, isLineage, inherited⟩ := lineage.of_parent known isParent
  rw [isLineage.unique ofParent] at inherited
  have isNew := lineage.not_mem_of_parent known isParent ofParent
  have within : handle :: more ⊆ list := List.cons_subset.mpr ⟨lineage.mem_self, inherited⟩
  exact ((List.nodup_cons.mpr ⟨isNew, ofParent.nodup⟩).subperm within).length_le

/-- A lineage is no longer than the heap. -/
theorem length_le (lineage : machine.Lineage handle list) :
    list.length ≤ machine.heap.cells.size := by
  refine Heap.length_le_size lineage.nodup fun member isMember => ?_
  obtain ⟨record, isClass⟩ := lineage.class?_of_mem isMember
  obtain ⟨object, found, -⟩ := Option.bind_eq_some_iff.mp isClass
  exact ⟨object, found⟩

/-! ### Existence -/

/-- A class whose parents have lineages has one. -/
theorem exists_of_parents (known : machine.parents? handle = some parents)
    (all : ∀ parent ∈ parents, ∃ list, machine.Lineage parent list) :
    ∃ list, machine.Lineage handle list := by
  have chosen (parent : Handle) : ∃ list, parent ∈ parents → machine.Lineage parent list := by
    by_cases isParent : parent ∈ parents
    · obtain ⟨list, lineage⟩ := all parent isParent
      exact ⟨list, fun _ => lineage⟩
    · exact ⟨[], fun isParentToo => absurd isParentToo isParent⟩
  choose lineageOf lineages using chosen
  exact ⟨_, .intro lineageOf known lineages⟩

/-! ### Other machines -/

/-- A lineage holds wherever its members have the same parents. -/
theorem of_parents? (lineage : machine.Lineage handle list)
    (same : ∀ member ∈ list, next.parents? member = machine.parents? member) :
    next.Lineage handle list := by
  have whole := lineage
  induction lineage with
  | @intro handle parents lineageOf known lineages inductionHypothesis =>
      refine .intro lineageOf ((same handle whole.mem_self).trans known) fun parent isParent => ?_
      obtain ⟨more, hasLineage, inherited⟩ := whole.of_parent known isParent
      obtain rfl := hasLineage.unique (lineages parent isParent)
      exact inductionHypothesis parent isParent (fun member isMember => same member (inherited isMember)) hasLineage

end Lineage

end Machine

/-! ### Computation -/

/-- The ancestors of a class, by paths that are shorter than the fuel and without regard
to cached lists. -/
def Query.lineageWithin : Nat → Handle → Query (List Handle)
  | 0, _ => breach .endless
  | fuel + 1, handle => do
    let record ← classRecord handle
    record.parents.foldlM
      (fun list parent => do return appendNew list (← lineageWithin fuel parent)) [handle]

/-- The ancestors of a class, computed without regard to cached lists. -/
def Query.freshAncestors (handle : Handle) : Query (List Handle) := do
  lineageWithin (← heapBound) handle

namespace Machine.Lineage

variable {machine : Machine} {handle : Handle} {list : List Handle} {fuel : Nat}

theorem lineageWithin_eq (lineage : machine.Lineage handle list) (enough : list.length ≤ fuel) :
    Query.lineageWithin fuel handle machine = .ok list := by
  induction lineage generalizing fuel with
  | @intro handle parents lineageOf known lineages inductionHypothesis =>
      have whole := Lineage.intro lineageOf known lineages
      cases fuel with
      | zero => exact absurd enough (Nat.not_le.mpr (List.length_pos_of_mem whole.mem_self))
      | succ fuel =>
          obtain ⟨record, isClass, rfl⟩ := Option.map_eq_some_iff.mp known
          have collected (rest : List Handle) (areParents : ∀ parent ∈ rest, parent ∈ record.parents)
              (initial : List Handle) :
              (rest.foldlM (fun list parent => do
                return appendNew list (← Query.lineageWithin fuel parent)) initial : Query _) machine =
                .ok ((rest.map lineageOf).foldl appendNew initial) := by
            induction rest generalizing initial with
            | nil => rfl
            | cons parent rest restHypothesis =>
                have isParent := areParents parent (List.mem_cons_self ..)
                have shorter := whole.length_lt_of_parent known isParent (lineages parent isParent)
                rw [List.foldlM_cons, Query.bind_eq_ok_iff]
                refine ⟨appendNew initial (lineageOf parent), ?_, ?_⟩
                · rw [Query.bind_eq_ok_iff]
                  exact ⟨_, inductionHypothesis parent isParent (by omega), rfl⟩
                · exact restHypothesis (fun _ isRest => areParents _ (List.mem_cons_of_mem _ isRest)) _
          rw [Query.lineageWithin, Query.bind_eq_ok_iff]
          exact ⟨record, Query.classRecord_eq_ok_iff.mpr isClass, collected _ (fun _ => id) _⟩

theorem freshAncestors_eq (lineage : machine.Lineage handle list) :
    Query.freshAncestors handle machine = .ok list := by
  rw [Query.freshAncestors, Query.bind_eq_ok_iff]
  exact ⟨_, rfl, lineage.lineageWithin_eq (Nat.le_succ_of_le lineage.length_le)⟩

end Machine.Lineage

end RiteVm
