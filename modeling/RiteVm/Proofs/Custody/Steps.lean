import Mathlib.Data.List.Sigma
import RiteVm.Proofs.Edits.Classes
import RiteVm.Proofs.Fibers.Lifetimes

/-!
Contract: the steps that a machine goes by, and what they give back to the host.

Owns:
- the payloads of the host's objects, and those that a step gives back;
- reclaiming objects, which gives back the payload of each that has one;
- steps: edits, new objects, collections, and whatever leaves the heap alone;
- only a collection gives payloads back, namely those of the objects it cannot reach, and a
  payload that was given back is gone for good.
-/

namespace RiteVm

/-- An edit leaves an object of the host an object of the host. -/
theorem Content.Edit.isSome_data? {object changed : Object}
    (edit : object.content.Edit changed.content) (isData : object.data?.isSome) :
    changed.data?.isSome := by
  obtain ⟨record, isRecord⟩ := Option.isSome_iff_exists.mp isData
  have isContent : object.content = .data record := by
    rw [Object.data?] at isRecord
    split at isRecord <;> simp_all
  rw [isContent] at edit
  rw [Object.data?]
  cases edited : changed.content <;> rw [edited] at edit <;> cases edit <;> rfl

namespace Machine

variable {before machine after : Machine} {handle other : Handle} {payload : Int}

/-! ### Payloads -/

/-- The payload of a host's object. -/
def payload? (machine : Machine) (handle : Handle) : Option Int :=
  ((machine.heap.get? handle).bind Object.data?).map (·.payload)

/-- The host's objects with their payloads, in the order of their cells. -/
def payloads (machine : Machine) : List (Handle × Int) :=
  machine.heap.handles.filterMap fun handle => (machine.payload? handle).map (handle, ·)

/-- The host's objects that are gone after a step, with their payloads. -/
def givenBack (before after : Machine) : List (Handle × Int) :=
  before.payloads.filter fun entry => (after.payload? entry.1).isNone

theorem payload?_of_get? (same : after.heap.get? handle = before.heap.get? handle) :
    after.payload? handle = before.payload? handle := by
  rw [payload?, payload?, same]

theorem payload?_of_none (missing : machine.heap.get? handle = none) :
    machine.payload? handle = none := by
  rw [payload?, missing]
  rfl

theorem isSome_payload?_iff :
    (machine.payload? handle).isSome ↔
      ∃ object, machine.heap.get? handle = some object ∧ object.data?.isSome := by
  rw [payload?, Option.isSome_map]
  cases machine.heap.get? handle <;> simp

theorem passed_reclaim (passed : machine.heap.Passed other) :
    (machine.reclaim handle).heap.Passed other := by
  rw [reclaim]
  split
  · rw [release_heap]
    exact passed.remove
  · exact passed

theorem passed_foldl_reclaim (dead : List Handle) (passed : machine.heap.Passed handle) :
    (dead.foldl reclaim machine).heap.Passed handle := by
  induction dead generalizing machine with
  | nil => exact passed
  | cons first rest inductionHypothesis => exact inductionHypothesis (passed_reclaim passed)

/-- A handle leads nowhere for good once its object was reclaimed. -/
theorem passed_foldl_reclaim_of_mem {dead : List Handle} {object : Object}
    (found : machine.heap.get? handle = some object) (isDead : handle ∈ dead) :
    (dead.foldl reclaim machine).heap.Passed handle := by
  induction dead generalizing machine with
  | nil => exact nomatch isDead
  | cons first rest inductionHypothesis =>
      by_cases isFirst : handle = first
      · subst isFirst
        refine passed_foldl_reclaim rest ?_
        rw [reclaim, found]
        dsimp only
        rw [release_heap]
        exact Heap.passed_remove found
      · refine inductionHypothesis ?_ ((List.mem_cons.mp isDead).resolve_left isFirst)
        rw [get?_reclaim, if_neg isFirst]
        exact found

/-- A collection leaves an object as it is or reclaims it for good. -/
theorem passed_collect_or_get?_eq {object : Object}
    (found : machine.heap.get? handle = some object) :
    machine.collect.heap.Passed handle ∨ machine.collect.heap.get? handle = some object := by
  by_cases isDead : handle ∈ machine.unreachable
  · exact .inl (passed_foldl_reclaim_of_mem found isDead)
  · refine .inr ?_
    rw [get?_collect, if_neg isDead]
    exact found

/-! ### Steps -/

/-- One step of a machine. -/
inductive Step (machine : Machine) : Machine → Prop where
  | edit {next : Machine} : machine.Edit next → Step machine next
  | allocate (object : Object) : Step machine (machine.allocate object)
  /-- register stacks, frames, fibers and levels, but no object and no payload -/
  | control {next : Machine} :
      next.heap = machine.heap → next.released = machine.released → Step machine next
  | collect : Step machine machine.collect

/-- Any number of steps in a row. -/
abbrev Stepped : Machine → Machine → Prop := Relation.ReflTransGen Step

theorem Step.wellFormed (step : before.Step after) (wellFormed : before.heap.WellFormed) :
    after.heap.WellFormed := by
  cases step with
  | edit edit => exact (edit.keepsRoles wellFormed).1
  | allocate object => exact wellFormed.allocate object
  | control heap =>
      rw [heap]
      exact wellFormed
  | collect => exact wellFormed_collect wellFormed

theorem Stepped.wellFormed (stepped : before.Stepped after) (wellFormed : before.heap.WellFormed) :
    after.heap.WellFormed := by
  induction stepped with
  | refl => exact wellFormed
  | tail _ step inductionHypothesis => exact step.wellFormed inductionHypothesis

theorem Edited.stepped (edited : before.Edited after) : before.Stepped after :=
  Relation.ReflTransGen.mono (fun _ _ => Step.edit) _ _ edited

theorem Edit.passed (edit : before.Edit after) (passed : before.heap.Passed handle) :
    after.heap.Passed handle := by
  cases edit with
  | accounts cells =>
      rw [Heap.Passed, cells]
      exact passed
  | allocate => exact passed.allocate _
  | rewrite => exact passed.modify _ _
  | _ => exact passed

/-- A handle that leads nowhere for good does so after every step. -/
theorem Step.passed (step : before.Step after) (passed : before.heap.Passed handle) :
    after.heap.Passed handle := by
  cases step with
  | edit edit => exact edit.passed passed
  | allocate object => exact passed.allocate object
  | control heap =>
      rw [heap]
      exact passed
  | collect => exact passed_foldl_reclaim before.unreachable passed

/-! ### What steps give back -/

/-- Nothing is given back, and no object of the host goes away. -/
structure Retains (before after : Machine) : Prop where
  released : after.released = before.released
  payloads : ∀ handle, (before.payload? handle).isSome → (after.payload? handle).isSome

theorem Retains.of_heap (heap : after.heap = before.heap)
    (released : after.released = before.released) : before.Retains after where
  released := released
  payloads handle known := by
    rw [payload?, heap]
    exact known

theorem retains_allocate (wellFormed : machine.heap.WellFormed) (object : Object) :
    machine.Retains (machine.allocate object) where
  released := rfl
  payloads handle known := by
    have isOther : handle ≠ (machine.heap.allocate object).2 := by
      rintro rfl
      rw [payload?_of_none (wellFormed.get?_allocate_snd object)] at known
      exact nomatch known
    rw [payload?_of_get? ((wellFormed.get?_allocate object handle).trans (if_neg isOther))]
    exact known

theorem Edit.retains (edit : before.Edit after) (wellFormed : before.heap.WellFormed) :
    before.Retains after := by
  cases edit with
  | accounts cells =>
      refine ⟨rfl, fun handle known => ?_⟩
      rw [payload?, Heap.get?, cells]
      exact known
  | allocate => exact retains_allocate wellFormed _
  | @rewrite other change edits =>
      refine ⟨rfl, fun handle known => ?_⟩
      obtain ⟨object, found, isData⟩ := isSome_payload?_iff.mp known
      by_cases isHandle : handle = other
      · rw [isHandle] at found
        refine isSome_payload?_iff.mpr ⟨change object, ?_, (edits object found).isSome_data? isData⟩
        rw [get?_rewrite, if_pos isHandle, found]
        rfl
      · rw [payload?_of_get? ((get?_rewrite handle change).trans (if_neg isHandle))]
        exact known
  | _ => exact .of_heap rfl rfl

end Machine

end RiteVm
