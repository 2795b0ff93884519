import RiteVm.Proofs.Collector.Reachability
import RiteVm.Proofs.Evolution.Changes

/-!
Contract: a new object gets a handle that leads nowhere else.

Owns:
- the well-formedness of the heap: its free cells are empty, each is listed once, and the
  first cell is never used;
- the look-ups of a heap with one more object.

Without these a new object could take the cell of another one.
-/

namespace RiteVm

namespace Heap

variable {heap : Heap} {handle other : Handle} {object : Object}

/-- Free cells are empty and listed once, and the first cell stays empty. -/
structure WellFormed (heap : Heap) : Prop where
  reserved : (heap.cells[0]?).map (·.object) = some none
  zero_not_free : 0 ∉ heap.free
  free_empty : ∀ slot ∈ heap.free, (heap.cells[slot]?).map (·.object) = some none
  free_nodup : heap.free.Nodup

theorem wellFormed_new (config : CollectorConfig) : (new config).WellFormed where
  reserved := rfl
  zero_not_free := List.not_mem_nil
  free_empty := fun _ listed => absurd listed List.not_mem_nil
  free_nodup := List.nodup_nil

theorem get?_new (config : CollectorConfig) (handle : Handle) : (new config).get? handle = none := by
  rw [get?]
  obtain ⟨slot, generation⟩ := handle
  cases slot with
  | zero => exact ite_self none
  | succ slot => rfl

theorem WellFormed.of_cells {changed : Heap} (wellFormed : heap.WellFormed)
    (cells : changed.cells = heap.cells) (free : changed.free = heap.free) :
    changed.WellFormed where
  reserved := by
    rw [cells]
    exact wellFormed.reserved
  zero_not_free := by
    rw [free]
    exact wellFormed.zero_not_free
  free_empty := by
    rw [cells, free]
    exact wellFormed.free_empty
  free_nodup := by
    rw [free]
    exact wellFormed.free_nodup

/-- Nothing is found in an empty cell. -/
theorem get?_of_empty (empty : (heap.cells[handle.slot]?).map (·.object) = some none) :
    heap.get? handle = none := by
  rw [get?]
  cases located : heap.cells[handle.slot]? with
  | none => rfl
  | some cell =>
      rw [located] at empty
      have isEmpty : cell.object = none := Option.some.inj empty
      simp only [isEmpty, ite_self]

theorem WellFormed.get?_null (wellFormed : heap.WellFormed) : heap.get? .null = none :=
  get?_of_empty wellFormed.reserved

/-! ### Allocation -/

/-- An object goes into a new cell or into the first free one. -/
theorem place_cases (heap : Heap) (object : Object) :
    (heap.free = [] ∧ heap.place object =
      ({ heap with cells := heap.cells.push ⟨1, some object⟩ }, ⟨heap.cells.size, 1⟩)) ∨
    ∃ slot rest generation, heap.free = slot :: rest ∧ heap.place object =
      ({ heap with
          cells := heap.cells.setIfInBounds slot ⟨generation, some object⟩
          free := rest },
        ⟨slot, generation⟩) := by
  unfold place
  split
  · rename_i slot rest reusable
    exact .inr ⟨slot, rest, _, reusable, rfl⟩
  · rename_i full
    exact .inl ⟨full, rfl⟩

/-- The handle of a new object led nowhere. -/
theorem WellFormed.get?_place_snd (wellFormed : heap.WellFormed) (object : Object) :
    heap.get? (heap.place object).2 = none := by
  rcases heap.place_cases object with ⟨-, placed⟩ | ⟨slot, rest, generation, reusable, placed⟩
  · rw [placed]
    simp [get?]
  · rw [placed]
    apply get?_of_empty
    exact wellFormed.free_empty slot (by simp [reusable])

/-- A cell with an object leads to it under one generation. -/
theorem get?_of_cell {generation : Nat}
    (located : heap.cells[handle.slot]? = some ⟨generation, some object⟩) :
    heap.get? handle = if handle = ⟨handle.slot, generation⟩ then some object else none := by
  obtain ⟨slot, current⟩ := handle
  simp only [get?, located, Handle.mk.injEq, true_and, eq_comm]

/-- With one more object, the new handle leads to it and all others to where they led. -/
theorem WellFormed.get?_place (wellFormed : heap.WellFormed) (object : Object)
    (other : Handle) :
    (heap.place object).1.get? other =
      if other = (heap.place object).2 then some object else heap.get? other := by
  rcases heap.place_cases object with ⟨-, placed⟩ | ⟨slot, rest, generation, reusable, placed⟩
  · simp only [placed]
    by_cases isLast : other.slot = heap.cells.size
    · have missing : heap.get? other = none := by simp [get?, isLast]
      rw [missing, ← isLast]
      exact get?_of_cell (by simp [isLast])
    · have isOther : other ≠ ⟨heap.cells.size, 1⟩ := fun same => isLast (by rw [same])
      rw [if_neg isOther, get?, get?, Array.getElem?_push, if_neg isLast]
  · simp only [placed]
    have isEmpty := wellFormed.free_empty slot (by simp [reusable])
    by_cases isReused : other.slot = slot
    · have missing : heap.get? other = none := get?_of_empty (by rw [isReused, isEmpty])
      have inBounds : other.slot < heap.cells.size := by
        obtain ⟨cell, located, -⟩ := Option.map_eq_some_iff.mp isEmpty
        rw [isReused]
        exact (Array.getElem?_eq_some_iff.mp located).1
      rw [missing, ← isReused]
      exact get?_of_cell (by simp [inBounds])
    · have isOther : other ≠ ⟨slot, generation⟩ := fun same => isReused (by rw [same])
      rw [if_neg isOther, get?, get?, Array.getElem?_setIfInBounds, if_neg (Ne.symm isReused)]

theorem WellFormed.place (wellFormed : heap.WellFormed) (object : Object) :
    (heap.place object).1.WellFormed := by
  have nonempty : 0 < heap.cells.size := by
    obtain ⟨cell, located, -⟩ := Option.map_eq_some_iff.mp wellFormed.reserved
    exact (Array.getElem?_eq_some_iff.mp located).1
  rcases heap.place_cases object with ⟨full, placed⟩ | ⟨slot, rest, generation, reusable, placed⟩
  · rw [placed]
    refine ⟨?_, wellFormed.zero_not_free, ?_, wellFormed.free_nodup⟩
    · rw [Array.getElem?_push, if_neg (by omega)]
      exact wellFormed.reserved
    · intro slot listed
      rw [full] at listed
      exact absurd listed List.not_mem_nil
  · have listed : slot ∈ heap.free := by simp [reusable]
    have nodup := wellFormed.free_nodup
    rw [reusable, List.nodup_cons] at nodup
    rw [placed]
    refine ⟨?_, ?_, ?_, nodup.2⟩
    · have isOther : slot ≠ 0 := fun isZero => wellFormed.zero_not_free (isZero ▸ listed)
      rw [Array.getElem?_setIfInBounds, if_neg isOther]
      exact wellFormed.reserved
    · intro isFree
      exact wellFormed.zero_not_free (by simp [reusable, isFree])
    · intro other isFree
      have isOther : slot ≠ other := fun same => nodup.1 (same ▸ isFree)
      rw [Array.getElem?_setIfInBounds, if_neg isOther]
      exact wellFormed.free_empty other (by simp [reusable, isFree])

theorem WellFormed.allocate (wellFormed : heap.WellFormed) (object : Object) :
    (heap.allocate object).1.WellFormed :=
  (wellFormed.place object).of_cells rfl rfl

/-! ### Changes and removals -/

theorem WellFormed.modify (wellFormed : heap.WellFormed) (handle : Handle)
    (change : Object → Object) : (heap.modify handle change).WellFormed := by
  have staysEmpty {slot : Nat} (isEmpty : (heap.cells[slot]?).map (·.object) = some none) :
      (((heap.modify handle change).cells)[slot]?).map (·.object) = some none := by
    obtain ⟨cell, located, isEmpty⟩ := Option.map_eq_some_iff.mp isEmpty
    rw [Heap.modify, Array.getElem?_modify, located]
    by_cases isSlot : handle.slot = slot <;> by_cases current : cell.generation = handle.generation <;>
      simp [isSlot, current, isEmpty]
  exact ⟨staysEmpty wellFormed.reserved, wellFormed.zero_not_free,
    fun slot listed => staysEmpty (wellFormed.free_empty slot listed), wellFormed.free_nodup⟩

/-- The cell of an object is not listed as free, and becomes so when it is emptied. -/
theorem WellFormed.remove (wellFormed : heap.WellFormed)
    (found : heap.get? handle = some object) : (heap.remove handle).WellFormed := by
  obtain ⟨cell, located, isOccupied⟩ : ∃ cell, heap.cells[handle.slot]? = some cell ∧
      cell.object = some object := by
    rw [get?] at found
    cases located : heap.cells[handle.slot]? with
    | none =>
        rw [located] at found
        cases found
    | some cell =>
        rw [located] at found
        exact ⟨cell, rfl, (Option.ite_none_right_eq_some.mp found).2⟩
  have notEmpty : (heap.cells[handle.slot]?).map (·.object) ≠ some none := by
    rw [located, Option.map_some, isOccupied]
    exact fun same => by cases same
  have staysEmpty {slot : Nat} (isEmpty : (heap.cells[slot]?).map (·.object) = some none) :
      (((heap.remove handle).cells)[slot]?).map (·.object) = some none := by
    have isOther : handle.slot ≠ slot := fun same => notEmpty (same ▸ isEmpty)
    rw [Heap.remove, Array.getElem?_modify, if_neg isOther]
    exact isEmpty
  refine ⟨staysEmpty wellFormed.reserved, ?_, ?_, ?_⟩
  · rw [Heap.remove, List.mem_cons, not_or]
    exact ⟨fun isZero => notEmpty (isZero ▸ wellFormed.reserved), wellFormed.zero_not_free⟩
  · intro slot listed
    rcases List.mem_cons.mp listed with isRemoved | wasFree
    · rw [Heap.remove, isRemoved, Array.getElem?_modify, if_pos rfl, located]
      rfl
    · exact staysEmpty (wellFormed.free_empty slot wasFree)
  · rw [Heap.remove, List.nodup_cons]
    exact ⟨fun listed => notEmpty (wellFormed.free_empty _ listed), wellFormed.free_nodup⟩

end Heap

namespace Machine

variable {machine : Machine}

theorem wellFormed_reclaim (wellFormed : machine.heap.WellFormed) (handle : Handle) :
    (machine.reclaim handle).heap.WellFormed := by
  rw [reclaim]
  cases found : machine.heap.get? handle with
  | none => exact wellFormed
  | some object =>
      simp only [release_heap]
      exact wellFormed.remove found

theorem wellFormed_collect (wellFormed : machine.heap.WellFormed) :
    machine.collect.heap.WellFormed := by
  have reclaimed (dead : List Handle) {machine : Machine} (wellFormed : machine.heap.WellFormed) :
      (dead.foldl reclaim machine).heap.WellFormed := by
    induction dead generalizing machine with
    | nil => exact wellFormed
    | cons first rest inductionHypothesis =>
        exact inductionHypothesis (wellFormed_reclaim wellFormed first)
  exact (reclaimed machine.unreachable wellFormed).of_cells rfl rfl

end Machine

end RiteVm
