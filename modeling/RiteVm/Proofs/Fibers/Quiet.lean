import RiteVm.Fiber.Resume
import RiteVm.Proofs.Collector.Allocation
import RiteVm.Proofs.Evolution.Actions

/-!
Contract: actions that leave fibers, register stacks and levels alone.

Owns:
- what a heap says about fibers: their records, the stack slots that closures capture, and
  the handles whose cells went on to another generation;
- quiet actions, which change none of this and nothing else that switching between fibers
  depends on, and the rules for the ways in which they are put together.

`Quiet` is a class, so that the instances for the parts of an action give the instance for
the action. Nothing is assumed of the machine, except that its heap is well-formed where the
heap is concerned.
-/

namespace RiteVm

/-! ### What a heap says about fibers -/

/-- A captured variable of the object lives in a slot of a register stack. -/
def Object.Captures (object : Object) (id : ContextId) (index : Nat) : Prop :=
  ∃ record fiber base count, object.env? = some record ∧
    record.storage = .onStack id fiber base count ∧ base ≤ index ∧ index < base + count

/-- Only variables of a frame are captured. -/
theorem Object.not_captures {object : Object} (noEnv : object.env? = none) (id : ContextId)
    (index : Nat) : ¬ object.Captures id index := by
  rintro ⟨record, fiber, base, count, isEnv, -⟩
  rw [noEnv] at isEnv
  exact nomatch isEnv

namespace Heap

/-- The fiber that a handle leads to. -/
def fiber? (heap : Heap) (handle : Handle) : Option FiberRecord :=
  (heap.get? handle).bind Object.fiber?

/-- A closure captures a slot of a register stack. -/
def Captures (heap : Heap) (id : ContextId) (index : Nat) : Prop :=
  ∃ handle object, heap.get? handle = some object ∧ object.Captures id index

/-- The cell of a handle went on to another generation, so the handle leads nowhere for good. -/
def Passed (heap : Heap) (handle : Handle) : Prop :=
  ∃ cell, heap.cells[handle.slot]? = some cell ∧ handle.generation < cell.generation

theorem Passed.get?_eq_none {heap : Heap} {handle : Handle} (passed : heap.Passed handle) :
    heap.get? handle = none := by
  obtain ⟨cell, located, later⟩ := passed
  rw [get?, located]
  exact if_neg (Nat.ne_of_gt later)

theorem Passed.place {heap : Heap} {handle : Handle} (passed : heap.Passed handle)
    (object : Object) : (heap.place object).1.Passed handle := by
  obtain ⟨cell, located, later⟩ := passed
  have inside := (Array.getElem?_eq_some_iff.mp located).1
  rw [Heap.place]
  split
  · rename_i slot rest reusable
    by_cases isSlot : slot = handle.slot
    · refine ⟨⟨cell.generation + 1, some object⟩, ?_, Nat.lt_succ_of_lt later⟩
      rw [Array.getElem?_setIfInBounds, if_pos isSlot, isSlot, if_pos inside, located]
      rfl
    · refine ⟨cell, ?_, later⟩
      rw [Array.getElem?_setIfInBounds, if_neg isSlot]
      exact located
  · refine ⟨cell, ?_, later⟩
    rw [Array.getElem?_push, if_neg (Nat.ne_of_lt inside)]
    exact located

theorem Passed.modify {heap : Heap} {other : Handle} (passed : heap.Passed other)
    (handle : Handle) (change : Object → Object) : (heap.modify handle change).Passed other := by
  obtain ⟨cell, located, later⟩ := passed
  by_cases isSlot : handle.slot = other.slot
  · refine ⟨if cell.generation = handle.generation then
      { cell with object := cell.object.map change } else cell, ?_, ?_⟩
    · rw [Heap.modify, Array.getElem?_modify, if_pos isSlot, located]
      rfl
    · split <;> exact later
  · refine ⟨cell, ?_, later⟩
    rw [Heap.modify, Array.getElem?_modify, if_neg isSlot]
    exact located

theorem captures_modify {heap : Heap} {handle : Handle} {change : Object → Object}
    (similar : ∀ object, heap.get? handle = some object →
      ∀ id index, (change object).Captures id index → object.Captures id index)
    {id : ContextId} {index : Nat} (captured : (heap.modify handle change).Captures id index) :
    heap.Captures id index := by
  obtain ⟨other, object, found, captured⟩ := captured
  rw [get?_modify] at found
  split at found
  · obtain ⟨original, isOriginal, rfl⟩ := Option.map_eq_some_iff.mp found
    exact ⟨handle, original, isOriginal, similar original isOriginal id index captured⟩
  · exact ⟨other, object, found, captured⟩

theorem fiber?_modify (heap : Heap) (handle other : Handle) (change : Object → Object) :
    (heap.modify handle change).fiber? other =
      if other = handle then (heap.get? handle).bind fun object => (change object).fiber?
      else heap.fiber? other := by
  rw [fiber?, fiber?, get?_modify]
  split
  · cases heap.get? handle <;> rfl
  · rfl

/-! ### A new object -/

section Allocation

variable {heap : Heap} {object : Object}

theorem Passed.allocate {handle : Handle} (passed : heap.Passed handle) (object : Object) :
    (heap.allocate object).1.Passed handle :=
  passed.place object

theorem WellFormed.get?_allocate (wellFormed : heap.WellFormed) (object : Object)
    (handle : Handle) : (heap.allocate object).1.get? handle =
      if handle = (heap.allocate object).2 then some object else heap.get? handle :=
  wellFormed.get?_place object handle

theorem WellFormed.get?_allocate_snd (wellFormed : heap.WellFormed) (object : Object) :
    heap.get? (heap.allocate object).2 = none :=
  wellFormed.get?_place_snd object

theorem WellFormed.fiber?_allocate (wellFormed : heap.WellFormed) (object : Object)
    (handle : Handle) : (heap.allocate object).1.fiber? handle =
      if handle = (heap.allocate object).2 then object.fiber? else heap.fiber? handle := by
  rw [fiber?, fiber?, wellFormed.get?_allocate]
  split <;> rfl

theorem WellFormed.captures_allocate (wellFormed : heap.WellFormed) {id : ContextId} {index : Nat}
    (captured : (heap.allocate object).1.Captures id index) :
    object.Captures id index ∨ heap.Captures id index := by
  obtain ⟨handle, other, found, captured⟩ := captured
  rw [wellFormed.get?_allocate] at found
  split at found
  · obtain rfl := Option.some.inj found
    exact .inl captured
  · exact .inr ⟨handle, other, found, captured⟩

end Allocation

/-! ### What is kept of fibers -/

/-- The same fibers, and no captured slots that were not captured before. -/
structure KeepsFibers (before after : Heap) : Prop where
  wellFormed : after.WellFormed
  fibers : ∀ handle, after.fiber? handle = before.fiber? handle
  captures : ∀ id index, after.Captures id index → before.Captures id index
  passed : ∀ handle, before.Passed handle → after.Passed handle

namespace KeepsFibers

variable {before heap after : Heap}

theorem refl (wellFormed : heap.WellFormed) : heap.KeepsFibers heap :=
  ⟨wellFormed, fun _ => rfl, fun _ _ => id, fun _ => id⟩

theorem trans (first : before.KeepsFibers heap) (second : heap.KeepsFibers after) :
    before.KeepsFibers after where
  wellFormed := second.wellFormed
  fibers handle := (second.fibers handle).trans (first.fibers handle)
  captures id index captured := first.captures id index (second.captures id index captured)
  passed handle passed := second.passed handle (first.passed handle passed)

theorem of_cells (wellFormed : before.WellFormed) (cells : after.cells = before.cells)
    (free : after.free = before.free) : before.KeepsFibers after := by
  have same (handle : Handle) : after.get? handle = before.get? handle := by
    rw [get?, get?, cells]
  refine ⟨wellFormed.of_cells cells free, ?_, ?_, ?_⟩
  · intro handle
    rw [fiber?, fiber?, same]
  · rintro id index ⟨handle, object, found, captured⟩
    exact ⟨handle, object, (same handle).symm.trans found, captured⟩
  · rintro handle ⟨cell, located, later⟩
    rw [← cells] at located
    exact ⟨cell, located, later⟩

/-- One more object that is no fiber and captures nothing. -/
theorem allocate {object : Object} (wellFormed : before.WellFormed)
    (noFiber : object.fiber? = none) (noCapture : ∀ id index, ¬ object.Captures id index) :
    before.KeepsFibers (before.allocate object).1 where
  wellFormed := wellFormed.allocate object
  fibers handle := by
    rw [wellFormed.fiber?_allocate]
    split
    · rename_i isNew
      rw [isNew, fiber?, wellFormed.get?_allocate_snd]
      exact noFiber
    · rfl
  captures id index captured :=
    (wellFormed.captures_allocate captured).resolve_left (noCapture id index)
  passed _ passed := passed.allocate object

/-- Another state of an object that is the same fiber, if it is one, and captures nothing
new. -/
theorem modify {handle : Handle} {change : Object → Object} (wellFormed : before.WellFormed)
    (similar : ∀ object, before.get? handle = some object →
      (change object).fiber? = object.fiber? ∧
        ∀ id index, (change object).Captures id index → object.Captures id index) :
    before.KeepsFibers (before.modify handle change) where
  wellFormed := wellFormed.modify handle change
  fibers other := by
    rw [fiber?_modify]
    split
    · rename_i isHandle
      rw [isHandle, fiber?]
      cases found : before.get? handle with
      | none => rfl
      | some object => exact (similar object found).1
    · rfl
  captures _ _ := captures_modify fun object found => (similar object found).2
  passed _ passed := passed.modify handle change

end KeepsFibers

end Heap

namespace Machine

/-- The fiber that a handle leads to. -/
def fiber? (machine : Machine) (handle : Handle) : Option FiberRecord :=
  machine.heap.fiber? handle

/-- Everything that switching between fibers depends on is the same. -/
structure KeepsFibers (before after : Machine) : Prop where
  config : after.config = before.config
  contexts : after.contexts = before.contexts
  current : after.current = before.current
  currentFiber : after.currentFiber = before.currentFiber
  resumers : after.resumers = before.resumers
  nativeDepth : after.nativeDepth = before.nativeDepth
  signals : after.signals = before.signals
  woken : after.woken = before.woken
  heap : before.heap.WellFormed → before.heap.KeepsFibers after.heap

namespace KeepsFibers

variable {before machine after : Machine}

theorem refl (machine : Machine) : machine.KeepsFibers machine :=
  ⟨rfl, rfl, rfl, rfl, rfl, rfl, rfl, rfl, .refl⟩

theorem trans (first : before.KeepsFibers machine) (second : machine.KeepsFibers after) :
    before.KeepsFibers after where
  config := second.config.trans first.config
  contexts := second.contexts.trans first.contexts
  current := second.current.trans first.current
  currentFiber := second.currentFiber.trans first.currentFiber
  resumers := second.resumers.trans first.resumers
  nativeDepth := second.nativeDepth.trans first.nativeDepth
  signals := second.signals.trans first.signals
  woken := second.woken.trans first.woken
  heap wellFormed :=
    (first.heap wellFormed).trans (second.heap (first.heap wellFormed).wellFormed)

theorem of_heap {heap : Heap}
    (keeps : before.heap.WellFormed → before.heap.KeepsFibers heap) :
    before.KeepsFibers { before with heap } :=
  ⟨rfl, rfl, rfl, rfl, rfl, rfl, rfl, rfl, keeps⟩

theorem context?_eq (keeps : before.KeepsFibers after) (id : ContextId) :
    after.context? id = before.context? id := by
  rw [context?, context?, keeps.contexts]

theorem fiber?_eq (keeps : before.KeepsFibers after) (wellFormed : before.heap.WellFormed)
    (handle : Handle) : after.fiber? handle = before.fiber? handle :=
  (keeps.heap wellFormed).fibers handle

end KeepsFibers

end Machine

namespace VM

/-- From one machine, an action leaves fibers, register stacks and levels alone. -/
def QuietFrom {α : Type} (machine : Machine) (action : VM α) : Prop :=
  machine.KeepsFibers (action.after machine)

/-- An action leaves fibers, register stacks and levels alone. -/
class Quiet {α : Type} (action : VM α) : Prop where
  quietFrom : ∀ machine, QuietFrom machine action

/-! ### Composition -/

section Composition

variable {α β : Type} {machine : Machine} {action : VM α} {rest : α → VM β}

theorem QuietFrom.of_quiet [quiet : Quiet action] : QuietFrom machine action :=
  quiet.quietFrom machine

theorem QuietFrom.bind (first : QuietFrom machine action)
    (second : ∀ value next, action machine = .ok value next → QuietFrom next (rest value)) :
    QuietFrom machine (action >>= rest) := by
  rw [QuietFrom, after] at *
  cases result : action machine with
  | ok value next =>
      rw [result] at first
      rw [bind_of_ok result]
      exact first.trans (second value next result)
  | error failure next =>
      rw [result] at first
      rw [bind_of_error result]
      exact first

/-- What was read holds of the machine in which the action goes on. -/
theorem QuietFrom.query_bind {query : Query α}
    (second : ∀ value, query machine = .ok value → QuietFrom machine (rest value)) :
    QuietFrom machine (liftM query >>= rest) := by
  rw [QuietFrom, after]
  cases result : query machine with
  | ok value =>
      rw [bind_of_ok (liftM_of_ok result)]
      exact second value result
  | error breach =>
      rw [bind_of_error (liftM_of_error result)]
      exact .refl machine

theorem QuietFrom.attempt (first : QuietFrom machine action) :
    QuietFrom machine (VM.attempt action) := by
  rw [QuietFrom, after] at first ⊢
  rw [VM.attempt]
  cases result : action machine <;> rw [result] at first <;> exact first

theorem QuietFrom.of_ok {next : Machine} {value : α} (succeeded : action machine = .ok value next)
    (keeps : machine.KeepsFibers next) : QuietFrom machine action := by
  rw [QuietFrom, after_of_ok succeeded]
  exact keeps

namespace Quiet

instance ofValue (value : α) : Quiet (pure value : VM α) := ⟨fun machine => .refl machine⟩

instance ofFailure (failure : Failure) : Quiet (throw failure : VM α) :=
  ⟨fun machine => .refl machine⟩

instance ofMachine : Quiet (MonadState.get : VM Machine) := ⟨fun machine => .refl machine⟩

instance ofQuery (query : Query α) : Quiet (liftM query : VM α) where
  quietFrom machine := by
    rw [QuietFrom, after]
    cases result : query machine with
    | ok value =>
        rw [liftM_of_ok result]
        exact .refl machine
    | error breach =>
        rw [liftM_of_error result]
        exact .refl machine

instance seq [first : Quiet action] [second : ∀ value, Quiet (rest value)] :
    Quiet (action >>= rest) where
  quietFrom machine :=
    (first.quietFrom machine).bind fun value next _ => (second value).quietFrom next

instance mapped (change : α → β) [Quiet action] : Quiet (change <$> action) := by
  rw [map_eq_pure_bind]
  infer_instance

instance branch (condition : Prop) [Decidable condition] {yes no : VM α} [Quiet yes]
    [Quiet no] : Quiet (if condition then yes else no) := by
  split <;> infer_instance

instance attempted [quiet : Quiet action] : Quiet (VM.attempt action) :=
  ⟨fun machine => (quiet.quietFrom machine).attempt⟩

instance ofBreach (cause : Breach) : Quiet (VM.breach cause : VM α) :=
  inferInstanceAs (Quiet (throw _ : VM α))

instance ofFatal (cause : FatalCause) : Quiet (VM.fatal cause : VM α) :=
  inferInstanceAs (Quiet (throw _ : VM α))

end Quiet

end Composition

/-! ### Repetition -/

section Repetition

variable {α β : Type}

namespace Quiet

instance listForM {action : α → VM PUnit} [quiet : ∀ value, Quiet (action value)]
    (list : List α) : Quiet (list.forM action) := by
  induction list with
  | nil => exact ofValue _
  | cons first rest inductionHypothesis => exact seq

instance listMapM {action : α → VM β} [quiet : ∀ value, Quiet (action value)]
    (list : List α) : Quiet (list.mapM action) := by
  induction list with
  | nil =>
      rw [List.mapM_nil]
      infer_instance
  | cons first rest inductionHypothesis =>
      rw [List.mapM_cons]
      infer_instance

instance listFoldlM {action : β → α → VM β} [quiet : ∀ state value, Quiet (action state value)]
    (initial : β) (list : List α) : Quiet (list.foldlM action initial) := by
  induction list generalizing initial with
  | nil => exact ofValue _
  | cons first rest inductionHypothesis => exact seq

instance listForIn {action : α → β → VM (ForInStep β)}
    [quiet : ∀ value state, Quiet (action value state)] (list : List α) (initial : β) :
    Quiet (forIn list initial action) := by
  induction list generalizing initial with
  | nil => exact ofValue _
  | cons first rest inductionHypothesis =>
      rw [List.forIn_cons]
      refine @seq _ _ _ _ _ fun step => ?_
      cases step <;> infer_instance

instance listFilterM {action : α → VM Bool} [quiet : ∀ value, Quiet (action value)]
    (list : List α) : Quiet (list.filterM action) := by
  have filterAux (kept : List α) : Quiet (list.filterAuxM action kept) := by
    induction list generalizing kept with
    | nil => exact ofValue _
    | cons first rest inductionHypothesis => exact seq
  unfold List.filterM
  infer_instance

instance optionForM {action : α → VM PUnit} [quiet : ∀ value, Quiet (action value)]
    (option : Option α) : Quiet (option.forM action) := by
  cases option
  · exact ofValue _
  · exact quiet _

instance optionMapM {action : α → VM β} [quiet : ∀ value, Quiet (action value)]
    (option : Option α) : Quiet (option.mapM action) := by
  cases option
  · exact ofValue _
  · exact mapped _

end Quiet

end Repetition

/-! ### Changes of the heap -/

section Objects

variable {machine : Machine}

theorem Quiet.of_modify {change : Machine → Machine}
    (keeps : ∀ machine, Machine.KeepsFibers machine (change machine)) :
    Quiet (modify change : VM PUnit) where
  quietFrom machine := .of_ok rfl (keeps machine)

/-- A change of what the heap keeps beside its cells. -/
theorem Quiet.of_heap {change : Heap → Heap} (cells : ∀ heap, (change heap).cells = heap.cells)
    (free : ∀ heap, (change heap).free = heap.free) : Quiet (modifyHeap change) :=
  of_modify fun _ => .of_heap fun wellFormed => .of_cells wellFormed (cells _) (free _)

instance Quiet.growHeap (bytes : Nat) : Quiet (modifyHeap (·.grow bytes)) :=
  of_heap (fun _ => rfl) (fun _ => rfl)

instance Quiet.protectValue (value : Value) : Quiet (modifyHeap (·.protect value)) := by
  refine of_heap (fun heap => ?_) (fun heap => ?_) <;> cases value <;> rfl

instance Quiet.restoreArena (mark : Nat) : Quiet (modifyHeap (·.restoreArena mark)) :=
  of_heap (fun _ => rfl) (fun _ => rfl)

instance Quiet.unpin (pin : Pin) : Quiet (modifyHeap (·.unpin pin)) := by
  refine of_heap (fun heap => ?_) (fun heap => ?_) <;> rw [Heap.unpin] <;> split <;> rfl

instance Quiet.intern (name : Bytes) : Quiet (VM.intern name) where
  quietFrom _ := .of_ok rfl ⟨rfl, rfl, rfl, rfl, rfl, rfl, rfl, rfl, .refl⟩

instance Quiet.internText (name : String) : Quiet (VM.internText name) :=
  inferInstanceAs (Quiet (VM.intern _))

/-- A new object that is no fiber and captures nothing. -/
theorem Quiet.of_allocate {object : Object} (noFiber : object.fiber? = none)
    (noEnv : object.env? = none) : Quiet (VM.allocate object) where
  quietFrom _ := .of_ok rfl (.of_heap fun wellFormed =>
    .allocate wellFormed noFiber (object.not_captures noEnv))

theorem QuietFrom.modifyObject {handle : Handle} {change : Object → Object}
    (similar : ∀ object, machine.heap.get? handle = some object →
      (change object).fiber? = object.fiber? ∧
        ∀ id index, (change object).Captures id index → object.Captures id index) :
    QuietFrom machine (VM.modifyObject handle change) :=
  .of_ok rfl (.of_heap fun wellFormed => .modify wellFormed similar)

theorem Quiet.of_modifyObject {handle : Handle} {change : Object → Object}
    (similar : ∀ object, (change object).fiber? = object.fiber? ∧
      (change object).env? = object.env?) : Quiet (VM.modifyObject handle change) where
  quietFrom _ := .modifyObject fun object _ => by
    refine ⟨(similar object).1, fun context index => ?_⟩
    rw [Object.Captures, Object.Captures, (similar object).2]
    exact fun captured => captured

/-- Another content of an object that is no fiber. -/
theorem QuietFrom.setContent {handle : Handle} {object : Object} {content : Content}
    (found : machine.heap.get? handle = some object) (wasPlain : object.fiber? = none)
    (isPlain : ({ object with content } : Object).fiber? = none)
    (noCapture : ∀ id index, ¬ ({ object with content } : Object).Captures id index) :
    QuietFrom machine (VM.setContent handle content) := by
  refine .modifyObject fun other isOther => ?_
  obtain rfl := Option.some.inj (found.symm.trans isOther)
  exact ⟨isPlain.trans wasPlain.symm, fun id index captured => absurd captured (noCapture id index)⟩

instance Quiet.modifyItems (handle : Handle) (change : Array Value → Array Value) :
    Quiet (VM.modifyItems handle change) :=
  .of_modifyObject fun object => by
    obtain ⟨classHandle, content, frozen, fields⟩ := object
    cases content <;> exact ⟨rfl, rfl⟩

end Objects

end VM

end RiteVm
