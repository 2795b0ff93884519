import Mathlib.Tactic.ByContra
import RiteVm.Execution.Unwinding
import RiteVm.Proofs.Collector.Allocation
import RiteVm.Proofs.Evolution.Actions

/-!
Contract: the running register stack while frames are left.

Owns:
- the frames of a stack from the innermost outward;
- machines that run on a stack, with the objects that its frames hold in the heap;
- what an action that leaves frames keeps of the heap;
- what a collection keeps of the running stack;
- reading and changing the frame on top, and leaving it.

Does not own: which frames and regions an exit leaves.
-/

namespace RiteVm

open RiteVm.Bytecode

/-- The frames of a register stack, the innermost first. -/
def Context.activations (context : Context) : List Frame := context.frames.toList.reverse

/-- The value that a handler finds: the pending record, or nil. -/
def Context.pendingValue (context : Context) : Value :=
  match context.pending with
  | none => .nil
  | some pending => .object pending.record

/-- The value in a slot of the running stack. -/
def Machine.slot? (machine : Machine) (index : Nat) : Option Value :=
  (machine.context? machine.current).map (·.slot index)

/-- An object that the frame needs while it is left. -/
def Frame.Holds (frame : Frame) (handle : Handle) : Prop :=
  frame.proc = some handle ∨ frame.env = some handle

namespace Context

variable {context : Context} {frame : Frame} {below : List Frame}

theorem back?_of_activations (top : context.activations = frame :: below) :
    context.frames.back? = some frame := by
  rw [← Array.getLast?_toList, ← List.head?_reverse]
  exact congrArg List.head? top

theorem size_of_activations (top : context.activations = frame :: below) :
    context.frames.size = below.length + 1 := by
  rw [← Array.length_toList, ← List.length_reverse]
  exact congrArg List.length top

theorem mem_frames_iff : frame ∈ context.frames ↔ frame ∈ context.activations := by
  rw [activations, List.mem_reverse, Array.mem_toList_iff]

theorem activations_pop (top : context.activations = frame :: below) :
    { context with frames := context.frames.pop }.activations = below := by
  have shorter : context.frames.pop.toList.reverse = (context.frames.toList.reverse).tail := by
    rw [Array.toList_pop, List.tail_reverse]
  rw [activations, shorter]
  exact congrArg List.tail top

theorem activations_modify (top : context.activations = frame :: below)
    (change : Frame → Frame) :
    { context with
      frames := context.frames.modify (context.frames.size - 1) change }.activations =
      change frame :: below := by
  have isPush : context.frames = (below.reverse.toArray).push frame := by
    rw [← Array.toList_inj, Array.toList_push, List.toList_toArray]
    have reversed := congrArg List.reverse top
    rw [activations, List.reverse_reverse] at reversed
    rw [reversed, List.reverse_cons]
  have changed : context.frames.modify (context.frames.size - 1) change =
      (below.reverse.toArray).push (change frame) := by
    rw [isPush]
    apply Array.ext_getElem?
    intro index
    rw [Array.getElem?_modify, Array.size_push, Array.getElem?_push, Array.getElem?_push]
    by_cases isTop : index = below.reverse.toArray.size
    · simp [isTop]
    · rw [if_neg (by omega), if_neg isTop, if_neg isTop]
  rw [activations]
  simp only [changed]
  rw [Array.toList_push, List.reverse_append, List.toList_toArray, List.reverse_reverse]
  rfl

end Context

/-! ### What is kept of the heap -/

/-- Every object is still there, with the exits and exceptions that are on their way, and
there is no other fiber. -/
structure Heap.Retains (before after : Heap) : Prop where
  wellFormed : before.WellFormed → after.WellFormed
  kept : before.WellFormed → ∀ handle object, before.get? handle = some object →
    ∃ object', after.get? handle = some object' ∧
      (∀ record, object.content = .exit record → object'.content = .exit record) ∧
      (object.exception?.isSome → object'.exception?.isSome)
  fibers : before.WellFormed → ∀ handle object record, after.get? handle = some object →
    object.content = .fiber record →
    ∃ object', before.get? handle = some object' ∧ object'.content = .fiber record

namespace Heap.Retains

variable {before heap after : Heap}

theorem refl (heap : Heap) : heap.Retains heap where
  wellFormed := id
  kept _ _ object found := ⟨object, found, fun _ => id, id⟩
  fibers _ _ object _ found isFiber := ⟨object, found, isFiber⟩

theorem trans (first : before.Retains heap) (second : heap.Retains after) :
    before.Retains after where
  wellFormed wellFormed := second.wellFormed (first.wellFormed wellFormed)
  kept wellFormed handle object found := by
    obtain ⟨object', found', exits, exceptions⟩ := first.kept wellFormed handle object found
    obtain ⟨object'', found'', exits', exceptions'⟩ :=
      second.kept (first.wellFormed wellFormed) handle object' found'
    exact ⟨object'', found'', fun record isExit => exits' record (exits record isExit),
      fun isException => exceptions' (exceptions isException)⟩
  fibers wellFormed handle object record found isFiber := by
    obtain ⟨object', found', isFiber'⟩ :=
      second.fibers (first.wellFormed wellFormed) handle object record found isFiber
    exact first.fibers wellFormed handle object' record found' isFiber'

/-- Bookkeeping beside the cells concerns no object. -/
theorem of_cells (cells : after.cells = before.cells) (free : after.free = before.free) :
    before.Retains after := by
  have same (handle : Handle) : after.get? handle = before.get? handle := by
    rw [Heap.get?, Heap.get?, cells]
  refine ⟨fun wellFormed => wellFormed.of_cells cells free, ?_, ?_⟩
  · intro _ handle object found
    exact ⟨object, (same handle).trans found, fun _ => id, id⟩
  · intro _ handle object record found isFiber
    exact ⟨object, (same handle).symm.trans found, isFiber⟩

/-- A new object that is no fiber. -/
theorem allocate (object : Object) (notFiber : ∀ record, object.content ≠ .fiber record) :
    heap.Retains (heap.allocate object).1 := by
  have lookup (wellFormed : heap.WellFormed) (other : Handle) :
      (heap.allocate object).1.get? other =
        if other = (heap.allocate object).2 then some object else heap.get? other :=
    wellFormed.get?_place object other
  refine ⟨fun wellFormed => wellFormed.allocate object, ?_, ?_⟩
  · intro wellFormed handle found isFound
    have isNew : heap.get? (heap.allocate object).2 = none := wellFormed.get?_place_snd object
    have isOther : handle ≠ (heap.allocate object).2 := by
      rintro rfl
      exact nomatch isNew.symm.trans isFound
    refine ⟨found, ?_, fun _ => id, id⟩
    rw [lookup wellFormed, if_neg isOther, isFound]
  · intro wellFormed handle found record isFound isFiber
    rw [lookup wellFormed] at isFound
    split at isFound
    · obtain rfl := Option.some.inj isFound
      exact absurd isFiber (notFiber record)
    · exact ⟨found, isFound, isFiber⟩

/-- A change of an object that keeps exits and exceptions and makes no fiber. -/
theorem modify (handle : Handle) (change : Object → Object)
    (exits : ∀ object record, before.get? handle = some object →
      object.content = .exit record → (change object).content = .exit record)
    (exceptions : ∀ object, before.get? handle = some object →
      object.exception?.isSome → (change object).exception?.isSome)
    (fibers : ∀ object record, before.get? handle = some object →
      (change object).content = .fiber record → object.content = .fiber record) :
    before.Retains (before.modify handle change) := by
  refine ⟨fun wellFormed => wellFormed.modify handle change, ?_, ?_⟩
  · intro _ other object found
    rw [Heap.get?_modify]
    by_cases isHandle : other = handle
    · rw [isHandle] at found
      rw [if_pos isHandle, found]
      exact ⟨change object, rfl, fun record => exits object record found,
        exceptions object found⟩
    · rw [if_neg isHandle]
      exact ⟨object, found, fun _ => id, id⟩
  · intro _ other object record found isFiber
    rw [Heap.get?_modify] at found
    split at found
    · rename_i isHandle
      obtain ⟨object', found', rfl⟩ := Option.map_eq_some_iff.mp found
      exact ⟨object', isHandle ▸ found', fibers object' record found' isFiber⟩
    · exact ⟨object, found, isFiber⟩

end Heap.Retains

/-! ### Machines that run on a stack -/

namespace Machine

/-- The current register stack is the given one, the heap has what its frames hold, and no
fiber but the owner of the stack would take it away. -/
structure RunsOn (machine : Machine) (context : Context) : Prop where
  running : machine.context? machine.current = some context
  wellFormed : machine.heap.WellFormed
  held : ∀ frame ∈ context.activations, ∀ handle, frame.Holds handle →
    ∃ object, machine.heap.get? handle = some object
  owned : ∀ handle object record, machine.heap.get? handle = some object →
    object.content = .fiber record → record.context = machine.current →
    context.owner = some handle

/-- Another machine with the same current stack in another state, which has everything
that was in the heap. -/
structure MovesTo (before after : Machine) (context : Context) : Prop where
  current : after.current = before.current
  heap : before.heap.Retains after.heap
  running : after.context? before.current = some context

variable {machine next last : Machine} {context changed : Context}

theorem context?_modifyContext (found : machine.context? machine.current = some context)
    (change : Context → Context) :
    (machine.modifyContext machine.current change).context? machine.current =
      some (change context) := by
  rw [context?, Option.join_eq_some_iff] at found ⊢
  rw [modifyContext, Array.getElem?_modify, if_pos rfl, found]
  rfl

theorem MovesTo.refl (running : machine.context? machine.current = some context) :
    machine.MovesTo machine context :=
  ⟨rfl, .refl _, running⟩

theorem MovesTo.trans (first : machine.MovesTo next context) (second : next.MovesTo last changed) :
    machine.MovesTo last changed where
  current := second.current.trans first.current
  heap := first.heap.trans second.heap
  running := by
    rw [← first.current]
    exact second.running

/-- A stack stays fit to run on as long as its frames hold nothing new. -/
theorem RunsOn.movesTo (runs : machine.RunsOn context) (moves : machine.MovesTo next changed)
    (sameOwner : changed.owner = context.owner)
    (held : ∀ frame ∈ changed.activations, ∀ handle, frame.Holds handle →
      ∃ holder ∈ context.activations, holder.Holds handle) : next.RunsOn changed where
  running := by
    rw [moves.current]
    exact moves.running
  wellFormed := moves.heap.wellFormed runs.wellFormed
  held frame member handle holds := by
    obtain ⟨holder, isHolder, holds⟩ := held frame member handle holds
    obtain ⟨object, found⟩ := runs.held holder isHolder handle holds
    obtain ⟨object', found', -⟩ := moves.heap.kept runs.wellFormed handle object found
    exact ⟨object', found'⟩
  owned handle object record found isFiber isCurrent := by
    obtain ⟨object', found', isFiber'⟩ :=
      moves.heap.fibers runs.wellFormed handle object record found isFiber
    rw [sameOwner]
    exact runs.owned handle object' record found' isFiber' (isCurrent.trans moves.current)

/-! ### Collections -/

theorem reclaim_current (handle : Handle) : (machine.reclaim handle).current = machine.current := by
  rw [reclaim]
  split
  · rename_i object _
    cases isContent : object.content <;> rfl
  · rfl

/-- A stack is taken away only with a fiber that it belongs to. -/
theorem context?_reclaim {id : ContextId} {handle : Handle}
    (notOwner : ∀ object record, machine.heap.get? handle = some object →
      object.content = .fiber record → record.context ≠ id) :
    (machine.reclaim handle).context? id = machine.context? id := by
  rw [reclaim]
  split
  · rename_i object found
    cases isContent : object.content with
    | fiber record =>
        have isOther : record.context.index ≠ id.index := by
          intro same
          exact notOwner object record found isContent (congrArg ContextId.mk same)
        simp only [release, removeContext, context?]
        rw [Array.getElem?_setIfInBounds, if_neg isOther]
    | _ => rfl
  · rfl

theorem context?_foldl_reclaim {id : ContextId} {dead : List Handle}
    (notOwner : ∀ handle ∈ dead, ∀ object record, machine.heap.get? handle = some object →
      object.content = .fiber record → record.context ≠ id) :
    (dead.foldl reclaim machine).context? id = machine.context? id ∧
      (dead.foldl reclaim machine).current = machine.current := by
  induction dead generalizing machine with
  | nil => exact ⟨rfl, rfl⟩
  | cons first rest inductionHypothesis =>
      have notFirst := notOwner first List.mem_cons_self
      have notRest : ∀ handle ∈ rest, ∀ object record,
          (machine.reclaim first).heap.get? handle = some object →
          object.content = .fiber record → record.context ≠ id := by
        intro handle member object record found
        rw [get?_reclaim] at found
        split at found
        · exact nomatch found
        · exact notOwner handle (List.mem_cons_of_mem _ member) object record found
      obtain ⟨sameContext, sameCurrent⟩ := inductionHypothesis notRest
      rw [List.foldl_cons, sameContext, sameCurrent, context?_reclaim notFirst, reclaim_current]
      exact ⟨rfl, rfl⟩

/-- What the current stack refers to survives a collection. -/
theorem RunsOn.get?_collect (runs : machine.RunsOn context) {handle : Handle}
    (refers : context.RefersTo (.object handle)) :
    machine.collect.heap.get? handle = machine.heap.get? handle :=
  get?_collect_of_reachable (.step (.root .current) (.context runs.running refers))

/-- A collection leaves the current stack fit to run on. -/
theorem RunsOn.collect (runs : machine.RunsOn context) : machine.collect.RunsOn context := by
  have notOwner : ∀ handle ∈ machine.unreachable, ∀ object record,
      machine.heap.get? handle = some object → object.content = .fiber record →
      record.context ≠ machine.current := by
    intro handle isDead object record found isFiber isCurrent
    have isOwner := runs.owned handle object record found isFiber isCurrent
    exact (mem_unreachable.mp isDead).2
      (.step (.root .current) (.context runs.running (.owner isOwner)))
  obtain ⟨sameContext, sameCurrent⟩ := context?_foldl_reclaim notOwner
  have isCurrent : machine.collect.current = machine.current := sameCurrent
  refine ⟨?_, wellFormed_collect runs.wellFormed, ?_, ?_⟩
  · rw [isCurrent]
    exact sameContext.trans runs.running
  · intro frame member handle holds
    obtain ⟨object, found⟩ := runs.held frame member handle holds
    have inFrames := Context.mem_frames_iff.mpr member
    refine ⟨object, ?_⟩
    rw [runs.get?_collect, found]
    rcases holds with isProc | isEnv
    · exact .frame inFrames (.proc isProc)
    · exact .frame inFrames (.scope isEnv)
  · intro handle object record found isFiber runsHere
    obtain ⟨-, found⟩ := reachable_of_get?_collect found
    exact runs.owned handle object record found isFiber (runsHere.trans isCurrent)

end Machine

end RiteVm
