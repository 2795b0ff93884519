import RiteVm.Proofs.Windows.Rising

/-!
Contract: actions that take frames off the running stack.

Owns:
- falling actions and the rules for the ways in which they are put together;
- one instance for each way to leave frames, to find a handler, and to end a cycle.

A frame that is left hands its value over in the slot that it began with, so only slots of
windows that are gone are written.
-/

namespace RiteVm

open RiteVm.Bytecode

namespace VM

set_option synthInstance.maxSize 3000

variable {level : Nat} {machine : Machine} {α β : Type}

/-- From one machine, an action takes frames off, and writes slots of them or above a level. -/
abbrev FallsFrom (level : Nat) (machine : Machine) (action : VM α) : Prop :=
  machine.Falls level (action.after machine)

/-- An action takes frames off, and writes slots of them or above a level. -/
class Falling (level : Nat) (action : VM α) : Prop where
  fallsFrom : ∀ machine, machine.Linked True → FallsFrom level machine action

section Composition

variable {action : VM α} {rest : α → VM β}

theorem FallsFrom.bind [Carries True action] (linked : machine.Linked True)
    (first : FallsFrom level machine action)
    (second : ∀ value next, action machine = .ok value next → next.Linked True →
      FallsFrom level next (rest value)) :
    FallsFrom level machine (action >>= rest) := by
  have linkedNext : (action.after machine).Linked True := linked_after linked
  cases result : action machine with
  | ok value next =>
      rw [FallsFrom, after_of_ok result] at first
      rw [after_of_ok result] at linkedNext
      rw [FallsFrom, after_bind_of_ok result]
      exact first.trans (second value next result linkedNext)
  | error failure next =>
      rw [FallsFrom, after_of_error result] at first
      rw [FallsFrom, after_of_error (bind_of_error result)]
      exact first

namespace Falling

instance ofQuiet [quiet : Quiet action] : Falling level action :=
  ⟨fun machine linked =>
    (Machine.KeepsStacks.of_keepsFibers linked.wellFormed (quiet.quietFrom machine)).falls⟩

instance seq [Carries True action] [first : Falling level action]
    [second : ∀ value, Falling level (rest value)] : Falling level (action >>= rest) where
  fallsFrom machine linked := .bind linked (first.fallsFrom machine linked)
    fun value next _ linked => (second value).fallsFrom next linked

/-- The action behind a part of it whose value it depends on. -/
theorem behind [Carries True action] [Falling level action]
    (others : ∀ value, Falling level (rest value)) : Falling level (action >>= rest) :=
  seq

instance branch (condition : Prop) [Decidable condition] {yes no : VM α} [Falling level yes]
    [Falling level no] : Falling level (if condition then yes else no) := by
  split <;> infer_instance

instance attempted [falling : Falling level action] : Falling level (VM.attempt action) where
  fallsFrom machine linked := by
    have first := falling.fallsFrom machine linked
    rw [FallsFrom, after] at *
    rw [VM.attempt]
    cases result : action machine <;> rw [result] at first <;> exact first

end Falling

end Composition

namespace Falling

theorem of_rising {action : VM α} [rising : Rising (fun _ => True) level action]
    (sameHeap : ∀ machine, (action.after machine).heap = machine.heap)
    (shorter : ∀ machine, machine.Linked True →
      (action.after machine).frames.length ≤ machine.frames.length) : Falling level action where
  fallsFrom machine linked := (rising.risesFrom machine linked trivial).falls
    (shorter machine linked) fun _ _ captured => sameHeap machine ▸ captured

instance setSlot (index : Nat) (value : Value) [Fact (level ≤ index)] :
    Falling level (VM.setSlot index value) :=
  of_rising (fun _ => rfl) fun machine linked => Nat.le_of_eq <| congrArg List.length
    ((InPlace.setSlot index value).inPlaceFrom machine linked.wellFormed).frames

instance setPending (pending : Option Pending) :
    Falling level (VM.modifyContext ({ · with pending })) :=
  of_rising (fun _ => rfl) fun machine linked => Nat.le_of_eq <| congrArg List.length
    ((InPlace.setPending pending).inPlaceFrom machine linked.wellFormed).frames

instance modifyFrame (change : Frame → Frame) [KeepsWindow change] :
    Falling level (VM.modifyFrame change) :=
  of_rising (fun _ => rfl) fun machine linked => by
    rw [frames_modifyFrame linked, List.length_modify]

/-! ### Leaving frames -/

instance truncateFrames (height : Nat) : Falling level (VM.truncateFrames height) where
  fallsFrom machine linked := by
    obtain ⟨context, running⟩ := context_of_linked linked
    refine .of_modifyContext running rfl ?_
    rw [Array.take_eq_extract, Array.toList_extract, List.extract_eq_take_drop, List.drop_zero,
      Nat.sub_zero]
    exact List.take_prefix _ _

instance popFrame? : Falling level VM.popFrame? := by
  have pop : Falling level (VM.modifyContext fun context =>
      { context with frames := context.frames.pop }) := by
    refine ⟨fun machine linked => ?_⟩
    obtain ⟨context, running⟩ := context_of_linked linked
    refine .of_modifyContext running rfl ?_
    rw [Array.toList_pop]
    exact List.dropLast_prefix _
  unfold VM.popFrame?
  refine behind fun context => ?_
  split <;> infer_instance

end Falling

/-- What comes behind leaving a frame may write the window of this frame. -/
theorem FallsFrom.pop_bind {rest : Option Frame → VM β} (linked : machine.Linked True)
    (second : ∀ (frame? : Option Frame) (next : Machine), frame? = machine.frames.getLast? →
      next.Linked True →
      match frame? with
      | none => FallsFrom level next (rest none)
      | some frame => FallsFrom (min level frame.base) next (rest (some frame))) :
    FallsFrom level machine (VM.popFrame? >>= rest) := by
  have first : FallsFrom level machine VM.popFrame? := Falling.popFrame?.fallsFrom machine linked
  have linkedNext : (VM.popFrame?.after machine).Linked True := linked_after linked
  cases result : VM.popFrame? machine with
  | ok frame? next =>
      rw [after_of_ok result] at linkedNext
      rw [FallsFrom, after_of_ok result] at first
      rw [FallsFrom, after_bind_of_ok result]
      obtain ⟨isFrames, isLast⟩ := frames_of_popFrame? linked result
      have goesOn := second frame? next isLast linkedNext
      cases frame? with
      | none => exact first.trans goesOn
      | some frame =>
          rw [List.getLast?_eq_getElem?] at isLast
          refine first.andThen goesOn fun index below outside => Nat.lt_min.mpr ⟨below, ?_⟩
          refine outside _ frame ?_ isLast.symm
          rw [isFrames, List.length_dropLast]
  | error failure next =>
      rw [FallsFrom, after_of_error result] at first
      rw [FallsFrom, after_of_error (bind_of_error result)]
      exact first

namespace Falling

instance enterHandler (target : Nat) (record : Handle) (kind : CatchKind) :
    Falling level (VM.enterHandler target record kind) := by
  unfold VM.enterHandler
  infer_instance

instance divert (handler : CatchHandler) (target : ExitTarget) (value : Value) :
    Falling level (VM.divert handler target value) := by
  unfold VM.divert
  infer_instance

instance leaveFrames (target : Nat) (value : Value) (stop top : Nat) :
    Falling level (VM.leaveFrames target value stop top) := by
  induction top generalizing level with
  | zero => exact inferInstanceAs (Falling level (VM.breach _))
  | succ top inductionHypothesis =>
      unfold VM.leaveFrames
      refine behind fun handler? => ?_
      split
      · infer_instance
      · refine ⟨fun machine linked => .pop_bind linked fun frame? next _ linked => ?_⟩
        cases frame? with
        | none =>
            have breaks : Falling level (VM.breach .bottomFrame : VM (Option Exit)) := inferInstance
            exact breaks.fallsFrom next linked
        | some frame =>
            have above : Fact (min level frame.base ≤ frame.base) := ⟨Nat.min_le_right _ _⟩
            have leaves : Falling (min level frame.base) (
                if top = target then do
                  if top = stop then return some (.returned value)
                  VM.setSlot frame.base value
                  return none
                else if top = stop then throw (.unwinding target value)
                else VM.leaveFrames target value stop top : VM (Option Exit)) := inferInstance
            exact leaves.fallsFrom next linked

instance exitTo (target : Nat) (value : Value) (stop : Nat) :
    Falling level (VM.exitTo target value stop) := by
  unfold VM.exitTo
  infer_instance

instance returnValue (value : Value) (stop : Nat) : Falling level (VM.returnValue value stop) := by
  unfold VM.returnValue
  infer_instance

instance breakOut (value : Value) (stop : Nat) : Falling level (VM.breakOut value stop) := by
  unfold VM.breakOut
  refine behind fun depth => behind fun frame => ?_
  split
  · infer_instance
  · refine behind fun strict => ?_
    split
    · infer_instance
    · refine behind fun home? => ?_
      split <;> infer_instance

instance returnFromMethod (value : Value) (stop : Nat) :
    Falling level (VM.returnFromMethod value stop) := by
  unfold VM.returnFromMethod
  refine behind fun frame => ?_
  split
  · infer_instance
  · refine behind fun strict => ?_
    split
    · infer_instance
    · refine behind fun bound => behind fun outermost => behind fun object => ?_
      split
      · infer_instance
      · refine behind fun home? => ?_
        split <;> infer_instance

instance findHandler (exception : Handle) (stop top : Nat) :
    Falling level (VM.findHandler exception stop top) := by
  induction top with
  | zero => exact inferInstanceAs (Falling level (VM.breach _))
  | succ top inductionHypothesis =>
      unfold VM.findHandler
      refine behind fun frame => behind fun _ => ?_
      split <;> infer_instance

instance handleRaise (exception : Handle) (stop : Nat) :
    Falling level (VM.handleRaise exception stop) := by
  unfold VM.handleRaise
  infer_instance

instance jumpUnwinding (target : Nat) : Falling level (VM.jumpUnwinding target) := by
  let leave (handler? : Option CatchHandler) : VM Unit :=
    match handler? with
    | some handler => VM.divert handler (.address target) .nil
    | none => do
      VM.modifyContext ({ · with pending := none })
      VM.modifyFrame ({ · with ensuring := none, pc := target })
  have leaves (handler? : Option CatchHandler) : Falling level (leave handler?) := by
    dsimp only [leave]
    split <;> infer_instance
  unfold VM.jumpUnwinding
  refine behind fun handler? => ?_
  dsimp only
  split <;> exact behind leaves

instance resumePending (record : Value) (stop : Nat) :
    Falling level (VM.resumePending record stop) := by
  unfold VM.resumePending
  refine behind fun _ => ?_
  split
  · infer_instance
  · refine behind fun object => ?_
    split <;> infer_instance
  · infer_instance

/-- A cycle ends with falls only. -/
instance conclude (stop mark : Nat) (result : Except Failure (Option Exit)) :
    Falling level (VM.conclude stop mark result) := by
  have recovers : Falling level (VM.recover stop result) := by
    unfold VM.recover
    split <;> infer_instance
  have recovers' : Carries True (VM.recover stop result) := by
    unfold VM.recover
    split <;> infer_instance
  have delivers (result : Except Failure (Option Exit)) : Falling level (VM.deliver result) := by
    unfold VM.deliver
    infer_instance
  unfold VM.conclude
  infer_instance

/-- The call in which a fiber handed values over is left with others. -/
instance completeYield (args : List Value) : Falling level (VM.completeYield args) := by
  unfold VM.completeYield
  refine ⟨fun machine linked => .pop_bind linked fun frame? next _ linked => ?_⟩
  cases frame? with
  | none =>
      have breaks : Falling level (VM.breach .noYieldFrame : VM Unit) := inferInstance
      exact breaks.fallsFrom next linked
  | some frame =>
      have above : Fact (min level frame.base ≤ frame.base + 0) := ⟨Nat.min_le_right _ _⟩
      have completes : Falling (min level frame.base) (do
          VM.setSlot (frame.base + 0) (← VM.packValues args) : VM Unit) := inferInstance
      exact completes.fallsFrom next linked

end Falling

end VM

end RiteVm
