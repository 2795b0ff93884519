import RiteVm.Execution.Program
import RiteVm.Proofs.Fibers.Registers

/-!
Contract: frames that calls push and leave.

Owns:
- pushing one frame, and leaving the innermost one;
- running an action one level deeper;
- calls that push a frame, run a loop from it and wait for its value.
-/

namespace RiteVm

namespace VM

variable {tidy firm : Prop} {machine : Machine} {α : Type}

/-! ### Pushing a frame -/

/-- What a push leaves: one more frame of a kind, or the same frames if it fails. -/
def Pushed (kind : Frame → Prop) (before : List Frame) : EStateM.Result Failure Machine Unit → Prop
  | .ok _ machine => ∃ frame, kind frame ∧ machine.frames = before ++ [frame]
  | .error _ machine => machine.frames = before

/-- From one machine, an action pushes a frame of a kind, unless it fails. -/
structure PushesFrom (tidy : Prop) (kind : Frame → Prop) (machine : Machine) (action : VM Unit) :
    Prop where
  linked : (action.after machine).Linked tidy
  beside : machine.Beside (action.after machine)
  pushed : Pushed kind machine.frames (action machine)

theorem PushesFrom.tracksFrom {kind : Frame → Prop} {action : VM Unit}
    (pushes : PushesFrom tidy kind machine action) :
    TracksFrom tidy (· <+: ·) (Pushed kind machine.frames) machine action action := by
  obtain ⟨linked, beside, pushed⟩ := pushes
  refine ⟨rfl, fun _ => ⟨linked, beside, ?_⟩, pushed⟩
  rw [VM.after]
  cases result : action machine with
  | ok value next =>
      rw [result] at pushed
      obtain ⟨frame, -, isPushed⟩ := pushed
      exact isPushed ▸ List.prefix_append _ _
  | error failure next =>
      rw [result] at pushed
      have same : next.frames = machine.frames := pushed
      exact same ▸ List.prefix_refl _

/-- An action pushes a frame of a kind, unless it fails. -/
class Pushes (kind : Frame → Prop) (action : VM Unit) : Prop where
  pushesFrom : ∀ tidy machine, machine.Linked tidy → PushesFrom tidy kind machine action

namespace Pushes

variable {kind : Frame → Prop} {action : VM α} {rest : α → VM Unit}

theorem frame {frame : Frame} (isKind : kind frame) : Pushes kind (pushFrame frame) where
  pushesFrom tidy machine linked := by
    obtain ⟨context, running⟩ := Option.isSome_iff_exists.mp linked.live_current
    have keeps : machine.KeepsOthers ((pushFrame frame).after machine) :=
      Machine.keepsOthers_modifyContext linked.wellFormed _
    refine ⟨keeps.linked linked, .of_keepsOthers linked keeps, frame, isKind, ?_⟩
    rw [Machine.frames_of_context? running, ← Array.toList_push]
    exact Machine.frames_modifyContext running

theorem behind [inPlace : InPlace action] (push : ∀ value, Pushes kind (rest value)) :
    Pushes kind (action >>= rest) where
  pushesFrom tidy machine linked := by
    obtain ⟨keeps, frames⟩ := inPlace.inPlaceFrom machine linked.wellFormed
    rw [VM.after] at keeps frames
    cases result : action machine with
    | ok value next =>
        rw [result] at keeps frames
        obtain ⟨linked', beside, pushed⟩ :=
          (push value).pushesFrom tidy next (keeps.linked linked)
        have isNext : (action >>= rest).after machine = (rest value).after next :=
          after_bind_of_ok result
        refine ⟨isNext ▸ linked', isNext ▸ (Machine.Beside.of_keepsOthers linked keeps).trans beside, ?_⟩
        rw [bind_of_ok result, ← frames]
        exact pushed
    | error failure next =>
        rw [result] at keeps frames
        have failed : (action >>= rest) machine = .error failure next := bind_of_error result
        have isNext : (action >>= rest).after machine = next := after_of_error failed
        refine ⟨isNext ▸ keeps.linked linked, isNext ▸ .of_keepsOthers linked keeps, ?_⟩
        rw [failed]
        exact frames

theorem advancing (kind : Frame → Prop) {action : VM Unit} [pushes : Pushes kind action] :
    Advancing tidy action action where
  advancingFrom machine linked := by
    obtain ⟨-, leads, -⟩ := (pushes.pushesFrom tidy machine linked).tracksFrom
    exact ⟨rfl, fun isIntact => { leads isIntact with frames := .of_isPrefix (leads isIntact).frames },
      trivial⟩

instance procFrame (site : CallSite) (proc : Handle) (owner : Option Handle)
    (method : Option Symbol) (block : Value) (boundary : Bool) :
    Pushes (fun frame => frame.boundary = boundary)
      (pushProcFrame site proc owner method block boundary) := by
  unfold VM.pushProcFrame
  exact behind fun _ => behind fun _ => behind fun _ => frame rfl

instance nativeFrame (site : CallSite) (owner : Handle) (method : Symbol) (block : Value) :
    Pushes (fun frame => frame.unit = none) (pushNativeFrame site owner method block) := by
  unfold VM.pushNativeFrame
  exact behind fun _ => frame rfl

instance programFrame (unit : Bytecode.CodeUnit) (self : Value) (target : Handle) :
    Pushes (fun frame => frame.boundary = true) (pushProgramFrame unit self target) := by
  unfold VM.pushProgramFrame
  exact behind fun _ => behind fun _ => behind fun _ => behind fun _ => behind fun _ =>
    behind fun _ => frame rfl

end Pushes

instance Advancing.pushProcFrame (site : CallSite) (proc : Handle) (owner : Option Handle)
    (method : Option Symbol) (block : Value) (boundary : Bool) :
    Advancing tidy (pushProcFrame site proc owner method block boundary)
      (pushProcFrame site proc owner method block boundary) :=
  Pushes.advancing fun frame => frame.boundary = boundary

/-! ### Leaving a frame -/

/-- The innermost frame is left, also if its captured variables cannot be kept. -/
structure PopsFrom (machine : Machine) : Prop where
  keeps : machine.KeepsOthers (popFrame?.after machine)
  frames : (popFrame?.after machine).frames = machine.frames.dropLast
  popped : ∀ frame? next, popFrame? machine = .ok frame? next → frame? = machine.frames.getLast?

theorem popsFrom (linked : machine.Linked tidy) : PopsFrom machine := by
  obtain ⟨context, running⟩ := Option.isSome_iff_exists.mp linked.live_current
  have read : Query.context machine = .ok context := by rw [Query.context, running]
  have frames := Machine.frames_of_context? running
  have last : machine.frames.getLast? = context.frames.back? := by
    rw [frames, Array.getLast?_toList]
  cases innermost : context.frames.back? with
  | none =>
      have popped : popFrame? machine = .ok none machine := by
        rw [popFrame?, bind_of_ok (liftM_of_ok read)]
        simp only [innermost]
        rfl
      have noFrames : machine.frames = [] := List.getLast?_eq_none_iff.mp (last.trans innermost)
      refine ⟨?_, ?_, fun frame? next isPopped => ?_⟩
      · rw [after_of_ok popped]
        exact .refl linked.wellFormed
      · rw [after_of_ok popped, noFrames]
        rfl
      · rw [popped] at isPopped
        cases isPopped
        exact (last.trans innermost).symm
  | some frame =>
      let finish : VM (Option Frame) := do
        frame.env.forM detachEnv
        return some frame
      have popped : popFrame? machine = finish (machine.modifyContext machine.current
          fun context => { context with frames := context.frames.pop }) := by
        rw [popFrame?, bind_of_ok (liftM_of_ok read)]
        simp only [innermost]
        exact bind_of_ok rfl
      have keeps := Machine.keepsOthers_modifyContext linked.wellFormed
        fun context => { context with frames := context.frames.pop }
      have finishes : InPlaceFrom _ finish := .of_inPlace keeps.wellFormed
      have isAfter := after_congr popped
      refine ⟨?_, ?_, fun frame? next isPopped => ?_⟩
      · rw [isAfter]
        exact keeps.trans finishes.keeps
      · rw [isAfter, finishes.frames, Machine.frames_modifyContext running, frames, Array.toList_pop]
      · rw [popped] at isPopped
        obtain ⟨_, _, _, returned⟩ := bind_eq_ok_iff.mp isPopped
        rw [← (pure_eq_ok_iff.mp returned).1, last, innermost]

/-! ### One level deeper -/

/-- The machine with one more nested loop. -/
def deeper (machine : Machine) : Machine := { machine with nativeDepth := machine.nativeDepth + 1 }

/-- The machine with one nested loop less. -/
def shallower (machine : Machine) : Machine :=
  { machine with nativeDepth := machine.nativeDepth - 1 }

/-- Another loop can be nested. -/
def HasRoom (machine : Machine) : Prop := machine.nativeDepth < machine.config.maxNativeDepth

theorem linked_deeper (linked : machine.Linked tidy) : (deeper machine).Linked tidy :=
  { linked with fits := fun handle record found => { linked.fits handle record found with } }

theorem linked_shallower (linked : machine.Linked tidy) : (shallower machine).Linked tidy :=
  { linked with fits := fun handle record found => { linked.fits handle record found with } }

/-- The level is left again, so only what was done one level deeper counts. -/
theorem beside_shallower {after : Machine} (beside : (deeper machine).Beside after) :
    machine.Beside (shallower after) where
  config := beside.config
  current := beside.current
  currentFiber := beside.currentFiber
  resumers := beside.resumers
  nativeDepth := congrArg Nat.pred beside.nativeDepth
  below := beside.below
  watched watch holds := (beside.watched watch (holds.congr rfl rfl rfl)).congr rfl rfl rfl
  informs :=
    have enters : machine.Informs (deeper machine) := .of_signals (fun _ => rfl) rfl rfl
    have leaves : after.Informs (shallower after) := .of_signals (fun _ => rfl) rfl rfl
    enters.trans (beside.informs.trans leaves)
  busy handle record busy found := beside.busy handle record busy found

theorem checkNativeDepth_of_room (room : HasRoom machine) :
    checkNativeDepth machine = .ok () machine := by
  have enough : ¬ machine.config.maxNativeDepth ≤ machine.nativeDepth := Nat.not_le_of_lt room
  rw [checkNativeDepth, get_bind, if_neg enough]
  rfl

theorem room_of_checkNativeDepth {next : Machine} (checked : checkNativeDepth machine = .ok () next) :
    HasRoom machine := by
  by_contra full
  have tooDeep : machine.config.maxNativeDepth ≤ machine.nativeDepth := Nat.le_of_not_lt full
  rw [checkNativeDepth, get_bind, if_pos tooDeep] at checked
  exact raise_ne_ok checked

theorem nested_of_room (room : HasRoom machine) (action : VM α) :
    nested action machine =
      match action (deeper machine) with
      | .ok value next => .ok value (shallower next)
      | .error failure next => .error failure (shallower next) := by
  have entered : (modify fun machine : Machine =>
      { machine with nativeDepth := machine.nativeDepth + 1 } : VM PUnit) machine =
        .ok ⟨⟩ (deeper machine) := rfl
  rw [nested, bind_of_ok (checkNativeDepth_of_room room), bind_of_ok entered]
  cases ran : action (deeper machine) with
  | ok value next =>
      rw [bind_of_ok (attempt_of_ok ran)]
      rfl
  | error failure next =>
      rw [bind_of_ok (attempt_of_error ran)]
      rfl

theorem after_nested_of_room (room : HasRoom machine) (action : VM α) :
    (nested action).after machine = shallower (action.after (deeper machine)) := by
  rw [after, after, nested_of_room room]
  cases action (deeper machine) <;> rfl

/-- One level deeper is as good as here. -/
theorem TracksFrom.nested {moves : List Frame → List Frame → Prop}
    {ends : EStateM.Result Failure Machine α → Prop} {action action' : VM α}
    (room : HasRoom machine) (tracks : TracksFrom tidy moves ends (deeper machine) action action')
    (leaves : ∀ result, ends result → ends (match result with
      | .ok value next => .ok value (shallower next)
      | .error failure next => .error failure (shallower next))) :
    TracksFrom tidy moves ends machine (nested action) (nested action') := by
  obtain ⟨same, leads, ended⟩ := tracks
  refine ⟨?_, fun isIntact => ?_, ?_⟩
  · rw [nested_of_room room, nested_of_room room, same]
  · rw [after_nested_of_room room]
    rw [nested_of_room room] at isIntact
    have leads := leads (by cases ran : action (deeper machine) <;> rw [ran] at isIntact <;> exact isIntact)
    exact ⟨linked_shallower leads.linked, beside_shallower leads.beside, leads.frames⟩
  · rw [nested_of_room room]
    exact leaves _ ended

instance Balanced.nested {action action' : VM α} [balanced : Balanced tidy firm action action'] :
    Balanced tidy firm (nested action) (nested action') where
  balancedFrom machine linked := by
    cases checked : checkNativeDepth machine with
    | ok _ next =>
        refine TracksFrom.nested (room_of_checkNativeDepth checked)
          (balanced.balancedFrom (deeper machine) (linked_deeper linked)) fun result ends => ?_
        cases result <;> exact ends
    | error failure next =>
        have failed (action : VM α) : VM.nested action machine = .error failure next :=
          bind_of_error checked
        have inPlace : InPlaceFrom machine checkNativeDepth := .of_inPlace linked.wellFormed
        have isAfter : (VM.nested action).after machine = checkNativeDepth.after machine := by
          rw [after_of_error (failed action), after_of_error checked]
        refine ⟨by rw [failed, failed], fun _ => ?_, ?_⟩
        · rw [isAfter]
          exact inPlace.leads linked (List.prefix_refl _)
        · rw [failed]
          have frames := inPlace.frames
          rw [after_of_error checked] at frames
          exact fun _ _ => frames

/-! ### Waiting for a value -/

/-- Waiting for the value of a loop leaves the frames below those of the loop. -/
theorem TracksFrom.finishCall {stop : Nat} {loop loop' : VM Exit}
    (runs : TracksFrom tidy (Descends stop) (EndsLoop tidy stop) machine loop loop') :
    TracksFrom tidy (fun before after => before.take stop <+: after)
      (EndsLevel firm (machine.frames.take stop)) machine (attempt loop >>= VM.finishCall)
      (attempt loop' >>= VM.finishCall) := by
  refine TracksFrom.attempt_bind runs (fun _ _ => Bool.noConfusion) (fun _ => .of_not_isIntact)
    (fun descends grows => descends.below ▸ (List.take_prefix _ _).trans grows) ?_
  intro result next _ leads ends
  have inPlace : InPlaceFrom next (VM.finishCall result) := .of_inPlace leads.linked.wellFormed
  have same := inPlace.frames
  refine ⟨rfl, fun _ => inPlace.leads leads.linked (List.prefix_refl _), ?_⟩
  cases finished : VM.finishCall result next with
  | ok value last =>
      rw [after_of_ok finished] at same
      refine fun _ => same.trans (leads.frames.eq_take ?_)
      cases result with
      | ok exit =>
          cases exit with
          | returned value => exact ends
          | yielded value => exact nomatch finished
      | error failure =>
          cases failure with
          | unwinding target value => exact ends rfl
          | _ => exact nomatch finished
  | error failure last =>
      rw [after_of_error finished] at same
      refine fun _ isMild => same.trans (leads.frames.eq_take ?_)
      cases result with
      | ok exit =>
          cases exit with
          | returned value => exact ends
          | yielded value =>
              cases finished
              exact nomatch isMild
      | error failure =>
          cases failure with
          | raised exception => exact ends rfl
          | unwinding target value => exact ends rfl
          | _ =>
              cases finished
              exact nomatch isMild

/-- An action that restores the frames, also if it fails. -/
theorem TracksFrom.of_keepsOthers {action : VM α} {frames : List Frame}
    (linked : machine.Linked tidy) (keeps : machine.KeepsOthers (action.after machine))
    (isFrames : (action.after machine).frames = frames) :
    TracksFrom tidy (fun _ after => frames <+: after) (EndsLevel firm frames) machine action
      action := by
  refine ⟨rfl, fun _ => ⟨keeps.linked linked, .of_keepsOthers linked keeps,
    isFrames ▸ List.prefix_refl _⟩, ?_⟩
  cases result : action machine with
  | ok value next =>
      rw [after_of_ok result] at isFrames
      exact fun _ => isFrames
  | error failure next =>
      rw [after_of_error result] at isFrames
      exact fun _ _ => isFrames

/-- A frame that is pushed first has to be left again. -/
theorem BalancedFrom.push_bind {kind : Frame → Prop} {push : VM Unit} {rest rest' : VM α}
    (pushes : PushesFrom tidy kind machine push)
    (go : ∀ next frame, push machine = .ok () next → next.Linked tidy → kind frame →
      next.frames = machine.frames ++ [frame] →
      TracksFrom tidy (fun _ after => machine.frames <+: after) (EndsLevel firm machine.frames) next
        rest rest') :
    BalancedFrom tidy firm machine (push >>= fun _ => rest) (push >>= fun _ => rest') := by
  refine TracksFrom.bind (fun _ => EndsLevel firm machine.frames) pushes.tracksFrom ?_ id
    (fun _ grows => grows) (fun _ _ same _ _ => same) fun _ _ _ _ _ _ ends => ends
  intro _ next succeeded leads
  have pushed := pushes.pushed
  rw [succeeded] at pushed
  obtain ⟨frame, isKind, isPushed⟩ := pushed
  exact go next frame succeeded leads.linked isKind isPushed

/-- A call that pushes a frame and runs a loop from it until it returns. -/
theorem BalancedFrom.callFrame {engine engine' : Engine} [agrees : engine.Agrees tidy engine']
    {push : VM Unit} {height : Nat} (isHeight : machine.frames.length = height)
    (pushes : PushesFrom tidy (fun frame => frame.boundary = true) machine push)
    (room : ∀ next, push machine = .ok () next → HasRoom next) :
    BalancedFrom tidy firm machine
      (do push; finishCall (← attempt (nested (engine.loop height))))
      (do push; finishCall (← attempt (nested (engine'.loop height)))) := by
  refine .push_bind pushes fun next frame start linked isBoundary isPushed => ?_
  have runsFrom : (deeper next).RunsFrom height := by
    refine ⟨frame, ?_, fun _ => isBoundary⟩
    change next.frames[height]? = _
    rw [isPushed, ← isHeight, List.getElem?_concat_length]
  have atHeight : next.frames.take height = machine.frames := by
    rw [isPushed, ← isHeight, List.take_left]
  have runs := TracksFrom.nested (room next start)
    (agrees.loop height _ (linked_deeper linked) runsFrom) fun result ends => by
      cases result with
      | ok exit last => cases exit <;> exact ends
      | error failure last => exact ends
  obtain ⟨same, leads, ends⟩ : TracksFrom tidy _ (EndsLevel firm _) next _ _ := runs.finishCall
  refine ⟨same, fun isIntact => ?_, atHeight ▸ ends⟩
  have leads := leads isIntact
  exact ⟨leads.linked, leads.beside, atHeight ▸ leads.frames⟩

end VM

end RiteVm
