import RiteVm.Execution.Unwinding
import RiteVm.Proofs.Fibers.Calls

/-!
Contract: exits and exceptions leave frames of the running loop only.

Owns:
- settling actions, which keep a frame for the loop to go on with, or leave all its frames;
- returns, breaks, exceptions and jumps out of protected regions.

An instruction that fails may leave any of the loop's frames. What settles its failure ends
either in a frame of the loop or behind the last one.
-/

namespace RiteVm

namespace VM

set_option synthInstance.maxSize 3000

variable {tidy : Prop} {machine : Machine} {stop : Nat} {α : Type}

/-! ### Settling -/

/-- How frames are left: for one that the loop goes on with, or all of the loop's, unless
the machine cannot go on. -/
def EndsSettled (tidy : Prop) (stop : Nat) : EStateM.Result Failure Machine (Option Exit) → Prop
  | .ok none machine => stop < machine.frames.length
  | .ok (some exit) machine => exit.LeavesAt tidy stop machine
  | .error failure machine => failure.isMild → machine.frames.length ≤ stop

/-- How an exception finds its handler: in a frame of the loop, or behind all of them. -/
def EndsHandled (stop : Nat) : EStateM.Result Failure Machine Unit → Prop
  | .ok _ machine => stop < machine.frames.length
  | .error failure machine => failure.isMild → machine.frames.length ≤ stop

theorem EndsSettled.step {result : EStateM.Result Failure Machine (Option Exit)}
    (settled : EndsSettled tidy stop result) : EndsStep tidy stop result := by
  cases result with
  | ok exit? machine => cases exit? <;> exact settled
  | error failure machine => exact trivial

/-- An action settles an exit of the loop that runs from a frame with an index. -/
class Settles (tidy : Prop) (stop : Nat) (action : VM (Option Exit)) : Prop where
  settlesFrom : ∀ machine, machine.Linked tidy → machine.RunsFrom stop →
    TracksFrom tidy (Descends stop) (EndsSettled tidy stop) machine action action

instance Executes.ofSettles {action : VM (Option Exit)} [settles : Settles tidy stop action] :
    Executes tidy stop action action where
  executesFrom machine linked runs := by
    obtain ⟨same, leads, ends⟩ := settles.settlesFrom machine linked runs
    exact ⟨same, leads, ends.step⟩

/-- What changes no frame, as an instruction of a loop. -/
theorem TracksFrom.stays {action : VM α} {ends : EStateM.Result Failure Machine α → Prop}
    [InPlace action] (linked : machine.Linked tidy) (ended : ends (action machine)) :
    TracksFrom tidy (Descends stop) ends machine action action where
  same := rfl
  leads _ := (InPlaceFrom.of_inPlace linked.wellFormed).leads linked (.refl stop _)
  ends := ended

/-- What fails only if an invariant is broken may stand in front of what settles. -/
theorem TracksFrom.only_bind {β : Type} {action : VM α} {rest rest' : α → VM β}
    {ends : EStateM.Result Failure Machine β → Prop} [only : OnlyBreaches action]
    (start : TracksFrom tidy (Descends stop) (fun _ => True) machine action action)
    (broken : ∀ result, ¬ IsIntact result → ends result)
    (go : ∀ value next, action machine = .ok value next → Leads tidy (Descends stop) machine next →
      TracksFrom tidy (Descends stop) ends next (rest value) (rest' value)) :
    TracksFrom tidy (Descends stop) ends machine (action >>= rest) (action >>= rest') := by
  have kept : TracksFrom tidy (Descends stop)
      (fun result => ∀ failure next, result = .error failure next → failure.isBreach)
      machine action action :=
    { start with ends := only.isBreach machine }
  refine kept.andThen go fun failure next failed => broken _ fun isIntact => ?_
  exact Bool.noConfusion ((failed failure next rfl).symm.trans isIntact)

/-- What was read holds of the machine in which the action goes on. -/
theorem TracksFrom.read_bind {β : Type} {query : Query α} {rest rest' : α → VM β}
    {ends : EStateM.Result Failure Machine β → Prop} (linked : machine.Linked tidy)
    (broken : ∀ result, ¬ IsIntact result → ends result)
    (go : ∀ value, query machine = .ok value →
      TracksFrom tidy (Descends stop) ends machine (rest value) (rest' value)) :
    TracksFrom tidy (Descends stop) ends machine (liftM query >>= rest)
      (liftM query >>= rest') := by
  refine only_bind (.stays linked trivial) broken fun value next read _ => ?_
  obtain ⟨isValue, rfl⟩ := liftM_eq_ok_iff.mp read
  exact go value isValue

/-- The same in front of what starts in a frame of the loop. -/
theorem TracksFrom.advance_bind {β : Type} {action : VM α} {rest rest' : α → VM β}
    {ends : EStateM.Result Failure Machine β → Prop} [OnlyBreaches action]
    (runs : machine.RunsFrom stop) (start : AdvancingFrom tidy machine action action)
    (broken : ∀ result, ¬ IsIntact result → ends result)
    (go : ∀ value next, action machine = .ok value next → next.Linked tidy → next.RunsFrom stop →
      TracksFrom tidy (Descends stop) ends next (rest value) (rest' value)) :
    TracksFrom tidy (Descends stop) ends machine (action >>= rest) (action >>= rest') := by
  refine only_bind (.of_advancing runs start trivial) broken fun value next succeeded leads => ?_
  refine go value next succeeded leads.linked (runs.descends leads.frames ?_)
  have grown := (start.leads (by rw [succeeded]; trivial)).frames.length_le
  rw [after_of_ok succeeded] at grown
  exact Nat.lt_of_lt_of_le runs.lt grown

theorem not_isMild_of_not_isIntact {failure : Failure}
    (broken : ¬ IsIntact (.error failure machine : EStateM.Result Failure Machine α)) :
    ¬ failure.isMild := fun isMild =>
  have mild : IsMild (.error failure machine : EStateM.Result Failure Machine α) := isMild
  broken mild.intact

theorem EndsSettled.of_not_isIntact {result : EStateM.Result Failure Machine (Option Exit)}
    (broken : ¬ IsIntact result) : EndsSettled tidy stop result := by
  cases result with
  | ok exit? machine => exact absurd trivial broken
  | error failure machine => exact fun isMild => absurd isMild (not_isMild_of_not_isIntact broken)

theorem EndsHandled.of_not_isIntact {result : EStateM.Result Failure Machine Unit}
    (broken : ¬ IsIntact result) : EndsHandled stop result := by
  cases result with
  | ok value machine => exact absurd trivial broken
  | error failure machine => exact fun isMild => absurd isMild (not_isMild_of_not_isIntact broken)

namespace Settles

variable {action : VM α} {rest : α → VM (Option Exit)}

/-- The loop goes on. -/
instance goOn : Settles tidy stop (pure none) where
  settlesFrom _ linked runs :=
    .of_advancing runs (.of_inPlaceFrom linked (.of_inPlace linked.wellFormed)) runs.lt

instance seq [advancing : Advancing tidy action action] [OnlyBreaches action]
    [second : ∀ value, Settles tidy stop (rest value)] : Settles tidy stop (action >>= rest) where
  settlesFrom machine linked runs :=
    .advance_bind runs (advancing.advancingFrom machine linked) (fun _ => .of_not_isIntact)
      fun value next _ linked runs => (second value).settlesFrom next linked runs

end Settles

/-! ### Ensure clauses -/

namespace OnlyBreaches

instance setSlot (index : Nat) (value : Value) : OnlyBreaches (setSlot index value) :=
  ofModifyContext _

instance growHeap (bytes : Nat) : OnlyBreaches (modifyHeap (·.grow bytes)) := ofModify _

instance detachEnv (env : Handle) : OnlyBreaches (detachEnv env) := by
  unfold VM.detachEnv
  refine @seq _ _ _ _ _ fun object => ?_
  split <;> infer_instance

instance popFrame? : OnlyBreaches popFrame? := by
  unfold VM.popFrame?
  refine @seq _ _ _ _ _ fun context => ?_
  split <;> infer_instance

instance enterHandler (target : Nat) (record : Handle) (kind : Bytecode.CatchKind) :
    OnlyBreaches (enterHandler target record kind) := by
  unfold VM.enterHandler
  infer_instance

instance divert (handler : Bytecode.CatchHandler) (target : ExitTarget) (value : Value) :
    OnlyBreaches (divert handler target value) := by
  unfold VM.divert
  infer_instance

instance linkCause (exception : Handle) (ensuring : Option Handle) :
    OnlyBreaches (linkCause exception ensuring) := by
  unfold VM.linkCause
  split <;> infer_instance

end OnlyBreaches

namespace Advancing

instance enterHandler (target : Nat) (record : Handle) (kind : Bytecode.CatchKind) :
    Advancing tidy (enterHandler target record kind) (enterHandler target record kind) := by
  unfold VM.enterHandler
  infer_instance

instance divert (handler : Bytecode.CatchHandler) (target : ExitTarget) (value : Value) :
    Advancing tidy (divert handler target value) (divert handler target value) := by
  unfold VM.divert
  infer_instance

instance jumpUnwinding (target : Nat) :
    Advancing tidy (jumpUnwinding target) (jumpUnwinding target) := by
  have jump : Advancing tidy (modifyFrame ({ · with ensuring := none, pc := target })) _ :=
    of_modifyFrame fun _ => rfl
  let leave (handler? : Option Bytecode.CatchHandler) : VM Unit :=
    match handler? with
    | some handler => VM.divert handler (.address target) .nil
    | none => do
      modifyContext ({ · with pending := none })
      modifyFrame ({ · with ensuring := none, pc := target })
  have leaves (handler? : Option Bytecode.CatchHandler) :
      Advancing tidy (leave handler?) (leave handler?) := by
    dsimp only [leave]
    split <;> infer_instance
  unfold VM.jumpUnwinding
  refine @seq _ _ _ _ _ _ _ inferInstance fun handler? => ?_
  dsimp only
  split <;> exact @seq _ _ _ _ _ _ _ inferInstance leaves

instance loadPending : Advancing tidy loadPending loadPending := by
  unfold VM.loadPending
  refine @seq _ _ _ _ _ _ _ inferInstance fun context => ?_
  split <;> infer_instance

end Advancing

instance Quiet.linkCause (exception : Handle) (ensuring : Option Handle) :
    Quiet (linkCause exception ensuring) := by
  unfold VM.linkCause
  split <;> infer_instance

/-! ### Leaving the innermost frame -/

/-- Behind the innermost frame the loop may have another one. -/
theorem TracksFrom.pop_bind {β : Type} {rest : Option Frame → VM β}
    {ends : EStateM.Result Failure Machine β → Prop} {top : Nat} (linked : machine.Linked tidy)
    (runs : machine.RunsFrom stop) (isTop : machine.frames.length = top + 1)
    (broken : ∀ result, ¬ IsIntact result → ends result)
    (go : ∀ frame? next, next.Linked tidy → next.frames.length = top →
      (stop < top → next.RunsFrom stop) →
      TracksFrom tidy (Descends stop) ends next (rest frame?) (rest frame?)) :
    TracksFrom tidy (Descends stop) ends machine (popFrame? >>= rest) (popFrame? >>= rest) := by
  refine .only_bind (tracksFrom_popFrame? linked runs.lt) broken fun frame? next popped leads => ?_
  have isLeft : next.frames.length = top := by
    rw [(frames_of_popFrame? linked popped).1, List.length_dropLast, isTop, Nat.add_sub_cancel]
  exact go frame? next leads.linked isLeft fun inside =>
    runs.descends leads.frames (isLeft ▸ inside)

/-- The clauses of a frame are run before it is left. The last argument is the number of
frames. -/
theorem settlesFrom_leaveFrames (target : Nat) (value : Value) (top : Nat)
    (linked : machine.Linked tidy) (runs : machine.RunsFrom stop)
    (isTop : machine.frames.length = top) :
    TracksFrom tidy (Descends stop) (EndsSettled tidy stop) machine
      (leaveFrames target value stop top) (leaveFrames target value stop top) := by
  induction top generalizing machine with
  | zero => exact absurd runs.lt (by omega)
  | succ top inductionHypothesis =>
      unfold VM.leaveFrames
      refine .read_bind linked (fun _ => .of_not_isIntact) fun handler? _ => ?_
      cases handler? with
      | some handler =>
          have diverts : Settles tidy stop (do
              modifyFrame ({ · with ensuring := none })
              divert handler (.frame target) value
              return none) := inferInstance
          exact diverts.settlesFrom machine linked runs
      | none =>
          have below := runs.lt
          refine .pop_bind linked runs isTop (fun _ => .of_not_isIntact)
            fun frame? next linked isLeft runs => ?_
          cases frame? with
          | none => exact .stays linked (by rintro ⟨⟩)
          | some frame =>
              dsimp only
              split
              · split
                · exact .stays linked (by change next.frames.length ≤ stop; omega)
                · have hands : Settles tidy stop (do
                      setSlot frame.base value
                      return none) := inferInstance
                  exact hands.settlesFrom next linked (runs (by omega))
              · split
                · exact .stays linked fun _ => by omega
                · exact inductionHypothesis linked (runs (by omega)) isLeft

instance Settles.exitTo (target : Nat) (value : Value) :
    Settles tidy stop (exitTo target value stop) where
  settlesFrom machine linked runs := by
    unfold VM.exitTo
    refine .read_bind linked (fun _ => .of_not_isIntact) fun height isDepth => ?_
    obtain rfl := Except.ok.inj ((depth_of_linked linked).symm.trans isDepth)
    exact settlesFrom_leaveFrames target value _ linked runs rfl

instance Settles.returnValue (value : Value) : Settles tidy stop (returnValue value stop) := by
  unfold VM.returnValue
  infer_instance

/-! ### Exceptions -/

/-- What moves the innermost frame goes on in it. -/
theorem TracksFrom.handles {action : VM Unit} [advancing : Advancing tidy action action]
    [OnlyBreaches action] (linked : machine.Linked tidy) (runs : machine.RunsFrom stop) :
    TracksFrom tidy (Descends stop) (EndsHandled stop) machine action action := by
  have goesOn : TracksFrom tidy (Descends stop) (EndsHandled stop) machine
      (action >>= fun _ => pure ()) (action >>= fun _ => pure ()) :=
    .advance_bind runs (advancing.advancingFrom machine linked) (fun _ => .of_not_isIntact)
      fun _ _ _ linked runs => .stays linked runs.lt
  exact goesOn.congr (congrFun (bind_pure action).symm _) (congrFun (bind_pure action).symm _)

/-- Frames without a handler are left. The last argument is the number of frames. -/
theorem tracksFrom_findHandler (exception : Handle) (top : Nat) (linked : machine.Linked tidy)
    (runs : machine.RunsFrom stop) (isTop : machine.frames.length = top) :
    TracksFrom tidy (Descends stop) (EndsHandled stop) machine (findHandler exception stop top)
      (findHandler exception stop top) := by
  induction top generalizing machine with
  | zero => exact absurd runs.lt (by omega)
  | succ top inductionHypothesis =>
      unfold VM.findHandler
      refine .read_bind linked (fun _ => .of_not_isIntact) fun frame _ => ?_
      have links : InPlaceFrom machine (linkCause exception frame.ensuring) :=
        .of_inPlace linked.wellFormed
      refine .advance_bind runs (.of_inPlaceFrom linked links) (fun _ => .of_not_isIntact)
        fun _ next isLinked linked runs => ?_
      replace isTop : next.frames.length = top + 1 := by
        rw [← isTop, ← links.frames, after_of_ok isLinked]
      have below := runs.lt
      split
      · exact .handles linked runs
      · refine .pop_bind linked runs isTop (fun _ => .of_not_isIntact)
          fun frame? next linked isLeft runs => ?_
        split
        · exact .stays linked fun _ => by omega
        · exact inductionHypothesis linked (runs (by omega)) isLeft

theorem tracksFrom_handleRaise (exception : Handle) (linked : machine.Linked tidy)
    (runs : machine.RunsFrom stop) :
    TracksFrom tidy (Descends stop) (EndsHandled stop) machine (handleRaise exception stop)
      (handleRaise exception stop) := by
  unfold VM.handleRaise
  have fills : AdvancingFrom tidy machine (fillBacktrace exception) _ :=
    .of_inPlaceFrom linked (.of_inPlace linked.wellFormed)
  refine .advance_bind runs fills (fun _ => .of_not_isIntact) fun _ next _ linked runs => ?_
  refine .read_bind linked (fun _ => .of_not_isIntact) fun height isDepth => ?_
  obtain rfl := Except.ok.inj ((depth_of_linked linked).symm.trans isDepth)
  exact tracksFrom_findHandler exception _ linked runs rfl

/-- An exception that a frame of the loop may handle. -/
instance Settles.handleRaise (exception : Handle) : Settles tidy stop (do
    handleRaise exception stop
    return none) where
  settlesFrom machine linked runs := by
    have tracks := tracksFrom_handleRaise exception linked runs
    refine tracks.andThen (fun _ next handled leads => ?_) fun _ _ => id
    have inside := tracks.ends
    rw [handled] at inside
    exact .stays leads.linked inside

/-! ### Exits that go on behind clauses -/

namespace Executes

instance resumePending (record : Value) :
    Executes tidy stop (resumePending record stop) (resumePending record stop) := by
  unfold VM.resumePending
  refine behind fun _ => ?_
  split
  · infer_instance
  · refine behind fun object => ?_
    split <;> infer_instance
  · infer_instance

instance breakOut (value : Value) :
    Executes tidy stop (breakOut value stop) (breakOut value stop) := by
  unfold VM.breakOut
  refine behind fun depth => behind fun frame => ?_
  split
  · infer_instance
  · refine behind fun strict => ?_
    split
    · infer_instance
    · refine behind fun home? => ?_
      split <;> infer_instance

instance returnFromMethod (value : Value) :
    Executes tidy stop (returnFromMethod value stop) (returnFromMethod value stop) := by
  unfold VM.returnFromMethod
  refine behind fun frame => ?_
  split
  · infer_instance
  · refine behind fun strict => ?_
    split
    · infer_instance
    · refine behind fun bound => behind fun outermost => behind fun object => ?_
      split
      · infer_instance
      · refine behind fun home? => ?_
        split <;> infer_instance

end Executes

end VM

end RiteVm
