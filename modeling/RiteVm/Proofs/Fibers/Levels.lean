import RiteVm.Call.Engine
import RiteVm.Proofs.Evolution.Classes
import RiteVm.Proofs.Fibers.Linked
import RiteVm.Proofs.Fibers.QuietValues

/-!
Contract: what actions do to the frames of the running stack.

Owns:
- balanced actions, which take no frame off the stack and, unless the machine cannot go on,
  leave none behind;
- advancing actions, which may put frames on the stack and move the innermost one;
- the execution of an instruction in an interpreter loop, whose frames it may leave;
- engines that agree wherever a linked machine may ask them.

All of them are about two actions, which differ only in the engine that they run. Nothing
an engine does elsewhere than in the places that are named here makes a difference, so this
also says in which machines loops and methods are started.
-/

namespace RiteVm

/-- An exception or exit, which leaves the machine in use. -/
def Failure.isMild : Failure → Bool
  | .raised _ | .unwinding _ _ => true
  | _ => false

/-- A broken invariant of the machine. -/
def Failure.isBreach : Failure → Bool
  | .breach _ => true
  | _ => false

/-! ### Frames -/

/-- Frames are added behind the innermost one, which may change but stays a boundary if it
is one. -/
structure Advances (before after : List Frame) : Prop where
  length_le : before.length ≤ after.length
  lower : ∀ index, index + 1 < before.length → after[index]? = before[index]?
  boundary : ∀ index, index < before.length →
    (after[index]?).map (·.boundary) = (before[index]?).map (·.boundary)

/-- Frames below an index stay as they are, and the frame with the index stays a boundary. -/
structure Descends (stop : Nat) (before after : List Frame) : Prop where
  below : after.take stop = before.take stop
  boundary : stop < after.length →
    (after[stop]?).map (·.boundary) = (before[stop]?).map (·.boundary)

namespace Advances

variable {before frames after : List Frame} {stop : Nat}

theorem of_isPrefix (isPrefix : before <+: after) : Advances before after := by
  obtain ⟨more, rfl⟩ := isPrefix
  refine ⟨by simp, fun index inside => ?_, fun index inside => ?_⟩
  · rw [List.getElem?_append_left (by omega)]
  · rw [List.getElem?_append_left inside]

theorem of_modify (frames : List Frame) {change : Frame → Frame}
    (same : ∀ frame, (change frame).boundary = frame.boundary) :
    Advances frames (frames.modify (frames.length - 1) change) where
  length_le := Nat.le_of_eq (by rw [List.length_modify])
  lower index inside := List.getElem?_modify_ne _ _ (by omega)
  boundary index inside := by
    by_cases isLast : frames.length - 1 = index
    · rw [isLast, List.getElem?_modify_eq]
      cases frames[index]? with
      | none => rfl
      | some frame => exact congrArg some (same frame)
    · rw [List.getElem?_modify_ne _ _ isLast]

theorem trans (first : Advances before frames) (second : Advances frames after) :
    Advances before after where
  length_le := Nat.le_trans first.length_le second.length_le
  lower index inside := by
    have := first.length_le
    rw [second.lower index (by omega), first.lower index inside]
  boundary index inside := by
    have := first.length_le
    rw [second.boundary index (by omega), first.boundary index inside]

theorem descends (advances : Advances before after) (inside : stop < before.length) :
    Descends stop before after where
  below := by
    refine List.ext_getElem? fun index => ?_
    rw [List.getElem?_take, List.getElem?_take]
    split
    · exact advances.lower index (by omega)
    · rfl
  boundary _ := advances.boundary stop inside

end Advances

namespace Descends

variable {before frames after : List Frame} {stop : Nat}

theorem refl (stop : Nat) (frames : List Frame) : Descends stop frames frames :=
  ⟨rfl, fun _ => rfl⟩

theorem trans (first : Descends stop before frames) (second : Descends stop frames after) :
    Descends stop before after where
  below := second.below.trans first.below
  boundary inside := by
    have same := second.boundary inside
    have between : stop < frames.length := by
      rw [List.getElem?_eq_getElem inside] at same
      by_contra outside
      rw [List.getElem?_eq_none (by omega)] at same
      exact nomatch same
    exact same.trans (first.boundary between)

/-- What is left when all frames from an index on are gone. -/
theorem eq_take (descends : Descends stop before after) (gone : after.length ≤ stop) :
    after = before.take stop := by
  rw [← descends.below, List.take_of_length_le gone]

end Descends

/-- A value, or a failure that leaves the machine in use. -/
def IsMild {α : Type} : EStateM.Result Failure Machine α → Prop
  | .ok _ _ => True
  | .error failure _ => failure.isMild

/-- A value, or a failure that breaks no invariant. -/
def IsIntact {α : Type} : EStateM.Result Failure Machine α → Prop
  | .ok _ _ => True
  | .error failure _ => failure.isBreach = false

theorem IsMild.intact {α : Type} {result : EStateM.Result Failure Machine α}
    (isMild : IsMild result) : IsIntact result := by
  cases result with
  | ok value machine => trivial
  | error failure machine => cases failure <;> first | rfl | exact nomatch isMild

namespace Machine

/-- The innermost frame is that of a method that is no bytecode. -/
def EndsNative (machine : Machine) : Prop :=
  ∃ frame, machine.frames.getLast? = some frame ∧ frame.unit = none

/-- An interpreter loop may run from a frame with an index: one that is there, and unless it
is the first one of its stack, one that was pushed for a loop. -/
def RunsFrom (machine : Machine) (stop : Nat) : Prop :=
  ∃ frame, machine.frames[stop]? = some frame ∧ (0 < stop → frame.boundary)

theorem RunsFrom.lt {machine : Machine} {stop : Nat} (runs : machine.RunsFrom stop) :
    stop < machine.frames.length := by
  obtain ⟨frame, located, -⟩ := runs
  exact (List.getElem?_eq_some_iff.mp located).1

theorem RunsFrom.descends {before after : Machine} {stop : Nat} (runs : before.RunsFrom stop)
    (descends : Descends stop before.frames after.frames) (inside : stop < after.frames.length) :
    after.RunsFrom stop := by
  obtain ⟨frame, located, isBoundary⟩ := runs
  have same := descends.boundary inside
  rw [located, List.getElem?_eq_getElem inside] at same
  exact ⟨_, List.getElem?_eq_getElem inside, fun positive =>
    (Option.some.inj same).trans (isBoundary positive)⟩

end Machine

/-- The frames behind an exit of the loop that runs from a frame with an index. -/
def Exit.LeavesAt (tidy : Prop) (stop : Nat) (machine : Machine) : Exit → Prop
  | .returned _ => machine.frames.length ≤ stop
  | .yielded _ => stop + 1 < machine.frames.length ∧ (tidy → machine.EndsNative)

namespace VM

/-- How an instruction ends: if the loop goes on, it has a frame to run. -/
def EndsStep (tidy : Prop) (stop : Nat) : EStateM.Result Failure Machine (Option Exit) → Prop
  | .ok none machine => stop < machine.frames.length
  | .ok (some exit) machine => exit.LeavesAt tidy stop machine
  | .error _ _ => True

/-- How a loop ends: all its frames are left, unless it hands a value over or the machine
cannot go on. -/
def EndsLoop (tidy : Prop) (stop : Nat) : EStateM.Result Failure Machine Exit → Prop
  | .ok exit machine => exit.LeavesAt tidy stop machine
  | .error failure machine => failure.isMild → machine.frames.length ≤ stop

/-! ### Kinds of actions -/

/-- From one machine, an action changes at most registers and captured variables. -/
structure InPlaceFrom {α : Type} (machine : Machine) (action : VM α) : Prop where
  keeps : machine.KeepsOthers (action.after machine)
  frames : (action.after machine).frames = machine.frames

/-- An action changes at most registers and captured variables. -/
class InPlace {α : Type} (action : VM α) : Prop where
  inPlaceFrom : ∀ machine, machine.heap.WellFormed → InPlaceFrom machine action

/-- The machine is still linked, for the same stacks in use, and its frames moved in a
certain way. -/
structure Leads (tidy : Prop) (moves : List Frame → List Frame → Prop) (before after : Machine) :
    Prop where
  linked : after.Linked tidy
  beside : before.Beside after
  frames : moves before.frames after.frames

/-- From one machine, two actions are the same, move frames in a certain way unless an
invariant is broken, and end in a certain way. -/
structure TracksFrom {α : Type} (tidy : Prop) (moves : List Frame → List Frame → Prop)
    (ends : EStateM.Result Failure Machine α → Prop) (machine : Machine) (action action' : VM α) :
    Prop where
  same : action' machine = action machine
  leads : IsIntact (action machine) → Leads tidy moves machine (action.after machine)
  ends : ends (action machine)

/-- The frames are as they were, unless the machine cannot go on. -/
def EndsLevel {α : Type} (firm : Prop) (frames : List Frame) :
    EStateM.Result Failure Machine α → Prop
  | .ok _ machine => firm → machine.frames = frames
  | .error failure machine => firm → failure.isMild → machine.frames = frames

/-- From one machine, two actions are the same and take no frame off the running stack. If
they are firm, only a failure after which the machine cannot go on leaves frames behind. -/
abbrev BalancedFrom {α : Type} (tidy firm : Prop) (machine : Machine) (action action' : VM α) :
    Prop :=
  TracksFrom tidy (· <+: ·) (EndsLevel firm machine.frames) machine action action'

/-- Two actions are the same and take no frame off the running stack. -/
class Balanced {α : Type} (tidy firm : Prop) (action action' : VM α) : Prop where
  balancedFrom : ∀ machine, machine.Linked tidy → BalancedFrom tidy firm machine action action'

/-- From one machine, two actions are the same and leave no frame. -/
abbrev AdvancingFrom {α : Type} (tidy : Prop) (machine : Machine) (action action' : VM α) : Prop :=
  TracksFrom tidy Advances (fun _ => True) machine action action'

/-- Two actions are the same and leave no frame. -/
class Advancing {α : Type} (tidy : Prop) (action action' : VM α) : Prop where
  advancingFrom : ∀ machine, machine.Linked tidy → AdvancingFrom tidy machine action action'

/-- Two actions are the same instruction of the loop that runs from a frame with an index. -/
class Executes (tidy : Prop) (stop : Nat) (action action' : VM (Option Exit)) : Prop where
  executesFrom : ∀ machine, machine.Linked tidy → machine.RunsFrom stop →
    TracksFrom tidy (Descends stop) (EndsStep tidy stop) machine action action'

/-- An action that never succeeds. -/
class Fails {α : Type} (action : VM α) : Prop where
  ne_ok : ∀ machine value next, action machine ≠ .ok value next

/-! ### Composition -/

section Composition

variable {tidy firm : Prop} {α β : Type} {machine : Machine} {stop : Nat}
  {action action' : VM α} {rest rest' : α → VM β}

theorem get_bind (rest : Machine → VM β) : (get >>= rest) machine = rest machine machine := rfl

theorem isIntact_of_bind (isIntact : IsIntact ((action >>= rest) machine)) :
    IsIntact (action machine) := by
  cases result : action machine with
  | ok value next => trivial
  | error failure next =>
      rw [bind_of_error result] at isIntact
      exact isIntact

theorem attempt_of_ok {value : α} {next : Machine} (succeeded : action machine = .ok value next) :
    attempt action machine = .ok (.ok value) next := by
  rw [attempt, succeeded]

theorem attempt_of_error {failure : Failure} {next : Machine}
    (failed : action machine = .error failure next) :
    attempt action machine = .ok (.error failure) next := by
  rw [attempt, failed]

theorem after_resolve (outcome : Except Failure α) : (resolve outcome).after machine = machine := by
  cases outcome <;> rfl

theorem after_congr {next : Machine} (same : action machine = action' next) :
    action.after machine = action'.after next := by
  rw [after, after, same]

theorem InPlaceFrom.of_inPlace [inPlace : InPlace action] (wellFormed : machine.heap.WellFormed) :
    InPlaceFrom machine action :=
  inPlace.inPlaceFrom machine wellFormed

theorem InPlaceFrom.of_quietFrom (wellFormed : machine.heap.WellFormed)
    (quiet : QuietFrom machine action) : InPlaceFrom machine action where
  keeps := .of_keepsFibers wellFormed quiet
  frames := by
    rw [Machine.frames, Machine.frames, Machine.framesOf, Machine.framesOf, quiet.current,
      quiet.context?_eq]

theorem InPlaceFrom.of_modify {change : Machine → Machine}
    (keeps : machine.KeepsOthers (change machine))
    (frames : (change machine).frames = machine.frames) :
    InPlaceFrom machine (modify change : VM PUnit) :=
  ⟨keeps, frames⟩

theorem InPlaceFrom.bind (first : InPlaceFrom machine action)
    (second : ∀ value next, action machine = .ok value next → next.heap.WellFormed →
      InPlaceFrom next (rest value)) :
    InPlaceFrom machine (action >>= rest) := by
  obtain ⟨keeps, frames⟩ := first
  rw [VM.after] at keeps frames
  cases result : action machine with
  | ok value next =>
      rw [result] at keeps frames
      obtain ⟨keeps', frames'⟩ := second value next result keeps.wellFormed
      have isNext : (action >>= rest).after machine = (rest value).after next :=
        after_bind_of_ok result
      exact ⟨isNext ▸ keeps.trans keeps', isNext ▸ frames'.trans frames⟩
  | error failure next =>
      rw [result] at keeps frames
      have isNext : (action >>= rest).after machine = next := after_of_error (bind_of_error result)
      exact ⟨isNext ▸ keeps, isNext ▸ frames⟩

theorem InPlaceFrom.query_bind {query : Query α} (wellFormed : machine.heap.WellFormed)
    (second : ∀ value, query machine = .ok value → InPlaceFrom machine (rest value)) :
    InPlaceFrom machine (liftM query >>= rest) := by
  refine .bind (.of_quietFrom wellFormed .of_quiet) fun value next read _ => ?_
  obtain ⟨isValue, rfl⟩ := liftM_eq_ok_iff.mp read
  exact second value isValue

theorem InPlaceFrom.leads (inPlace : InPlaceFrom machine action) (linked : machine.Linked tidy)
    {moves : List Frame → List Frame → Prop} (stays : moves machine.frames machine.frames) :
    Leads tidy moves machine (action.after machine) where
  linked := inPlace.keeps.linked linked
  beside := .of_keepsOthers linked inPlace.keeps
  frames := inPlace.frames ▸ stays

theorem BalancedFrom.of_inPlaceFrom (linked : machine.Linked tidy)
    (inPlace : InPlaceFrom machine action) : BalancedFrom tidy firm machine action action where
  same := rfl
  leads _ := inPlace.leads linked (List.prefix_refl _)
  ends := by
    have frames := inPlace.frames
    cases result : action machine with
    | ok value next =>
        rw [after_of_ok result] at frames
        exact fun _ => frames
    | error failure next =>
        rw [after_of_error result] at frames
        exact fun _ _ => frames

theorem AdvancingFrom.of_inPlaceFrom (linked : machine.Linked tidy)
    (inPlace : InPlaceFrom machine action) : AdvancingFrom tidy machine action action where
  same := rfl
  leads _ := inPlace.leads linked (.of_isPrefix (List.prefix_refl _))
  ends := trivial

theorem AdvancingFrom.of_keepsOthers (linked : machine.Linked tidy)
    (keeps : machine.KeepsOthers (action.after machine))
    (advances : Advances machine.frames (action.after machine).frames) :
    AdvancingFrom tidy machine action action where
  same := rfl
  leads _ := ⟨keeps.linked linked, .of_keepsOthers linked keeps, advances⟩
  ends := trivial

theorem BalancedFrom.advancing (balanced : BalancedFrom tidy firm machine action action') :
    AdvancingFrom tidy machine action action' where
  same := balanced.same
  leads isIntact :=
    have leads := balanced.leads isIntact
    ⟨leads.linked, leads.beside, .of_isPrefix leads.frames⟩
  ends := trivial

theorem TracksFrom.congr {other other' : VM α} {moves : List Frame → List Frame → Prop}
    {ends : EStateM.Result Failure Machine α → Prop}
    (tracks : TracksFrom tidy moves ends machine action action')
    (isSame : other machine = action machine) (isSame' : other' machine = action' machine) :
    TracksFrom tidy moves ends machine other other' where
  same := isSame'.trans (tracks.same.trans isSame.symm)
  leads isIntact := by
    rw [after_congr isSame]
    exact tracks.leads (isSame ▸ isIntact)
  ends := isSame ▸ tracks.ends

/-- A successful first part hands its value and its machine to the second one. -/
theorem TracksFrom.bind {first second both : List Frame → List Frame → Prop}
    {endsFirst : EStateM.Result Failure Machine α → Prop}
    {endsBoth : EStateM.Result Failure Machine β → Prop}
    (endsSecond : Machine → EStateM.Result Failure Machine β → Prop)
    (start : TracksFrom tidy first endsFirst machine action action')
    (go : ∀ value next, action machine = .ok value next → Leads tidy first machine next →
      TracksFrom tidy second (endsSecond next) next (rest value) (rest' value))
    (alone : ∀ {after}, first machine.frames after → both machine.frames after)
    (compose : ∀ {between after}, first machine.frames between → second between after →
      both machine.frames after)
    (endsAlone : ∀ failure next, endsFirst (.error failure next) → endsBoth (.error failure next))
    (endsThen : ∀ value next result, action machine = .ok value next → endsFirst (.ok value next) →
      Leads tidy first machine next → endsSecond next result → endsBoth result) :
    TracksFrom tidy both endsBoth machine (action >>= rest) (action' >>= rest') := by
  obtain ⟨same, leads, ends⟩ := start
  cases result : action machine with
  | ok value next =>
      rw [result] at leads ends
      rw [after_of_ok result] at leads
      have leads := leads trivial
      obtain ⟨same', leads', ends'⟩ := go value next result leads
      have continues : (action >>= rest) machine = rest value next := bind_of_ok result
      refine ⟨?_, fun isIntact => ?_, ?_⟩
      · rw [continues, bind_of_ok (same.trans result), same']
      · rw [continues] at isIntact
        rw [after_congr continues]
        have leads' := leads' isIntact
        exact ⟨leads'.linked, leads.beside.trans leads'.beside, compose leads.frames leads'.frames⟩
      · rw [continues]
        exact endsThen value next _ result ends leads ends'
  | error failure next =>
      rw [result] at leads ends
      rw [after_of_error result] at leads
      have failed : (action >>= rest) machine = .error failure next := bind_of_error result
      refine ⟨?_, fun isIntact => ?_, ?_⟩
      · rw [failed, bind_of_error (same.trans result)]
      · rw [failed] at isIntact
        rw [after_of_error failed]
        have leads := leads isIntact
        exact ⟨leads.linked, leads.beside, alone leads.frames⟩
      · rw [failed]
        exact endsAlone failure next ends

/-- How an action ended, put together again. -/
def ended (result : Except Failure α) (machine : Machine) : EStateM.Result Failure Machine α :=
  match result with
  | .ok value => .ok value machine
  | .error failure => .error failure machine

/-- How a first part ends matters to the second one, unless an invariant is broken. That is
handed on by the second part. -/
theorem TracksFrom.attempt_bind {first second both : List Frame → List Frame → Prop}
    {endsFirst : EStateM.Result Failure Machine α → Prop}
    {endsBoth : EStateM.Result Failure Machine β → Prop} {finish : Except Failure α → VM β}
    (start : TracksFrom tidy first endsFirst machine action action')
    (handsOn : ∀ breach next, ¬ IsIntact (finish (.error (.breach breach)) next))
    (broken : ∀ result, ¬ IsIntact result → endsBoth result)
    (compose : ∀ {between after}, first machine.frames between → second between after →
      both machine.frames after)
    (go : ∀ result next, action machine = ended result next → Leads tidy first machine next →
      endsFirst (ended result next) →
      TracksFrom tidy second endsBoth next (finish result) (finish result)) :
    TracksFrom tidy both endsBoth machine (attempt action >>= finish)
      (attempt action' >>= finish) := by
  obtain ⟨same, leads, ends⟩ := start
  have attempted : (attempt action' >>= finish) machine = (attempt action >>= finish) machine := by
    have isSame : attempt action' machine = attempt action machine := by rw [attempt, attempt, same]
    show EStateM.bind _ _ _ = EStateM.bind _ _ _
    rw [EStateM.bind, EStateM.bind, isSame]
  have finishes (result : Except Failure α) (next : Machine)
      (isEnd : action machine = ended result next) (goesOn : Leads tidy first machine next) :
      TracksFrom tidy both endsBoth machine (attempt action >>= finish)
        (attempt action' >>= finish) := by
    have isNext : (attempt action >>= finish) machine = finish result next := by
      cases result with
      | ok value => exact bind_of_ok (attempt_of_ok isEnd)
      | error failure => exact bind_of_ok (attempt_of_error isEnd)
    obtain ⟨-, leads', ends'⟩ := go result next isEnd goesOn (isEnd ▸ ends)
    refine ⟨attempted, fun isIntact => ?_, isNext ▸ ends'⟩
    have leads' := leads' (isNext ▸ isIntact)
    rw [after_congr isNext]
    exact ⟨leads'.linked, goesOn.beside.trans leads'.beside, compose goesOn.frames leads'.frames⟩
  cases result : action machine with
  | ok value next =>
      rw [result, after_of_ok result] at leads
      exact finishes (.ok value) next result (leads trivial)
  | error failure next =>
      rw [result, after_of_error result] at leads
      by_cases isBreach : failure.isBreach = false
      · exact finishes (.error failure) next result (leads isBreach)
      · cases failure with
        | breach cause =>
            have isNext : (attempt action >>= finish) machine = finish (.error (.breach cause)) next :=
              bind_of_ok (attempt_of_error result)
            have notIntact := handsOn cause next
            rw [← isNext] at notIntact
            exact ⟨attempted, fun isIntact => absurd isIntact notIntact, broken _ notIntact⟩
        | _ => exact absurd rfl isBreach

theorem EndsLevel.of_not_isIntact {frames : List Frame} {result : EStateM.Result Failure Machine α}
    (broken : ¬ IsIntact result) : EndsLevel firm frames result := by
  cases result with
  | ok value machine => exact absurd trivial broken
  | error failure machine =>
      intro _ isMild
      have mild : IsMild (α := α) (.error failure machine) := isMild
      exact absurd mild.intact broken

theorem BalancedFrom.bind (start : BalancedFrom tidy firm machine action action')
    (go : ∀ value next, action machine = .ok value next → next.Linked tidy →
      BalancedFrom tidy firm next (rest value) (rest' value)) :
    BalancedFrom tidy firm machine (action >>= rest) (action' >>= rest') := by
  refine TracksFrom.bind (fun next => EndsLevel firm next.frames) start
    (fun value next succeeded leads => go value next succeeded leads.linked) id
    List.IsPrefix.trans (fun failure next ends => ends) ?_
  intro value next result _ level _ ends
  cases result with
  | ok value last => exact fun isFirm => (ends isFirm).trans (level isFirm)
  | error failure last => exact fun isFirm isMild => (ends isFirm isMild).trans (level isFirm)

theorem AdvancingFrom.bind (start : AdvancingFrom tidy machine action action')
    (go : ∀ value next, action machine = .ok value next → next.Linked tidy →
      AdvancingFrom tidy next (rest value) (rest' value)) :
    AdvancingFrom tidy machine (action >>= rest) (action' >>= rest') :=
  TracksFrom.bind (fun _ _ => True) start
    (fun value next succeeded leads => go value next succeeded leads.linked) id Advances.trans
    (fun _ _ _ => trivial) fun _ _ _ _ _ _ _ => trivial

/-- What was read holds of the machine in which the actions go on. -/
theorem BalancedFrom.query_bind {query : Query α} (linked : machine.Linked tidy)
    (go : ∀ value, query machine = .ok value →
      BalancedFrom tidy firm machine (rest value) (rest' value)) :
    BalancedFrom tidy firm machine (liftM query >>= rest) (liftM query >>= rest') := by
  refine .bind (.of_inPlaceFrom linked (.of_quietFrom linked.wellFormed .of_quiet))
    fun value next read _ => ?_
  obtain ⟨isValue, rfl⟩ := liftM_eq_ok_iff.mp read
  exact go value isValue

theorem AdvancingFrom.query_bind {query : Query α} (linked : machine.Linked tidy)
    (go : ∀ value, query machine = .ok value →
      AdvancingFrom tidy machine (rest value) (rest' value)) :
    AdvancingFrom tidy machine (liftM query >>= rest) (liftM query >>= rest') := by
  refine .bind (AdvancingFrom.of_inPlaceFrom linked
    (.of_quietFrom linked.wellFormed .of_quiet)) fun value next read _ => ?_
  obtain ⟨isValue, rfl⟩ := liftM_eq_ok_iff.mp read
  exact go value isValue

/-- An action that leaves no frame, as an instruction of a loop. -/
theorem TracksFrom.of_advancing {ends : EStateM.Result Failure Machine α → Prop}
    (runs : machine.RunsFrom stop) (advancing : AdvancingFrom tidy machine action action')
    (ended : ends (action machine)) :
    TracksFrom tidy (Descends stop) ends machine action action' where
  same := advancing.same
  leads isIntact :=
    have leads := advancing.leads isIntact
    ⟨leads.linked, leads.beside, leads.frames.descends runs.lt⟩
  ends := ended

theorem Executes.bindFrom {next next' : α → VM (Option Exit)} (runs : machine.RunsFrom stop)
    (start : AdvancingFrom tidy machine action action')
    (go : ∀ value last, action machine = .ok value last → last.Linked tidy → last.RunsFrom stop →
      TracksFrom tidy (Descends stop) (EndsStep tidy stop) last (next value) (next' value)) :
    TracksFrom tidy (Descends stop) (EndsStep tidy stop) machine (action >>= next)
      (action' >>= next') := by
  refine TracksFrom.bind (fun _ => EndsStep tidy stop) start ?_
    (fun advances => advances.descends runs.lt)
    (fun advances descends => (advances.descends runs.lt).trans descends)
    (fun _ _ _ => trivial) fun _ _ _ _ _ _ ends => ends
  intro value last succeeded leads
  refine go value last succeeded leads.linked (runs.descends (leads.frames.descends runs.lt) ?_)
  exact Nat.lt_of_lt_of_le runs.lt leads.frames.length_le

namespace InPlace

instance ofQuiet [quiet : Quiet action] : InPlace action :=
  ⟨fun machine wellFormed => .of_quietFrom wellFormed (quiet.quietFrom machine)⟩

instance seq [first : InPlace action] [second : ∀ value, InPlace (rest value)] :
    InPlace (action >>= rest) where
  inPlaceFrom machine wellFormed := (first.inPlaceFrom machine wellFormed).bind
    fun value next _ wellFormed => (second value).inPlaceFrom next wellFormed

instance branch (condition : Prop) [Decidable condition] {yes no : VM α} [InPlace yes]
    [InPlace no] : InPlace (if condition then yes else no) := by
  split <;> infer_instance

end InPlace

namespace Balanced

instance ofInPlace [inPlace : InPlace action] : Balanced tidy firm action action :=
  ⟨fun machine linked => .of_inPlaceFrom linked (inPlace.inPlaceFrom machine linked.wellFormed)⟩

instance seq [first : Balanced tidy firm action action']
    [second : ∀ value, Balanced tidy firm (rest value) (rest' value)] :
    Balanced tidy firm (action >>= rest) (action' >>= rest') where
  balancedFrom machine linked := (first.balancedFrom machine linked).bind
    fun value next _ linked => (second value).balancedFrom next linked

/-- The action behind a part of it whose value it depends on. -/
theorem behind [Balanced tidy firm action action']
    (others : ∀ value, Balanced tidy firm (rest value) (rest' value)) :
    Balanced tidy firm (action >>= rest) (action' >>= rest') :=
  seq

instance mapped (change : α → β) [Balanced tidy firm action action'] :
    Balanced tidy firm (change <$> action) (change <$> action') := by
  rw [map_eq_pure_bind, map_eq_pure_bind]
  infer_instance

instance branch (condition : Prop) [Decidable condition] {yes no yes' no' : VM α}
    [Balanced tidy firm yes yes'] [Balanced tidy firm no no'] :
    Balanced tidy firm (if condition then yes else no) (if condition then yes' else no') := by
  split <;> infer_instance

instance optionForM {step step' : α → VM PUnit}
    [balanced : ∀ value, Balanced tidy firm (step value) (step' value)] (option : Option α) :
    Balanced tidy firm (option.forM step) (option.forM step') := by
  cases option
  · exact inferInstanceAs (Balanced tidy firm (pure _) (pure _))
  · exact balanced _

instance optionMapM [balanced : ∀ value, Balanced tidy firm (rest value) (rest' value)]
    (option : Option α) : Balanced tidy firm (option.mapM rest) (option.mapM rest') := by
  cases option
  · exact inferInstanceAs (Balanced tidy firm (pure _) (pure _))
  · exact mapped _

instance listMapM [balanced : ∀ value, Balanced tidy firm (rest value) (rest' value)]
    (list : List α) : Balanced tidy firm (list.mapM rest) (list.mapM rest') := by
  induction list with
  | nil =>
      rw [List.mapM_nil, List.mapM_nil]
      infer_instance
  | cons first more inductionHypothesis =>
      rw [List.mapM_cons, List.mapM_cons]
      infer_instance

theorem weaken {weak : Prop} [balanced : Balanced tidy firm action action'] (implies : weak → firm) :
    Balanced tidy weak action action' where
  balancedFrom machine linked := by
    obtain ⟨same, leads, ends⟩ := balanced.balancedFrom machine linked
    refine ⟨same, leads, ?_⟩
    cases result : action machine <;> rw [result] at ends <;> exact fun isWeak => ends (implies isWeak)

end Balanced

namespace Advancing

instance ofBalanced [balanced : Balanced tidy False action action'] : Advancing tidy action action' :=
  ⟨fun machine linked => (balanced.balancedFrom machine linked).advancing⟩

instance seq [first : Advancing tidy action action']
    [second : ∀ value, Advancing tidy (rest value) (rest' value)] :
    Advancing tidy (action >>= rest) (action' >>= rest') where
  advancingFrom machine linked := (first.advancingFrom machine linked).bind
    fun value next _ linked => (second value).advancingFrom next linked

instance branch (condition : Prop) [Decidable condition] {yes no yes' no' : VM α}
    [Advancing tidy yes yes'] [Advancing tidy no no'] :
    Advancing tidy (if condition then yes else no) (if condition then yes' else no') := by
  split <;> infer_instance

end Advancing

namespace Fails

instance ofRaise (core : CoreClass) (message : String) : Fails (raise core message : VM α) :=
  ⟨fun _ _ _ => raise_ne_ok⟩

end Fails

namespace Executes

variable {next next' : α → VM (Option Exit)}

instance seq [first : Advancing tidy action action']
    [second : ∀ value, Executes tidy stop (next value) (next' value)] :
    Executes tidy stop (action >>= next) (action' >>= next') where
  executesFrom machine linked runs := bindFrom runs (first.advancingFrom machine linked)
    fun value last _ linked runs => (second value).executesFrom last linked runs

/-- The instruction behind a part of it whose value it depends on. -/
theorem behind [Advancing tidy action action']
    (others : ∀ value, Executes tidy stop (next value) (next' value)) :
    Executes tidy stop (action >>= next) (action' >>= next') :=
  seq

/-- The loop goes on. -/
instance goOn : Executes tidy stop (pure none) (pure none) where
  executesFrom machine linked runs :=
    .of_advancing runs ((Advancing.ofBalanced).advancingFrom machine linked) runs.lt

instance ofFailing {step : VM (Option Exit)} [quiet : Quiet step] [fails : Fails step] :
    Executes tidy stop step step where
  executesFrom machine linked runs := by
    refine .of_advancing runs ((Advancing.ofBalanced).advancingFrom machine linked) ?_
    cases result : step machine with
    | ok exit? last => exact absurd result (fails.ne_ok _ _ _)
    | error failure last => exact trivial

instance branch (condition : Prop) [Decidable condition] {yes no yes' no' : VM (Option Exit)}
    [Executes tidy stop yes yes'] [Executes tidy stop no no'] :
    Executes tidy stop (if condition then yes else no) (if condition then yes' else no') := by
  split <;> infer_instance

end Executes

end Composition

/-! ### Failures -/

/-- An action that fails only if an invariant is broken. -/
class OnlyBreaches {α : Type} (action : VM α) : Prop where
  isBreach : ∀ machine failure next, action machine = .error failure next → failure.isBreach

namespace OnlyBreaches

variable {α β : Type} {action : VM α} {rest : α → VM β}

theorem of_ok (succeeds : ∀ machine, ∃ value next, action machine = .ok value next) :
    OnlyBreaches action where
  isBreach machine failure next failed := by
    obtain ⟨value, last, succeeded⟩ := succeeds machine
    exact nomatch succeeded.symm.trans failed

instance ofValue (value : α) : OnlyBreaches (pure value : VM α) := of_ok fun _ => ⟨_, _, rfl⟩

instance ofBreach (cause : Breach) : OnlyBreaches (VM.breach cause : VM α) where
  isBreach _ _ _ failed := by
    cases failed
    rfl

instance ofMachine : OnlyBreaches (MonadState.get : VM Machine) := of_ok fun _ => ⟨_, _, rfl⟩

instance ofModify (change : Machine → Machine) : OnlyBreaches (modify change : VM PUnit) :=
  of_ok fun _ => ⟨_, _, rfl⟩

instance ofAllocate (object : Object) : OnlyBreaches (allocate object) := of_ok fun _ => ⟨_, _, rfl⟩

instance ofSetContent (handle : Handle) (content : Content) :
    OnlyBreaches (setContent handle content) :=
  of_ok fun _ => ⟨_, _, rfl⟩

instance ofModifyFrame (change : Frame → Frame) : OnlyBreaches (VM.modifyFrame change) :=
  of_ok fun _ => ⟨_, _, rfl⟩

instance ofModifyContext (change : Context → Context) : OnlyBreaches (VM.modifyContext change) :=
  of_ok fun _ => ⟨_, _, rfl⟩

instance ofSignals (number : Nat) (change : FiberSignals → FiberSignals × α) :
    OnlyBreaches (withSignals number change) :=
  of_ok fun _ => ⟨_, _, rfl⟩

instance ofQuery (query : Query α) : OnlyBreaches (liftM query : VM α) where
  isBreach machine failure next failed := by
    cases read : query machine with
    | ok value => exact nomatch (liftM_of_ok read).symm.trans failed
    | error breach =>
        cases (liftM_of_error read).symm.trans failed
        rfl

instance seq [first : OnlyBreaches action] [second : ∀ value, OnlyBreaches (rest value)] :
    OnlyBreaches (action >>= rest) where
  isBreach machine failure next failed := by
    cases result : action machine with
    | ok value between =>
        rw [bind_of_ok result] at failed
        exact (second value).isBreach _ _ _ failed
    | error cause between =>
        rw [bind_of_error result] at failed
        cases failed
        exact first.isBreach _ _ _ result

instance branch (condition : Prop) [Decidable condition] {yes no : VM α} [OnlyBreaches yes]
    [OnlyBreaches no] : OnlyBreaches (if condition then yes else no) := by
  split <;> infer_instance

instance optionForM {step : α → VM PUnit} [only : ∀ value, OnlyBreaches (step value)]
    (option : Option α) : OnlyBreaches (option.forM step) := by
  cases option
  · exact ofValue _
  · exact only _

instance modifyException (handle : Handle) (change : ExceptionRecord → ExceptionRecord) :
    OnlyBreaches (modifyException handle change) :=
  of_ok fun _ => ⟨_, _, rfl⟩

instance fillBacktrace (exception : Handle) : OnlyBreaches (fillBacktrace exception) := by
  unfold VM.fillBacktrace
  refine @seq _ _ _ _ _ fun object => ?_
  split <;> infer_instance

instance exceptionHere (core : CoreClass) (message : String) :
    OnlyBreaches (exceptionHere core message) := by
  unfold VM.exceptionHere VM.newText VM.newString VM.newCore VM.newException
  infer_instance

end OnlyBreaches

end VM

/-- Two engines are the same wherever a linked machine may ask them, and do there what loops
and methods do. -/
class Engine.Agrees (tidy : Prop) (engine engine' : Engine) : Prop where
  rounds : engine'.rounds = engine.rounds
  loop : ∀ stop machine, machine.Linked tidy → machine.RunsFrom stop →
    VM.TracksFrom tidy (Descends stop) (VM.EndsLoop tidy stop) machine (engine.loop stop)
      (engine'.loop stop)
  native : ∀ method self args,
    VM.Balanced tidy tidy (engine.native method self args) (engine'.native method self args)

attribute [instance] Engine.Agrees.native

end RiteVm
