import RiteVm.Proofs.Unwinding.Clauses

/-!
Contract: where an exit or an exception lands, whatever code the frames run.

Owns:
- the handlers that a departure may enter: an exit enters ensure clauses only;
- where one attempt of a departure ends: in such a handler, at the target of a jump, or behind
  the frames that it leaves, where what was pending still is;
- the attempts of jumps, returns and exceptions, and of the cycle that makes one.

Nothing is assumed of how regions lie in the code, so that a clause may be entered more than
once. `Unwinding.Attempt` says more of code that is laid out.
-/

namespace RiteVm

open RiteVm.Bytecode

/-! ### Handlers -/

/-- The kind of handlers that a departure enters; nothing for both kinds. -/
def Departure.enters? : Departure → Option CatchKind
  | .raise _ => none
  | _ => some .ensure

/-- The handler of the innermost region around a frame's address, of one kind or of both. -/
def Frame.handler? (frame : Frame) (kind? : Option CatchKind) : Option CatchHandler :=
  frame.unit.bind (·.handlerFor? frame.pc kind?)

theorem Frame.kind_of_handler? {frame : Frame} {kind : CatchKind} {handler : CatchHandler}
    (found : frame.handler? (some kind) = some handler) : handler.kind = kind := by
  obtain ⟨unit, -, found⟩ := Option.bind_eq_some_iff.mp found
  have isKind := List.find?_some found
  simp only [Option.all_some, Bool.and_eq_true, beq_iff_eq] at isKind
  exact isKind.1.symm

/-- The innermost frames are left, none of which has such a handler. -/
def Skips (kind? : Option CatchKind) (frames rest : List Frame) : Prop :=
  ∃ left, frames = left ++ rest ∧ ∀ frame ∈ left, frame.handler? kind? = none

section Frames

variable {kind? : Option CatchKind} {frame : Frame} {frames rest : List Frame}

theorem Skips.refl (frames : List Frame) : Skips kind? frames frames :=
  ⟨[], rfl, fun _ inLeft => absurd inLeft List.not_mem_nil⟩

theorem Skips.cons (noHandler : frame.handler? kind? = none) (skips : Skips kind? frames rest) :
    Skips kind? (frame :: frames) rest := by
  obtain ⟨left, rfl, noneLeft⟩ := skips
  refine ⟨frame :: left, rfl, fun other inLeft => ?_⟩
  rcases List.mem_cons.mp inLeft with rfl | inLeft
  · exact noHandler
  · exact noneLeft other inLeft

end Frames

/-! ### Landing -/

/-- Where an attempt of a departure ends that starts from some frames, the innermost first, with
something pending or not. -/
inductive Lands (stop : Nat) (pending : Option Pending) (frames : List Frame) :
    Departure → EStateM.Result Failure Machine (Option Exit) → Prop where
  /-- in a handler of the innermost frame with one, which finds the departure pending -/
  | entered {departure : Departure} {next : Machine} {context : Context} {frame moved : Frame}
      {below : List Frame} {handler : CatchHandler} {record : Handle} :
      next.RunsOn context → Skips departure.enters? frames (frame :: below) → stop ≤ below.length →
      frame.handler? departure.enters? = some handler →
      (departure.IsExit → handler.kind = .ensure) →
      context.activations = moved :: below → frame.ContinuesAt handler.target.toNat moved →
      context.pending = some { record, kind := handler.kind } →
      departure.StoredAs next.heap (.object record) →
      Lands stop pending frames departure (.ok none next)
  /-- at the target of a jump, with nothing pending -/
  | jumped {target : Nat} {next : Machine} {context : Context} {frame moved : Frame}
      {below : List Frame} :
      next.RunsOn context → frames = frame :: below → context.activations = moved :: below →
      frame.ContinuesAt target moved → context.pending = none →
      Lands stop pending frames (.jump target) (.ok none next)
  /-- at the end of the loop, whose value it is -/
  | returned {value : Value} {next : Machine} {context : Context} :
      next.RunsOn context → Skips (some .ensure) frames context.activations →
      context.activations.length = stop → context.pending = pending →
      Lands stop pending frames (.leave stop value) (.ok (some (.returned value)) next)
  /-- in the caller of the target frame, which finds the value where the receiver was -/
  | delivered {target : Nat} {value : Value} {next : Machine} {context : Context} {frame : Frame} :
      next.RunsOn context → Skips (some .ensure) frames context.activations →
      stop < target → context.activations.length = target →
      frame :: context.activations <:+ frames → context.slot frame.base = value →
      context.pending = pending →
      Lands stop pending frames (.leave target value) (.ok none next)
  /-- at the end of the loop, for an outer loop to go on with -/
  | handedOn {target : Nat} {value : Value} {next : Machine} {context : Context} :
      next.RunsOn context → Skips (some .ensure) frames context.activations →
      target ≠ stop → context.activations.length = stop → context.pending = pending →
      Lands stop pending frames (.leave target value) (.error (.unwinding target value) next)
  /-- at the end of the loop, which no frame keeps the exception from -/
  | uncaught {exception : Handle} {next : Machine} {context : Context} :
      next.RunsOn context → Skips none frames context.activations →
      context.activations.length = stop → context.pending = pending →
      (∃ object, next.heap.get? exception = some object ∧ object.exception?.isSome) →
      Lands stop pending frames (.raise exception) (.error (.raised exception) next)

namespace Lands

variable {stop : Nat} {pending : Option Pending} {frame : Frame} {frames : List Frame}
  {departure : Departure} {result : EStateM.Result Failure Machine (Option Exit)}

/-- A frame without a handler makes no difference, unless the departure is a jump. -/
theorem cons (noHandler : frame.handler? departure.enters? = none)
    (notJump : ∀ target, departure ≠ .jump target) (lands : Lands stop pending frames departure result) :
    Lands stop pending (frame :: frames) departure result := by
  cases lands with
  | entered runs skips inside found isKind isTop moved isPending stored =>
      exact .entered runs (skips.cons noHandler) inside found isKind isTop moved isPending stored
  | jumped => exact absurd rfl (notJump _)
  | returned runs skips atStop samePending =>
      exact .returned runs (skips.cons noHandler) atStop samePending
  | delivered runs skips beyond atTarget isSuffix stored samePending =>
      exact .delivered runs (skips.cons noHandler) beyond atTarget
        (isSuffix.trans (List.suffix_cons _ _)) stored samePending
  | handedOn runs skips isOther atStop samePending =>
      exact .handedOn runs (skips.cons noHandler) isOther atStop samePending
  | uncaught runs skips atStop samePending isException =>
      exact .uncaught runs (skips.cons noHandler) atStop samePending isException

/-- What a host has in use does not matter. -/
theorem withArena (lands : Lands stop pending frames departure result) (arena : Array Handle) :
    Lands stop pending frames departure (resultWithArena arena result) := by
  cases lands with
  | entered runs skips inside found isKind isTop moved isPending stored =>
      exact .entered (runs.withArena arena) skips inside found isKind isTop moved isPending
        (Departure.StoredAs.withArena stored arena)
  | jumped runs split isTop moved isPending =>
      exact .jumped (runs.withArena arena) split isTop moved isPending
  | returned runs skips atStop samePending =>
      exact .returned (runs.withArena arena) skips atStop samePending
  | delivered runs skips beyond atTarget isSuffix stored samePending =>
      exact .delivered (runs.withArena arena) skips beyond atTarget isSuffix stored samePending
  | handedOn runs skips isOther atStop samePending =>
      exact .handedOn (runs.withArena arena) skips isOther atStop samePending
  | uncaught runs skips atStop samePending isException =>
      exact .uncaught (runs.withArena arena) skips atStop samePending isException

end Lands

/-! ### Attempts -/

variable {machine next : Machine} {context : Context} {frame : Frame}
  {frames below : List Frame} {stop target : Nat} {value : Value} {exception : Handle}

/-- Leaving frames lands in the innermost ensure clause on the way, or behind the target. -/
theorem lands_leaveFrames (runs : machine.RunsOn context)
    (isFrames : context.activations = frames) (inside : stop < frames.length) :
    Lands stop context.pending frames (.leave target value)
      (VM.leaveFrames target value stop frames.length machine) := by
  induction frames generalizing machine context with
  | nil => exact absurd inside (Nat.not_lt_zero _)
  | cons frame rest inductionHypothesis =>
      rw [List.length_cons] at inside
      have covering : Query.coveringEnsure? machine = .ok (frame.handler? (some .ensure)) :=
        Query.coveringEnsure?_of_runsOn runs isFrames
      rw [List.length_cons, VM.leaveFrames, VM.bind_of_ok (VM.liftM_of_ok covering)]
      cases isHandler : frame.handler? (some .ensure) with
      | some handler =>
          dsimp only
          rw [VM.bind_of_ok (VM.modifyFrame_ok _)]
          obtain ⟨clearedRuns, cleared⟩ := runs.modifyTop isFrames (Machine.movesTo_modifyContext
            runs.running (Context.modifyTop · fun frame => { frame with ensuring := none })) rfl rfl
          obtain ⟨next, record, object, diverted, moves, found, isExit⟩ :=
            VM.divert_of_runsOn clearedRuns handler (.frame target) value
          obtain ⟨entersRuns, entered⟩ := clearedRuns.entering cleared moves
          have isKind := Frame.kind_of_handler? isHandler
          rw [VM.bind_of_ok diverted]
          refine .entered entersRuns (.refl _) (Nat.le_of_lt_succ inside) isHandler
            (fun _ => isKind) entered ⟨rfl, rfl, rfl, rfl⟩ ?_ ⟨record, object, rfl, found, isExit⟩
          rw [isKind]
          rfl
      | none =>
          dsimp only
          obtain ⟨next, popped, moves⟩ := VM.popFrame?_of_runsOn runs isFrames
          obtain ⟨restRuns, isRest⟩ := runs.popTop isFrames moves
          have skips : Skips (some .ensure) (frame :: rest) context.popTop.activations := by
            rw [isRest]
            exact .cons isHandler (.refl rest)
          rw [VM.bind_of_ok popped]
          dsimp only
          by_cases isTarget : rest.length = target
          · rw [if_pos isTarget]
            by_cases isStop : rest.length = stop
            · rw [if_pos isStop]
              obtain rfl := isTarget.symm.trans isStop
              exact .returned restRuns skips (by rw [isRest, isTarget]) rfl
            · rw [if_neg isStop]
              obtain ⟨storedRuns, sameFrames, stored⟩ := restRuns.setSlot frame.base value
              refine .delivered storedRuns (sameFrames ▸ skips) (by omega) ?_ ?_ stored
                (Context.setSlot_pending _ _ _)
              · rw [sameFrames, isRest, isTarget]
              · exact ⟨[], congrArg (frame :: ·) (sameFrames.trans isRest)⟩
          · rw [if_neg isTarget]
            by_cases isStop : rest.length = stop
            · rw [if_pos isStop]
              exact .handedOn restRuns skips (by omega) (by rw [isRest, isStop]) rfl
            · rw [if_neg isStop]
              have lands : Lands stop context.popTop.pending rest (.leave target value) _ :=
                inductionHypothesis restRuns isRest (by omega)
              exact lands.cons isHandler fun _ isJump => by cases isJump

theorem lands_exitTo (runs : machine.RunsOn context) (inside : stop < context.activations.length) :
    Lands stop context.pending context.activations (.leave target value)
      (VM.exitTo target value stop machine) := by
  rw [VM.exitTo, VM.bind_of_ok (VM.liftM_of_ok (Query.depth_of_runsOn runs))]
  exact lands_leaveFrames runs rfl inside

/-- A jump lands in the innermost ensure clause around it, unless that is around the target as
well, or at its target. -/
theorem lands_jumpUnwinding (runs : machine.RunsOn context)
    (isFrames : context.activations = frame :: below) (inside : stop ≤ below.length) :
    Lands stop context.pending (frame :: below) (.jump target)
      ((VM.jumpUnwinding target >>= fun _ => pure none) machine) := by
  by_cases leaves : ∃ handler, frame.handler? (some .ensure) = some handler ∧
      handler.spans target = false
  · obtain ⟨handler, isHandler, leaves⟩ := leaves
    obtain ⟨next, record, object, jumps, entersRuns, entered, found, isExit⟩ :=
      VM.jumpUnwinding_of_leaves runs isFrames isHandler leaves
    have isKind := Frame.kind_of_handler? isHandler
    rw [VM.bind_of_ok jumps]
    refine .entered entersRuns (.refl _) inside isHandler (fun _ => isKind) entered
      ⟨rfl, rfl, rfl, rfl⟩ ?_ ⟨record, object, rfl, found, isExit⟩
    rw [isKind]
    rfl
  · obtain ⟨next, changed, jumps, jumpedRuns, jumped, isPending⟩ :=
      VM.jumpUnwinding_of_stays runs isFrames fun handler isHandler =>
        Bool.of_not_eq_false fun isLeft => leaves ⟨handler, isHandler, isLeft⟩
    rw [VM.bind_of_ok jumps]
    exact .jumped jumpedRuns rfl jumped ⟨rfl, rfl, rfl, rfl⟩ isPending

/-- The search for a handler lands in the innermost one, or at the end of the loop. -/
theorem lands_findHandler (runs : machine.RunsOn context)
    (isFrames : context.activations = frames) (inside : stop < frames.length)
    (isException : ∃ object, machine.heap.get? exception = some object ∧
      object.exception?.isSome) :
    Lands stop context.pending frames (.raise exception)
      ((VM.findHandler exception stop frames.length >>= fun _ => pure none) machine) := by
  induction frames generalizing machine context with
  | nil => exact absurd inside (Nat.not_lt_zero _)
  | cons frame rest inductionHypothesis =>
      rw [List.length_cons] at inside
      rw [List.length_cons, VM.findHandler, bind_assoc,
        VM.bind_of_ok (VM.liftM_of_ok (Query.frame_of_runsOn runs isFrames)), bind_assoc]
      obtain ⟨linked, link, linking⟩ :=
        VM.linkCause_of_running runs.running exception frame.ensuring
      have linkedRuns : linked.RunsOn context :=
        runs.movesTo linking rfl fun other member handle holds => ⟨other, member, holds⟩
      obtain ⟨object, found, isException⟩ := isException
      obtain ⟨object', found', -, staysException⟩ :=
        linking.heap.kept runs.wellFormed exception object found
      have isHandler : frame.unit.bind (·.handlerFor? frame.pc none) = frame.handler? none := rfl
      rw [VM.bind_of_ok link, isHandler]
      cases isHandler : frame.handler? none with
      | some handler =>
          obtain ⟨next, enters, moves, sameHeap⟩ := VM.enterHandler_of_running linkedRuns.running
            handler.target.toNat exception handler.kind
          obtain ⟨entersRuns, entered⟩ := linkedRuns.entering isFrames moves
          dsimp only
          rw [VM.bind_of_ok enters]
          refine .entered entersRuns (.refl _) (Nat.le_of_lt_succ inside) isHandler
            (fun isExit => isExit.elim) entered ⟨rfl, rfl, rfl, rfl⟩ rfl
            ⟨rfl, object', ?_, staysException isException⟩
          rw [sameHeap]
          exact found'
      | none =>
          obtain ⟨next, popped, moves⟩ := VM.popFrame?_of_runsOn linkedRuns isFrames
          obtain ⟨restRuns, isRest⟩ := linkedRuns.popTop isFrames moves
          obtain ⟨object'', found'', -, staysException'⟩ :=
            moves.heap.kept linkedRuns.wellFormed exception object' found'
          have isException'' := staysException' (staysException isException)
          dsimp only
          rw [bind_assoc, VM.bind_of_ok popped]
          by_cases isStop : rest.length = stop
          · rw [if_pos isStop]
            refine .uncaught restRuns ?_ (by rw [isRest, isStop]) rfl ⟨object'', found'', isException''⟩
            rw [isRest]
            exact .cons isHandler (.refl rest)
          · rw [if_neg isStop]
            have lands : Lands stop context.popTop.pending rest (.raise exception) _ :=
              inductionHypothesis restRuns isRest (by omega) ⟨object'', found'', isException''⟩
            exact lands.cons isHandler fun _ isJump => by cases isJump

theorem lands_handleRaise (runs : machine.RunsOn context)
    (inside : stop < context.activations.length)
    (isException : ∃ object, machine.heap.get? exception = some object ∧
      object.exception?.isSome) :
    Lands stop context.pending context.activations (.raise exception)
      ((VM.handleRaise exception stop >>= fun _ => pure none) machine) := by
  obtain ⟨object, found, isException⟩ := isException
  obtain ⟨next, filled, moves⟩ := VM.fillBacktrace_of_runsOn runs found
  obtain ⟨object', found', -, staysException⟩ :=
    moves.heap.kept runs.wellFormed exception object found
  have nextRuns : next.RunsOn context :=
    runs.movesTo moves rfl fun other member handle holds => ⟨other, member, holds⟩
  rw [VM.handleRaise, bind_assoc, VM.bind_of_ok filled, bind_assoc,
    VM.bind_of_ok (VM.liftM_of_ok (Query.depth_of_runsOn nextRuns))]
  exact lands_findHandler nextRuns rfl inside ⟨object', found', staysException isException⟩

/-! ### Cycles -/

/-- An exit that an action ends in goes on through the frames of the loop. -/
theorem VM.settle_of_exiting {action : VM (Option Exit)} {mark : Nat}
    (ended : action machine = .error (.unwinding target value) next)
    (runs : next.RunsOn context) (inside : stop < context.activations.length) :
    ∃ arena arena', settle stop mark action machine =
      resultWithArena arena' (exitTo target value stop (next.withArena arena)) := by
  have attempted : attempt action machine = .ok (.error (.unwinding target value)) next := by
    rw [attempt, ended]
  refine ⟨next.heap.arena.take mark, ?_⟩
  have goesOn : recover stop (.error (.unwinding target value))
      (next.withArena (next.heap.arena.take mark)) =
      attempt (exitTo target value stop) (next.withArena (next.heap.arena.take mark)) := by
    rw [recover, bind_of_ok (liftM_of_ok (Query.depth_of_runsOn (runs.withArena _))),
      if_pos inside]
  generalize isResult : exitTo target value stop (next.withArena (next.heap.arena.take mark)) =
    result at goesOn
  rw [attempt, isResult] at goesOn
  cases result with
  | ok exit? last =>
      obtain ⟨arena, settled⟩ := settle_of_recover attempted goesOn
      exact ⟨arena, settled⟩
  | error failure last =>
      obtain ⟨arena, settled⟩ := settle_of_recover attempted goesOn
      exact ⟨arena, settled⟩

/-- The end of a cycle has nothing to dispatch behind an exit that has landed. -/
theorem Lands.settle {pending : Option Pending} {departure : Departure} {action : VM (Option Exit)}
    (lands : Lands stop pending frames departure (action machine)) (isExit : departure.IsExit)
    (mark : Nat) : Lands stop pending frames departure (VM.settle stop mark action machine) := by
  have settles : ∃ arena, VM.settle stop mark action machine =
      resultWithArena arena (action machine) := by
    generalize ended : action machine = result at lands
    cases lands with
    | entered | jumped | returned | delivered =>
        obtain ⟨arena, settled⟩ := VM.settle_of_ok ended
        exact ⟨arena, settled⟩
    | handedOn runs _ _ atStop =>
        obtain ⟨arena, settled⟩ := VM.settle_of_unwinding ended runs (Nat.le_of_eq atStop)
        exact ⟨arena, settled⟩
    | uncaught => exact isExit.elim
  obtain ⟨arena, settled⟩ := settles
  rw [settled]
  exact lands.withArena arena

/-- A cycle whose instruction goes on with an exit lands it. -/
theorem lands_settle_proceed {departure : Departure} (isExit : departure.IsExit)
    (runs : machine.RunsOn context) (isFrames : context.activations = frame :: below)
    (inside : stop ≤ below.length) (mark : Nat) :
    Lands stop context.pending (frame :: below) departure
      (VM.settle stop mark (departure.proceed stop) machine) := by
  cases departure with
  | fall | raise => exact isExit.elim
  | jump target =>
      have lands : Lands stop context.pending (frame :: below) (.jump target)
          ((VM.jumpUnwinding target >>= fun _ => pure none) machine) :=
        lands_jumpUnwinding runs isFrames inside
      exact lands.settle trivial mark
  | leave target value =>
      have inLoop : stop < context.activations.length := by
        rw [isFrames]
        exact Nat.lt_succ_of_le inside
      have lands : Lands stop context.pending (frame :: below) (.leave target value)
          (VM.exitTo target value stop machine) :=
        isFrames ▸ lands_exitTo runs inLoop
      exact lands.settle trivial mark

/-- The end of a cycle goes on with an exit that its action ends in. -/
theorem lands_settle_exiting {action : VM (Option Exit)} {mark : Nat}
    (ended : action machine = .error (.unwinding target value) next)
    (runs : next.RunsOn context) (inside : stop < context.activations.length) :
    Lands stop context.pending context.activations (.leave target value)
      (VM.settle stop mark action machine) := by
  obtain ⟨arena, arena', settled⟩ := VM.settle_of_exiting ended runs inside
  rw [settled]
  exact (lands_exitTo (runs.withArena arena) inside).withArena arena'

/-- The end of a cycle dispatches an exception that its action ends in. -/
theorem lands_settle_raised {action : VM (Option Exit)} {mark : Nat}
    (ended : action machine = .error (.raised exception) next)
    (runs : next.RunsOn context) (inside : stop < context.activations.length)
    (isException : ∃ object, next.heap.get? exception = some object ∧ object.exception?.isSome) :
    Lands stop context.pending context.activations (.raise exception)
      (VM.settle stop mark action machine) := by
  obtain ⟨arena, arena', settled⟩ := VM.settle_of_raised ended runs inside
  rw [settled]
  exact (lands_handleRaise (runs.withArena arena) inside isException).withArena arena'

end RiteVm
