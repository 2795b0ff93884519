import RiteVm.Execution.Loop
import RiteVm.Proofs.Unwinding.Attempt

/-!
Contract: a cycle that goes on with a departure attempts it.

Owns:
- the end of a cycle, which dispatches an exception and keeps in use what it carries;
- that it changes nothing about an attempt but what a host has in use.

Does not own: which cycles go on with a departure.
-/

namespace RiteVm

open RiteVm.Bytecode

variable {machine next : Machine} {context : Context} {frames : List Frame} {stop target : Nat}
  {value : Value} {exception : Handle}

/-- The part of a cycle behind the collection: an action, the dispatch of an exception that
it ends in, and what the end of a loop keeps in use. -/
def VM.settle (stop mark : Nat) (action : VM (Option Exit)) : VM (Option Exit) := do
  let result ← attempt action
  modifyHeap (·.restoreArena mark)
  let result ← recover stop result
  modifyHeap (·.protect (carried result))
  resolve result

theorem VM.cycle_eq_settle (engine : Engine) (stop : Nat) :
    VM.cycle engine stop = (do
      collectIfDue
      let mark ← Query.arenaMark
      settle stop mark (step engine stop)) := rfl

/-- What a cycle settles depends on what its action ends in only. -/
theorem VM.settle_congr {action other : VM (Option Exit)} {mark : Nat}
    (same : action machine = other next) :
    settle stop mark action machine = settle stop mark other next := by
  have sameAttempt : attempt action machine = attempt other next := by
    rw [attempt, attempt, same]
  change (EStateM.bind (attempt action) _) machine = (EStateM.bind (attempt other) _) next
  rw [EStateM.bind, EStateM.bind, sameAttempt]

/-- The machine with other objects in use for a host. -/
def Machine.withArena (machine : Machine) (arena : Array Handle) : Machine :=
  { machine with heap.arena := arena }

theorem Machine.RunsOn.withArena (runs : machine.RunsOn context) (arena : Array Handle) :
    (machine.withArena arena).RunsOn context :=
  runs.movesTo (Machine.movesTo_withHeap runs.running (.of_cells rfl rfl)) rfl
    fun other member _ holds => ⟨other, member, holds⟩

/-- A result with other objects in use for a host. -/
def resultWithArena (arena : Array Handle) :
    EStateM.Result Failure Machine (Option Exit) → EStateM.Result Failure Machine (Option Exit)
  | .ok value machine => .ok value (machine.withArena arena)
  | .error failure machine => .error failure (machine.withArena arena)

theorem Attempts.withArena {departure : Departure}
    {result : EStateM.Result Failure Machine (Option Exit)}
    (attempts : Attempts stop departure frames result) (arena : Array Handle) :
    Attempts stop departure frames (resultWithArena arena result) := by
  rcases attempts with ⟨next, rfl, diverted⟩ | ⟨noClause, done⟩
  · obtain @⟨context, _, _, _, _, _, runs, isSuffix, inside, isUnit, member, isEnsure, isTop, moved,
      stored, isKind, fits, resumes⟩ := diverted
    have stored' : departure.StoredAs (next.withArena arena).heap context.pendingValue := by
      cases departure <;> exact stored
    exact .inl ⟨_, rfl, .into (runs.withArena arena) isSuffix inside isUnit member isEnsure isTop
      moved stored' isKind fits resumes⟩
  · refine .inr ⟨noClause, ?_⟩
    cases done with
    | fell runs split isTop moves isPending =>
        exact .fell (runs.withArena arena) split isTop moves isPending
    | jumped runs split isTop moves isPending =>
        exact .jumped (runs.withArena arena) split isTop moves isPending
    | returned runs isSuffix atStop => exact .returned (runs.withArena arena) isSuffix atStop
    | delivered beyond runs isSuffix atTarget stored =>
        exact .delivered beyond (runs.withArena arena) isSuffix atTarget stored
    | handedOn beyond runs isSuffix atStop =>
        exact .handedOn beyond (runs.withArena arena) isSuffix atStop
    | rescued runs split inside noneLeft rescues isTop moves isPending =>
        exact .rescued (runs.withArena arena) split inside noneLeft rescues isTop moves isPending
    | uncaught runs split noneLeft atStop =>
        exact .uncaught (runs.withArena arena) split noneLeft atStop

/-- The value that the end of a loop carries stays in use, which concerns no object. -/
theorem Heap.protect_eq_withArena (machine : Machine) (value : Value) :
    ∃ arena, { machine with heap := machine.heap.protect value } = machine.withArena arena := by
  cases value <;> exact ⟨_, rfl⟩

namespace VM

variable {action : VM (Option Exit)} {mark : Nat} {exit? : Option Exit} {failure : Failure}

/-- What is left of a cycle when nothing has to be dispatched. -/
theorem settle_of_recover {result : Except Failure (Option Exit)} {ended last : Machine}
    (attempted : attempt action machine = .ok result ended)
    {recovered : Except Failure (Option Exit)}
    (recovers : recover stop result (ended.withArena (ended.heap.arena.take mark)) =
      .ok recovered last) :
    ∃ arena, settle stop mark action machine = resolve recovered (last.withArena arena) := by
  obtain ⟨arena, isProtected⟩ := Heap.protect_eq_withArena last (carried recovered)
  refine ⟨arena, ?_⟩
  rw [← isProtected, settle, bind_of_ok attempted, bind_of_ok (modifyHeap_ok _)]
  change (recover stop result >>= _) (ended.withArena (ended.heap.arena.take mark)) = _
  rw [bind_of_ok recovers, bind_of_ok (modifyHeap_ok _)]

theorem settle_of_ok (ended : action machine = .ok exit? next) :
    ∃ arena, settle stop mark action machine = .ok exit? (next.withArena arena) := by
  have attempted : attempt action machine = .ok (.ok exit?) next := by rw [attempt, ended]
  obtain ⟨arena, settled⟩ := settle_of_recover attempted
    (show recover stop (.ok exit?) _ = .ok (.ok exit?) _ from rfl)
  exact ⟨arena, settled⟩

/-- An exit that has left the last frame of the loop is handed on. -/
theorem settle_of_unwinding (ended : action machine = .error (.unwinding target value) next)
    (runs : next.RunsOn context) (outside : context.activations.length ≤ stop) :
    ∃ arena, settle stop mark action machine =
      .error (.unwinding target value) (next.withArena arena) := by
  have attempted : attempt action machine = .ok (.error (.unwinding target value)) next := by
    rw [attempt, ended]
  have recovers : recover stop (.error (.unwinding target value))
      (next.withArena (next.heap.arena.take mark)) =
      .ok (.error (.unwinding target value)) (next.withArena (next.heap.arena.take mark)) := by
    rw [recover, bind_of_ok (liftM_of_ok (Query.depth_of_runsOn (runs.withArena _))),
      if_neg (by omega)]
    rfl
  obtain ⟨arena, settled⟩ := settle_of_recover attempted recovers
  exact ⟨arena, settled⟩

/-- An exception that an action ends in is dispatched to the frames of the loop. -/
theorem settle_of_raised (ended : action machine = .error (.raised exception) next)
    (runs : next.RunsOn context) (inside : stop < context.activations.length) :
    ∃ arena arena', settle stop mark action machine =
      resultWithArena arena' ((handleRaise exception stop >>= fun _ => pure none)
        (next.withArena arena)) := by
  have attempted : attempt action machine = .ok (.error (.raised exception)) next := by
    rw [attempt, ended]
  refine ⟨next.heap.arena.take mark, ?_⟩
  have dispatches : recover stop (.error (.raised exception))
      (next.withArena (next.heap.arena.take mark)) =
      attempt (handleRaise exception stop >>= fun _ => pure none)
        (next.withArena (next.heap.arena.take mark)) := by
    rw [recover, bind_of_ok (liftM_of_ok (Query.depth_of_runsOn (runs.withArena _))),
      if_pos inside]
  generalize isResult : (handleRaise exception stop >>= fun _ => pure none)
    (next.withArena (next.heap.arena.take mark)) = result at dispatches
  rw [attempt, isResult] at dispatches
  cases result with
  | ok exit? last =>
      obtain ⟨arena, settled⟩ := settle_of_recover attempted dispatches
      exact ⟨arena, settled⟩
  | error failure last =>
      obtain ⟨arena, settled⟩ := settle_of_recover attempted dispatches
      exact ⟨arena, settled⟩

end VM

/-- The end of a cycle has nothing to dispatch after an attempt that ends in no exception. -/
theorem Attempts.settle {departure : Departure} {action : VM (Option Exit)}
    (attempts : Attempts stop departure frames (action machine))
    (noException : ∀ exception, departure ≠ .raise exception) (mark : Nat) :
    Attempts stop departure frames (VM.settle stop mark action machine) := by
  have settles : ∃ arena, VM.settle stop mark action machine =
      resultWithArena arena (action machine) := by
    rcases attempts with ⟨next, entered, -⟩ | ⟨-, done⟩
    · obtain ⟨arena, settled⟩ := VM.settle_of_ok entered
      exact ⟨arena, settled.trans (by rw [entered]; rfl)⟩
    · generalize ended : action machine = result at done
      cases done with
      | fell | jumped | returned | delivered =>
          obtain ⟨arena, settled⟩ := VM.settle_of_ok ended
          exact ⟨arena, settled⟩
      | handedOn beyond runs isSuffix atStop =>
          obtain ⟨arena, settled⟩ := VM.settle_of_unwinding ended runs (Nat.le_of_eq atStop)
          exact ⟨arena, settled⟩
      | rescued | uncaught => exact absurd rfl (noException _)
  obtain ⟨arena, settled⟩ := settles
  rw [settled]
  exact attempts.withArena arena

/-- A cycle whose instruction goes on with a departure attempts it. -/
theorem attempts_proceed {departure : Departure} (runs : machine.RunsOn context)
    (laidOut : LaidOut stop context.activations) (inside : stop < context.activations.length)
    (ready : departure.Ready machine.heap context) (mark : Nat) :
    Attempts stop departure context.activations
      (VM.settle stop mark (departure.proceed stop) machine) := by
  have isFrames : context.activations = context.activations := rfl
  have depth : (liftM Query.depth : VM Nat) machine = .ok context.activations.length machine :=
    VM.liftM_of_ok (Query.depth_of_runsOn runs)
  cases departure with
  | fall =>
      cases frames : context.activations with
      | nil => simp [frames] at inside
      | cons frame below =>
          rw [frames] at laidOut inside
          have attempts : Attempts stop .fall (frame :: below)
              ((pure none : VM (Option Exit)) machine) :=
            attempts_fall runs frames laidOut (Nat.le_of_lt_succ inside) ready
          exact attempts.settle nofun mark
  | jump target =>
      cases frames : context.activations with
      | nil => simp [frames] at inside
      | cons frame below =>
          rw [frames] at laidOut inside
          have attempts : Attempts stop (.jump target) (frame :: below)
              ((VM.jumpUnwinding target >>= fun _ => pure none) machine) :=
            attempts_jumpUnwinding runs frames laidOut (Nat.le_of_lt_succ inside)
          exact attempts.settle nofun mark
  | leave target value =>
      have attempts : Attempts stop (.leave target value) context.activations
          (VM.exitTo target value stop machine) := by
        rw [VM.exitTo, VM.bind_of_ok depth]
        exact attempts_leaveFrames runs isFrames laidOut inside ready
      exact attempts.settle nofun mark
  | raise exception =>
      obtain ⟨object, found, isException⟩ := ready
      obtain ⟨arena, arena', settled⟩ := VM.settle_of_raised
        (show (throw (.raised exception) : VM (Option Exit)) machine = _ from rfl) runs inside
      have sameObject : (machine.withArena arena).heap.get? exception = some object := found
      have withArena := runs.withArena arena
      obtain ⟨next, filled, moves⟩ := VM.fillBacktrace_of_runsOn withArena sameObject
      obtain ⟨object', found', -, staysException⟩ :=
        moves.heap.kept withArena.wellFormed exception object sameObject
      have nextRuns : next.RunsOn context :=
        withArena.movesTo moves rfl fun other member handle holds => ⟨other, member, holds⟩
      have nextDepth : (liftM Query.depth : VM Nat) next = .ok context.activations.length next :=
        VM.liftM_of_ok (Query.depth_of_runsOn nextRuns)
      rw [Departure.proceed, settled, VM.handleRaise, bind_assoc, VM.bind_of_ok filled,
        bind_assoc, VM.bind_of_ok nextDepth]
      exact Attempts.withArena (attempts_findHandler nextRuns isFrames laidOut inside
        ⟨object', found', staysException isException⟩) arena'

end RiteVm
