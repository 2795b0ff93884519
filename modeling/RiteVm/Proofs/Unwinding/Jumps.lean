import RiteVm.Proofs.Unwinding.Exits

/-!
Contract: jumps run the clauses that they leave, and the one that they arrive at.

Owns:
- the regions that a jump leaves, each from the end of the clause of the one before;
- the run of a jump through their clauses to its target, whatever instruction stands there;
- jumps to the start of a clause, which runs once more if the jump has left its region.

A jump stays in a region if its target lies before the end. The end does not, although control that
reaches it by itself runs the clause there once. `Unwinding.Exits` excludes such jumps, and shows of
all other departures that they run each clause once.
-/

namespace RiteVm

open RiteVm.Bytecode

/-- From an address on, a jump to a target leaves regions with ensure clauses, each from the end of the
clause of the one before, until the innermost one around the address, if there is one, spans the
target. -/
inductive Bytecode.CodeUnit.LeavesThrough (unit : CodeUnit) (target : Nat) :
    Nat → List CatchHandler → Prop where
  | stays {pc : Nat}
      (around : ∀ outer, unit.handlerFor? pc (some .ensure) = some outer →
        outer.spans target = true) :
      LeavesThrough unit target pc []
  | leaves {pc : Nat} {handler : CatchHandler} {outer : List CatchHandler}
      (innermost : unit.handlerFor? pc (some .ensure) = some handler)
      (outside : handler.spans target = false)
      (further : LeavesThrough unit target (unit.clauseEnd handler) outer) :
      LeavesThrough unit target pc (handler :: outer)

/-- The code of the frame has a clause for the handler, with one of its registers. -/
def Frame.HasClauseOf (frame : Frame) (unit : CodeUnit) (handler : CatchHandler) : Prop :=
  ∃ clause, unit.clause? handler.target.toNat = some clause ∧
    frame.base + clause.register < frame.top

theorem Bytecode.CodeUnit.mem_of_handlerFor? {unit : CodeUnit} {pc : Nat} {handler : CatchHandler}
    (innermost : unit.handlerFor? pc (some .ensure) = some handler) :
    handler ∈ unit.handlers ∧ handler.isEnsure = true := by
  rw [CodeUnit.handlerFor?_ensure] at innermost
  exact ⟨(CodeUnit.mem_of_mem_regionsAround (List.mem_of_find?_eq_some innermost)).1,
    List.find?_some innermost⟩

/-- In code that is laid out, the regions that a jump leaves are those around it which do not span
the target. -/
theorem Bytecode.CodeUnit.EnsuresContained.leavesThrough {unit : CodeUnit}
    (layout : unit.EnsuresContained) (pc target : Nat) :
    unit.LeavesThrough target pc (unit.jumpedOut pc target) := by
  generalize around : unit.ensuresAround pc = handlers
  induction handlers generalizing pc with
  | nil =>
      rw [CodeUnit.jumpedOut, around, List.filter_nil]
      refine .stays fun outer isOuter => ?_
      rw [CodeUnit.handlerFor?_of_ensuresAround_eq_nil around] at isOuter
      cases isOuter
  | cons handler outer inductionHypothesis =>
      obtain ⟨-, -, innermost, atEnd⟩ := layout.ensuresAround_eq_cons around
      by_cases stays : handler.spans target = true
      · rw [layout.jumpedOut_eq_nil_of_spans around stays]
        refine .stays fun other isOther => ?_
        rwa [← Option.some.inj (innermost.symm.trans isOther)]
      · have first : unit.jumpedOut pc target =
            handler :: unit.jumpedOut (unit.clauseEnd handler) target := by
          rw [CodeUnit.jumpedOut, around, List.filter_cons_of_pos (by simp [stays]),
            CodeUnit.jumpedOut, atEnd]
        rw [first]
        exact .leaves innermost (Bool.eq_false_iff.mpr stays) (inductionHypothesis _ atEnd)

/-! ### Cycles that go on with a jump -/

section Cycles

variable {engine : Engine} {stop mark target pc : Nat} {machine left : Machine} {changed : Context}
  {frame moved : Frame} {below : List Frame} {unit : CodeUnit} {handler : CatchHandler}
  (begins : VM.cycle engine stop machine =
    VM.settle stop mark (Departure.proceed stop (.jump target)) left)
  (runs : left.RunsOn changed) (top : changed.activations = moved :: below)
  (isUnit : frame.unit = some unit) (moves : frame.ContinuesAt pc moved)

include begins runs top isUnit moves

/-- A jump that leaves the innermost region enters its clause and waits for the end of it. -/
theorem VM.cycle_jump_of_leaves (innermost : unit.handlerFor? pc (some .ensure) = some handler)
    (leaves : handler.spans target = false) :
    ∃ next entered further, VM.cycle engine stop machine = .ok none next ∧ next.RunsOn entered ∧
      entered.activations = further :: below ∧
      frame.ContinuesAt handler.target.toNat further ∧
      (Departure.jump target).StoredAs next.heap entered.pendingValue ∧
      ∀ pending, entered.pending = some pending → pending.kind = .ensure := by
  have isHandler : moved.unit.bind (·.handlerFor? moved.pc (some .ensure)) = some handler := by
    rw [moves.unit, isUnit, moves.pc]
    exact innermost
  obtain ⟨next, record, object, jumps, entersRuns, entered, found, isExit⟩ :=
    VM.jumpUnwinding_of_leaves runs top isHandler leaves
  have proceeds : Departure.proceed stop (.jump target) left = .ok none next := by
    rw [Departure.proceed, VM.bind_of_ok jumps]
    rfl
  obtain ⟨arena, settled⟩ := VM.settle_of_ok proceeds
  have stored : (Departure.jump target).StoredAs next.heap (.object record) :=
    ⟨record, object, rfl, found, isExit⟩
  refine ⟨_, _, _, begins.trans settled, entersRuns.withArena arena, entered,
    ⟨moves.base, moves.top, moves.unit, rfl⟩, stored.withArena arena, ?_⟩
  rintro pending isPending
  rw [← Option.some.inj isPending]

/-- A jump that stays in the innermost region, if there is one, arrives with nothing pending. -/
theorem VM.cycle_jump_of_stays
    (stays : ∀ outer, unit.handlerFor? pc (some .ensure) = some outer → outer.spans target = true) :
    ∃ next arrived further, VM.cycle engine stop machine = .ok none next ∧ next.RunsOn arrived ∧
      arrived.activations = further :: below ∧ frame.ContinuesAt target further ∧
      arrived.pending = none := by
  have isBound : moved.unit.bind (·.handlerFor? moved.pc (some .ensure)) =
      unit.handlerFor? pc (some .ensure) := by
    rw [moves.unit, isUnit, moves.pc]
    rfl
  obtain ⟨next, arrived, jumps, jumpedRuns, jumped, nothingPending⟩ :=
    VM.jumpUnwinding_of_stays runs top (isBound ▸ stays)
  have proceeds : Departure.proceed stop (.jump target) left = .ok none next := by
    rw [Departure.proceed, VM.bind_of_ok jumps]
    rfl
  obtain ⟨arena, settled⟩ := VM.settle_of_ok proceeds
  exact ⟨_, _, _, begins.trans settled, jumpedRuns.withArena arena, jumped,
    ⟨moves.base, moves.top, moves.unit, rfl⟩, nothingPending⟩

end Cycles

/-! ### The run of a jump -/

section Runs

variable {engines : Nat → Engine} {stop target count pc : Nat} {machine left : Machine}
  {context changed : Context} {frame moved : Frame} {below : List Frame} {unit : CodeUnit}
  {instruction : Instruction} {handler : CatchHandler} {handlers : List CatchHandler}

/-- A jump that a cycle goes on with runs the clauses of the regions that it leaves, and arrives. -/
theorem passes_jump {mark : Nat} (isUnit : frame.unit = some unit) (inLoop : stop ≤ below.length)
    (enters : unit.EntersClauses)
    (leaves : unit.LeavesThrough target pc handlers)
    (clauses : ∀ handler ∈ handlers, frame.HasClauseOf unit handler)
    (begins : VM.cycle (engines count) stop machine =
      VM.settle stop mark (Departure.proceed stop (.jump target)) left)
    (runs : left.RunsOn changed) (top : changed.activations = moved :: below)
    (moves : frame.ContinuesAt pc moved)
    (bodies : StraightBodies engines stop count machine (frame :: below)) :
    ∃ final last next arrived further,
      Passes engines stop count machine
        (handlers.map fun handler => ⟨below.length, handler.target.toNat⟩) final last ∧
      VM.cycle (engines final) stop last = .ok none next ∧ next.RunsOn arrived ∧
      arrived.activations = further :: below ∧ frame.ContinuesAt target further ∧
      arrived.pending = none := by
  induction leaves generalizing count machine left mark changed moved with
  | stays around =>
      obtain ⟨next, arrived, further, cycled, arrivedRuns, isTop, arrives, nothingPending⟩ :=
        VM.cycle_jump_of_stays begins runs top isUnit moves around
      exact ⟨count, machine, next, arrived, further, .here count machine, cycled, arrivedRuns, isTop,
        arrives, nothingPending⟩
  | @leaves pc handler outer innermost outside _ inductionHypothesis =>
      obtain ⟨member, isEnsure⟩ := CodeUnit.mem_of_handlerFor? innermost
      obtain ⟨clause, isClause, inside⟩ := clauses handler List.mem_cons_self
      obtain ⟨entered, waiting, opening, cycled, enteredRuns, isOpening, opens, stored, isKind⟩ :=
        VM.cycle_jump_of_leaves begins runs top isUnit moves innermost outside
      have start : Passes engines stop count machine [⟨below.length, handler.target.toNat⟩]
          (count + 1) entered :=
        .one cycled (Machine.clauseStart?_of_handler enteredRuns isOpening (opens.unit.trans isUnit)
          member isEnsure opens.pc)
      obtain ⟨middle, reached, mark', left', changed', resumed, value, through, goesOn, leftRuns,
        isTop, resumes, -, -⟩ := passes_clause enters inLoop isUnit member isEnsure isClause inside
          enteredRuns isOpening opens stored isKind (bodies.passes start)
      obtain ⟨final, last, next, arrived, further, rest, arrives⟩ := inductionHypothesis
        (fun other isOuter => clauses other (List.mem_cons_of_mem _ isOuter)) goesOn leftRuns isTop
        resumes (bodies.passes (start.trans through))
      exact ⟨final, last, next, arrived, further, start.trans (through.trans rest), arrives⟩

section Departing

variable
  (departs : Departs engines stop machine context frame below unit instruction (.jump target))
  (enters : unit.EntersClauses)
  (leaves : unit.LeavesThrough target instruction.next handlers)
  (clauses : ∀ handler ∈ handlers, frame.HasClauseOf unit handler)

include departs enters leaves clauses

/-- A jump runs the clause of each region that it leaves once, the innermost first, and then goes on
at its target with nothing pending. -/
theorem jump_runs_clauses_and_arrives :
    ∃ final last next arrived,
      Passes engines stop 0 machine
        (handlers.map fun handler => ⟨below.length, handler.target.toNat⟩) final last ∧
      VM.cycle (engines final) stop last = .ok none next ∧
      next.AdvancesTo context frame below target arrived := by
  obtain ⟨runs, nothingPending, top, inLoop, isUnit, decoded, isLeft, bodies⟩ := departs
  obtain ⟨_, left, changed, moved, begins, leftRuns, isTop, moves, -⟩ :=
    isLeft.cycle_eq runs nothingPending top isUnit decoded
  obtain ⟨final, last, next, arrived, further, passes, cycled, arrivedRuns, atTop, arrives,
    noneWaits⟩ := passes_jump isUnit inLoop enters leaves clauses begins leftRuns isTop moves bodies
  exact ⟨final, last, next, arrived, passes, cycled, arrivedRuns, ⟨further, atTop, arrives⟩,
    noneWaits.trans nothingPending.symm⟩

/-- If a clause starts at the target, it runs on arrival with nothing waiting for it, and control goes
on behind it. The clause of a region that the jump has left, to the end of this region, so runs
twice. -/
theorem jump_runs_clause_at_target (member : handler ∈ unit.handlers)
    (isEnsure : handler.isEnsure = true) (isStart : handler.target.toNat = target)
    (hasClause : frame.HasClauseOf unit handler) :
    ∃ final last next behind,
      Passes engines stop 0 machine
        ((handlers ++ [handler]).map fun handler => ⟨below.length, handler.target.toNat⟩) final
        last ∧
      VM.cycle (engines final) stop last = .ok none next ∧
      next.AdvancesTo context frame below (unit.clauseEnd handler) behind := by
  obtain ⟨middle, reached, arrived, arrivedContext, passes, cycled, arrivedRuns,
    ⟨opening, isOpening, opens⟩, samePending⟩ :=
    jump_runs_clauses_and_arrives departs enters leaves clauses
  obtain ⟨-, nothingPending, -, inLoop, isUnit, -, -, bodies⟩ := departs
  obtain ⟨clause, isClause, inside⟩ := hasClause
  subst isStart
  have noneWaits := samePending.trans nothingPending
  have start := passes.trans (.one cycled (Machine.clauseStart?_of_handler arrivedRuns isOpening
    (opens.unit.trans isUnit) member isEnsure opens.pc))
  have nothingStored : Departure.fall.StoredAs arrived.heap arrivedContext.pendingValue := by
    rw [Departure.StoredAs, Context.pendingValue, noneWaits]
  have noKind : ∀ pending, arrivedContext.pending = some pending → pending.kind = .ensure := by
    rw [noneWaits]
    rintro pending ⟨⟩
  obtain ⟨final, last, _, left, behind, resumed, _, through, falls, leftRuns, isTop, goesBehind,
    stillNone, -⟩ := passes_clause enters inLoop isUnit member isEnsure isClause inside arrivedRuns
      isOpening opens nothingStored noKind (bodies.passes start)
  have proceeds : Departure.proceed stop .fall left = .ok none left := rfl
  obtain ⟨arena, settled⟩ := VM.settle_of_ok proceeds
  have whole := start.trans through
  rw [List.append_nil] at whole
  refine ⟨final, last, _, behind, ?_, falls.trans settled, leftRuns.withArena arena,
    ⟨resumed, isTop, goesBehind⟩, stillNone.trans nothingPending.symm⟩
  rw [List.map_append]
  exact whole

end Departing

end Runs

/-- Code that jumps from a region to its end, where the clause starts. -/
def endJumpUnit : CodeUnit :=
  { localCount := 1, registerCount := 3
    code := #[Opcode.jumpUnwinding.toByte, 0, 0, Opcode.loadPending.toByte, 2,
      Opcode.resumePending.toByte, 2, Opcode.stop.toByte]
    handlers := [⟨.ensure, 0, 3, 3⟩]
    pool := #[], symbols := #[], children := [] }

/-- Its clause runs twice. -/
theorem endJump_runs_clause_twice :
    ∃ final last, Passes (fun _ => .ofHosts #[] 0) 0 0 (.ofProgram {} endJumpUnit #[.nil] 0)
      [⟨0, 3⟩, ⟨0, 3⟩] final last := by
  have quiet : EveryFrame 0 (fun _ unit => unit.QuietBodies)
    (Context.ofProgram endJumpUnit #[.nil] 0).activations := .ofProgram (by decide)
  have departs : Departs (fun _ => .ofHosts #[] 0) 0 (.ofProgram {} endJumpUnit #[.nil] 0)
      (.ofProgram endJumpUnit #[.nil] 0) (.ofProgram endJumpUnit 0) [] endJumpUnit
      { op := .jumpUnwinding, operands := { a := 0 }, address := 0, next := 3 } (.jump 3) :=
    { runs := Machine.ofProgram_runsOn, nothingPending := rfl, top := rfl, inLoop := Nat.le_refl 0
      isUnit := rfl, decoded := rfl, leaves := .jumping rfl, bodies := .of_quietBodies quiet }
  have enters : endJumpUnit.EntersClauses := by
    intro handler member
    obtain rfl := List.mem_singleton.mp member
    exact ⟨_, rfl, rfl⟩
  have leaves : endJumpUnit.LeavesThrough 3 3 [⟨.ensure, 0, 3, 3⟩] :=
    .leaves rfl rfl (.stays (by decide))
  have hasClause : (Frame.ofProgram endJumpUnit 0).HasClauseOf endJumpUnit ⟨.ensure, 0, 3, 3⟩ :=
    ⟨{ register := 2, body := 5, closing := 5, finish := 7 }, rfl, by decide⟩
  have clauses : ∀ handler ∈ [⟨.ensure, 0, 3, 3⟩],
      (Frame.ofProgram endJumpUnit 0).HasClauseOf endJumpUnit handler := by
    intro handler member
    obtain rfl := List.mem_singleton.mp member
    exact hasClause
  obtain ⟨final, last, _, _, passes, -, -⟩ := jump_runs_clause_at_target departs enters leaves clauses
    (List.mem_singleton.mpr rfl) rfl rfl hasClause
  exact ⟨final, last, passes⟩

end RiteVm
