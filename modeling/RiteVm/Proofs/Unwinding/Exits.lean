import RiteVm.Proofs.Unwinding.ClauseRuns

/-!
Contract: however control leaves an instruction, each ensure clause that it leaves runs
exactly once before it arrives.

Owns:
- the frames that breaks and returns from enclosing methods leave;
- the instructions that control leaves, and the departures that they start;
- the run of a departure from the instruction that starts it to its completion;
- what happens if a clause uses a register that its frame does not have, or ends in a
  region that does not lie around its own one.
-/

namespace RiteVm

open RiteVm.Bytecode

/-! ### The targets of breaks and returns -/

namespace Query

/-- The index of the frame that a break leaves last, unless the break is an error. -/
def breakTarget? : Query (Option Nat) := do
  let top := (← depth) - 1
  match (← frame).proc with
  | none => return none
  | some proc =>
    if ← isStrict proc then return some top
    else
      match ← homeFrame? proc with
      | some home => return if home < top then some (home + 1) else none
      | none => return none

/-- The index of the frame that a return from the enclosing method leaves last, unless the
return is an error. -/
def methodTarget? : Query (Option Nat) := do
  let top := (← depth) - 1
  match (← frame).proc with
  | none => return some top
  | some proc =>
    if ← isStrict proc then return some top
    else
      let outermost ← outermostLenient (← heapBound) proc
      match (← object outermost).proc?.bind (·.env) with
      | none => return some top
      | some env => frameWithEnv? env

variable {machine : Machine} {context : Context} {target : Nat}

theorem frameWithEnv?_lt {env : Handle} (runs : machine.RunsOn context)
    (found : frameWithEnv? env machine = .ok (some target)) :
    target < context.activations.length := by
  rw [frameWithEnv?, bind_of_ok (context_of_runsOn runs)] at found
  have located : ((context.frames.toList.zipIdx.reverse).find? fun entry =>
      entry.1.env == some env).map (·.2) = some target := Except.ok.inj found
  obtain ⟨⟨frame, index⟩, isFound, rfl⟩ := Option.map_eq_some_iff.mp located
  have member := List.mem_reverse.mp (List.mem_of_find?_eq_some isFound)
  have bound := List.snd_lt_of_mem_zipIdx member
  rw [Context.activations, List.length_reverse]
  omega

theorem breakTarget?_lt (runs : machine.RunsOn context) (inside : 0 < context.activations.length)
    (found : breakTarget? machine = .ok (some target)) :
    target < context.activations.length := by
  rw [breakTarget?, bind_of_ok (depth_of_runsOn runs), bind_eq_ok_iff] at found
  obtain ⟨frame, -, found⟩ := found
  cases isProc : frame.proc with
  | none =>
      rw [isProc] at found
      exact nomatch Except.ok.inj found
  | some proc =>
      rw [isProc, bind_eq_ok_iff] at found
      obtain ⟨strict, -, found⟩ := found
      split at found
      · have isTop : context.activations.length - 1 = target :=
          Option.some.inj (Except.ok.inj found)
        omega
      · obtain ⟨home?, -, found⟩ := bind_eq_ok_iff.mp found
        cases home? with
        | none => exact nomatch Except.ok.inj found
        | some home =>
            obtain ⟨isInner, isNext⟩ := Option.ite_none_right_eq_some.mp (Except.ok.inj found)
            have := Option.some.inj isNext
            omega

theorem methodTarget?_lt (runs : machine.RunsOn context) (inside : 0 < context.activations.length)
    (found : methodTarget? machine = .ok (some target)) :
    target < context.activations.length := by
  have atTop (isTop : some (context.activations.length - 1) = some target) :
      target < context.activations.length := by
    have := Option.some.inj isTop
    omega
  rw [methodTarget?, bind_of_ok (depth_of_runsOn runs), bind_eq_ok_iff] at found
  obtain ⟨frame, -, found⟩ := found
  cases isProc : frame.proc with
  | none =>
      rw [isProc] at found
      exact atTop (Except.ok.inj found)
  | some proc =>
      rw [isProc, bind_eq_ok_iff] at found
      obtain ⟨strict, -, found⟩ := found
      split at found
      · exact atTop (Except.ok.inj found)
      · obtain ⟨bound, -, found⟩ := bind_eq_ok_iff.mp found
        obtain ⟨outermost, -, found⟩ := bind_eq_ok_iff.mp found
        obtain ⟨object, -, found⟩ := bind_eq_ok_iff.mp found
        cases isEnv : object.proc?.bind (·.env) with
        | none =>
            rw [isEnv] at found
            exact atTop (Except.ok.inj found)
        | some env =>
            rw [isEnv] at found
            exact frameWithEnv?_lt runs found

end Query

namespace VM

variable {machine : Machine} {target stop : Nat} {value : Value}

/-- A break is an exit to its target. -/
theorem breakOut_eq_exitTo (found : Query.breakTarget? machine = .ok (some target)) :
    breakOut value stop machine = exitTo target value stop machine := by
  obtain ⟨depth, readDepth, found⟩ := Query.bind_eq_ok_iff.mp found
  obtain ⟨frame, readFrame, found⟩ := Query.bind_eq_ok_iff.mp found
  rw [breakOut, bind_of_ok (liftM_of_ok readDepth), bind_of_ok (liftM_of_ok readFrame)]
  cases isProc : frame.proc with
  | none =>
      rw [isProc] at found
      exact nomatch Except.ok.inj found
  | some proc =>
      rw [isProc] at found
      obtain ⟨strict, readStrict, found⟩ := Query.bind_eq_ok_iff.mp found
      dsimp only
      rw [bind_of_ok (liftM_of_ok readStrict)]
      cases strict with
      | true =>
          obtain rfl := Option.some.inj (Except.ok.inj found)
          rfl
      | false =>
          obtain ⟨home?, readHome, found⟩ := Query.bind_eq_ok_iff.mp found
          simp only [Bool.false_eq_true, if_false]
          rw [bind_of_ok (liftM_of_ok readHome)]
          cases home? with
          | none => exact nomatch Except.ok.inj found
          | some home =>
              obtain ⟨isInner, isNext⟩ := Option.ite_none_right_eq_some.mp (Except.ok.inj found)
              obtain rfl := Option.some.inj isNext
              dsimp only
              rw [if_pos isInner]

/-- A return from the enclosing method is an exit to its target. -/
theorem returnFromMethod_eq_exitTo (found : Query.methodTarget? machine = .ok (some target)) :
    returnFromMethod value stop machine = exitTo target value stop machine := by
  obtain ⟨depth, readDepth, found⟩ := Query.bind_eq_ok_iff.mp found
  obtain ⟨frame, readFrame, found⟩ := Query.bind_eq_ok_iff.mp found
  have atTop (isTop : some (depth - 1) = some target) :
      returnValue value stop machine = exitTo target value stop machine := by
    rw [returnValue, bind_of_ok (liftM_of_ok readDepth), Option.some.inj isTop]
  rw [returnFromMethod, bind_of_ok (liftM_of_ok readFrame)]
  cases isProc : frame.proc with
  | none =>
      rw [isProc] at found
      exact atTop (Except.ok.inj found)
  | some proc =>
      rw [isProc] at found
      obtain ⟨strict, readStrict, found⟩ := Query.bind_eq_ok_iff.mp found
      dsimp only
      rw [bind_of_ok (liftM_of_ok readStrict)]
      cases strict with
      | true => exact atTop (Except.ok.inj found)
      | false =>
          obtain ⟨bound, readBound, found⟩ := Query.bind_eq_ok_iff.mp found
          obtain ⟨outermost, readOutermost, found⟩ := Query.bind_eq_ok_iff.mp found
          obtain ⟨object, readObject, found⟩ := Query.bind_eq_ok_iff.mp found
          simp only [Bool.false_eq_true, if_false]
          rw [bind_of_ok (liftM_of_ok readBound), bind_of_ok (liftM_of_ok readOutermost),
            bind_of_ok (liftM_of_ok readObject)]
          cases isEnv : object.proc?.bind (·.env) with
          | none =>
              rw [isEnv] at found
              exact atTop (Except.ok.inj found)
          | some env =>
              rw [isEnv] at found
              dsimp only
              rw [bind_of_ok (liftM_of_ok found)]

end VM

/-! ### Instructions that control leaves -/

/-- An instruction of the frame on top starts a departure. The machine is the one behind the
collection of its cycle. -/
inductive Leaves (engine : Engine) (stop : Nat) (machine : Machine) (context : Context)
    (frame : Frame) (below : List Frame) (instruction : Instruction) : Departure → Prop where
  | falling {next : Machine} {changed : Context} :
      VM.step engine stop machine = .ok none next →
      next.AdvancesTo context frame below instruction.next changed →
      Leaves engine stop machine context frame below instruction .fall
  | jumping : instruction.op = .jumpUnwinding →
      Leaves engine stop machine context frame below instruction
        (.jump ((instruction.jumpTarget?).getD instruction.next).toNat)
  | returning : instruction.op = .returnValue →
      Leaves engine stop machine context frame below instruction
        (.leave below.length (context.slot (frame.base + instruction.operands.a)))
  | breaking {target : Nat} : instruction.op = .breakOut →
      Query.breakTarget? (machine.fetched instruction.next) = .ok (some target) →
      Leaves engine stop machine context frame below instruction
        (.leave target (context.slot (frame.base + instruction.operands.a)))
  | returningFromMethod {target : Nat} : instruction.op = .returnFromMethod →
      Query.methodTarget? (machine.fetched instruction.next) = .ok (some target) →
      Leaves engine stop machine context frame below instruction
        (.leave target (context.slot (frame.base + instruction.operands.a)))
  | raising {exception : Handle} {next : Machine} {changed : Context} {object : Object} :
      VM.step engine stop machine = .error (.raised exception) next →
      next.AdvancesTo context frame below instruction.next changed →
      next.heap.get? exception = some object → object.exception?.isSome →
      Leaves engine stop machine context frame below instruction (.raise exception)

section Executions

variable {frame : Frame} {unit : CodeUnit} {instruction : Instruction} {engine : Engine}
  {stop : Nat}

theorem VM.execute_jumpUnwinding (isJump : instruction.op = .jumpUnwinding) :
    VM.execute { engine, stop, frame, unit } instruction = (do
      jumpUnwinding ((instruction.jumpTarget?).getD instruction.next).toNat
      return none) := by
  obtain ⟨op, ⟨a, b, c⟩, address, next⟩ := instruction
  obtain rfl : op = .jumpUnwinding := isJump
  rfl

theorem VM.execute_returnValue (isReturn : instruction.op = .returnValue) :
    VM.execute { engine, stop, frame, unit } instruction = (do
      returnValue (← Query.register frame.base instruction.operands.a) stop) := by
  obtain ⟨op, ⟨a, b, c⟩, address, next⟩ := instruction
  obtain rfl : op = .returnValue := isReturn
  rfl

theorem VM.execute_breakOut (isBreak : instruction.op = .breakOut) :
    VM.execute { engine, stop, frame, unit } instruction = (do
      breakOut (← Query.register frame.base instruction.operands.a) stop) := by
  obtain ⟨op, ⟨a, b, c⟩, address, next⟩ := instruction
  obtain rfl : op = .breakOut := isBreak
  rfl

theorem VM.execute_returnFromMethod (isReturn : instruction.op = .returnFromMethod) :
    VM.execute { engine, stop, frame, unit } instruction = (do
      returnFromMethod (← Query.register frame.base instruction.operands.a) stop) := by
  obtain ⟨op, ⟨a, b, c⟩, address, next⟩ := instruction
  obtain rfl : op = .returnFromMethod := isReturn
  rfl

end Executions

section Runs

variable {engine : Engine} {stop : Nat} {machine : Machine} {context : Context} {frame : Frame}
  {below : List Frame} {unit : CodeUnit} {instruction : Instruction} {departure : Departure}

/-- An instruction that makes an exit goes on with it. -/
theorem Leaves.step_of_exit (leaves : Leaves engine stop machine context frame below instruction
      departure)
    (isExit : departure.IsExit) (runs : machine.RunsOn context)
    (top : context.activations = frame :: below) (isUnit : frame.unit = some unit)
    (decoded : instructionAt? unit.code frame.pc = some instruction) :
    VM.step engine stop machine = departure.proceed stop (machine.fetched instruction.next) := by
  obtain ⟨fetchedRuns, fetched⟩ := runs.fetched top instruction.next
  have isRead : (liftM (Query.register frame.base instruction.operands.a) : VM Value)
      (machine.fetched instruction.next) =
        .ok (context.slot (frame.base + instruction.operands.a)) (machine.fetched instruction.next) :=
    VM.liftM_of_ok (Query.register_of_runsOn fetchedRuns _ _)
  rw [VM.step_eq runs top isUnit decoded]
  cases leaves with
  | falling | raising => exact isExit.elim
  | jumping isJump => rw [VM.execute_jumpUnwinding isJump]; rfl
  | returning isReturn =>
      rw [VM.execute_returnValue isReturn, VM.bind_of_ok isRead, VM.returnValue,
        VM.bind_of_ok (VM.liftM_of_ok (Query.depth_of_runsOn fetchedRuns)), fetched, List.length_cons]
      rfl
  | breaking isBreak found =>
      rw [VM.execute_breakOut isBreak, VM.bind_of_ok isRead, VM.breakOut_eq_exitTo found]
      rfl
  | returningFromMethod isReturn found =>
      rw [VM.execute_returnFromMethod isReturn, VM.bind_of_ok isRead,
        VM.returnFromMethod_eq_exitTo found]
      rfl

/-- The cycle of an instruction that control leaves goes on with the departure. -/
theorem Leaves.cycle_eq (leaves : Leaves engine stop machine.collectedIfDue context frame below
      instruction departure)
    (runs : machine.RunsOn context) (nothingPending : context.pending = none)
    (top : context.activations = frame :: below) (isUnit : frame.unit = some unit)
    (decoded : instructionAt? unit.code frame.pc = some instruction) :
    ∃ mark left changed moved, VM.cycle engine stop machine =
        VM.settle stop mark (departure.proceed stop) left ∧
      left.RunsOn changed ∧ changed.activations = moved :: below ∧
      frame.ContinuesAt instruction.next moved ∧ departure.Ready left.heap changed := by
  have collected := runs.collectedIfDue
  obtain ⟨fetchedRuns, fetched⟩ := collected.fetched top instruction.next
  have continues : frame.ContinuesAt instruction.next { frame with pc := instruction.next } :=
    ⟨rfl, rfl, rfl, rfl⟩
  have exits (isExit : departure.IsExit) : VM.step engine stop machine.collectedIfDue =
      departure.proceed stop (machine.collectedIfDue.fetched instruction.next) :=
    leaves.step_of_exit isExit collected top isUnit decoded
  have depth : (context.modifyTop fun frame =>
      { frame with pc := instruction.next }).activations.length = below.length + 1 := by
    rw [fetched, List.length_cons]
  cases leaves with
  | falling stepped advances =>
      obtain ⟨nextRuns, ⟨moved, isTop, moves⟩, samePending⟩ := advances
      have settled : VM.step engine stop machine.collectedIfDue =
        Departure.proceed stop .fall _ := stepped
      exact ⟨_, _, _, moved, VM.cycle_eq.trans (VM.settle_congr settled), nextRuns, isTop, moves,
        samePending.trans nothingPending⟩
  | jumping isJump =>
      exact ⟨_, _, _, _, VM.cycle_eq.trans (VM.settle_congr (exits trivial)), fetchedRuns, fetched,
        continues, trivial⟩
  | returning isReturn =>
      refine ⟨_, _, _, _, VM.cycle_eq.trans (VM.settle_congr (exits trivial)), fetchedRuns, fetched,
        continues, ?_⟩
      rw [Departure.Ready, depth]
      omega
  | breaking isBreak found =>
      exact ⟨_, _, _, _, VM.cycle_eq.trans (VM.settle_congr (exits trivial)), fetchedRuns, fetched,
        continues, Query.breakTarget?_lt fetchedRuns (by omega) found⟩
  | returningFromMethod isReturn found =>
      exact ⟨_, _, _, _, VM.cycle_eq.trans (VM.settle_congr (exits trivial)), fetchedRuns, fetched,
        continues, Query.methodTarget?_lt fetchedRuns (by omega) found⟩
  | raising stepped advances found isException =>
      obtain ⟨nextRuns, ⟨moved, isTop, moves⟩, -⟩ := advances
      have settled : VM.step engine stop machine.collectedIfDue =
        Departure.proceed stop (.raise _) _ := stepped
      exact ⟨_, _, _, moved, VM.cycle_eq.trans (VM.settle_congr settled), nextRuns, isTop, moves,
        ⟨_, found, isException⟩⟩

end Runs

/-! ### The run of a departure -/

/-- A loop runs bytecode frames on a stack with nothing pending, and the next instruction of
the frame on top is left in some way. -/
structure Departs (engines : Nat → Engine) (stop : Nat) (machine : Machine) (context : Context)
    (frame : Frame) (below : List Frame) (unit : CodeUnit) (instruction : Instruction)
    (departure : Departure) : Prop where
  runs : machine.RunsOn context
  nothingPending : context.pending = none
  top : context.activations = frame :: below
  inLoop : stop ≤ below.length
  isUnit : frame.unit = some unit
  decoded : instructionAt? unit.code frame.pc = some instruction
  leaves : Leaves (engines 0) stop machine.collectedIfDue context frame below instruction departure
  bodies : StraightBodies engines stop 0 machine (frame :: below)

/-- The loop runs each clause that a departure leaves exactly once, innermost first and frame
by frame, and no other clause before the departure is complete. -/
structure RunsClausesOnce (engines : Nat → Engine) (stop : Nat) (machine : Machine)
    (departure : Departure) (frames : List Frame) : Prop where
  ordered : (clausesLeft stop departure frames).Pairwise ClauseStart.Inside
  completes : ∃ final last,
    Passes engines stop 0 machine (clausesLeft stop departure frames) final last ∧
      Completes stop frames departure (VM.cycle (engines final) stop last)

section Runs

variable {engines : Nat → Engine} {stop : Nat} {machine : Machine} {context : Context}
  {frame : Frame} {below : List Frame} {unit : CodeUnit} {instruction : Instruction}
  {departure : Departure}

/-- However control leaves an instruction, the ensure clauses of the regions that it leaves
run exactly once each, and a jump does not arrive at the start of another one. -/
theorem departure_runs_clauses_once
    (departs : Departs engines stop machine context frame below unit instruction departure)
    (laidOut : LaidOut stop context.activations) :
    RunsClausesOnce engines stop machine departure
        ({ frame with pc := instruction.next } :: below) ∧
      ∀ target, departure = .jump target →
        ∀ handler ∈ unit.handlers, handler.isEnsure = true → target ≠ handler.target.toNat := by
  obtain ⟨runs, nothingPending, top, inLoop, isUnit, decoded, leaves, bodies⟩ := departs
  rw [top] at laidOut
  obtain ⟨unit', isUnit', layout, -⟩ := laidOut frame below (List.suffix_refl _) inLoop
  obtain rfl := Option.some.inj (isUnit.symm.trans isUnit')
  have behind : frame.ContinuesAt instruction.next { frame with pc := instruction.next } :=
    ⟨rfl, rfl, rfl, rfl⟩
  refine ⟨⟨?_, ?_⟩, ?_⟩
  · exact clausesLeft_pairwise (laidOut.continuesAt behind) (Nat.lt_succ_of_le inLoop)
  · obtain ⟨mark, left, changed, moved, begins, leftRuns, isTop, moves, ready⟩ :=
      leaves.cycle_eq runs nothingPending top isUnit decoded
    have inside : stop < changed.activations.length := by
      rw [isTop, List.length_cons]
      omega
    obtain ⟨final, last, passes, done⟩ := passes_departure begins leftRuns
      (isTop ▸ laidOut.continuesAt moves) inside ready
      (isTop ▸ bodies.continuesAt moves)
    have moved' : Frame.ContinuesAt { frame with pc := instruction.next } instruction.next moved :=
      ⟨moves.base, moves.top, moves.unit, moves.pc⟩
    rw [isTop, clausesLeft_of_continuesAt moved'] at passes
    rw [isTop] at done
    exact ⟨final, last, passes, done.of_continuesAt moved' inLoop⟩
  · rintro target rfl handler member isEnsure
    cases leaves with
    | jumping isJump =>
        exact layout.jumps frame.pc instruction decoded isJump handler member isEnsure

end Runs

/-! ### Returns from a main program -/

/-- The frame of a main program that goes on at an address. -/
def Frame.ofProgram (unit : CodeUnit) (pc : Nat) : Frame :=
  { base := 0, top := unit.registerCount.toNat, proc := none, unit := some unit, pc, argCount := 0
    hasKeywords := false, method := none, owner := none, targetClass := .null, boundary := true
    block := .nil }

/-- The register stack of a main program. -/
def Context.ofProgram (unit : CodeUnit) (registers : Array Value) (pc : Nat) : Context :=
  { stack := registers, frames := #[.ofProgram unit pc] }

/-- A machine without classes that runs a main program. -/
def Machine.ofProgram (collector : CollectorConfig) (unit : CodeUnit) (registers : Array Value)
    (pc : Nat) : Machine :=
  { empty { collector } with contexts := #[some (.ofProgram unit registers pc)] }

section Programs

variable {collector : CollectorConfig} {unit : CodeUnit} {registers : Array Value} {pc : Nat}

theorem Machine.ofProgram_runsOn :
    (ofProgram collector unit registers pc).RunsOn (.ofProgram unit registers pc) where
  running := rfl
  wellFormed := Heap.wellFormed_new collector
  held frame member handle holds := by
    obtain rfl := List.mem_singleton.mp member
    rcases holds with isProc | isEnv
    · cases isProc
    · cases isEnv
  owned handle object record found := by
    have noObject : (Heap.new collector).get? handle = none := by
      obtain ⟨_ | slot, generation⟩ := handle <;> simp [Heap.new, Heap.get?]
    cases noObject.symm.trans found

theorem EveryFrame.ofProgram {property : Frame → CodeUnit → Prop}
    (holds : property (.ofProgram unit pc) unit) :
    EveryFrame 0 property (Context.ofProgram unit registers pc).activations := by
  intro frame below isSuffix inside
  rcases List.suffix_cons_iff.mp isSuffix with same | isBelow
  · obtain ⟨rfl, rfl⟩ := List.cons.inj same
    exact ⟨unit, rfl, holds⟩
  · exact absurd (List.suffix_nil.mp isBelow) (List.cons_ne_nil _ _)

/-- A return from a main program whose clauses do nothing is a departure. -/
theorem departs_ofProgram {engines : Nat → Engine} {instruction : Instruction}
    (decoded : instructionAt? unit.code pc = some instruction)
    (isReturn : instruction.op = .returnValue) (quiet : unit.QuietBodies) :
    Departs engines 0 (.ofProgram collector unit registers pc) (.ofProgram unit registers pc)
      (.ofProgram unit pc) [] unit instruction
      (.leave 0 ((Context.ofProgram unit registers pc).slot instruction.operands.a)) where
  runs := Machine.ofProgram_runsOn
  nothingPending := rfl
  top := rfl
  inLoop := Nat.le_refl 0
  isUnit := rfl
  decoded := decoded
  leaves := by
    rw [← Nat.zero_add instruction.operands.a]
    exact .returning isReturn
  bodies :=
    have everyQuiet : EveryFrame 0 (fun _ unit => unit.QuietBodies)
        (Context.ofProgram unit registers pc).activations := .ofProgram quiet
    .of_quietBodies everyQuiet

end Programs

/-- Code with a region inside another one, each with a clause. -/
def nestedUnit : CodeUnit :=
  { localCount := 1, registerCount := 4
    code := #[Opcode.loadOne.toByte, 1, Opcode.returnValue.toByte, 1,
      Opcode.loadPending.toByte, 2, Opcode.loadNil.toByte, 0, Opcode.resumePending.toByte, 2,
      Opcode.loadPending.toByte, 3, Opcode.nop.toByte, Opcode.resumePending.toByte, 3]
    handlers := [⟨.ensure, 0, 10, 10⟩, ⟨.ensure, 0, 4, 4⟩]
    pool := #[], symbols := #[], children := [] }

/-- The instruction of the examples, which returns what register 1 holds. -/
def returnOne : Instruction :=
  { op := .returnValue, operands := { a := 1 }, address := 2, next := 4 }

theorem departure_runs_clauses_once_nested :
    let machine := Machine.ofProgram {} nestedUnit #[.nil, .int 1] 2
    let context := Context.ofProgram nestedUnit #[.nil, .int 1] 2
    let frame := Frame.ofProgram nestedUnit 2
    Departs (fun _ => .ofHosts #[] 0) 0 machine context frame [] nestedUnit returnOne
        (.leave 0 (.int 1)) ∧
      LaidOut 0 context.activations ∧
      clausesLeft 0 (.leave 0 (.int 1)) [{ frame with pc := 4 }] = [⟨0, 4⟩, ⟨0, 10⟩] ∧
      RunsClausesOnce (fun _ => .ofHosts #[] 0) 0 machine (.leave 0 (.int 1))
        [{ frame with pc := 4 }] := by
  intro machine context frame
  have departs : Departs (fun _ => .ofHosts #[] 0) 0 machine context frame [] nestedUnit returnOne
      (.leave 0 (.int 1)) := departs_ofProgram rfl rfl (by decide)
  have laidOut : LaidOut 0 context.activations := .ofProgram (by decide)
  exact ⟨departs, laidOut, by decide, (departure_runs_clauses_once departs laidOut).1⟩

/-! ### Clauses that reach out of their regions or frames -/

/-- The machine behind a cycle that does not end the loop. -/
def continued? : EStateM.Result Failure Machine (Option Exit) → Option Machine
  | .ok none next => some next
  | _ => none

theorem continued?_eq_some_iff {result : EStateM.Result Failure Machine (Option Exit)}
    {next : Machine} : continued? result = some next ↔ result = .ok none next := by
  rcases result with ⟨_ | exit, machine⟩ | ⟨failure, machine⟩ <;> simp [continued?]

theorem eq_ok_of_continued? {result : EStateM.Result Failure Machine (Option Exit)}
    (continues : (continued? result).isSome = true) :
    result = .ok none ((continued? result).getD default) := by
  obtain ⟨next, isNext⟩ := Option.isSome_iff_exists.mp continues
  rw [isNext]
  exact continued?_eq_some_iff.mp isNext

/-- The starts of clauses that a number of cycles reach, with the machine behind them, unless
one of them ends the loop. -/
def passFor (engines : Nat → Engine) (stop : Nat) :
    Nat → Nat → Machine → Option (List ClauseStart × Machine)
  | 0, _, machine => some ([], machine)
  | cycles + 1, count, machine => do
    let next ← continued? (VM.cycle (engines count) stop machine)
    let (starts, last) ← passFor engines stop cycles (count + 1) next
    return (next.clauseStart?.toList ++ starts, last)

theorem passes_of_passFor {engines : Nat → Engine} {stop cycles count : Nat}
    {machine last : Machine} {starts : List ClauseStart}
    (passed : passFor engines stop cycles count machine = some (starts, last)) :
    Passes engines stop count machine starts (count + cycles) last := by
  induction cycles generalizing count machine starts with
  | zero =>
      obtain ⟨rfl, rfl⟩ := Prod.mk.inj (Option.some.inj passed)
      exact .here count machine
  | succ cycles inductionHypothesis =>
      obtain ⟨next, cycled, further⟩ := Option.bind_eq_some_iff.mp passed
      obtain ⟨⟨rest, ended⟩, others, isResult⟩ := Option.bind_eq_some_iff.mp further
      obtain ⟨rfl, rfl⟩ := Prod.mk.inj (Option.some.inj isResult)
      rw [show count + (cycles + 1) = count + 1 + cycles by omega]
      exact .cycle (continued?_eq_some_iff.mp cycled) (inductionHypothesis others)

/-- A return from a program ends its loop. -/
theorem Completes.ended {frames : List Frame} {value : Value}
    {result : EStateM.Result Failure Machine (Option Exit)}
    (done : Completes 0 frames (.leave 0 value) result) :
    ∃ last, result = .ok (some (.returned value)) last := by
  cases done with
  | returned => exact ⟨_, rfl⟩
  | delivered beyond => exact absurd beyond (Nat.lt_irrefl 0)
  | handedOn beyond => exact absurd beyond (Nat.lt_irrefl 0)

theorem Completes.not_continued {frames : List Frame} {value : Value}
    {result : EStateM.Result Failure Machine (Option Exit)}
    (done : Completes 0 frames (.leave 0 value) result) (next : Machine) :
    result ≠ .ok none next := by
  obtain ⟨last, rfl⟩ := done.ended
  nofun

/-- Code whose second region lies around the clause of the first one, but not around the
first one itself. -/
def crossingUnit : CodeUnit :=
  { localCount := 1, registerCount := 4
    code := #[Opcode.loadOne.toByte, 1, Opcode.returnValue.toByte, 1,
      Opcode.loadPending.toByte, 2, Opcode.resumePending.toByte, 2,
      Opcode.loadPending.toByte, 3, Opcode.resumePending.toByte, 3]
    handlers := [⟨.ensure, 0, 4, 4⟩, ⟨.ensure, 4, 8, 8⟩]
    pool := #[], symbols := #[], children := [] }

/-- Code whose clause keeps what it loads behind the registers of its frame. -/
def narrowUnit : CodeUnit :=
  { localCount := 1, registerCount := 2
    code := #[Opcode.loadOne.toByte, 1, Opcode.returnValue.toByte, 1,
      Opcode.loadPending.toByte, 5, Opcode.resumePending.toByte, 5]
    handlers := [⟨.ensure, 0, 4, 4⟩]
    pool := #[], symbols := #[], children := [] }

/-- A return from the first region runs both clauses. -/
theorem not_runsClausesOnce_crossing :
    ¬ RunsClausesOnce (fun _ => .ofHosts #[] 0) 0
      (.ofProgram {} crossingUnit #[.nil, .int 1] 2) (.leave 0 (.int 1))
      [{ Frame.ofProgram crossingUnit 2 with pc := 4 }] := by
  rintro ⟨-, final, last, passes, done⟩
  have both : (passFor (fun _ => .ofHosts #[] 0) 0 3 0
      (.ofProgram {} crossingUnit #[.nil, .int 1] 2)).map (·.1) = some [⟨0, 4⟩, ⟨0, 8⟩] := by
    decide +kernel
  obtain ⟨⟨starts, next⟩, passed, rfl⟩ := Option.map_eq_some_iff.mp both
  obtain ⟨rest, isMore, -⟩ := (passes_of_passFor passed).behind passes done.not_continued
  have onlyFirst : clausesLeft 0 (.leave 0 (.int 1))
      [{ Frame.ofProgram crossingUnit 2 with pc := 4 }] = [⟨0, 4⟩] := by decide
  exact nomatch onlyFirst.symm.trans isMore

/-- The machine behind a collection that finds some objects out of use. -/
def Machine.reclaimed (machine : Machine) (dead : List Handle) : Machine :=
  let machine := dead.foldl reclaim machine
  let bytes := machine.heap.cells.foldl
    (fun bytes cell => bytes + (cell.object.map Object.estimatedSize).getD 0) 0
  { machine with
    heap.bytesInUse := bytes
    heap.threshold := max machine.heap.config.initialThreshold
      (bytes * machine.heap.config.growthPercent / 100)
    heap.collections := machine.heap.collections + 1
    heap.freed := machine.heap.freed + dead.length
    methodCache.entries := ∅ }

theorem Machine.collectedIfDue_of_due {machine : Machine} {dead : List Handle}
    (isDue : machine.heap.isDue = true) (unreachable : machine.unreachable = dead) :
    machine.collectedIfDue = machine.reclaimed dead := by
  rw [collectedIfDue, if_pos isDue, collect, unreachable]
  rfl

/-- A machine that collects in every cycle, with a program of `narrowUnit` that has returned
and is about to run its clause. -/
def narrowEntered : Machine :=
  (continued? (VM.cycle (.ofHosts #[] 0) 0
    (.ofProgram { initialThreshold := 1, growthPercent := 100 } narrowUnit #[.nil, .int 1]
      2))).getD default

/-- The machine that has loaded the exit into the register of the clause. -/
def narrowLoaded : Machine :=
  (continued? (VM.settle 0 (narrowEntered.reclaimed []).heap.arenaMark
    (VM.step (.ofHosts #[] 0) 0) (narrowEntered.reclaimed []))).getD default

/-- The exit is still pending, so the collection removes nothing. -/
theorem narrowEntered_unreachable : narrowEntered.unreachable = [] := by
  have isExit : narrowEntered.heap.handles = [⟨1, 1⟩] := by decide +kernel
  have pending : (narrowEntered.context? ⟨0⟩).bind (·.pending) = some ⟨⟨1, 1⟩, .ensure⟩ := by
    decide +kernel
  obtain ⟨context, running, isPending⟩ := Option.bind_eq_some_iff.mp pending
  rw [List.eq_nil_iff_forall_not_mem]
  intro handle isDead
  obtain ⟨live, notReachable⟩ := Machine.mem_unreachable.mp isDead
  rw [isExit, List.mem_singleton] at live
  obtain rfl := live
  exact notReachable (.step (.root .rootContext) (.context running (.pending isPending)))

/-- The register lies behind those of the frame, so the collection removes the exit. -/
theorem narrowLoaded_unreachable : narrowLoaded.unreachable = [⟨1, 1⟩] := by
  have isExit : narrowLoaded.heap.handles = [⟨1, 1⟩] := by decide +kernel
  have notReachable : ¬ narrowLoaded.Reachable (.object ⟨1, 1⟩) := by
    intro reachable
    have inUse : Node.object ⟨1, 1⟩ ∈ [Node.context ⟨0⟩, Node.object .null] :=
      reachable.mem_of_closed (by decide +kernel) (by decide +kernel)
    exact absurd inUse (by decide)
  have isDead : ⟨1, 1⟩ ∈ narrowLoaded.unreachable :=
    Machine.mem_unreachable.mpr ⟨isExit ▸ List.mem_singleton.mpr rfl, notReachable⟩
  have onlyExit : narrowLoaded.unreachable.Sublist [⟨1, 1⟩] := isExit ▸ List.filter_sublist
  exact onlyExit.eq_of_length_le (List.length_pos_of_mem isDead)

/-- How a cycle fails. -/
def failure? : EStateM.Result Failure Machine (Option Exit) → Option Failure
  | .error failure _ => some failure
  | .ok _ _ => none

/-- The clause loads the exit, loses it to a collection, and finds nothing to go on with. -/
theorem passes_narrow : ∃ starts loaded,
    Passes (fun _ => .ofHosts #[] 0) 0 0
      (.ofProgram { initialThreshold := 1, growthPercent := 100 } narrowUnit #[.nil, .int 1] 2)
      starts 2 loaded ∧
    failure? (VM.cycle (.ofHosts #[] 0) 0 loaded) = some (.breach (.danglingHandle ⟨1, 1⟩)) := by
  have returns : VM.cycle (.ofHosts #[] 0) 0 _ = .ok none narrowEntered :=
    eq_ok_of_continued? (by decide +kernel)
  have loads : VM.cycle (.ofHosts #[] 0) 0 narrowEntered = .ok none narrowLoaded := by
    rw [VM.cycle_eq, Machine.collectedIfDue_of_due (by decide +kernel) narrowEntered_unreachable]
    exact eq_ok_of_continued? (by decide +kernel)
  refine ⟨_, narrowLoaded, .cycle returns (.cycle loads (.here _ _)), ?_⟩
  rw [VM.cycle_eq, Machine.collectedIfDue_of_due (by decide +kernel) narrowLoaded_unreachable]
  decide +kernel

/-- A return to a clause that uses a register behind those of its frame fails. -/
theorem not_runsClausesOnce_narrow :
    ¬ RunsClausesOnce (fun _ => .ofHosts #[] 0) 0
      (.ofProgram { initialThreshold := 1, growthPercent := 100 } narrowUnit #[.nil, .int 1] 2)
      (.leave 0 (.int 1)) [{ Frame.ofProgram narrowUnit 2 with pc := 4 }] := by
  rintro ⟨-, final, last, passes, done⟩
  obtain ⟨starts, loaded, loads, fails⟩ := passes_narrow
  obtain ⟨rest, -, behind⟩ := loads.behind passes done.not_continued
  cases behind with
  | here =>
      obtain ⟨last, ended⟩ := done.ended
      rw [ended] at fails
      exact nomatch fails
  | cycle cycled =>
      rw [cycled] at fails
      exact nomatch fails

/-- What the clauses of a frame reach matters: a return runs a clause that it does not leave if
the region of that clause lies around the end of one that it leaves, and it fails if a clause
uses a register behind those of its frame. -/
theorem departure_may_meet_other_clauses :
    (Departs (fun _ => .ofHosts #[] 0) 0 (.ofProgram {} crossingUnit #[.nil, .int 1] 2)
        (.ofProgram crossingUnit #[.nil, .int 1] 2) (.ofProgram crossingUnit 2) [] crossingUnit
        returnOne (.leave 0 (.int 1)) ∧
      EveryFrame 0 (fun frame unit => unit.EnsuresNested ∧ HasClauseRegisters frame unit)
        (Context.ofProgram crossingUnit #[.nil, .int 1] 2).activations ∧
      ¬ RunsClausesOnce (fun _ => .ofHosts #[] 0) 0
        (.ofProgram {} crossingUnit #[.nil, .int 1] 2) (.leave 0 (.int 1))
        [{ Frame.ofProgram crossingUnit 2 with pc := 4 }]) ∧
    (Departs (fun _ => .ofHosts #[] 0) 0
        (.ofProgram { initialThreshold := 1, growthPercent := 100 } narrowUnit #[.nil, .int 1] 2)
        (.ofProgram narrowUnit #[.nil, .int 1] 2) (.ofProgram narrowUnit 2) [] narrowUnit
        returnOne (.leave 0 (.int 1)) ∧
      EveryFrame 0 (fun _ unit => unit.EnsuresContained)
        (Context.ofProgram narrowUnit #[.nil, .int 1] 2).activations ∧
      ¬ RunsClausesOnce (fun _ => .ofHosts #[] 0) 0
        (.ofProgram { initialThreshold := 1, growthPercent := 100 } narrowUnit #[.nil, .int 1] 2)
        (.leave 0 (.int 1)) [{ Frame.ofProgram narrowUnit 2 with pc := 4 }]) := by
  constructor
  · exact ⟨departs_ofProgram rfl rfl (by decide), .ofProgram (by decide),
      not_runsClausesOnce_crossing⟩
  · exact ⟨departs_ofProgram rfl rfl (by decide), .ofProgram (by decide),
      not_runsClausesOnce_narrow⟩

end RiteVm
