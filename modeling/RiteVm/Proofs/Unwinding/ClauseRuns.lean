import RiteVm.Proofs.Unwinding.Attempt
import RiteVm.Proofs.Unwinding.Clauses

/-!
Contract: a departure runs the clauses that it leaves, one after the other, and completes.

Owns:
- the order of the clauses that a departure leaves: each frame's are those around its address, and of
  two clauses the earlier one lies inside the later one, so that none is left twice;
- which clauses a departure leaves from a frame that goes on at the same address;
- cycles in a row, with the starts of clauses that they reach, and how they carry the
  interpreter loop;
- bodies that are straight along such a run;
- the run of one clause, by induction on its code;
- the run of a departure, by induction on the clauses that it leaves.

Each cycle may have another engine, because the engine of a loop has less fuel from cycle
to cycle.
-/

namespace RiteVm

open RiteVm.Bytecode

/-- A clause of an inner frame, or one inside the other in the same frame. -/
def ClauseStart.Inside (inner outer : ClauseStart) : Prop :=
  outer.frame < inner.frame ∨ (outer.frame = inner.frame ∧ inner.address < outer.address)

variable {stop : Nat} {departure : Departure} {frame next : Frame} {frames below : List Frame}
  {unit : CodeUnit} {select : CodeUnit → Nat → List CatchHandler} {pc : Nat}

theorem fallenOut_sublist (unit : CodeUnit) (handlers : List CatchHandler) (pc : Nat) :
    (unit.fallenOut handlers pc).Sublist handlers := by
  induction handlers generalizing pc with
  | nil => exact .slnil
  | cons handler outer inductionHypothesis =>
      rw [CodeUnit.fallenOut]
      split
      · exact (inductionHypothesis _).cons_cons handler
      · exact List.nil_sublist _

theorem raisedThrough_sublist (unit : CodeUnit) (pc : Nat) :
    (unit.raisedThrough pc).Sublist (unit.ensuresAround pc) := by
  have allEnsures : (unit.raisedThrough pc).filter (·.isEnsure) = unit.raisedThrough pc := by
    rw [List.filter_eq_self]
    intro handler member
    exact List.all_eq_true.mp List.all_takeWhile handler member
  rw [← allEnsures]
  exact (List.takeWhile_sublist _).filter _

/-- The clauses that are left are those of the frame on top and, unless the departure ends
there, those of the frames below. -/
theorem clausesLeft_cons (stop : Nat) (departure : Departure) (frame : Frame)
    (below : List Frame) :
    ∃ (select : CodeUnit → Nat → List CatchHandler) (rest : List ClauseStart),
      clausesLeft stop departure (frame :: below) = frame.starts below.length select ++ rest ∧
      (∀ unit pc, (select unit pc).Sublist (unit.ensuresAround pc)) ∧
      (rest = [] ∨ (stop < below.length ∧ rest = clausesLeft stop departure below)) := by
  cases departure with
  | fall =>
      exact ⟨fun unit pc => unit.fallenOut (unit.ensuresAround pc) pc, [],
        (List.append_nil _).symm, fun unit pc => fallenOut_sublist unit _ pc, .inl rfl⟩
  | jump target =>
      exact ⟨fun unit pc => unit.jumpedOut pc target, [], (List.append_nil _).symm,
        fun unit pc => List.filter_sublist, .inl rfl⟩
  | leave target value =>
      refine ⟨CodeUnit.ensuresAround, _, rfl, fun unit pc => .refl _, ?_⟩
      by_cases ends : below.length ≤ max target stop
      · exact .inl (if_pos ends)
      · exact .inr ⟨by omega, if_neg ends⟩
  | raise exception =>
      refine ⟨CodeUnit.raisedThrough, _, rfl, raisedThrough_sublist, ?_⟩
      by_cases ends : frame.rescue?.isSome ∨ below.length ≤ stop
      · exact .inl (if_pos ends)
      · exact .inr ⟨by omega, if_neg ends⟩

theorem frame_eq_of_mem_starts {index : Nat} {start : ClauseStart}
    (member : start ∈ frame.starts index select) : start.frame = index := by
  rw [Frame.starts] at member
  split at member
  · exact absurd member List.not_mem_nil
  · obtain ⟨handler, -, rfl⟩ := List.mem_map.mp member
    rfl

theorem frame_lt_of_mem_clausesLeft {start : ClauseStart}
    (member : start ∈ clausesLeft stop departure frames) : start.frame < frames.length := by
  induction frames with
  | nil => cases departure <;> exact absurd member List.not_mem_nil
  | cons frame below inductionHypothesis =>
      obtain ⟨select, rest, split, -, isRest⟩ := clausesLeft_cons stop departure frame below
      rw [split] at member
      rw [List.length_cons]
      rcases List.mem_append.mp member with here | inRest
      · rw [frame_eq_of_mem_starts here]
        omega
      · rcases isRest with rfl | ⟨-, rfl⟩
        · exact absurd inRest List.not_mem_nil
        · have := inductionHypothesis inRest
          omega

/-- Of two clauses that a departure leaves, the earlier one lies inside the later one, so
that no clause is listed twice. -/
theorem clausesLeft_pairwise (laidOut : LaidOut stop frames) (inside : stop < frames.length) :
    (clausesLeft stop departure frames).Pairwise ClauseStart.Inside := by
  induction frames with
  | nil => exact absurd inside (Nat.not_lt_zero _)
  | cons frame below inductionHypothesis =>
      rw [List.length_cons] at inside
      obtain ⟨unit, isUnit, layout, -⟩ :=
        laidOut frame below (List.suffix_refl _) (Nat.le_of_lt_succ inside)
      obtain ⟨select, rest, split, around, isRest⟩ := clausesLeft_cons stop departure frame below
      have here : (frame.starts below.length select).Pairwise ClauseStart.Inside := by
        rw [starts_of_unit isUnit, List.pairwise_map]
        refine ((layout.ensuresAround_targets frame.pc).sublist (around unit frame.pc)).imp ?_
        intro inner outer isInside
        exact .inr ⟨rfl, isInside⟩
      rw [split, List.pairwise_append]
      refine ⟨here, ?_, ?_⟩
      · rcases isRest with rfl | ⟨insideBelow, rfl⟩
        · exact .nil
        · exact inductionHypothesis (laidOut.suffix (List.suffix_cons _ _)) insideBelow
      · intro inner isInner outer isOuter
        rcases isRest with rfl | ⟨-, rfl⟩
        · exact absurd isOuter List.not_mem_nil
        · rw [ClauseStart.Inside, frame_eq_of_mem_starts isInner]
          exact .inl (frame_lt_of_mem_clausesLeft isOuter)

/-- Which clauses are left depends on the code of the frame on top and its address only. -/
theorem clausesLeft_of_continuesAt (continues : frame.ContinuesAt frame.pc next) :
    clausesLeft stop departure (next :: below) = clausesLeft stop departure (frame :: below) := by
  have sameStarts (select : CodeUnit → Nat → List CatchHandler) :
      next.starts below.length select = frame.starts below.length select := by
    rw [Frame.starts, Frame.starts, continues.unit, continues.pc]
  have sameRescue : next.rescue? = frame.rescue? := by
    rw [Frame.rescue?, Frame.rescue?, continues.unit, continues.pc]
  cases departure <;> simp only [clausesLeft, sameStarts, sameRescue]

theorem Completes.of_continuesAt {result : EStateM.Result Failure Machine (Option Exit)}
    (continues : frame.ContinuesAt frame.pc next) (inside : stop ≤ below.length)
    (done : Completes stop (next :: below) departure result) :
    Completes stop (frame :: below) departure result := by
  have behind {other : Frame} {pc : Nat} (moves : next.ContinuesAt pc other) :
      frame.ContinuesAt pc other :=
    ⟨moves.base.trans continues.base, moves.top.trans continues.top,
      moves.unit.trans continues.unit, moves.pc⟩
  cases departure with
  | fall =>
      cases done with
      | fell runs split isTop moves isPending =>
          obtain ⟨rfl, rfl⟩ := List.cons.inj split
          have sameTarget : next.fallTarget = frame.fallTarget := by
            rw [Frame.fallTarget, Frame.fallTarget, continues.unit, continues.pc]
          rw [sameTarget] at moves
          exact .fell runs rfl isTop (behind moves) isPending
  | jump target =>
      cases done with
      | jumped runs split isTop moves isPending =>
          obtain ⟨rfl, rfl⟩ := List.cons.inj split
          exact .jumped runs rfl isTop (behind moves) isPending
  | leave target value => exact done.leave_of_continuesAt continues inside
  | raise exception =>
      have sameRescue : next.rescue? = frame.rescue? := by
        rw [Frame.rescue?, Frame.rescue?, continues.unit, continues.pc]
      exact done.raise_of_rescue?_eq sameRescue continues inside

end RiteVm

namespace RiteVm

open RiteVm.Bytecode

/-- The clause that the frame on top is about to start. -/
def Machine.clauseStart? (machine : Machine) : Option ClauseStart :=
  match (machine.context? machine.current).map Context.activations with
  | some (frame :: below) =>
    match frame.unit with
    | some unit =>
      if unit.handlers.any fun handler => handler.isEnsure && handler.target.toNat == frame.pc then
        some ⟨below.length, frame.pc⟩
      else none
    | none => none
  | _ => none

/-- Cycles of a loop in a row, from one count of cycles and machine to another, with the
starts of clauses in the order in which they are reached. -/
inductive Passes (engines : Nat → Engine) (stop : Nat) :
    Nat → Machine → List ClauseStart → Nat → Machine → Prop where
  | here (count : Nat) (machine : Machine) : Passes engines stop count machine [] count machine
  | cycle {count final : Nat} {machine next last : Machine} {starts : List ClauseStart} :
      VM.cycle (engines count) stop machine = .ok none next →
      Passes engines stop (count + 1) next starts final last →
      Passes engines stop count machine (next.clauseStart?.toList ++ starts) final last

/-- In each of some frames, the instructions between the first and the last one of an ensure
clause are straight whenever a run of the loop comes to them. -/
def StraightBodies (engines : Nat → Engine) (stop count : Nat) (machine : Machine)
    (frames : List Frame) : Prop :=
  ∀ starts final reached, Passes engines stop count machine starts final reached →
    ∀ context frame moved below unit handler clause instruction,
      reached.RunsOn context → context.activations = moved :: below →
      frame :: below <:+ frames → stop ≤ below.length → frame.ContinuesAt moved.pc moved →
      frame.unit = some unit → handler ∈ unit.handlers → handler.isEnsure = true →
      unit.clause? handler.target.toNat = some clause →
      clause.body ≤ moved.pc → moved.pc < clause.closing →
      instructionAt? unit.code moved.pc = some instruction →
      StraightStep (engines final) stop clause.register reached.collectedIfDue context moved below
        instruction.next

variable {engines : Nat → Engine} {stop count final : Nat} {machine next last : Machine}
  {context : Context} {frame moved : Frame} {frames below : List Frame} {unit : CodeUnit}
  {departure : Departure} {starts more : List ClauseStart}

/-! ### Cycles in a row -/

/-- One cycle, with the start of the clause that it reaches. -/
theorem Passes.one {start? : Option ClauseStart}
    (cycled : VM.cycle (engines count) stop machine = .ok none next)
    (isStart : next.clauseStart? = start?) :
    Passes engines stop count machine start?.toList (count + 1) next := by
  have passes : Passes engines stop count machine _ (count + 1) next :=
    .cycle cycled (.here (count + 1) next)
  rwa [isStart, List.append_nil] at passes

theorem Passes.trans {middle : Nat}
    (first : Passes engines stop count machine starts middle next)
    (second : Passes engines stop middle next more final last) :
    Passes engines stop count machine (starts ++ more) final last := by
  induction first with
  | here => exact second
  | cycle cycled _ inductionHypothesis =>
      rw [List.append_assoc]
      exact .cycle cycled (inductionHypothesis second)

theorem StraightBodies.passes (straight : StraightBodies engines stop count machine frames)
    (passes : Passes engines stop count machine starts final last) :
    StraightBodies engines stop final last frames :=
  fun _ _ _ further => straight _ _ _ (passes.trans further)

theorem StraightBodies.suffix (straight : StraightBodies engines stop count machine frames)
    (isSuffix : below <:+ frames) : StraightBodies engines stop count machine below :=
  fun _ _ _ passes _ _ _ _ _ _ _ _ runs top inner =>
    straight _ _ _ passes _ _ _ _ _ _ _ _ runs top (inner.trans isSuffix)

theorem StraightBodies.continuesAt {pc : Nat}
    (straight : StraightBodies engines stop count machine (frame :: below))
    (continues : frame.ContinuesAt pc moved) :
    StraightBodies engines stop count machine (moved :: below) := by
  intro starts final reached passes context other next rest unit handler clause instruction runs
    top isSuffix inLoop moves isUnit
  rcases List.suffix_cons_iff.mp isSuffix with same | isBelow
  · obtain ⟨rfl, rfl⟩ := List.cons.inj same
    exact straight starts final reached passes context frame next rest unit handler clause
      instruction runs top (List.suffix_refl _) inLoop
      ⟨moves.base.trans continues.base, moves.top.trans continues.top,
        moves.unit.trans continues.unit, rfl⟩ (continues.unit.symm.trans isUnit)
  · exact straight starts final reached passes context other next rest unit handler clause
      instruction runs top (isBelow.trans (List.suffix_cons _ _)) inLoop moves isUnit

/-- Bodies that only clear other registers are straight. -/
theorem StraightBodies.of_quietBodies
    (quiet : EveryFrame stop (fun _ unit => unit.QuietBodies) frames) :
    StraightBodies engines stop count machine frames := by
  intro starts final reached _ context frame moved below unit handler clause instruction runs top
    isSuffix inLoop moves isUnit member isEnsure isClause inBody beforeEnd decoded
  obtain ⟨unit', isUnit', quiet⟩ := quiet frame below isSuffix inLoop
  obtain rfl := Option.some.inj (isUnit.symm.trans isUnit')
  have movedUnit := moves.unit.trans isUnit
  rcases quiet handler member isEnsure clause isClause moved.pc beforeEnd inBody instruction
    decoded with isNop | ⟨isLoad, isOther⟩
  · exact .of_nothing runs.collectedIfDue top movedUnit decoded (VM.execute_nop isNop)
  · exact .of_setRegister runs.collectedIfDue top movedUnit decoded isOther.symm
      (VM.execute_loadNil isLoad)

theorem Passes.le (passes : Passes engines stop count machine starts final last) :
    count ≤ final := by
  induction passes with
  | here => exact Nat.le_refl _
  | cycle _ _ inductionHypothesis => exact Nat.le_of_succ_le inductionHypothesis

/-- A run that cannot go on contains every run from the same machine. -/
theorem Passes.behind {middle : Nat}
    (first : Passes engines stop count machine starts middle next)
    (second : Passes engines stop count machine more final last)
    (ends : ∀ further, VM.cycle (engines final) stop last ≠ .ok none further) :
    ∃ rest, more = starts ++ rest ∧ Passes engines stop middle next rest final last := by
  induction first generalizing more with
  | here => exact ⟨more, rfl, second⟩
  | cycle cycled _ inductionHypothesis =>
      cases second with
      | here => exact absurd cycled (ends _)
      | @cycle _ _ _ other _ others cycled' second =>
          have same : EStateM.Result.ok none _ = EStateM.Result.ok none other :=
            cycled.symm.trans cycled'
          obtain ⟨-, rfl⟩ := EStateM.Result.ok.inj same
          obtain ⟨rest, rfl, behind⟩ := inductionHypothesis second
          exact ⟨rest, (List.append_assoc _ _ _).symm, behind⟩

/-- The interpreter loop goes on behind the cycles that it has passed. -/
theorem Passes.runLoop_eq {hosts : Array HostMethod} {fuel : Nat}
    (passes : Passes (fun count => .ofHosts hosts (fuel - (count + 1))) stop count machine starts
      final last) (enough : final ≤ fuel) :
    runLoop hosts (fuel - count) stop machine = runLoop hosts (fuel - final) stop last := by
  induction passes with
  | here => rfl
  | @cycle count final machine next last starts cycled rest inductionHypothesis =>
      have later := rest.le
      have isSucc : fuel - count = (fuel - (count + 1)) + 1 := by omega
      rw [← inductionHypothesis enough, isSucc, runLoop]
      exact VM.bind_of_ok cycled

/-! ### The run of a clause -/

theorem Machine.clauseStart?_of_handler {handler : CatchHandler}
    (runs : machine.RunsOn context) (top : context.activations = frame :: below)
    (isUnit : frame.unit = some unit) (member : handler ∈ unit.handlers)
    (isEnsure : handler.isEnsure = true) (isStart : frame.pc = handler.target.toNat) :
    machine.clauseStart? = some ⟨below.length, handler.target.toNat⟩ := by
  have atStart : (unit.handlers.any fun handler =>
      handler.isEnsure && handler.target.toNat == frame.pc) = true := by
    rw [List.any_eq_true]
    exact ⟨handler, member, by simp [isEnsure, isStart]⟩
  rw [clauseStart?, runs.running, Option.map_some, top]
  dsimp only
  rw [isUnit]
  dsimp only
  rw [if_pos atStart, isStart]

/-- Every handler of the code loads what is pending. -/
def Bytecode.CodeUnit.EntersClauses (unit : CodeUnit) : Prop :=
  ∀ handler ∈ unit.handlers, ∃ instruction,
    instructionAt? unit.code handler.target.toNat = some instruction ∧ instruction.op = .loadPending

/-- No clause starts at an instruction that does not load what is pending. -/
theorem Machine.clauseStart?_eq_none {instruction : Instruction} (enters : unit.EntersClauses)
    (runs : machine.RunsOn context) (top : context.activations = frame :: below)
    (isUnit : frame.unit = some unit)
    (decoded : instructionAt? unit.code frame.pc = some instruction)
    (notLoad : instruction.op ≠ .loadPending) : machine.clauseStart? = none := by
  have notStart : ¬ (unit.handlers.any fun handler =>
      handler.isEnsure && handler.target.toNat == frame.pc) = true := by
    rw [List.any_eq_true]
    rintro ⟨handler, member, isStart⟩
    rw [Bool.and_eq_true, beq_iff_eq] at isStart
    obtain ⟨opening, isOpening, isLoad⟩ := enters handler member
    rw [isStart.2] at isOpening
    obtain rfl := Option.some.inj (decoded.symm.trans isOpening)
    exact notLoad isLoad
  rw [clauseStart?, runs.running, Option.map_some, top]
  dsimp only
  rw [isUnit]
  dsimp only
  rw [if_neg notStart]

/-- Straight code up to the end of a clause starts no clause. -/
theorem Bytecode.CodeUnit.HasClause.not_loadPending {start pc : Nat} {clause : Clause}
    (hasClause : unit.HasClause start clause)
    (straight : StraightLine unit.code pc clause.closing) :
    ∃ instruction, instructionAt? unit.code pc = some instruction ∧
      instruction.op ≠ .loadPending := by
  obtain ⟨-, -, ⟨closing, atEnd, isResume, -, -⟩⟩ := hasClause
  generalize isClosing : clause.closing = address at straight atEnd
  cases straight with
  | done =>
      refine ⟨closing, atEnd, ?_⟩
      rw [isResume]
      exact nofun
  | next decoded notLoad _ _ => exact ⟨_, decoded, notLoad⟩

/-- The body of a clause goes through to its last instruction and starts no clause. -/
theorem passes_body {handler : CatchHandler} {clause : Clause} {pc : Nat}
    (enters : unit.EntersClauses) (isUnit : frame.unit = some unit)
    (member : handler ∈ unit.handlers) (isEnsure : handler.isEnsure = true)
    (isClause : unit.clause? handler.target.toNat = some clause)
    (inLoop : stop ≤ below.length) (inside : frame.base + clause.register < frame.top)
    (straight : StraightLine unit.code pc clause.closing) (inBody : clause.body ≤ pc)
    (bodies : StraightBodies engines stop count machine (frame :: below))
    (inClause : InClause departure frame below clause.register pc machine context) :
    ∃ final last changed, Passes engines stop count machine [] final last ∧
      InClause departure frame below clause.register clause.closing last changed := by
  have hasClause := CodeUnit.clause?_eq_some_iff.mp isClause
  generalize isClosing : clause.closing = address at straight
  induction straight generalizing count machine context with
  | done => exact ⟨count, machine, context, .here count machine, isClosing ▸ inClause⟩
  | @next pc last instruction decoded notLoad notResume rest inductionHypothesis =>
      subst isClosing
      obtain ⟨moved, top, moves⟩ := inClause.position
      have before := instructionAt?_lt_next decoded
      have behind := rest.le
      have movedDecoded : instructionAt? unit.code moved.pc = some instruction := by
        rw [moves.pc, decoded]
      have step := bodies [] count machine (.here count machine) context frame moved below unit
        handler clause instruction inClause.runs top (List.suffix_refl _) inLoop
        ⟨moves.base, moves.top, moves.unit, rfl⟩ isUnit member isEnsure isClause
        (by rw [moves.pc]; omega) (by rw [moves.pc]; omega) movedDecoded
      obtain ⟨next, changed, cycled, nextInClause⟩ :=
        VM.cycle_straight inClause top moves inside step
      obtain ⟨further, nextTop, continues⟩ := nextInClause.position
      obtain ⟨following, isFollowing, notLoad'⟩ := hasClause.not_loadPending rest
      rw [← continues.pc] at isFollowing
      have noStart : next.clauseStart? = none :=
        Machine.clauseStart?_eq_none enters nextInClause.runs nextTop
          (continues.unit.trans isUnit) isFollowing notLoad'
      have single : Passes engines stop count machine [] (count + 1) next := .one cycled noStart
      obtain ⟨final, reached, reachedContext, passes, atEnd⟩ :=
        inductionHypothesis (by omega) (bodies.passes single) nextInClause rfl
      exact ⟨final, reached, reachedContext, single.trans passes, atEnd⟩

/-- A clause that a departure has entered is run to its last instruction, whose cycle goes
on with the departure from the end of the clause. -/
theorem passes_clause {handler : CatchHandler} {clause : Clause}
    (enters : unit.EntersClauses) (inLoop : stop ≤ below.length)
    (isUnit : frame.unit = some unit) (member : handler ∈ unit.handlers)
    (isEnsure : handler.isEnsure = true)
    (isClause : unit.clause? handler.target.toNat = some clause)
    (inside : frame.base + clause.register < frame.top) (runs : machine.RunsOn context)
    (top : context.activations = moved :: below)
    (moves : frame.ContinuesAt handler.target.toNat moved)
    (stored : departure.StoredAs machine.heap context.pendingValue)
    (isKind : ∀ pending, context.pending = some pending → pending.kind = .ensure)
    (bodies : StraightBodies engines stop count machine (frame :: below)) :
    ∃ final last mark left changed resumed value, Passes engines stop count machine [] final last ∧
      VM.cycle (engines final) stop last = VM.settle stop mark (departure.proceed stop) left ∧
      left.RunsOn changed ∧ changed.activations = resumed :: below ∧
      frame.ContinuesAt (unit.clauseEnd handler) resumed ∧ changed.pending = none ∧
      departure.StoredAs left.heap value := by
  have hasClause := CodeUnit.clause?_eq_some_iff.mp isClause
  have isEnd : unit.clauseEnd handler = clause.finish := by
    rw [CodeUnit.clauseEnd, isClause]
    rfl
  obtain ⟨opened, openedContext, cycled, opensClause⟩ :=
    VM.cycle_opening hasClause isUnit runs top moves stored isKind
  obtain ⟨further, openedTop, continues⟩ := opensClause.position
  obtain ⟨following, isFollowing, notLoad⟩ := hasClause.not_loadPending hasClause.straight
  rw [← continues.pc] at isFollowing
  have noStart : opened.clauseStart? = none :=
    Machine.clauseStart?_eq_none enters opensClause.runs openedTop
      (continues.unit.trans isUnit) isFollowing notLoad
  have single : Passes engines stop count machine [] (count + 1) opened := .one cycled noStart
  obtain ⟨final, last, lastContext, passes, atEnd⟩ := passes_body enters isUnit member isEnsure
    isClause inLoop inside hasClause.straight (Nat.le_refl _) (bodies.passes single) opensClause
  obtain ⟨mark, left, changed, resumed, goesOn, leftRuns, leftTop, resumes, nothingPending,
    leftStored⟩ := VM.cycle_closing hasClause isUnit inside atEnd
  rw [← isEnd] at resumes
  exact ⟨final, last, mark, left, changed, resumed, _, single.trans passes, goesOn, leftRuns,
    leftTop, resumes, nothingPending, leftStored⟩

/-! ### The run of a departure -/

/-- A departure runs exactly the clauses that it leaves, in their order, and completes. -/
theorem passes_departure {mark : Nat} {left : Machine}
    (begins : VM.cycle (engines count) stop machine =
      VM.settle stop mark (departure.proceed stop) left)
    (runs : left.RunsOn context) (laidOut : LaidOut stop context.activations)
    (inside : stop < context.activations.length)
    (ready : departure.Ready left.heap context)
    (bodies : StraightBodies engines stop count machine context.activations) :
    ∃ final last,
      Passes engines stop count machine (clausesLeft stop departure context.activations) final
        last ∧
      Completes stop context.activations departure (VM.cycle (engines final) stop last) := by
  generalize isStarts : clausesLeft stop departure context.activations = starts
  induction starts generalizing count machine mark left context with
  | nil =>
      rcases attempts_proceed runs laidOut inside ready mark with
        ⟨next, -, diverted⟩ | ⟨-, done⟩
      · -- an attempt that enters a clause leaves one
        obtain @⟨_, frame, _, below, unit, handler, -, -, -, -, -, -, -, -, -, -, -, resumes⟩ :=
          diverted
        obtain ⟨clauses, -⟩ := resumes { frame with pc := unit.clauseEnd handler }
          ⟨rfl, rfl, rfl, rfl⟩
        exact nomatch isStarts.symm.trans clauses
      · exact ⟨count, machine, .here count machine, begins ▸ done⟩
  | cons start more inductionHypothesis =>
      rcases attempts_proceed runs laidOut inside ready mark with
        ⟨next, entered, diverted⟩ | ⟨noClause, -⟩
      · obtain @⟨nextContext, frame, moved, below, unit, handler, nextRuns, isSuffix, inLoop,
          isUnit, member, isEnsure, top, moves, stored, isKind, fits, resumes⟩ := diverted
        have laidOutBelow := laidOut.suffix isSuffix
        have bodiesBelow := bodies.suffix isSuffix
        obtain ⟨unit', isUnit', layout, registers⟩ :=
          laidOutBelow frame below (List.suffix_refl _) inLoop
        obtain rfl := Option.some.inj (isUnit.symm.trans isUnit')
        obtain ⟨clause, isClause⟩ := layout.clause handler member isEnsure
        have reached : Passes engines stop count machine
            [⟨below.length, handler.target.toNat⟩] (count + 1) next :=
          .one (begins.trans entered) (Machine.clauseStart?_of_handler nextRuns top
            (moves.unit.trans isUnit) member isEnsure moves.pc)
        obtain ⟨final, last, mark', left', changed, resumed, value, passes, goesOn, leftRuns,
          leftTop, continues, nothingPending, leftStored⟩ := passes_clause layout.entered inLoop
            isUnit member isEnsure isClause (registers handler member isEnsure clause isClause)
            nextRuns top moves stored isKind (bodiesBelow.passes reached)
        obtain ⟨clauses, completes⟩ := resumes resumed continues
        obtain ⟨isStart, isMore⟩ := List.cons.inj (isStarts.symm.trans clauses)
        have ready' : departure.Ready left'.heap changed := by
          cases departure with
          | fall => exact nothingPending
          | jump target => trivial
          | leave target result =>
              have := fits target result rfl
              rw [Departure.Ready, leftTop, List.length_cons]
              omega
          | raise exception => exact leftStored.2
        obtain ⟨final', last', rest, done⟩ := inductionHypothesis goesOn leftRuns
          (leftTop ▸ laidOutBelow.continuesAt continues)
          (by rw [leftTop, List.length_cons]; omega) ready'
          (leftTop ▸ (bodiesBelow.passes (reached.trans passes)).continuesAt continues)
          (by rw [leftTop, isMore])
        rw [leftTop] at done
        refine ⟨final', last', ?_, completes _ done⟩
        rw [isStart]
        exact reached.trans (passes.trans rest)
      · exact nomatch noClause.symm.trans isStarts

end RiteVm
