import RiteVm.Proofs.Unwinding.Departure

/-!
Contract: one attempt of a departure enters its first clause or completes it.

Owns:
- machines that run on a stack whose frame on top is moved, left or written to;
- what a jump does, whatever code the frame on top runs;
- the attempt of each way of leaving an instruction, by induction on the frames that it
  leaves.

Does not own: the cycle in which an attempt is made.
-/

namespace RiteVm

open RiteVm.Bytecode

/-- An attempt enters the first clause of a departure, or there is none and it completes
the departure. -/
def Attempts (stop : Nat) (departure : Departure) (frames : List Frame)
    (result : EStateM.Result Failure Machine (Option Exit)) : Prop :=
  (∃ next, result = .ok none next ∧ Diverted stop departure frames next) ∨
    (clausesLeft stop departure frames = [] ∧ Completes stop frames departure result)

variable {machine next : Machine} {context : Context} {frame : Frame}
  {frames below : List Frame} {unit : CodeUnit} {stop target : Nat} {value : Value}
  {exception : Handle}

/-! ### The running stack -/

theorem Machine.RunsOn.modifyTop (runs : machine.RunsOn context)
    (top : context.activations = frame :: below) {change : Frame → Frame}
    (moves : machine.MovesTo next (context.modifyTop change))
    (sameProc : (change frame).proc = frame.proc) (sameEnv : (change frame).env = frame.env) :
    next.RunsOn (context.modifyTop change) ∧
      (context.modifyTop change).activations = change frame :: below := by
  have changed : (context.modifyTop change).activations = change frame :: below :=
    Context.activations_modify top change
  refine ⟨runs.movesTo moves rfl ?_, changed⟩
  intro other member handle holds
  rw [changed] at member
  rcases List.mem_cons.mp member with rfl | member
  · refine ⟨frame, by simp [top], ?_⟩
    rw [Frame.Holds, sameProc, sameEnv] at holds
    exact holds
  · exact ⟨other, by simp [top, member], holds⟩

theorem Machine.RunsOn.popTop (runs : machine.RunsOn context)
    (top : context.activations = frame :: below)
    (moves : machine.MovesTo next context.popTop) :
    next.RunsOn context.popTop ∧ context.popTop.activations = below := by
  have popped : context.popTop.activations = below := Context.activations_pop top
  refine ⟨runs.movesTo moves rfl ?_, popped⟩
  intro other member handle holds
  rw [popped] at member
  exact ⟨other, by simp [top, member], holds⟩

/-- With a record pending at a handler, the frames are the same. -/
theorem Machine.RunsOn.entering (runs : machine.RunsOn context)
    (top : context.activations = frame :: below) {record : Handle} {kind : CatchKind}
    (moves : machine.MovesTo next (context.entering target record kind)) :
    next.RunsOn (context.entering target record kind) ∧
      (context.entering target record kind).activations = { frame with pc := target } :: below := by
  have changed : (context.entering target record kind).activations =
      { frame with pc := target } :: below :=
    Context.activations_modify top _
  refine ⟨runs.movesTo moves rfl ?_, changed⟩
  intro other member handle holds
  rw [changed] at member
  rcases List.mem_cons.mp member with rfl | member
  · exact ⟨frame, by simp [top], holds⟩
  · exact ⟨other, by simp [top, member], holds⟩

/-- Storing a value in a slot changes nothing but the slots. -/
theorem Context.setSlot_eq (context : Context) (index : Nat) (value : Value) :
    context.setSlot index value =
      { context with stack := (context.setSlot index value).stack } := by
  rw [Context.setSlot, Context.ensureSize]
  split <;> rfl

theorem Context.setSlot_pending (context : Context) (index : Nat) (value : Value) :
    (context.setSlot index value).pending = context.pending := by
  rw [Context.setSlot_eq]

/-- A longer stack reads the same. -/
theorem Context.slot_ensureSize (context : Context) (size index : Nat) :
    (context.ensureSize size).slot index = context.slot index := by
  rw [Context.ensureSize]
  split
  · simp only [Context.slot, Array.getD_eq_getD_getElem?]
    by_cases isOld : index < context.stack.size
    · rw [Array.getElem?_append_left isOld]
    · rw [Array.getElem?_append_right (by omega), Array.getElem?_replicate,
        Array.getElem?_eq_none (by omega)]
      split <;> rfl
  · rfl

theorem Context.slot_setSlot_of_ne (context : Context) {index other : Nat} (value : Value)
    (isOther : other ≠ index) : (context.setSlot index value).slot other = context.slot other := by
  rw [← context.slot_ensureSize (index + 1) other, Context.setSlot, Context.slot, Context.slot,
    Array.getD_eq_getD_getElem?, Array.getD_eq_getD_getElem?,
    Array.getElem?_setIfInBounds_ne isOther.symm]

theorem Context.slot_setSlot (context : Context) (index : Nat) (value : Value) :
    (context.setSlot index value).slot index = value := by
  have longEnough : index < (context.ensureSize (index + 1)).stack.size := by
    rw [Context.ensureSize]
    split
    · simp only [Array.size_append, Array.size_replicate]
      omega
    · omega
  rw [Context.slot, Context.setSlot, Array.getD_eq_getD_getElem?]
  simp [longEnough]

/-- Storing a value in a register changes no frame. -/
theorem Machine.RunsOn.setSlot (runs : machine.RunsOn context) (index : Nat) (value : Value) :
    (machine.modifyContext machine.current (·.setSlot index value)).RunsOn
        (context.setSlot index value) ∧
      (context.setSlot index value).activations = context.activations ∧
      (context.setSlot index value).slot index = value := by
  have sameFrames : (context.setSlot index value).activations = context.activations := by
    rw [Context.setSlot_eq]
    rfl
  have sameOwner : (context.setSlot index value).owner = context.owner := by
    rw [Context.setSlot_eq]
  refine ⟨?_, sameFrames, Context.slot_setSlot _ _ _⟩
  refine runs.movesTo (Machine.movesTo_modifyContext runs.running _) sameOwner ?_
  intro other member handle holds
  exact ⟨other, sameFrames ▸ member, holds⟩

/-! ### Exits with a value -/

theorem starts_of_unit (isUnit : frame.unit = some unit) (index : Nat)
    (select : CodeUnit → Nat → List CatchHandler) :
    frame.starts index select =
      (select unit frame.pc).map fun handler => ⟨index, handler.target.toNat⟩ := by
  rw [Frame.starts, isUnit]

/-- Leaving frames enters the innermost ensure clause on the way, or reaches the target. -/
theorem attempts_leaveFrames (runs : machine.RunsOn context)
    (isFrames : context.activations = frames) (laidOut : LaidOut stop frames)
    (inside : stop < frames.length) (below : target < frames.length) :
    Attempts stop (.leave target value) frames
      (VM.leaveFrames target value stop frames.length machine) := by
  induction frames generalizing machine context with
  | nil => exact absurd inside (by simp)
  | cons frame rest inductionHypothesis =>
      rw [List.length_cons] at inside below
      obtain ⟨unit, isUnit, layout, -⟩ :=
        laidOut frame rest (List.suffix_refl _) (by omega)
      have covering : Query.coveringEnsure? machine =
          .ok (unit.handlerFor? frame.pc (some .ensure)) := by
        rw [Query.coveringEnsure?_of_runsOn runs isFrames, isUnit]
        rfl
      rw [List.length_cons, VM.leaveFrames, VM.bind_of_ok (VM.liftM_of_ok covering)]
      cases around : unit.ensuresAround frame.pc with
      | cons handler outer =>
          obtain ⟨member, isEnsure, isHandler, atEnd⟩ := layout.ensuresAround_eq_cons around
          rw [isHandler]
          dsimp only
          rw [VM.bind_of_ok (VM.modifyFrame_ok _)]
          obtain ⟨clearedRuns, cleared⟩ := runs.modifyTop isFrames (Machine.movesTo_modifyContext
            runs.running (Context.modifyTop · fun frame => { frame with ensuring := none })) rfl rfl
          obtain ⟨next, record, object, diverted, moves, found, isExit⟩ :=
            VM.divert_of_runsOn clearedRuns handler (.frame target) value
          obtain ⟨entersRuns, entered⟩ := clearedRuns.entering cleared moves
          rw [VM.bind_of_ok diverted]
          refine .inl ⟨next, rfl, .into entersRuns (List.suffix_refl _) (by omega) isUnit member
            isEnsure entered ⟨rfl, rfl, rfl, rfl⟩ ⟨record, object, rfl, found, isExit⟩ ?_ ?_ ?_⟩
          · rintro pending isPending
            rw [← Option.some.inj isPending]
          · rintro _ _ isSame
            cases isSame
            omega
          · intro resumed continues
            refine ⟨?_, fun result done => done.leave_of_continuesAt continues (by omega)⟩
            rw [clausesLeft, clausesLeft, starts_of_unit isUnit, around, List.map_cons,
              starts_of_unit (continues.unit.trans isUnit), continues.pc, atEnd, List.cons_append]
      | nil =>
          rw [CodeUnit.handlerFor?_of_ensuresAround_eq_nil around]
          dsimp only
          obtain ⟨next, popped, moves⟩ := VM.popFrame?_of_runsOn runs isFrames
          obtain ⟨restRuns, isRest⟩ := runs.popTop isFrames moves
          have noneHere : clausesLeft stop (.leave target value) (frame :: rest) =
              if rest.length ≤ max target stop then []
              else clausesLeft stop (.leave target value) rest := by
            rw [clausesLeft, starts_of_unit isUnit, around, List.map_nil, List.nil_append]
          rw [VM.bind_of_ok popped]
          dsimp only
          by_cases isTarget : rest.length = target
          · rw [if_pos isTarget]
            rw [if_pos (by omega)] at noneHere
            refine .inr ⟨noneHere, ?_⟩
            by_cases isStop : rest.length = stop
            · rw [if_pos isStop]
              obtain rfl := isTarget.symm.trans isStop
              refine .returned restRuns ?_ (by rw [isRest, isTarget])
              rw [isRest]
              exact List.suffix_cons _ _
            · rw [if_neg isStop]
              obtain ⟨storedRuns, sameFrames, stored⟩ := restRuns.setSlot frame.base value
              refine .delivered (by omega) storedRuns ?_ ?_ stored
              · exact (sameFrames.trans isRest) ▸ List.suffix_refl _
              · rw [sameFrames, isRest, isTarget]
          · rw [if_neg isTarget]
            by_cases isStop : rest.length = stop
            · rw [if_pos isStop]
              rw [if_pos (by omega)] at noneHere
              refine .inr ⟨noneHere, .handedOn (by omega) restRuns ?_ (by rw [isRest, isStop])⟩
              rw [isRest]
              exact List.suffix_cons _ _
            · rw [if_neg isStop]
              rw [if_neg (by omega)] at noneHere
              rcases inductionHypothesis restRuns isRest (laidOut.suffix (List.suffix_cons _ _))
                (by omega) (by omega) with ⟨last, entered, diverted⟩ | ⟨noClause, done⟩
              · exact .inl ⟨last, entered,
                  diverted.of_below noneHere fun result done => done.leave_of_below⟩
              · exact .inr ⟨noneHere.trans noClause, done.leave_of_below⟩

/-! ### Exceptions -/

theorem Frame.rescue?_of_unit (isUnit : frame.unit = some unit) :
    frame.rescue? =
      (unit.regionsAround frame.pc).find? fun handler => !handler.isEnsure := by
  rw [Frame.rescue?, isUnit]
  rfl

/-- The search for a handler enters the innermost ensure clause on the way, or reaches the
innermost rescue clause or the end of the loop. -/
theorem attempts_findHandler (runs : machine.RunsOn context)
    (isFrames : context.activations = frames) (laidOut : LaidOut stop frames)
    (inside : stop < frames.length)
    (isException : ∃ object, machine.heap.get? exception = some object ∧
      object.exception?.isSome) :
    Attempts stop (.raise exception) frames
      ((VM.findHandler exception stop frames.length >>= fun _ => pure none) machine) := by
  induction frames generalizing machine context with
  | nil => exact absurd inside (by simp)
  | cons frame rest inductionHypothesis =>
      rw [List.length_cons] at inside
      obtain ⟨unit, isUnit, layout, -⟩ :=
        laidOut frame rest (List.suffix_refl _) (by omega)
      rw [List.length_cons, VM.findHandler, bind_assoc,
        VM.bind_of_ok (VM.liftM_of_ok (Query.frame_of_runsOn runs isFrames)), bind_assoc]
      obtain ⟨linked, link, linking⟩ :=
        VM.linkCause_of_running runs.running exception frame.ensuring
      have linkedRuns : linked.RunsOn context :=
        runs.movesTo linking rfl fun other member handle holds => ⟨other, member, holds⟩
      obtain ⟨object, found, isException⟩ := isException
      obtain ⟨object', found', -, staysException⟩ :=
        linking.heap.kept runs.wellFormed exception object found
      have isHandler : frame.unit.bind (·.handlerFor? frame.pc none) =
          (unit.regionsAround frame.pc).head? := by
        rw [isUnit, ← CodeUnit.handlerFor?_none]
        rfl
      rw [VM.bind_of_ok link, isHandler]
      have rescues := Frame.rescue?_of_unit isUnit
      cases regions : unit.regionsAround frame.pc with
      | cons handler outer =>
          obtain ⟨member, -⟩ := CodeUnit.mem_of_mem_regionsAround
            (show handler ∈ unit.regionsAround frame.pc by simp [regions])
          obtain ⟨next, enters, moves, sameHeap⟩ := VM.enterHandler_of_running linkedRuns.running
            handler.target.toNat exception handler.kind
          obtain ⟨entersRuns, entered⟩ := linkedRuns.entering isFrames moves
          rw [List.head?_cons]
          dsimp only
          rw [VM.bind_of_ok enters]
          by_cases isEnsure : handler.isEnsure = true
          · have around : unit.raisedThrough frame.pc =
                handler :: outer.takeWhile (·.isEnsure) := by
              rw [CodeUnit.raisedThrough, regions, List.takeWhile_cons, if_pos isEnsure]
            obtain ⟨-, -, -, atEnd, sameRegions⟩ := layout.raisedThrough_eq_cons around
            refine .inl ⟨next, rfl, .into entersRuns (List.suffix_refl _) (by omega) isUnit member
              isEnsure entered ⟨rfl, rfl, rfl, rfl⟩ ⟨rfl, object', ?_, staysException isException⟩
              ?_ nofun ?_⟩
            · rw [sameHeap]
              exact found'
            · rintro pending isPending
              rw [← Option.some.inj isPending]
              exact eq_of_beq isEnsure
            · intro resumed continues
              have sameRescue : resumed.rescue? = frame.rescue? := by
                rw [Frame.rescue?_of_unit (continues.unit.trans isUnit), rescues, sameRegions,
                  continues.pc, List.find?_cons_of_neg (by simp [isEnsure])]
              refine ⟨?_, fun result done =>
                done.raise_of_rescue?_eq sameRescue continues (by omega)⟩
              rw [clausesLeft, clausesLeft, sameRescue, starts_of_unit isUnit, around,
                List.map_cons, starts_of_unit (continues.unit.trans isUnit), continues.pc, atEnd,
                List.cons_append]
          · have isRescue : frame.rescue? = some handler := by
              rw [rescues, regions, List.find?_cons_of_pos (by simp [isEnsure])]
            have isKind : handler.kind = .rescue := by
              cases isKind : handler.kind with
              | rescue => rfl
              | ensure => exact absurd (by rw [CatchHandler.isEnsure, isKind]; rfl) isEnsure
            have noClause : unit.raisedThrough frame.pc = [] := by
              rw [CodeUnit.raisedThrough, regions, List.takeWhile_cons, if_neg isEnsure]
            refine .inr ⟨?_, .rescued entersRuns (List.nil_append _).symm (by omega) (by simp)
              isRescue entered ⟨rfl, rfl, rfl, rfl⟩ ?_⟩
            · rw [clausesLeft, starts_of_unit isUnit, noClause, isRescue, List.map_nil,
                List.nil_append, if_pos (.inl rfl)]
            · rw [← isKind]
              rfl
      | nil =>
          have noRescue : frame.rescue? = none := by
            rw [rescues, regions, List.find?_nil]
          have noneHere : clausesLeft stop (.raise exception) (frame :: rest) =
              if rest.length ≤ stop then [] else clausesLeft stop (.raise exception) rest := by
            rw [clausesLeft, starts_of_unit isUnit, CodeUnit.raisedThrough, regions,
              List.takeWhile_nil, List.map_nil, List.nil_append, noRescue]
            simp only [Option.isSome_none, Bool.false_eq_true, false_or]
          obtain ⟨next, popped, moves⟩ := VM.popFrame?_of_runsOn linkedRuns isFrames
          obtain ⟨restRuns, isRest⟩ := linkedRuns.popTop isFrames moves
          obtain ⟨object'', found'', -, staysException'⟩ :=
            moves.heap.kept linkedRuns.wellFormed exception object' found'
          rw [List.head?_nil]
          dsimp only
          rw [bind_assoc, VM.bind_of_ok popped]
          by_cases isStop : rest.length = stop
          · rw [if_pos isStop]
            rw [if_pos (by omega)] at noneHere
            have split : frame :: rest = [frame] ++ context.popTop.activations := by
              rw [isRest, List.singleton_append]
            refine .inr ⟨noneHere, .uncaught restRuns split ?_ (by rw [isRest, isStop])⟩
            intro other member
            rw [List.mem_singleton.mp member, noRescue]
          · rw [if_neg isStop]
            rw [if_neg (by omega)] at noneHere
            rcases inductionHypothesis restRuns isRest (laidOut.suffix (List.suffix_cons _ _))
              (by omega) ⟨object'', found'', staysException' (staysException isException)⟩ with
              ⟨last, entered, diverted⟩ | ⟨noClause, done⟩
            · exact .inl ⟨last, entered,
                diverted.of_below noneHere fun result done => done.raise_of_below noRescue⟩
            · exact .inr ⟨noneHere.trans noClause, done.raise_of_below noRescue⟩

/-! ### Jumps -/

/-- A jump that leaves the innermost region with an ensure clause around it enters the clause. -/
theorem VM.jumpUnwinding_of_leaves {handler : CatchHandler} (runs : machine.RunsOn context)
    (isFrames : context.activations = frame :: below)
    (isHandler : frame.unit.bind (·.handlerFor? frame.pc (some .ensure)) = some handler)
    (leaves : handler.spans target = false) :
    ∃ next record object, VM.jumpUnwinding target machine = .ok () next ∧
      next.RunsOn (context.entering handler.target.toNat record .ensure) ∧
      (context.entering handler.target.toNat record .ensure).activations =
        { frame with pc := handler.target.toNat } :: below ∧
      next.heap.get? record = some object ∧
      object.content = .exit { target := .address target, value := .nil } := by
  have isLeft : (handler.first.toNat ≤ target && target < handler.last.toNat) = false := leaves
  obtain ⟨next, record, object, diverted, moves, found, isExit⟩ :=
    VM.divert_of_runsOn runs handler (.address target) .nil
  obtain ⟨entersRuns, entered⟩ := runs.entering isFrames moves
  refine ⟨next, record, object, ?_, entersRuns, entered, found, isExit⟩
  rw [VM.jumpUnwinding,
    VM.bind_of_ok (VM.liftM_of_ok (Query.coveringEnsure?_of_runsOn runs isFrames)), isHandler]
  simp only [isLeft, Bool.false_eq_true, if_false]
  exact diverted

/-- A jump that stays in that region, if there is one, goes to its target. -/
theorem VM.jumpUnwinding_of_stays (runs : machine.RunsOn context)
    (isFrames : context.activations = frame :: below)
    (stays : ∀ handler, frame.unit.bind (·.handlerFor? frame.pc (some .ensure)) = some handler →
      handler.spans target = true) :
    ∃ next changed, VM.jumpUnwinding target machine = .ok () next ∧ next.RunsOn changed ∧
      changed.activations = { frame with ensuring := none, pc := target } :: below ∧
      changed.pending = none := by
  have cleared := Machine.movesTo_modifyContext runs.running ({ · with pending := none })
  have clearedRuns : Machine.RunsOn _ { context with pending := none } :=
    runs.movesTo cleared rfl fun other member handle holds => ⟨other, member, holds⟩
  have sameFrames : { context with pending := none }.activations = frame :: below := isFrames
  obtain ⟨jumpedRuns, jumped⟩ := clearedRuns.modifyTop sameFrames
    (Machine.movesTo_modifyContext clearedRuns.running
      (Context.modifyTop · fun frame => { frame with ensuring := none, pc := target })) rfl rfl
  refine ⟨_, _, ?_, jumpedRuns, jumped, rfl⟩
  rw [VM.jumpUnwinding,
    VM.bind_of_ok (VM.liftM_of_ok (Query.coveringEnsure?_of_runsOn runs isFrames))]
  cases isHandler : frame.unit.bind (·.handlerFor? frame.pc (some .ensure)) with
  | none => rfl
  | some handler =>
      have isStay : (handler.first.toNat ≤ target && target < handler.last.toNat) = true :=
        stays handler isHandler
      simp only [isStay, if_true]
      rfl

/-- A jump enters the innermost ensure clause that it leaves, or reaches its target. -/
theorem attempts_jumpUnwinding (runs : machine.RunsOn context)
    (isFrames : context.activations = frame :: below) (laidOut : LaidOut stop (frame :: below))
    (inside : stop ≤ below.length) :
    Attempts stop (.jump target) (frame :: below)
      ((VM.jumpUnwinding target >>= fun _ => pure none) machine) := by
  obtain ⟨unit, isUnit, layout, -⟩ := laidOut frame below (List.suffix_refl _) inside
  have isBound : frame.unit.bind (·.handlerFor? frame.pc (some .ensure)) =
      unit.handlerFor? frame.pc (some .ensure) := by
    rw [isUnit]
    rfl
  have atTarget (stays : ∀ handler, unit.handlerFor? frame.pc (some .ensure) = some handler →
        handler.spans target = true)
      (noClause : unit.jumpedOut frame.pc target = []) :
      Attempts stop (.jump target) (frame :: below)
        ((VM.jumpUnwinding target >>= fun _ => pure none) machine) := by
    obtain ⟨next, changed, jumps, jumpedRuns, jumped, isPending⟩ :=
      VM.jumpUnwinding_of_stays runs isFrames (isBound ▸ stays)
    rw [VM.bind_of_ok jumps]
    refine .inr ⟨?_, .jumped jumpedRuns rfl jumped ⟨rfl, rfl, rfl, rfl⟩ isPending⟩
    rw [clausesLeft, starts_of_unit isUnit, noClause, List.map_nil]
  cases around : unit.ensuresAround frame.pc with
  | nil =>
      refine atTarget ?_ (by rw [CodeUnit.jumpedOut, around, List.filter_nil])
      rw [CodeUnit.handlerFor?_of_ensuresAround_eq_nil around]
      rintro _ ⟨⟩
  | cons handler outer =>
      obtain ⟨member, isEnsure, isHandler, atEnd⟩ := layout.ensuresAround_eq_cons around
      by_cases stays : handler.spans target = true
      · refine atTarget ?_ (layout.jumpedOut_eq_nil_of_spans around stays)
        rintro other isOther
        rwa [← Option.some.inj (isHandler.symm.trans isOther)]
      · obtain ⟨next, record, object, jumps, entersRuns, entered, found, isExit⟩ :=
          VM.jumpUnwinding_of_leaves runs isFrames (isBound.trans isHandler)
            (Bool.eq_false_iff.mpr stays)
        rw [VM.bind_of_ok jumps]
        refine .inl ⟨next, rfl, .into entersRuns (List.suffix_refl _) inside isUnit member
          isEnsure entered ⟨rfl, rfl, rfl, rfl⟩ ⟨record, object, rfl, found, isExit⟩ ?_ ?_ ?_⟩
        · rintro pending isPending
          rw [← Option.some.inj isPending]
        · rintro _ _ ⟨⟩
        · intro resumed continues
          have first : unit.jumpedOut frame.pc target =
              handler :: unit.jumpedOut (unit.clauseEnd handler) target := by
            rw [CodeUnit.jumpedOut, around, List.filter_cons_of_pos (by simp [stays]),
              CodeUnit.jumpedOut, atEnd]
          refine ⟨?_, fun result done => ?_⟩
          · rw [clausesLeft, clausesLeft, starts_of_unit isUnit, first, List.map_cons,
              starts_of_unit (continues.unit.trans isUnit), continues.pc]
          · cases done with
            | jumped runs split isTop moves isPending =>
                obtain ⟨rfl, rfl⟩ := List.cons.inj split
                exact .jumped runs rfl isTop ⟨moves.base.trans continues.base,
                  moves.top.trans continues.top, moves.unit.trans continues.unit, moves.pc⟩
                  isPending

/-! ### Falling through -/

/-- Reaching the end of a region is the start of its clause. -/
theorem attempts_fall (runs : machine.RunsOn context)
    (isFrames : context.activations = frame :: below) (laidOut : LaidOut stop (frame :: below))
    (inside : stop ≤ below.length) (isPending : context.pending = none) :
    Attempts stop .fall (frame :: below) (.ok none machine) := by
  obtain ⟨unit, isUnit, layout, -⟩ := laidOut frame below (List.suffix_refl _) inside
  have isTarget : frame.fallTarget =
      (unit.fallenOut (unit.ensuresAround frame.pc) frame.pc).foldl
        (fun _ handler => unit.clauseEnd handler) frame.pc := by
    rw [Frame.fallTarget, isUnit]
  have staysHere (noClause : unit.fallenOut (unit.ensuresAround frame.pc) frame.pc = []) :
      Attempts stop .fall (frame :: below) (.ok none machine) := by
    refine .inr ⟨?_, .fell runs rfl isFrames ⟨rfl, rfl, rfl, ?_⟩ isPending⟩
    · rw [clausesLeft, starts_of_unit isUnit, noClause, List.map_nil]
    · rw [isTarget, noClause, List.foldl_nil]
  cases around : unit.ensuresAround frame.pc with
  | nil => exact staysHere (by rw [around, CodeUnit.fallenOut])
  | cons handler outer =>
      obtain ⟨member, isEnsure, isHandler, atEnd⟩ := layout.ensuresAround_eq_cons around
      by_cases atLast : handler.last.toNat = frame.pc
      · have first : unit.fallenOut (unit.ensuresAround frame.pc) frame.pc =
            handler :: unit.fallenOut (unit.ensuresAround (unit.clauseEnd handler))
              (unit.clauseEnd handler) := by
          rw [around, CodeUnit.fallenOut, if_pos atLast, atEnd]
        have isStart : frame.pc = handler.target.toNat := by
          rw [layout.behind handler member isEnsure, atLast]
        refine .inl ⟨machine, rfl, .into runs (List.suffix_refl _) inside isUnit member isEnsure
          isFrames ⟨rfl, rfl, rfl, isStart⟩ ?_ ?_ nofun ?_⟩
        · rw [Departure.StoredAs, Context.pendingValue, isPending]
        · rw [isPending]
          exact nofun
        · intro resumed continues
          have resumedUnit := continues.unit.trans isUnit
          refine ⟨?_, fun result done => ?_⟩
          · rw [clausesLeft, clausesLeft, starts_of_unit isUnit, first, List.map_cons,
              starts_of_unit resumedUnit, continues.pc]
          · cases done with
            | fell runs split isTop moves isPending =>
                obtain ⟨rfl, rfl⟩ := List.cons.inj split
                have sameTarget : resumed.fallTarget = frame.fallTarget := by
                  rw [isTarget, first, List.foldl_cons, Frame.fallTarget, resumedUnit,
                    continues.pc]
                refine .fell runs rfl isTop ⟨moves.base.trans continues.base,
                  moves.top.trans continues.top, moves.unit.trans continues.unit, ?_⟩ isPending
                rw [moves.pc, sameTarget]
      · exact staysHere (by rw [around, CodeUnit.fallenOut, if_neg atLast])

end RiteVm
