import RiteVm.Proofs.Unwinding.Layout
import RiteVm.Proofs.Unwinding.TopFrame

/-!
Contract: what an exit leaves and where it ends.

Owns:
- the ways in which control leaves an instruction, and the form in which they wait for the
  end of a clause;
- the clauses that an exit leaves, frame by frame, and what its completion is;
- frames that are laid out for it, and exits that have entered their first clause.

Does not own: that an exit enters its first clause, and the cycles that run clauses.
-/

namespace RiteVm

open RiteVm.Bytecode

/-- A way in which control leaves an instruction. -/
inductive Departure where
  /-- to the instruction behind it -/
  | fall
  /-- to an address of the same frame -/
  | jump (target : Nat)
  /-- to the caller of the frame with an index, with a value -/
  | leave (target : Nat) (value : Value)
  /-- to whatever rescues an exception -/
  | raise (exception : Handle)
deriving DecidableEq, Repr

/-- A jump or a return, which is no exception. -/
def Departure.IsExit : Departure → Prop
  | .jump _ | .leave _ _ => True
  | .fall | .raise _ => False

/-- The start of a clause in the frame with an index. -/
structure ClauseStart where
  frame : Nat
  address : Nat
deriving DecidableEq, Repr

namespace Frame

/-- The starts of the clauses that handlers of a frame have. -/
def starts (frame : Frame) (index : Nat)
    (select : CodeUnit → Nat → List CatchHandler) : List ClauseStart :=
  match frame.unit with
  | none => []
  | some unit => (select unit frame.pc).map fun handler => ⟨index, handler.target.toNat⟩

/-- The handler of the innermost region with a rescue clause around a frame's address. -/
def rescue? (frame : Frame) : Option CatchHandler :=
  frame.unit.bind fun unit => (unit.regionsAround frame.pc).find? fun handler => !handler.isEnsure

/-- The address that a frame reaches behind the clauses that it falls through. -/
def fallTarget (frame : Frame) : Nat :=
  match frame.unit with
  | none => frame.pc
  | some unit =>
    (unit.fallenOut (unit.ensuresAround frame.pc) frame.pc).foldl
      (fun _ handler => unit.clauseEnd handler) frame.pc

/-- The frame goes on at an address of its code. -/
structure ContinuesAt (frame : Frame) (pc : Nat) (next : Frame) : Prop where
  base : next.base = frame.base
  top : next.top = frame.top
  unit : next.unit = frame.unit
  pc : next.pc = pc

end Frame

/-- The clauses that a departure from a loop that ends with the frame `stop` leaves,
innermost first and frame by frame. -/
def clausesLeft (stop : Nat) : Departure → List Frame → List ClauseStart
  | _, [] => []
  | .fall, frame :: below =>
    frame.starts below.length fun unit pc => unit.fallenOut (unit.ensuresAround pc) pc
  | .jump target, frame :: below =>
    frame.starts below.length fun unit pc => unit.jumpedOut pc target
  | .leave target value, frame :: below =>
    frame.starts below.length CodeUnit.ensuresAround ++
      if below.length ≤ max target stop then [] else clausesLeft stop (.leave target value) below
  | .raise exception, frame :: below =>
    frame.starts below.length CodeUnit.raisedThrough ++
      if frame.rescue?.isSome ∨ below.length ≤ stop then []
      else clausesLeft stop (.raise exception) below

/-- How a departure from the innermost of some frames is complete. -/
inductive Completes (stop : Nat) (frames : List Frame) :
    Departure → EStateM.Result Failure Machine (Option Exit) → Prop where
  /-- the frame goes on behind the clauses -/
  | fell {last : Machine} {context : Context} {frame next : Frame} {below : List Frame} :
      last.RunsOn context → frames = frame :: below → context.activations = next :: below →
      frame.ContinuesAt frame.fallTarget next → context.pending = none →
      Completes stop frames .fall (.ok none last)
  /-- the frame goes on at the target -/
  | jumped {target : Nat} {last : Machine} {context : Context} {frame next : Frame}
      {below : List Frame} :
      last.RunsOn context → frames = frame :: below → context.activations = next :: below →
      frame.ContinuesAt target next → context.pending = none →
      Completes stop frames (.jump target) (.ok none last)
  /-- the loop ends with the value -/
  | returned {value : Value} {last : Machine} {context : Context} :
      last.RunsOn context → context.activations <:+ frames → context.activations.length = stop →
      Completes stop frames (.leave stop value) (.ok (some (.returned value)) last)
  /-- the caller of the target frame finds the value where its receiver was -/
  | delivered {target : Nat} {value : Value} {last : Machine} {context : Context}
      {frame : Frame} :
      stop < target → last.RunsOn context → frame :: context.activations <:+ frames →
      context.activations.length = target → context.slot frame.base = value →
      Completes stop frames (.leave target value) (.ok none last)
  /-- the target frame belongs to an outer loop, which the value is handed on to -/
  | handedOn {target : Nat} {value : Value} {last : Machine} {context : Context} :
      target < stop → last.RunsOn context → context.activations <:+ frames →
      context.activations.length = stop →
      Completes stop frames (.leave target value) (.error (.unwinding target value) last)
  /-- the innermost rescue clause of the highest frame that has one is entered with the
  exception -/
  | rescued {exception : Handle} {last : Machine} {context : Context}
      {left below : List Frame} {frame next : Frame} {handler : CatchHandler} :
      last.RunsOn context → frames = left ++ frame :: below → stop ≤ below.length →
      (∀ other ∈ left, other.rescue? = none) → frame.rescue? = some handler →
      context.activations = next :: below → frame.ContinuesAt handler.target.toNat next →
      context.pending = some { record := exception, kind := .rescue } →
      Completes stop frames (.raise exception) (.ok none last)
  /-- no frame of the loop rescues the exception, which ends the loop -/
  | uncaught {exception : Handle} {last : Machine} {context : Context} {left : List Frame} :
      last.RunsOn context → frames = left ++ context.activations →
      (∀ other ∈ left, other.rescue? = none) → context.activations.length = stop →
      Completes stop frames (.raise exception) (.error (.raised exception) last)

namespace Departure

/-- What the register of a clause holds while the departure waits for its end. -/
def StoredAs (departure : Departure) (heap : Heap) (value : Value) : Prop :=
  match departure with
  | fall => value = .nil
  | jump target => ∃ record object, value = .object record ∧ heap.get? record = some object ∧
      object.content = .exit { target := .address target, value := .nil }
  | leave target result => ∃ record object, value = .object record ∧
      heap.get? record = some object ∧
      object.content = .exit { target := .frame target, value := result }
  | raise exception => value = .object exception ∧
      ∃ object, heap.get? exception = some object ∧ object.exception?.isSome

/-- The record of a departure is an object of the heap. -/
theorem StoredAs.found {departure : Departure} {heap : Heap} {handle : Handle}
    (stored : departure.StoredAs heap (.object handle)) :
    ∃ object, heap.get? handle = some object := by
  cases departure with
  | fall => exact nomatch stored
  | jump target =>
      obtain ⟨record, object, isValue, found, -⟩ := stored
      exact ⟨object, Value.object.inj isValue ▸ found⟩
  | leave target result =>
      obtain ⟨record, object, isValue, found, -⟩ := stored
      exact ⟨object, Value.object.inj isValue ▸ found⟩
  | raise exception =>
      obtain ⟨isValue, object, found, -⟩ := stored
      exact ⟨object, Value.object.inj isValue ▸ found⟩

/-- What the machine does to go on with a departure. -/
def proceed (stop : Nat) : Departure → VM (Option Exit)
  | fall => return none
  | jump target => do
    VM.jumpUnwinding target
    return none
  | leave target value => VM.exitTo target value stop
  | raise exception => throw (.raised exception)

end Departure

/-- Every frame of the loop runs code with a property. -/
def EveryFrame (stop : Nat) (property : Frame → CodeUnit → Prop) (frames : List Frame) : Prop :=
  ∀ frame below, frame :: below <:+ frames → stop ≤ below.length →
    ∃ unit, frame.unit = some unit ∧ property frame unit

/-- The registers that the ensure clauses of a frame's code use are registers of the frame. -/
def HasClauseRegisters (frame : Frame) (unit : CodeUnit) : Prop :=
  ∀ handler ∈ unit.handlers, handler.isEnsure = true →
    ∀ clause, unit.clause? handler.target.toNat = some clause →
      frame.base + clause.register < frame.top

instance (frame : Frame) (unit : CodeUnit) : Decidable (HasClauseRegisters frame unit) :=
  inferInstanceAs (Decidable (∀ handler ∈ unit.handlers, handler.isEnsure = true →
    ∀ clause ∈ unit.clause? handler.target.toNat, frame.base + clause.register < frame.top))

/-- Every frame of the loop runs code whose ensure clauses stand behind their regions, and
has the registers that these clauses use. -/
def LaidOut (stop : Nat) (frames : List Frame) : Prop :=
  EveryFrame stop (fun frame unit => unit.EnsuresContained ∧ HasClauseRegisters frame unit) frames

/-- What the machine has to be like to go on with a departure. -/
def Departure.Ready (departure : Departure) (heap : Heap) (context : Context) : Prop :=
  match departure with
  | fall => context.pending = none
  | jump _ => True
  | leave target _ => target < context.activations.length
  | raise exception => ∃ object, heap.get? exception = some object ∧ object.exception?.isSome

/-- An attempt of a departure has entered its first clause: the clause is found at the
frame on top, the departure waits for it, and from its end the departure goes on to the
other clauses and to its completion. -/
inductive Diverted (stop : Nat) (departure : Departure) (frames : List Frame)
    (next : Machine) : Prop where
  | into {context : Context} {frame moved : Frame} {below : List Frame} {unit : CodeUnit}
      {handler : CatchHandler} :
      next.RunsOn context → frame :: below <:+ frames → stop ≤ below.length →
      frame.unit = some unit → handler ∈ unit.handlers → handler.isEnsure = true →
      context.activations = moved :: below → frame.ContinuesAt handler.target.toNat moved →
      departure.StoredAs next.heap context.pendingValue →
      (∀ pending, context.pending = some pending → pending.kind = .ensure) →
      (∀ target value, departure = .leave target value → target ≤ below.length) →
      (∀ resumed, frame.ContinuesAt (unit.clauseEnd handler) resumed →
        clausesLeft stop departure frames =
          ⟨below.length, handler.target.toNat⟩ :: clausesLeft stop departure (resumed :: below) ∧
        ∀ result, Completes stop (resumed :: below) departure result →
          Completes stop frames departure result) →
      Diverted stop departure frames next

section Frames

variable {stop target : Nat} {value : Value} {exception : Handle} {departure : Departure}
  {frame next : Frame} {frames below : List Frame} {pc : Nat}
  {result : EStateM.Result Failure Machine (Option Exit)}

theorem LaidOut.suffix (laidOut : LaidOut stop frames) (isSuffix : below <:+ frames) :
    LaidOut stop below :=
  fun frame rest inner inside => laidOut frame rest (inner.trans isSuffix) inside

theorem LaidOut.continuesAt (laidOut : LaidOut stop (frame :: below))
    (continues : frame.ContinuesAt pc next) : LaidOut stop (next :: below) := by
  intro other rest isSuffix inside
  rcases List.suffix_cons_iff.mp isSuffix with same | isBelow
  · obtain ⟨rfl, rfl⟩ := List.cons.inj same
    obtain ⟨unit, isUnit, layout, registers⟩ := laidOut frame rest (List.suffix_refl _) inside
    refine ⟨unit, continues.unit.trans isUnit, layout, ?_⟩
    rw [HasClauseRegisters, continues.base, continues.top]
    exact registers
  · exact laidOut other rest (isBelow.trans (List.suffix_cons _ _)) inside

/-- Where a frame returns to does not depend on the address that it has reached. -/
theorem Completes.leave_of_continuesAt (continues : frame.ContinuesAt pc next)
    (inside : stop ≤ below.length)
    (done : Completes stop (next :: below) (.leave target value) result) :
    Completes stop (frame :: below) (.leave target value) result := by
  have outside {rest : List Frame} (isSuffix : rest <:+ next :: below)
      (atStop : rest.length = stop) : rest <:+ frame :: below := by
    rcases List.suffix_cons_iff.mp isSuffix with same | isBelow
    · rw [same, List.length_cons] at atStop
      omega
    · exact isBelow.trans (List.suffix_cons _ _)
  cases done with
  | returned runs isSuffix atStop => exact .returned runs (outside isSuffix atStop) atStop
  | handedOn beyond runs isSuffix atStop =>
      exact .handedOn beyond runs (outside isSuffix atStop) atStop
  | delivered beyond runs isSuffix atTarget stored =>
      rcases List.suffix_cons_iff.mp isSuffix with same | isBelow
      · obtain ⟨isTop, isBelow⟩ := List.cons.inj same
        rw [isTop, continues.base] at stored
        exact .delivered beyond runs (isBelow ▸ List.suffix_refl _) atTarget stored
      · exact .delivered beyond runs (isBelow.trans (List.suffix_cons _ _)) atTarget stored

theorem Completes.leave_of_below (done : Completes stop below (.leave target value) result) :
    Completes stop (frame :: below) (.leave target value) result := by
  have outer {rest : List Frame} (isSuffix : rest <:+ below) : rest <:+ frame :: below :=
    isSuffix.trans (List.suffix_cons _ _)
  cases done with
  | returned runs isSuffix atStop => exact .returned runs (outer isSuffix) atStop
  | handedOn beyond runs isSuffix atStop => exact .handedOn beyond runs (outer isSuffix) atStop
  | delivered beyond runs isSuffix atTarget stored =>
      exact .delivered beyond runs (outer isSuffix) atTarget stored

/-- What rescues an exception does not depend on the ensure clauses that it has passed. -/
theorem Completes.raise_of_rescue?_eq (sameRescue : next.rescue? = frame.rescue?)
    (continues : frame.ContinuesAt pc next) (inside : stop ≤ below.length)
    (done : Completes stop (next :: below) (.raise exception) result) :
    Completes stop (frame :: below) (.raise exception) result := by
  cases done with
  | @rescued _ last context left below' other moved handler runs split inside' noRescue rescues
      isTop moves isPending =>
      cases left with
      | nil =>
          obtain ⟨rfl, rfl⟩ := List.cons.inj split
          have moves' : frame.ContinuesAt handler.target.toNat moved :=
            ⟨moves.base.trans continues.base, moves.top.trans continues.top,
              moves.unit.trans continues.unit, moves.pc⟩
          exact .rescued runs (List.nil_append _).symm inside (by simp)
            (sameRescue.symm.trans rescues) isTop moves' isPending
      | cons first left =>
          obtain ⟨rfl, rfl⟩ := List.cons.inj split
          refine .rescued runs (List.cons_append (a := frame)).symm inside' ?_ rescues isTop moves
            isPending
          intro other member
          rcases List.mem_cons.mp member with rfl | member
          · rw [← sameRescue]
            exact noRescue _ List.mem_cons_self
          · exact noRescue _ (List.mem_cons_of_mem _ member)
  | @uncaught _ last context left runs split noRescue atStop =>
      cases left with
      | nil =>
          rw [List.nil_append] at split
          rw [← split, List.length_cons] at atStop
          omega
      | cons first left =>
          obtain ⟨rfl, rfl⟩ := List.cons.inj split
          refine .uncaught runs (List.cons_append (a := frame)).symm ?_ atStop
          intro other member
          rcases List.mem_cons.mp member with rfl | member
          · rw [← sameRescue]
            exact noRescue _ List.mem_cons_self
          · exact noRescue _ (List.mem_cons_of_mem _ member)

theorem Completes.raise_of_below (noRescue : frame.rescue? = none)
    (done : Completes stop below (.raise exception) result) :
    Completes stop (frame :: below) (.raise exception) result := by
  have noneLeft {left : List Frame} (noneBelow : ∀ other ∈ left, other.rescue? = none) :
      ∀ other ∈ frame :: left, other.rescue? = none := by
    intro other member
    rcases List.mem_cons.mp member with rfl | member
    · exact noRescue
    · exact noneBelow other member
  cases done with
  | rescued runs split inside noneBelow rescues isTop moves isPending =>
      refine .rescued runs ?_ inside (noneLeft noneBelow) rescues isTop moves isPending
      rw [split, List.cons_append]
  | uncaught runs split noneBelow atStop =>
      refine .uncaught runs ?_ (noneLeft noneBelow) atStop
      rw [split, List.cons_append]

/-- A clause of the frames below is the first one if the frame on top has none. -/
theorem Diverted.of_below {machine : Machine} (diverted : Diverted stop departure below machine)
    (sameClauses : clausesLeft stop departure (frame :: below) = clausesLeft stop departure below)
    (completes : ∀ result, Completes stop below departure result →
      Completes stop (frame :: below) departure result) :
    Diverted stop departure (frame :: below) machine := by
  obtain ⟨runs, isSuffix, inside, isUnit, member, isEnsure, isTop, moved, stored, isKind, fits,
    resumes⟩ := diverted
  refine .into runs (isSuffix.trans (List.suffix_cons _ _)) inside isUnit member isEnsure isTop
    moved stored isKind fits ?_
  intro resumed continues
  obtain ⟨clauses, completes'⟩ := resumes resumed continues
  exact ⟨sameClauses.trans clauses, fun result done => completes result (completes' result done)⟩

end Frames

end RiteVm
