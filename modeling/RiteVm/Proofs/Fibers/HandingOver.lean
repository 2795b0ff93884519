import RiteVm.Proofs.Fibers.Traces

/-!
Contract: an instruction that hands values over ends the resume in progress with them.

Owns:
- values that are packed as one, and what leaves them as they are;
- calls by instructions that enter a method which is no bytecode, in a frame of its own;
- the end of such a call, of its cycle and loop, and of the resume, when it hands values over.
-/

namespace RiteVm

open RiteVm.Bytecode

/-- Instructions that call a method by name. -/
def Bytecode.Opcode.isSend : Opcode → Bool
  | .send | .sendBlock | .sendSelf | .sendSelfBlock => true
  | _ => false

/-! ### Packed values -/

/-- A value stands for several ones: none is nil, one is itself, and several are an array. -/
def Machine.Packs (machine : Machine) (values : List Value) (value : Value) : Prop :=
  match values with
  | [] => value = .nil
  | [single] => value = single
  | values => ∃ handle object, value = .object handle ∧ machine.heap.get? handle = some object ∧
      object.content = .array values.toArray

/-- Objects that are no fibers are as they were. -/
def Machine.KeepsData (before after : Machine) : Prop :=
  ∀ handle object, before.heap.get? handle = some object → object.fiber? = none →
    after.heap.get? handle = some object

section Packs

variable {before machine after : Machine} {values : List Value} {value : Value}

theorem Machine.KeepsData.of_cells (same : after.heap.cells = before.heap.cells) :
    before.KeepsData after := by
  intro handle object found _
  rw [Heap.get?, same]
  exact found

theorem Machine.KeepsData.trans (first : before.KeepsData machine)
    (second : machine.KeepsData after) : before.KeepsData after :=
  fun handle object found plain => second handle object (first handle object found plain) plain

theorem Machine.Packs.keepsData (packs : before.Packs values value)
    (keeps : before.KeepsData after) : after.Packs values value := by
  match values, packs with
  | [], isNil => exact isNil
  | [_], isSingle => exact isSingle
  | _ :: _ :: _, ⟨handle, object, isValue, found, isArray⟩ =>
      exact ⟨handle, object, isValue, keeps handle object found (by rw [Object.fiber?, isArray]),
        isArray⟩

/-- Packing values changes nothing but the heap. -/
theorem VM.packValues_ok (wellFormed : machine.heap.WellFormed) (values : List Value) :
    ∃ value heap, VM.packValues values machine = .ok value { machine with heap } ∧
      { machine with heap }.Packs values value ∧ machine.KeepsFibers { machine with heap } := by
  match values with
  | [] => exact ⟨.nil, machine.heap, rfl, rfl, .refl machine⟩
  | [single] => exact ⟨single, machine.heap, rfl, rfl, .refl machine⟩
  | first :: second :: rest =>
      let object : Object :=
        { classHandle := machine.coreClass .array
          content := .array (first :: second :: rest).toArray }
      have quiet : Quiet (VM.newArray (first :: second :: rest).toArray) := inferInstance
      refine ⟨.object (machine.heap.allocate object).2, (machine.heap.allocate object).1, rfl,
        ⟨_, object, rfl, ?_, rfl⟩, quiet.quietFrom machine⟩
      exact (wellFormed.get?_allocate object _).trans (if_pos rfl)

end Packs

/-! ### Entering a method that is no bytecode -/

namespace VM

variable {tidy : Prop} {machine next entered : Machine} {receiverAt : Nat} {method : NativeMethod}
  {receiver : Value} {given : Args} {α : Type}

/-- What is done behind a machine is to run a method that is no bytecode in a frame of its own,
and to leave that frame. -/
structure Enters (machine : Machine) (action : Engine → VM (Option Exit)) (receiverAt : Nat)
    (method : NativeMethod) (receiver : Value) (given : Args) (entered : Machine) : Prop where
  runs : ∀ engine, action engine machine =
    (engine.native method receiver given >>= leaveNative receiverAt) entered
  linked : ∀ {tidy}, machine.Linked tidy → entered.Linked tidy
  beside : ∀ {tidy}, machine.Linked tidy → machine.Beside entered
  frames : ∃ frame : Frame, frame.base = receiverAt ∧ frame.env = none ∧
    entered.frames = machine.frames ++ [frame]

/-- What changes no frame may come first. -/
theorem Enters.behind {first : VM α} {rest : α → Engine → VM (Option Exit)} {value : α}
    (inPlace : InPlaceFrom machine first) (result : first machine = .ok value next)
    (enters : Enters next (rest value) receiverAt method receiver given entered) :
    Enters machine (fun engine => first >>= fun value => rest value engine) receiverAt method
      receiver given entered := by
  obtain ⟨keeps, frames⟩ := inPlace
  rw [after_of_ok result] at frames keeps
  exact
    { runs := fun engine => (bind_of_ok result).trans (enters.runs engine)
      linked := fun linked => enters.linked (keeps.linked linked)
      beside := fun linked => (Machine.Beside.of_keepsOthers linked keeps).trans
        (enters.beside (keeps.linked linked))
      frames := frames ▸ enters.frames }

/-- A value that an action returns has a property. -/
def Gives (property : α → Prop) (action : VM α) : Prop :=
  ∀ machine value next, action machine = .ok value next → property value

theorem Gives.behind {β : Type} {property : β → Prop} {first : VM α} {rest : α → VM β}
    (gives : ∀ value, Gives property (rest value)) : Gives property (first >>= rest) := by
  intro machine result last succeeded
  obtain ⟨value, next, -, succeeded⟩ := bind_eq_ok_iff.mp succeeded
  exact gives value next result last succeeded

theorem Gives.pure {property : α → Prop} {value : α} (holds : property value) :
    Gives property (Pure.pure value : VM α) := by
  intro machine result next succeeded
  cases succeeded
  exact holds

theorem gives_packForMissing (site : CallSite) (name : Symbol) :
    Gives (fun packed : CallSite => packed.receiverAt = site.receiverAt)
      (packForMissing site name) := by
  unfold packForMissing
  refine .behind fun _ => .behind fun _ => .behind fun _ => .behind fun _ => .behind fun _ => ?_
  dsimp only
  split
  · exact .behind fun _ => .behind fun _ => .pure rfl
  · exact .behind fun _ => .pure rfl

theorem gives_normalizeArgs (receiverAt operand : Nat) (withBlock : Bool) :
    Gives (fun site : CallSite => site.receiverAt = receiverAt)
      (normalizeArgs receiverAt operand withBlock) := by
  have finish (site : CallSite) (same : site.receiverAt = receiverAt) (block : Value) :
      Gives (fun site : CallSite => site.receiverAt = receiverAt) (do
        if !block.isNil then
          let _ ← expectProc block
        setSlot site.blockAt block
        return site : VM CallSite) := by
    dsimp only
    split
    · exact .behind fun _ => .behind fun _ => .pure same
    · exact .behind fun _ => .pure same
  dsimp only at finish
  unfold normalizeArgs
  dsimp only
  split <;> refine .behind fun block => ?_ <;> split
  · exact finish _ rfl _
  · split
    · exact .behind fun _ => .behind fun _ => finish _ rfl _
    · exact .behind fun _ => .behind fun _ => .behind fun _ => finish _ rfl _
  · exact finish _ rfl _
  · split
    · exact .behind fun _ => .behind fun _ => finish _ rfl _
    · exact .behind fun _ => .behind fun _ => .behind fun _ => finish _ rfl _

/-- Whenever an action comes to a method that is no bytecode, it enters the method. -/
class EntersAny (tidy : Prop) (receiverAt : Nat) (action : Engine → VM (Option Exit)) : Prop where
  enters : ∀ (machine : Machine) (engine : Engine) method receiver given entered,
    machine.Linked tidy → engine.ComesTo action machine (.native method receiver given) entered →
    Enters machine action receiverAt method receiver given entered

namespace EntersAny

theorem behind {first : VM α} [inPlace : InPlace first] {rest : α → Engine → VM (Option Exit)}
    (enters : ∀ value machine next, first machine = .ok value next →
      EntersAny tidy receiverAt (rest value)) :
    EntersAny tidy receiverAt fun engine => first >>= fun value => rest value engine where
  enters machine engine method receiver given entered linked comes := by
    have inPlaceFrom := inPlace.inPlaceFrom machine linked.wellFormed
    obtain ⟨value, next, result, comes⟩ := comes.behind
    have keeps := inPlaceFrom.keeps
    rw [after_of_ok result] at keeps
    exact .behind inPlaceFrom result ((enters value machine next result).enters next engine method
      receiver given entered (keeps.linked linked) comes)

theorem nothing {action : VM (Option Exit)} : EntersAny tidy receiverAt fun _ => action :=
  ⟨fun _ _ _ _ _ _ _ comes => absurd comes Engine.not_comesTo⟩

instance callNative (site : CallSite) (body : NativeMethod) (owner : Handle) (name : Symbol) :
    EntersAny tidy site.receiverAt fun engine => callNative engine site body owner name := by
  refine behind fun _ _ _ _ => behind fun args _ _ _ => behind fun receiver _ _ _ => ⟨?_⟩
  intro machine engine method self given entered linked comes
  have pushes : Pushes (fun frame => frame.base = site.receiverAt ∧ frame.env = none)
      (pushNativeFrame site owner name args.block) := by
    unfold VM.pushNativeFrame
    exact .behind fun _ => .frame ⟨rfl, rfl⟩
  obtain ⟨_, next, isPushed, comes⟩ := comes.behind
  change Engine.ComesTo _ (fun engine => engine.native body receiver args >>=
    leaveNative site.receiverAt) _ _ _ at comes
  obtain ⟨isPlace, rfl⟩ := comes.before.native
  obtain ⟨rfl, rfl, rfl⟩ := Place.native.inj isPlace
  have pushed {tidy : Prop} (linked : machine.Linked tidy) := pushes.pushesFrom tidy machine linked
  have isFrame := (pushed linked).pushed
  rw [isPushed] at isFrame
  obtain ⟨frame, ⟨isBase, noEnv⟩, isFrames⟩ := isFrame
  exact
    { runs := fun _ => bind_of_ok isPushed
      linked := fun linked => after_of_ok isPushed ▸ (pushed linked).linked
      beside := fun linked => after_of_ok isPushed ▸ (pushed linked).beside
      frames := ⟨frame, isBase, noEnv, isFrames⟩ }

instance callMethod (site : CallSite) (found : FoundMethod) (name : Symbol) :
    EntersAny tidy site.receiverAt fun engine => callMethod engine site found name := by
  obtain ⟨method, owner⟩ := found
  cases method with
  | native body => exact callNative site body owner name
  | proc body => exact nothing
  | undefined => exact nothing

instance dispatch (site : CallSite) (name : Symbol) :
    EntersAny tidy site.receiverAt fun engine => dispatch engine site name := by
  refine behind fun receiver _ _ _ => behind fun handle _ _ _ => behind fun found? _ _ _ => ?_
  cases found? with
  | some found => exact callMethod site found name
  | none =>
      refine behind fun missing? _ _ _ => ?_
      cases missing? with
      | none => exact nothing
      | some found =>
          refine behind fun site' machine next packed => ?_
          rw [← gives_packForMissing site name _ _ _ packed]
          exact callMethod site' found .methodMissing

instance send (base register : Nat) (name : Symbol) (operand : Nat) (withBlock : Bool) :
    EntersAny tidy (base + register) fun engine => send engine base register name operand withBlock := by
  refine behind fun site machine next normalized => ?_
  rw [← gives_normalizeArgs _ _ _ _ _ _ normalized]
  exact dispatch site name

instance sendSelf (base register : Nat) (name : Symbol) (operand : Nat) (withBlock : Bool) :
    EntersAny tidy (base + register) fun engine =>
      sendSelf engine base register name operand withBlock :=
  behind fun _ _ _ _ => behind fun _ _ _ _ => send base register name operand withBlock

end EntersAny

/-! ### Sends -/

/-- In a cycle of a loop, a frame executes an instruction that calls a method by name, which is
no bytecode. -/
structure Sends (engine : Engine) (stop : Nat) (machine : Machine) (frame : Frame)
    (instruction : Instruction) (method : NativeMethod) (receiver : Value) (given : Args)
    (entered : Machine) : Prop where
  isFrame : Query.frame machine.collectedIfDue = .ok frame
  decoded : frame.unit.bind (instructionAt? ·.code frame.pc) = some instruction
  isSend : instruction.op.isSend = true
  comes : engine.ComesTo (fun engine => cycle engine stop) machine
    (.native method receiver given) entered

theorem entersAny_execute (frame : Frame) (unit : CodeUnit) {instruction : Instruction} (stop : Nat)
    (isSend : instruction.op.isSend = true) :
    EntersAny tidy (frame.base + instruction.operands.a) fun engine =>
      execute { engine, stop, frame, unit } instruction := by
  have sends (action : Symbol → Engine → VM (Option Exit)) (register : Nat)
      (enters : ∀ name, EntersAny tidy (frame.base + instruction.operands.a) (action name)) :
      EntersAny tidy (frame.base + instruction.operands.a) fun engine =>
        unitSymbol unit register >>= fun name => action name engine :=
    .behind fun name _ _ _ => enters name
  unfold execute
  dsimp only
  generalize instruction.op = op at isSend
  cases op <;> 
    first | exact absurd isSend Bool.false_ne_true | exact sends _ _ fun name => inferInstance

theorem frames_of_activations {context : Context} {frame : Frame} {below : List Frame}
    (running : machine.context? machine.current = some context)
    (top : context.activations = frame :: below) : machine.frames = below.reverse ++ [frame] := by
  rw [Machine.frames_of_context? running, ← List.reverse_cons, ← top, Context.activations,
    List.reverse_reverse]

/-- The call is made in the frame that goes on behind the instruction. -/
theorem Sends.enters {engine : Engine} {stop : Nat} {frame : Frame} {instruction : Instruction}
    (linked : machine.Linked tidy)
    (sends : Sends engine stop machine frame instruction method receiver given entered) :
    (∀ engine, step engine stop machine.collectedIfDue =
      (engine.native method receiver given >>=
        leaveNative (frame.base + instruction.operands.a)) entered) ∧
    entered.Linked tidy ∧ entered.current = machine.collectedIfDue.current ∧
    ∃ below native, native.base = frame.base + instruction.operands.a ∧ native.env = none ∧
      machine.collectedIfDue.frames = below ++ [frame] ∧
      entered.frames = below ++ [{ frame with pc := instruction.next }, native] := by
  obtain ⟨isFrame, decoded, isSend, comes⟩ := sends
  obtain ⟨unit, isUnit, decoded⟩ := Option.bind_eq_some_iff.mp decoded
  have collects : CarriesFrom tidy machine collectIfDue := .of_carries linked
  rw [CarriesFrom, after_of_ok collectIfDue_ok] at collects
  obtain ⟨_, collected, isCollected, comes⟩ := comes.behind
  obtain rfl : machine.collectedIfDue = collected := by
    rw [collectIfDue_ok] at isCollected
    cases isCollected
    rfl
  obtain ⟨mark, _, marked, comes⟩ := comes.behind
  obtain ⟨-, rfl⟩ := liftM_eq_ok_iff.mp marked
  change Engine.ComesTo _ (fun engine => attempt (step engine stop) >>= conclude stop mark)
    _ _ _ at comes
  replace comes := comes.attempted
  generalize machine.collectedIfDue = machine at *
  have linked := collects.linked
  have steps (engine : Engine) : step engine stop machine =
      execute { engine, stop, frame, unit } instruction (machine.fetched instruction.next) := by
    refine (bind_of_ok (liftM_of_ok isFrame)).trans ?_
    rw [isUnit]
    dsimp only
    rw [decoded]
    rfl
  obtain ⟨context, running, top, isTop⟩ := frame_eq_ok_iff.mp isFrame
  have running' : (machine.fetched instruction.next).context?
      (machine.fetched instruction.next).current =
        some (context.modifyTop fun frame => { frame with pc := instruction.next }) :=
    Machine.context?_modifyContext running _
  have linked' : (machine.fetched instruction.next).Linked tidy :=
    ((Carries.modifyFrame ({ · with pc := instruction.next })).carriesFrom machine linked).linked
  have executes : engine.ComesTo
      (fun engine => execute { engine, stop, frame, unit } instruction)
      (machine.fetched instruction.next) (.native method receiver given) entered := by
    obtain ⟨engine', same, differs⟩ := comes
    exact ⟨engine', same, fun equal =>
      differs ((steps engine').trans (equal.trans (steps engine).symm))⟩
  have enters := (entersAny_execute frame unit stop isSend).enters _ _ _ _ _ _ linked' executes
  obtain ⟨native, isBase, noEnv, frames⟩ := enters.frames
  refine ⟨fun engine => (steps engine).trans (enters.runs engine), enters.linked linked',
    (enters.beside linked').current, top.reverse, native, isBase, noEnv,
    frames_of_activations running isTop, ?_⟩
  rw [frames, frames_of_activations running' (Context.activations_modify isTop _), List.append_assoc]
  rfl

/-! ### Handing values over -/

/-- If a fiber can hand values over, they are packed, and a fiber is running. -/
theorem yieldFiber_eq_ok {values : List Value} {result : Value} {handed : Machine}
    (wellFormed : machine.heap.WellFormed)
    (succeeds : yieldFiber values machine = .ok result handed) :
    ∃ value heap, handed = { machine with heap, yielded := some value } ∧
      { machine with heap }.Packs values value ∧ machine.KeepsFibers { machine with heap } ∧
      machine.currentFiber.isSome ∧
      ∃ context, machine.context? machine.current = some context ∧
        ((context.frames.toList.drop 1).dropLast.any fun frame =>
          frame.unit.isNone || frame.boundary) = false := by
  unfold yieldFiber at succeeds
  rw [get_bind] at succeeds
  split at succeeds
  · obtain ⟨_, _, raised, -⟩ := bind_eq_ok_iff.mp succeeds
    exact absurd raised raise_ne_ok
  · rename_i isFiber
    obtain ⟨context, _, read, succeeds⟩ := bind_eq_ok_iff.mp succeeds
    obtain ⟨running, rfl⟩ := liftM_eq_ok_iff.mp read
    split at succeeds
    · obtain ⟨_, _, raised, -⟩ := bind_eq_ok_iff.mp succeeds
      exact absurd raised raise_ne_ok
    · rename_i noneBetween
      obtain ⟨value, heap, packed, packs, keeps⟩ := packValues_ok wellFormed values
      obtain ⟨_, _, packed', handedOver⟩ := bind_eq_ok_iff.mp succeeds
      cases packed.symm.trans packed'
      cases handedOver
      refine ⟨value, heap, rfl, packs, keeps, ?_, context, context_eq_ok_iff.mp running,
        Bool.eq_false_of_not_eq_true noneBetween⟩
      rwa [Option.isNone_iff_eq_none, ← ne_eq, Option.ne_none_iff_isSome] at isFiber

/-- What comes behind a method that hands a value over. -/
theorem leaveNative_yielded {value : Value} {handed : Machine}
    (isYielded : handed.yielded = some value) (register : Nat) (result : Value) :
    leaveNative register result handed =
      .ok (some (.yielded value)) { handed with yielded := none } := by
  have taken : takeYielded handed = .ok (some value) { handed with yielded := none } := by
    rw [← isYielded]
    rfl
  exact bind_of_ok taken

/-- A cycle comes to a method if its step runs the method, and the method hands a value over. -/
theorem comesTo_cycle {engine : Engine} {stop register : Nat} {result value : Value}
    {handed : Machine} (runs : ∀ engine, step engine stop machine.collectedIfDue =
      (engine.native method receiver given >>= leaveNative register) entered)
    (succeeds : engine.native method receiver given entered = .ok result handed)
    (isYielded : handed.yielded = some value) :
    engine.ComesTo (fun engine => cycle engine stop) machine (.native method receiver given)
      entered := by
  have cycled (engine : Engine) {result : Except Failure (Option Exit)} {next : Machine}
      (ran : (engine.native method receiver given >>= leaveNative register) entered =
        ended result next) :
      cycle engine stop machine =
        conclude stop machine.collectedIfDue.heap.arenaMark result next := by
    rw [cycle_eq, settle, bind_of_ok (attempt_of_ended ((runs engine).trans ran))]
    rfl
  have idle : (Engine.ofHosts #[] 0).native method receiver given entered =
      .error .outOfFuel entered := rfl
  have differs : cycle (.ofHosts #[] 0) stop machine ≠ cycle engine stop machine := by
    rw [@cycled (.ofHosts #[] 0) (.error .outOfFuel) _ (bind_of_error idle),
      @cycled engine (.ok (some (.yielded value))) _
        ((bind_of_ok succeeds).trans (leaveNative_yielded isYielded register result))]
    rintro ⟨⟩
  refine engine.comesTo_of_same (fun engine engine' alike => ?_) differs
  obtain ⟨result, next, ran⟩ :=
    exists_ended (engine.native method receiver given >>= leaveNative register) entered
  refine (cycled engine' ?_).trans (cycled engine ran).symm
  rw [← ran]
  show EStateM.bind _ _ _ = EStateM.bind _ _ _
  rw [EStateM.bind, EStateM.bind, alike]

/-- A send that hands a value over ends the loop with the value, and leaves the frame of the
method where it is. -/
theorem Sends.handsOver {engine : Engine} {stop : Nat} {frame : Frame} {instruction : Instruction}
    {result value : Value} {handed : Machine} (linked : machine.Linked tidy)
    (sends : Sends engine stop machine frame instruction method receiver given entered)
    (succeeds : engine.native method receiver given entered = .ok result handed)
    (isYielded : handed.yielded = some value) :
    cycle engine stop machine = .ok (some (.yielded value))
      { handed with
        yielded := none
        heap := (handed.heap.restoreArena machine.collectedIfDue.heap.arenaMark).protect value } := by
  have left := leaveNative_yielded isYielded (frame.base + instruction.operands.a) result
  have stepped := ((sends.enters linked).1 engine).trans ((bind_of_ok succeeds).trans left)
  rw [cycle_eq, settle, bind_of_ok (attempt_of_ok stepped)]
  rfl

/-! ### The end of a resume -/

/-- An action leaves objects that are no fibers as they are. -/
class OnlyFibers {α : Type} (action : VM α) : Prop where
  keepsData : ∀ machine : Machine, machine.KeepsData (action.after machine)

namespace OnlyFibers

variable {β : Type}

instance seq {first : VM α} {rest : α → VM β} [onlyFirst : OnlyFibers first]
    [onlyRest : ∀ value, OnlyFibers (rest value)] : OnlyFibers (first >>= rest) where
  keepsData machine := by
    have keeps := onlyFirst.keepsData machine
    cases result : first machine with
    | ok value next =>
        rw [after_of_ok result] at keeps
        rw [after_bind_of_ok result]
        exact keeps.trans ((onlyRest value).keepsData next)
    | error failure next =>
        rw [after_of_error result] at keeps
        rw [after_of_error (bind_of_error result)]
        exact keeps

theorem of_cells {action : VM α}
    (same : ∀ machine, (action.after machine).heap.cells = machine.heap.cells) :
    OnlyFibers action :=
  ⟨fun machine => .of_cells (same machine)⟩

instance stays (value : α) : OnlyFibers (pure value : VM α) := of_cells fun _ => rfl

instance fails (failure : Failure) : OnlyFibers (throw failure : VM α) := of_cells fun _ => rfl

instance breaks (cause : Breach) : OnlyFibers (breach cause : VM α) := of_cells fun _ => rfl

instance reads : OnlyFibers (get : VM Machine) := of_cells fun _ => rfl

instance query (query : Query α) : OnlyFibers (liftM query : VM α) := of_cells fun machine => by
  cases read : query machine with
  | ok value => rw [after_of_ok (liftM_of_ok read)]
  | error breach => rw [after_of_error (liftM_of_error read)]

instance resolved (outcome : Except Failure α) : OnlyFibers (resolve outcome) := by
  cases outcome <;> exact of_cells fun _ => rfl

instance branch (condition : Prop) [Decidable condition] {yes no : VM α} [OnlyFibers yes]
    [OnlyFibers no] : OnlyFibers (if condition then yes else no) := by
  split <;> infer_instance

instance optionForM {action : α → VM PUnit} [∀ value, OnlyFibers (action value)]
    (value? : Option α) : OnlyFibers (value?.forM action) := by
  cases value? with
  | none => exact stays _
  | some value => exact inferInstanceAs (OnlyFibers (action value))

instance setFiberState (handle : Handle) (state : FiberState) :
    OnlyFibers (setFiberState handle state) where
  keepsData machine other object found plain := by
    cases read : Query.fiberRecord handle machine with
    | error breach =>
        rw [VM.setFiberState, after_of_error (bind_of_error (liftM_of_error read))]
        exact found
    | ok record =>
        have isFiber := Query.fiberRecord_eq_ok_iff.mp read
        rw [after_of_ok (setFiberState_of_found isFiber state)]
        have isOther : other ≠ handle := by
          rintro rfl
          obtain ⟨object', found', isRecord⟩ := Option.bind_eq_some_iff.mp isFiber
          cases found.symm.trans found'
          exact nomatch plain.symm.trans isRecord
        exact (Heap.get?_modify _ _ _ _).trans ((if_neg isOther).trans found)

instance withSignals (number : Nat) (change : FiberSignals → FiberSignals × α) :
    OnlyFibers (withSignals number change) := of_cells fun _ => rfl

instance completeCycle (fiber : Handle) (state : FiberState) :
    OnlyFibers (completeCycle fiber state) := by
  have wakes (wakers : List Waker) : OnlyFibers (modify fun machine : Machine =>
      { machine with woken := machine.woken ++ wakers } : VM PUnit) := of_cells fun _ => rfl
  unfold VM.completeCycle
  infer_instance

instance switchBack : OnlyFibers switchBack := by
  have goesBack (context : ContextId) (fiber? : Option Handle) :
      OnlyFibers (modify fun machine : Machine =>
        { machine with
          resumers := machine.resumers.dropLast, current := context
          currentFiber := fiber? } : VM PUnit) := of_cells fun _ => rfl
  unfold VM.switchBack
  refine @seq _ _ _ _ _ fun machine => ?_
  split <;> infer_instance

instance leaveFiber (handle : Handle) (context : ContextId) (exit : Exit) :
    OnlyFibers (leaveFiber handle context (.ok exit)) := by
  have removes : OnlyFibers (modify fun machine : Machine => machine.removeContext context : VM PUnit) :=
    of_cells fun _ => rfl
  have outcome : OnlyFibers (fiberOutcome (.ok exit)) := by
    cases exit <;> exact stays _
  unfold VM.leaveFiber
  dsimp only
  infer_instance

end OnlyFibers

section Leaving

variable {handle : Handle} {record : FiberRecord}

/-- The resumer receives the value that a fiber hands over, and the fiber is suspended. -/
theorem leaveFiber_yielded (linked : machine.Linked tidy)
    (found : machine.fiber? handle = some record) (waiting : machine.resumers ≠ []) (value : Value) :
    ∃ next, leaveFiber handle record.context (.ok (.yielded value)) machine = .ok value next ∧
      LeavesTo machine handle record .suspended next ∧ machine.KeepsData next := by
  obtain ⟨resumed, switched, back⟩ := switchBack_of_linked linked waiting
  have isFiber := back.restates.fibers handle
  rw [found] at isFiber
  have left : leaveFiber handle record.context (.ok (.yielded value)) machine =
      .ok value (afterCycle resumed handle _ .suspended) :=
    (bind_of_ok switched).trans (settle_of_found isFiber .suspended (.ok value))
  refine ⟨_, left, leavesTo_afterCycle back linked found isFiber .suspended, ?_⟩
  have keeps := (OnlyFibers.leaveFiber handle record.context (.yielded value)).keepsData machine
  rw [after_of_ok left] at keeps
  exact keeps

end Leaving

/-- A resume comes to the loop of the fiber that it has started. -/
theorem comesTo_started {handle : Handle} {record : FiberRecord} {args : List Value}
    {engine : Engine} {switched next : Machine} (linked : machine.Linked tidy)
    (resumable : Resumable machine handle record)
    (isSwitch : switchTo handle record.context machine = .ok () switched)
    (switches : SwitchesTo machine handle record switched)
    (began : startFiber record args switched = .ok () next)
    (isIntact : IsIntact (resume engine (.object handle) args machine)) :
    engine.ComesTo (fun engine => resume engine (.object handle) args) machine (.loop 0)
      (deeper next) := by
  have same (engine : Engine) := resume_of_resumable resumable engine args
  let broken : Engine := { engine with loop := fun _ => breach .endless }
  have runs : runFiber broken record args switched =
      ended (.error (.breach .endless)) (shallower (deeper next)) :=
    @Resumable.runFiber_of_started _ _ _ _ _ _ linked resumable switches _ began _
      (.error (.breach .endless)) _ rfl
  have breaks : ¬ IsIntact (resume broken (.object handle) args machine) := by
    rw [same, resumeFiber_of_ended isSwitch runs]
    exact not_isIntact_leaveFiber _ _ _ _
  have differs : resume broken (.object handle) args machine ≠
      resume engine (.object handle) args machine :=
    fun equal => breaks (equal ▸ isIntact)
  refine engine.comesTo_of_same (fun engine engine' alike => ?_) differs
  rw [same, same]
  exact (asksAt_of_started linked resumable isSwitch switches began).same engine engine' alike

/-- A resume that starts a loop has switched to the fiber, and started it. -/
theorem started_of_comesTo {handle : Handle} {args : List Value} {engine : Engine}
    {begun : Machine} (linked : machine.Linked tidy)
    (comes : engine.ComesTo (fun engine => resume engine (.object handle) args) machine (.loop 0)
      begun) :
    ∃ record switched next, Resumable machine handle record ∧
      switchTo handle record.context machine = .ok () switched ∧
      SwitchesTo machine handle record switched ∧
      startFiber record args switched = .ok () next ∧ begun = deeper next := by
  by_cases isReady : ∃ record, Resumable machine handle record
  · obtain ⟨record, resumable⟩ := isReady
    obtain ⟨switched, isSwitch, switches⟩ := switchTo_of_linked linked resumable.found
    have same (engine : Engine) := resume_of_resumable resumable engine args
    have comes : engine.ComesTo (fun engine => resumeFiber engine handle record args) machine
        (.loop 0) begun := by
      obtain ⟨engine', isSame, differs⟩ := comes
      exact ⟨engine', isSame, fun equal =>
        differs ((same engine').trans (equal.trans (same engine).symm))⟩
    cases began : startFiber record args switched with
    | error failure next =>
        obtain ⟨engine', -, differs⟩ := comes
        exact absurd ((resumeFiber_of_notStarted isSwitch began engine').trans
          (resumeFiber_of_notStarted isSwitch began engine).symm) differs
    | ok _ next =>
        have asks := asksAt_of_started linked resumable isSwitch switches began
        exact ⟨record, switched, next, resumable, isSwitch, switches, began,
          (asks.eq_of_comesTo comes).2⟩
  · have rejected (other : Handle) (record : FiberRecord)
        (isFiber : Value.object handle = .object other) : ¬ Resumable machine other record := by
      cases isFiber
      exact fun resumable => isReady ⟨record, resumable⟩
    obtain ⟨failure, next, -, failed⟩ := resume_of_not_resumable rejected args
    obtain ⟨engine', -, differs⟩ := comes
    exact absurd ((failed engine').trans (failed engine).symm) differs

end VM

end RiteVm
