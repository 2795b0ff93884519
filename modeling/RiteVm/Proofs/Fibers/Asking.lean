import RiteVm.Proofs.Fibers.Onward
import RiteVm.Proofs.Fibers.Runs
import RiteVm.Proofs.Unwinding.Clauses

/-!
Contract: a call and an instruction start at most one loop or method each.

Owns:
- the one place at which an action asks the engine, and what it does behind the answer;
- one instance for each way to call, for the operators and for an instruction;
- entry points and cycles, which come to one place at most.

So what goes on inside of a call is what goes on at one place, and what was there before and
is there afterwards follows from the two ends of that place.
-/

namespace RiteVm

open RiteVm.Bytecode

/-! ### Captured variables -/

/-- The slot of a register stack in which a captured variable lives. -/
def EnvStorage.slot? (storage : EnvStorage) (register : Nat) : Option (ContextId × Nat) :=
  match storage with
  | .onStack id _ base count => if register < count then some (id, base + register) else none
  | .detached _ => none

namespace Query

/-- The slot of a register stack in which a variable of an environment lives. -/
def capturedSlot? (env : Handle) (register : Nat) : Query (Option (ContextId × Nat)) := do
  return (← envRecord env).storage.slot? register

/-- The slot of a register stack that the next instruction writes because it sets a captured
variable. -/
def writtenSlot? : Query (Option (ContextId × Nat)) := do
  let frame ← frame
  match frame.unit.bind (instructionAt? ·.code frame.pc) with
  | some instruction =>
    if instruction.op = .setCaptured then
      (← enclosingEnv? instruction.operands.c).bindM (capturedSlot? · instruction.operands.b)
    else return none
  | none => return none

end Query

/-- The slot that the next instruction writes because it sets a captured variable. -/
def Machine.writtenSlot? (machine : Machine) : Option (ContextId × Nat) :=
  match Query.writtenSlot? machine with
  | .ok slot? => slot?
  | .error _ => none

/-- What is written is where the variable lives that the instruction sets. -/
theorem Machine.writtenSlot?_of_setCaptured {machine : Machine} {frame : Frame} {unit : CodeUnit}
    {instruction : Instruction} {env : Handle} (isFrame : Query.frame machine = .ok frame)
    (isUnit : frame.unit = some unit)
    (decoded : instructionAt? unit.code frame.pc = some instruction)
    (isWrite : instruction.op = .setCaptured)
    (isEnv : Query.enclosingEnv? instruction.operands.c machine = .ok (some env)) :
    machine.writtenSlot? =
      match Query.capturedSlot? env instruction.operands.b machine with
      | .ok slot? => slot?
      | .error _ => none := by
  have read : Query.writtenSlot? machine = Query.capturedSlot? env instruction.operands.b machine := by
    rw [Query.writtenSlot?, Query.bind_of_ok isFrame, isUnit]
    simp only [Option.bind_some, decoded, if_pos isWrite]
    rw [Query.bind_of_ok isEnv]
    rfl
  rw [Machine.writtenSlot?, read]

/-! ### Answers -/

namespace Engine

/-- Two engines do the same at a place. -/
def AnswersAlike (engine engine' : Engine) : Place → Machine → Prop
  | .host, _ => True
  | .loop stop, start => engine.loop stop start = engine'.loop stop start
  | .native method self args, start =>
    engine.native method self args start = engine'.native method self args start

/-- What an engine does at a place breaks no invariant. -/
def IntactAt (engine : Engine) : Place → Machine → Prop
  | .host, _ => True
  | .loop stop, start => IsIntact (engine.loop stop start)
  | .native method self args, start => IsIntact (engine.native method self args start)

/-- The machine behind what an engine does at a place. -/
def behind (engine : Engine) : Place → Machine → Machine
  | .host, start => start
  | .loop stop, start => (engine.loop stop).after start
  | .native method self args, start => (engine.native method self args).after start

theorem SameBut.alike {engine engine' : Engine} {place place' : Place} {start start' : Machine}
    (same : engine.SameBut place start engine') (isOther : ¬ (place = place' ∧ start = start')) :
    engine.AnswersAlike engine' place' start' := by
  cases place' with
  | host => trivial
  | loop stop => exact (same.loop stop start' isOther).symm
  | native method self args => exact (same.native method self args start' isOther).symm

open Classical in
/-- An engine that does at one place what another one does. -/
noncomputable def patched (engine engine' : Engine) (place : Place) (start : Machine) : Engine where
  loop stop machine :=
    if place = .loop stop ∧ start = machine then engine'.loop stop machine
    else engine.loop stop machine
  native method self args machine :=
    if place = .native method self args ∧ start = machine then
      engine'.native method self args machine
    else engine.native method self args machine
  rounds := engine.rounds

theorem sameBut_patched (engine engine' : Engine) (place : Place) (start : Machine) :
    engine.SameBut place start (engine.patched engine' place start) where
  rounds := rfl
  loop _ _ isOther := if_neg isOther
  native _ _ _ _ isOther := if_neg isOther

theorem patched_alike (engine engine' : Engine) (place : Place) (start : Machine) :
    engine'.AnswersAlike (engine.patched engine' place start) place start := by
  cases place with
  | host => trivial
  | loop stop => exact (if_pos ⟨rfl, rfl⟩).symm
  | native method self args => exact (if_pos ⟨rfl, rfl⟩).symm

/-- An action comes to a place if it depends on the engine, and on nothing but the answer there. -/
theorem comesTo_of_same {α : Type} {action : Engine → VM α} {machine start : Machine}
    {place : Place} (engine : Engine) {engine' : Engine}
    (same : ∀ engine engine', engine.AnswersAlike engine' place start →
      action engine' machine = action engine machine)
    (differs : action engine' machine ≠ action engine machine) :
    engine.ComesTo action machine place start := by
  refine ⟨engine.patched engine' place start, engine.sameBut_patched _ _ _, fun equal => differs ?_⟩
  exact (same _ _ (engine.patched_alike engine' place start)).symm.trans equal

/-- Without fuel, an engine does nothing at all. -/
theorem agrees_idle (tidy : Prop) : (ofHosts #[] 0).Agrees tidy (ofHosts #[] 0) :=
  agrees_ofHosts (catchesAtMost_nothing tidy) (hostsConform_empty _) 0

theorem behind_idle (place : Place) (start : Machine) :
    (ofHosts #[] 0).behind place start = start := by
  cases place <;> rfl

end Engine

namespace VM

set_option synthInstance.maxSize 3000

variable {tidy : Prop} {machine : Machine} {written : Set (ContextId × Nat)} {stop : Nat} {α β : Type}

/-- From one machine, an action asks the engine at one place and in no other, and all it does
depends on the answer. -/
structure AsksAt (tidy : Prop) (written : Set (ContextId × Nat)) (machine : Machine)
    (action : Engine → VM α) (place : Place) (start : Machine) : Prop where
  moves : Machine.Moves tidy written machine start
  same : ∀ engine engine', engine.AnswersAlike engine' place start →
    action engine' machine = action engine machine
  ends : ∀ engine, engine.Agrees tidy engine →
    (engine.IntactAt place start → (engine.behind place start).Linked tidy) →
    IsIntact (action engine machine) →
    engine.IntactAt place start ∧
      Machine.Moves tidy ∅ (engine.behind place start) ((action engine).after machine)

/-- An action that depends on the engine comes to the place at which it asks. -/
theorem AsksAt.comesTo {action : Engine → VM α} {place : Place} {start : Machine}
    {engine engine' : Engine} (asks : AsksAt tidy written machine action place start)
    (differs : action engine' machine ≠ action engine machine) :
    engine.ComesTo action machine place start :=
  engine.comesTo_of_same asks.same differs

/-- It comes to no other place. -/
theorem AsksAt.eq_of_comesTo {action : Engine → VM α} {place place' : Place}
    {start start' : Machine} {engine : Engine}
    (asks : AsksAt tidy written machine action place start)
    (comes : engine.ComesTo action machine place' start') : place' = place ∧ start' = start := by
  obtain ⟨engine', same, differs⟩ := comes
  by_contra isOther
  exact differs (asks.same _ _ (same.alike isOther))

/-- From one machine, an action asks the engine at one place at most. -/
inductive AsksFrom (tidy : Prop) (written : Set (ContextId × Nat)) (machine : Machine)
    (action : Engine → VM α) : Prop where
  | nothing :
      (∀ engine engine', action engine' machine = action engine machine) →
      (∀ engine, IsIntact (action engine machine) →
        Machine.Moves tidy written machine ((action engine).after machine)) →
      AsksFrom tidy written machine action
  | once (place : Place) (start : Machine) :
      AsksAt tidy written machine action place start → AsksFrom tidy written machine action

/-- An action asks the engine at one place at most, and writes no slot of another stack. -/
class Asks (tidy : Prop) (action : Engine → VM α) : Prop where
  asksFrom : ∀ machine, machine.Linked tidy → AsksFrom tidy ∅ machine action

/-- What hands on that an invariant is broken. -/
class HandsOn (finish : Except Failure α → VM β) : Prop where
  notIntact : ∀ breach machine, ¬ IsIntact (finish (.error (.breach breach)) machine)

/-! ### Composition -/

section Composition

variable {action : Engine → VM α}

theorem AsksFrom.of_carriesFrom {action : VM α}
    (carries : Machine.Moves tidy written machine (action.after machine)) :
    AsksFrom tidy written machine fun _ => action :=
  .nothing (fun _ _ => rfl) fun _ _ => carries

theorem AsksFrom.congr {action' : Engine → VM α} {machine' : Machine}
    (asks : AsksFrom tidy written machine' action')
    (moves : Machine.Moves tidy ∅ machine machine')
    (same : ∀ engine, action engine machine = action' engine machine') :
    AsksFrom tidy written machine action := by
  rcases asks with ⟨alone, ends⟩ | ⟨place, start, moves', alike, ends⟩
  · refine .nothing (fun engine engine' => ?_) fun engine isIntact => ?_
    · rw [same, same, alone engine engine']
    · rw [same] at isIntact
      rw [after_congr (same engine)]
      exact moves.empty_trans (ends engine isIntact)
  · refine .once place start ⟨moves.empty_trans moves', fun engine engine' isAlike => ?_,
      fun engine agrees linked isIntact => ?_⟩
    · rw [same, same, alike engine engine' isAlike]
    · rw [same] at isIntact
      rw [after_congr (same engine)]
      exact ends engine agrees linked isIntact

theorem AsksFrom.mono {action : Engine → VM α} {written' : Set (ContextId × Nat)}
    (asks : AsksFrom tidy written machine action) (more : written ⊆ written') :
    AsksFrom tidy written' machine action := by
  rcases asks with ⟨alone, ends⟩ | ⟨place, start, moves, alike, ends⟩
  · exact .nothing alone fun engine isIntact =>
      ⟨(ends engine isIntact).linked, (ends engine isIntact).onward.mono more⟩
  · exact .once place start ⟨⟨moves.linked, moves.onward.mono more⟩, alike, ends⟩

/-- What an action does without an engine that goes on. -/
theorem AsksFrom.moves_idle (asks : AsksFrom tidy written machine action)
    (isIntact : IsIntact (action (.ofHosts #[] 0) machine)) :
    Machine.Moves tidy written machine ((action (.ofHosts #[] 0)).after machine) := by
  rcases asks with ⟨-, ends⟩ | ⟨place, start, moves, -, ends⟩
  · exact ends _ isIntact
  · have stays := Engine.behind_idle place start
    obtain ⟨-, goesOn⟩ := ends _ (Engine.agrees_idle tidy)
      (fun _ => stays.symm ▸ moves.linked) isIntact
    rw [stays] at goesOn
    exact moves.trans_empty goesOn

theorem AsksFrom.behind {first : VM α} {rest : α → Engine → VM β}
    (carries : CarriesFrom tidy machine first)
    (go : ∀ value next, first machine = .ok value next → next.Linked tidy →
      AsksFrom tidy written next (rest value)) :
    AsksFrom tidy written machine fun engine => first >>= fun value => rest value engine := by
  cases result : first machine with
  | ok value next =>
      rw [CarriesFrom, after_of_ok result] at carries
      exact (go value next result carries.linked).congr carries fun _ => bind_of_ok result
  | error failure next =>
      rw [CarriesFrom, after_of_error result] at carries
      have failed (engine : Engine) : (first >>= fun value => rest value engine) machine =
          .error failure next := bind_of_error result
      refine .nothing (fun engine engine' => by rw [failed, failed]) fun engine _ => ?_
      rw [after_of_error (failed engine)]
      exact ⟨carries.linked, carries.onward.mono (Set.empty_subset _)⟩

/-- What starts nothing may come behind what asks. -/
theorem AsksFrom.before {rest : α → VM β} [carries : ∀ value, Carries tidy (rest value)]
    (asks : AsksFrom tidy written machine action) :
    AsksFrom tidy written machine fun engine => action engine >>= rest := by
  have same {engine engine' : Engine} (alike : action engine' machine = action engine machine) :
      (action engine' >>= rest) machine = (action engine >>= rest) machine := by
    show EStateM.bind _ _ _ = EStateM.bind _ _ _
    rw [EStateM.bind, EStateM.bind, alike]
  have goesOn {engine : Engine} {written : Set (ContextId × Nat)} {before : Machine}
      (moves : Machine.Moves tidy written before ((action engine).after machine)) :
      Machine.Moves tidy written before ((action engine >>= rest).after machine) := by
    cases result : action engine machine with
    | ok value next =>
        rw [after_of_ok result] at moves
        rw [after_bind_of_ok result]
        exact moves.trans_empty ((carries value).carriesFrom next moves.linked)
    | error failure next =>
        rw [after_of_error result] at moves
        rw [after_of_error (bind_of_error result)]
        exact moves
  rcases asks with ⟨alone, ends⟩ | ⟨place, start, moves, alike, ends⟩
  · exact .nothing (fun engine engine' => same (alone engine engine'))
      fun engine isIntact => goesOn (ends engine (isIntact_of_bind isIntact))
  · refine .once place start ⟨moves, fun engine engine' isAlike => same (alike engine engine' isAlike),
      fun engine agrees linked isIntact => ?_⟩
    exact (ends engine agrees linked (isIntact_of_bind isIntact)).imp_right goesOn

/-- So may what starts nothing and sees also how the first part failed. -/
theorem AsksFrom.attempt_bind {finish : Except Failure α → VM β}
    [carries : ∀ result, Carries tidy (finish result)] [handsOn : HandsOn finish]
    (asks : AsksFrom tidy written machine action) :
    AsksFrom tidy written machine fun engine => attempt (action engine) >>= finish := by
  have same {engine engine' : Engine} (alike : action engine' machine = action engine machine) :
      (attempt (action engine') >>= finish) machine = (attempt (action engine) >>= finish) machine := by
    show EStateM.bind _ _ _ = EStateM.bind _ _ _
    rw [EStateM.bind, EStateM.bind, attempt, attempt, alike]
  have intact {engine : Engine} (isIntact : IsIntact ((attempt (action engine) >>= finish) machine)) :
      IsIntact (action engine machine) := by
    cases result : action engine machine with
    | ok value next => trivial
    | error failure next =>
        rw [bind_of_ok (attempt_of_error result)] at isIntact
        cases failure with
        | breach cause => exact absurd isIntact (handsOn.notIntact cause next)
        | _ => rfl
  have goesOn {engine : Engine} {written : Set (ContextId × Nat)} {before : Machine}
      (moves : Machine.Moves tidy written before ((action engine).after machine)) :
      Machine.Moves tidy written before ((attempt (action engine) >>= finish).after machine) := by
    cases result : action engine machine with
    | ok value next =>
        rw [after_of_ok result] at moves
        rw [after_bind_of_ok (attempt_of_ok result)]
        exact moves.trans_empty ((carries _).carriesFrom next moves.linked)
    | error failure next =>
        rw [after_of_error result] at moves
        rw [after_bind_of_ok (attempt_of_error result)]
        exact moves.trans_empty ((carries _).carriesFrom next moves.linked)
  rcases asks with ⟨alone, ends⟩ | ⟨place, start, moves, alike, ends⟩
  · exact .nothing (fun engine engine' => same (alone engine engine'))
      fun engine isIntact => goesOn (ends engine (intact isIntact))
  · refine .once place start ⟨moves, fun engine engine' isAlike => same (alike engine engine' isAlike),
      fun engine agrees linked isIntact => ?_⟩
    exact (ends engine agrees linked (intact isIntact)).imp_right goesOn

namespace Asks

instance ofCarries {action : VM α} [carries : Carries tidy action] :
    Asks tidy fun _ => action :=
  ⟨fun machine linked => .of_carriesFrom (carries.carriesFrom machine linked)⟩

instance behind {first : VM α} {rest : α → Engine → VM β} [carries : Carries tidy first]
    [asks : ∀ value, Asks tidy (rest value)] :
    Asks tidy fun engine => first >>= fun value => rest value engine where
  asksFrom machine linked := .behind (carries.carriesFrom machine linked)
    fun value next _ linked => (asks value).asksFrom next linked

instance before {rest : α → VM β} [asks : Asks tidy action]
    [∀ value, Carries tidy (rest value)] : Asks tidy fun engine => action engine >>= rest :=
  ⟨fun machine linked => (asks.asksFrom machine linked).before⟩

instance attempt_bind {finish : Except Failure α → VM β} [asks : Asks tidy action]
    [∀ result, Carries tidy (finish result)] [HandsOn finish] :
    Asks tidy fun engine => attempt (action engine) >>= finish :=
  ⟨fun machine linked => (asks.asksFrom machine linked).attempt_bind⟩

instance branch (condition : Prop) [Decidable condition] {yes no : Engine → VM α}
    [Asks tidy yes] [Asks tidy no] :
    Asks tidy fun engine => if condition then yes engine else no engine := by
  split <;> infer_instance

end Asks

end Composition

/-! ### Questions -/

namespace Asks

instance loop (stop : Nat) : Asks tidy fun engine => engine.loop stop where
  asksFrom machine linked :=
    .once (.loop stop) machine
      { moves := .refl linked
        same := fun _ _ alike => Eq.symm alike
        ends := fun _ _ linked isIntact => ⟨isIntact, .refl (linked isIntact)⟩ }

instance native (method : NativeMethod) (self : Value) (args : Args) :
    Asks tidy fun engine => engine.native method self args where
  asksFrom machine linked :=
    .once (.native method self args) machine
      { moves := .refl linked
        same := fun _ _ alike => Eq.symm alike
        ends := fun _ _ linked isIntact => ⟨isIntact, .refl (linked isIntact)⟩ }

instance nested {action : Engine → VM α} [asks : Asks tidy action] :
    Asks tidy fun engine => nested (action engine) := by
  have enter : Carries tidy (modify fun machine : Machine =>
      { machine with nativeDepth := machine.nativeDepth + 1 } : VM PUnit) :=
    ⟨fun machine linked => ⟨linked_deeper linked, .deeper machine⟩⟩
  have leave : Carries tidy (modify fun machine : Machine =>
      { machine with nativeDepth := machine.nativeDepth - 1 } : VM PUnit) :=
    ⟨fun machine linked => ⟨linked_shallower linked, .shallower machine⟩⟩
  have handsOn : HandsOn fun result : Except Failure α => (do
      modify fun machine => { machine with nativeDepth := machine.nativeDepth - 1 }
      resolve result : VM α) := ⟨fun _ _ => Bool.noConfusion⟩
  unfold VM.nested
  infer_instance

end Asks

/-! ### Calls -/

instance HandsOn.finishCall : HandsOn finishCall := ⟨fun _ _ => Bool.noConfusion⟩

namespace Asks

instance callNativeBody (receiver : Value) (body : NativeMethod) (owner : Handle)
    (name : Symbol) (args : Args) :
    Asks tidy fun engine => callNativeBody engine receiver body owner name args := by
  have finish (height : Nat) (result : Except Failure Value) : Carries tidy (do
      VM.truncateFrames height
      match result with
      | .ok value => return value
      | .error (.unwinding target value) =>
        if target = height then return value
        else VM.finishCall (.error (.unwinding target value))
      | .error failure => throw failure : VM Value) := by
    split <;> infer_instance
  have handsOn (height : Nat) : HandsOn fun result => (do
      VM.truncateFrames height
      match result with
      | .ok value => return value
      | .error (.unwinding target value) =>
        if target = height then return value
        else VM.finishCall (.error (.unwinding target value))
      | .error failure => throw failure : VM Value) := ⟨fun _ _ => Bool.noConfusion⟩
  unfold VM.callNativeBody
  infer_instance

instance callProcBody (receiver : Value) (proc owner : Handle) (name : Symbol) (args : Args) :
    Asks tidy fun engine => callProcBody engine receiver proc owner name args := by
  unfold VM.callProcBody
  infer_instance

instance callWithArgs (receiver : Value) (name : Symbol) (args : Args) :
    Asks tidy fun engine => callWithArgs engine receiver name args := by
  unfold VM.callWithArgs
  refine @behind _ _ _ _ _ _ fun _ => @behind _ _ _ _ _ _ fun resolved => ?_
  obtain ⟨found, name, args⟩ := resolved
  dsimp only
  split <;> infer_instance

instance callWith (receiver : Value) (name : Symbol) (args : List Value) :
    Asks tidy fun engine => callWith engine receiver name args :=
  callWithArgs _ _ _

instance callProc (proc : Value) (args : List Value) :
    Asks tidy fun engine => callProc engine proc args :=
  callWith _ _ _

instance funcall (receiver : Value) (name : String) (args : List Value) (block : Value) :
    Asks tidy fun engine => funcall engine receiver name args block := by
  unfold VM.funcall
  infer_instance

instance runUnit (unit : Bytecode.CodeUnit) (self : Value) (target : Handle) :
    Asks tidy fun engine => runUnit engine unit self target := by
  unfold VM.runUnit
  infer_instance

instance run (unit : Bytecode.CodeUnit) : Asks tidy fun engine => run engine unit := by
  unfold VM.run
  split <;> infer_instance

instance load (binary : Bytes) : Asks tidy fun engine => load engine binary := by
  unfold VM.load
  infer_instance

instance loadInto (binary : Bytes) (target : Handle) :
    Asks tidy fun engine => loadInto engine binary target := by
  unfold VM.loadInto
  infer_instance

instance callNative (site : CallSite) (body : NativeMethod) (owner : Handle) (name : Symbol) :
    Asks tidy fun engine => callNative engine site body owner name := by
  have leave (value : Value) : Carries tidy (leaveNative site.receiverAt value) := by
    unfold leaveNative
    refine @Carries.seq _ _ _ _ _ _ fun yielded? => ?_
    split <;> infer_instance
  unfold leaveNative at leave
  unfold VM.callNative
  infer_instance

instance callMethod (site : CallSite) (found : FoundMethod) (name : Symbol) :
    Asks tidy fun engine => callMethod engine site found name := by
  unfold VM.callMethod
  split <;> infer_instance

instance dispatch (site : CallSite) (name : Symbol) :
    Asks tidy fun engine => dispatch engine site name := by
  unfold VM.dispatch
  refine @behind _ _ _ _ _ _ fun receiver => @behind _ _ _ _ _ _ fun handle => ?_
  refine @behind _ _ _ _ _ _ fun found? => ?_
  split
  · infer_instance
  · refine @behind _ _ _ _ _ _ fun missing? => ?_
    split <;> infer_instance

instance send (base register : Nat) (name : Symbol) (operand : Nat) (withBlock : Bool) :
    Asks tidy fun engine => send engine base register name operand withBlock := by
  unfold VM.send
  infer_instance

instance sendSelf (base register : Nat) (name : Symbol) (operand : Nat) (withBlock : Bool) :
    Asks tidy fun engine => sendSelf engine base register name operand withBlock := by
  unfold VM.sendSelf
  infer_instance

instance callSuper (base register operand : Nat) :
    Asks tidy fun engine => callSuper engine base register operand := by
  unfold VM.callSuper
  refine @behind _ _ _ _ _ _ fun frame => ?_
  split
  · refine @behind _ _ _ _ _ _ fun receiver => @behind _ _ _ _ _ _ fun handle => ?_
    refine @behind _ _ _ _ _ _ fun found => ?_
    split <;> infer_instance
  · infer_instance

/-! ### Instructions -/

instance executeArithmetic (base register : Nat) (op : ArithOp) (method : Symbol) :
    Asks tidy fun engine => executeArithmetic engine base register op method := by
  unfold VM.executeArithmetic
  refine @behind _ _ _ _ _ _ fun left => @behind _ _ _ _ _ _ fun right => ?_
  refine @behind _ _ _ _ _ _ fun result? => ?_
  split <;> infer_instance

instance executeImmediate (base register number : Nat) (op : ArithOp) (method : Symbol) :
    Asks tidy fun engine => executeImmediate engine base register number op method := by
  unfold VM.executeImmediate
  refine @behind _ _ _ _ _ _ fun left => @behind _ _ _ _ _ _ fun result? => ?_
  split <;> infer_instance

instance executeComparison (base register : Nat) (op : CompareOp) :
    Asks tidy fun engine => executeComparison engine base register op := by
  unfold VM.executeComparison
  refine @behind _ _ _ _ _ _ fun left => @behind _ _ _ _ _ _ fun right => ?_
  split <;> infer_instance

instance executeEquality (base register : Nat) :
    Asks tidy fun engine => executeEquality engine base register := by
  unfold VM.executeEquality
  refine @behind _ _ _ _ _ _ fun left => @behind _ _ _ _ _ _ fun right => ?_
  split <;> infer_instance

instance executeGetIndex (base register : Nat) :
    Asks tidy fun engine => executeGetIndex engine base register := by
  unfold VM.executeGetIndex
  refine @behind _ _ _ _ _ _ fun receiver => @behind _ _ _ _ _ _ fun index => ?_
  refine @behind _ _ _ _ _ _ fun content? => ?_
  split <;> infer_instance

instance executeSetIndex (base register : Nat) :
    Asks tidy fun engine => executeSetIndex engine base register := by
  unfold VM.executeSetIndex
  refine @behind _ _ _ _ _ _ fun receiver => @behind _ _ _ _ _ _ fun index => ?_
  refine @behind _ _ _ _ _ _ fun value => @behind _ _ _ _ _ _ fun content? => ?_
  split <;> infer_instance

instance textBytes (value : Value) : Asks tidy fun engine => textBytes engine value := by
  unfold VM.textBytes
  split
  · infer_instance
  · infer_instance
  · refine @behind _ _ _ _ _ _ fun bytes? => ?_
    split
    · infer_instance
    · refine @before _ _ _ _ _ _ fun text => @Carries.seq _ _ _ _ _ _ fun textBytes? => ?_
      split <;> infer_instance
  · infer_instance

/-- Bytes that are appended to a string leave the stacks alone. -/
theorem quiet_appendBytes (handle : Handle) (tail : Bytes) : Quiet (do
    match (← Query.object handle).content with
    | .string bytes => do
      setContent handle (.string (bytes ++ tail))
      grow tail.size
    | _ => do
      fatal .appendToOther
      grow tail.size : VM Unit) := by
  refine ⟨fun machine => .query_bind fun object known => ?_⟩
  split
  · rename_i isString
    have wasPlain : object.fiber? = none := by rw [Object.fiber?, isString]
    exact .bind (.setContent (Query.object_eq_ok_iff.mp known) wasPlain rfl
      (Object.not_captures rfl)) fun _ _ _ => .of_quiet
  · exact .of_quiet

instance appendText (target value : Value) :
    Asks tidy fun engine => appendText engine target value := by
  have append (handle : Handle) (tail : Bytes) := quiet_appendBytes handle tail
  unfold VM.appendText
  refine @before _ _ _ _ _ _ fun tail => @Carries.seq _ _ _ _ _ _ fun _ => ?_
  dsimp only
  split <;> infer_instance

end Asks

/-- Every instruction but the one that sets a captured variable. -/
theorem Asks.execute (frame : Frame) (unit : CodeUnit) (instruction : Instruction)
    (noWrite : instruction.op ≠ .setCaptured) :
    Asks tidy fun engine => execute { engine, stop, frame, unit } instruction := by
  unfold VM.execute
  dsimp only
  split <;> first | infer_instance | exact absurd ‹_› noWrite


/-! ### Captured variables -/

/-- Setting a captured variable writes the slot in which it lives, if that is on a stack. -/
theorem moves_setCapturedVar (linked : machine.Linked tidy) (env : Handle) (register : Nat)
    (value : Value) :
    Machine.Moves tidy {slot | Query.capturedSlot? env register machine = .ok (some slot)} machine
      ((setCapturedVar env register value).after machine) := by
  have quiet {action : VM Unit} (quiet : QuietFrom machine action) {written : Set (ContextId × Nat)} :
      Machine.Moves tidy written machine (action.after machine) :=
    have moves := Machine.Moves.of_keepsFibers linked quiet
    ⟨moves.linked, moves.onward.mono (Set.empty_subset _)⟩
  rw [setCapturedVar]
  cases read : Query.envRecord env machine with
  | error breach =>
      rw [after_of_error (bind_of_error (liftM_of_error read))]
      exact ⟨linked, (Machine.Onward.refl linked.wellFormed).mono (Set.empty_subset _)⟩
  | ok record =>
      obtain ⟨object, found, isEnv⟩ :=
        Option.bind_eq_some_iff.mp (Query.envRecord_eq_ok_iff.mp read)
      rw [after_bind_of_ok (liftM_of_ok read)]
      have isSlot : Query.capturedSlot? env register machine = .ok (record.storage.slot? register) := by
        rw [Query.capturedSlot?, Query.bind_of_ok read]
        rfl
      split
      · rename_i id fiber base count onStack
        rw [onStack] at isSlot
        split
        · rename_i inside
          have captured : machine.heap.Captures id (base + register) :=
            ⟨env, object, found, record, fiber, base, count, isEnv, onStack, by omega, by omega⟩
          have keeps := keepsOthers_setCaptured linked.wellFormed captured value
          refine ⟨keeps.linked linked, .of_keepsOthers linked keeps fun other _ context isContext => ?_⟩
          have isWritten : Query.capturedSlot? env register machine = .ok (some (id, base + register)) := by
            rw [isSlot, EnvStorage.slot?, if_pos inside]
          change ∃ context', (machine.modifyContext id _).context? other = some context' ∧ _
          rw [Machine.context?_of_modifyContext]
          split
          · rename_i same
            rw [isContext]
            refine ⟨_, rfl, rfl, rfl, fun index unwritten => ?_⟩
            have isOther : base + register ≠ index := fun isIndex =>
              unwritten (same ▸ isIndex ▸ isWritten)
            rw [Context.slot, Context.slot, Array.getD_eq_getD_getElem?,
              Array.getD_eq_getD_getElem?, Array.getElem?_setIfInBounds_ne isOther]
          · exact ⟨context, isContext, rfl, rfl, fun _ _ => rfl⟩
        · exact quiet .of_quiet
      · exact quiet (Quiet.detach found isEnv)

theorem capturedSlot?_fetched (machine : Machine) (pc : Nat) (env : Handle) (register : Nat) :
    Query.capturedSlot? env register (machine.fetched pc) =
      Query.capturedSlot? env register machine := by
  have sameObject : Query.object env (machine.fetched pc) = Query.object env machine := rfl
  have sameRecord : Query.envRecord env (machine.fetched pc) = Query.envRecord env machine := by
    simp only [Query.envRecord, bind, ReaderT.bind, sameObject]
    cases Query.object env machine with
    | error breach => rfl
    | ok object =>
        dsimp only [Except.bind]
        cases object.env? <;> rfl
  change (Query.envRecord env (machine.fetched pc) >>= fun record =>
    Except.ok (record.storage.slot? register)) = _
  rw [sameRecord]
  rfl

theorem enclosingProc_fetched (machine : Machine) (pc level : Nat) (proc? : Option Handle) :
    Query.enclosingProc level proc? (machine.fetched pc) = Query.enclosingProc level proc? machine := by
  induction level generalizing proc? with
  | zero => rfl
  | succ level inductionHypothesis =>
      let upper : Query (Option Handle) :=
        proc?.bindM fun proc => do return (← Query.object proc).proc?.bind (·.upper)
      have same : upper (machine.fetched pc) = upper machine := by cases proc? <;> rfl
      change (upper (machine.fetched pc) >>= fun upper? =>
          Query.enclosingProc level upper? (machine.fetched pc)) =
        (upper machine >>= fun upper? => Query.enclosingProc level upper? machine)
      rw [same]
      simp only [inductionHypothesis]

theorem context_eq_ok_iff {context : Context} : Query.context machine = .ok context ↔
    machine.context? machine.current = some context := by
  rw [Query.context]
  cases machine.context? machine.current <;> simp

theorem frame_eq_ok_iff {frame : Frame} : Query.frame machine = .ok frame ↔
    ∃ context, machine.context? machine.current = some context ∧
      ∃ below, context.activations = frame :: below := by
  rw [Query.frame, Query.bind_eq_ok_iff]
  refine exists_congr fun context => and_congr context_eq_ok_iff ?_
  rw [← Array.getLast?_toList, ← List.head?_reverse, Context.activations]
  cases context.frames.toList.reverse <;>
    simp [Query.breach, Pure.pure, ReaderT.pure, Except.pure]

theorem frame_fetched {frame : Frame} (read : Query.frame machine = .ok frame) (pc : Nat) :
    Query.frame (machine.fetched pc) = .ok { frame with pc } := by
  obtain ⟨context, running, below, top⟩ := frame_eq_ok_iff.mp read
  have running' : (machine.fetched pc).context? (machine.fetched pc).current =
      some (context.modifyTop fun frame => { frame with pc }) :=
    Machine.context?_modifyContext running _
  exact frame_eq_ok_iff.mpr ⟨_, running', below, Context.activations_modify top _⟩

theorem enclosingEnv?_fetched {frame : Frame} (read : Query.frame machine = .ok frame)
    (pc level : Nat) :
    Query.enclosingEnv? level (machine.fetched pc) = Query.enclosingEnv? level machine := by
  rw [Query.enclosingEnv?, Query.bind_of_ok read, Query.bind_of_ok (frame_fetched read pc)]
  let env (proc? : Option Handle) : Query (Option Handle) :=
    proc?.bindM fun proc => do return (← Query.object proc).proc?.bind (·.env)
  have same (proc? : Option Handle) : env proc? (machine.fetched pc) = env proc? machine := by
    cases proc? <;> rfl
  change (Query.enclosingProc level frame.proc (machine.fetched pc) >>= fun proc? =>
      env proc? (machine.fetched pc)) =
    (Query.enclosingProc level frame.proc machine >>= fun proc? => env proc? machine)
  rw [enclosingProc_fetched]
  simp only [same]

theorem enclosingEnv_eq_ok {level : Nat} {env : Handle} {next : Machine}
    (found : enclosingEnv level machine = .ok env next) :
    machine = next ∧ Query.enclosingEnv? level machine = .ok (some env) := by
  rw [enclosingEnv] at found
  obtain ⟨env?, between, read, found⟩ := bind_eq_ok_iff.mp found
  obtain ⟨isEnv, rfl⟩ := liftM_eq_ok_iff.mp read
  cases env? with
  | none => exact nomatch found
  | some env =>
      cases found
      exact ⟨rfl, isEnv⟩

/-- An instruction asks the engine at one place at most, and writes a slot of another stack
only by setting a captured variable. -/
theorem asksFrom_step (linked : machine.Linked tidy) (stop : Nat) :
    AsksFrom tidy {slot | machine.writtenSlot? = some slot} machine
      fun engine => step engine stop := by
  unfold step
  refine .behind (.of_carries linked) fun frame next read linked => ?_
  obtain ⟨isFrame, rfl⟩ := liftM_eq_ok_iff.mp read
  split
  · exact .of_carriesFrom ⟨linked, (Machine.Onward.refl linked.wellFormed).mono (Set.empty_subset _)⟩
  · rename_i unit isUnit
    split
    · exact .of_carriesFrom ⟨linked, (Machine.Onward.refl linked.wellFormed).mono (Set.empty_subset _)⟩
    · rename_i instruction decoded
      refine .behind (.of_carries linked) fun _ next moved linked' => ?_
      obtain rfl : machine.fetched instruction.next = next := by
        cases moved
        rfl
      by_cases isWrite : instruction.op = .setCaptured
      · have isExecute (engine : Engine) : execute { engine, stop, frame, unit } instruction = (do
            let env ← enclosingEnv instruction.operands.c
            let value ← Query.register frame.base instruction.operands.a
            setCapturedVar env instruction.operands.b value
            return none : VM (Option Exit)) := by
          rw [execute]
          simp only [isWrite, bind_assoc]
        simp only [isExecute]
        refine .behind (.of_carries linked') fun env next isEnv linked' => ?_
        obtain ⟨rfl, isRead⟩ := enclosingEnv_eq_ok isEnv
        refine .behind (.of_carries linked') fun value next isValue linked' => ?_
        obtain ⟨-, rfl⟩ := liftM_eq_ok_iff.mp isValue
        refine AsksFrom.before (.of_carriesFrom ?_)
        have moves := moves_setCapturedVar linked' env instruction.operands.b value
        refine ⟨moves.linked, moves.onward.mono fun slot isSlot => ?_⟩
        have isWritten := Machine.writtenSlot?_of_setCaptured isFrame isUnit decoded isWrite
          ((enclosingEnv?_fetched isFrame _ _).symm.trans isRead)
        rw [← capturedSlot?_fetched machine instruction.next, isSlot] at isWritten
        exact isWritten
      · exact ((Asks.execute frame unit instruction isWrite).asksFrom _ linked').mono
          (Set.empty_subset _)

/-- So does a cycle of a loop. -/
theorem asksFrom_cycle (linked : machine.Linked tidy) (stop : Nat) :
    AsksFrom tidy {slot | machine.collectedIfDue.writtenSlot? = some slot} machine
      fun engine => cycle engine stop := by
  have handsOn (mark : Nat) : HandsOn (conclude stop mark) := ⟨fun _ _ => Bool.noConfusion⟩
  refine .behind (.of_carries linked) fun _ next collected linked => ?_
  obtain rfl : machine.collectedIfDue = next := by
    rw [collectIfDue_ok] at collected
    cases collected
    rfl
  refine .behind (.of_carries linked) fun mark next read linked => ?_
  obtain ⟨-, rfl⟩ := liftM_eq_ok_iff.mp read
  have concludes (result : Except Failure (Option Exit)) : Carries tidy (conclude stop mark result) :=
    inferInstance
  exact @AsksFrom.attempt_bind _ _ _ _ _ _ (conclude stop mark) _ _ (asksFrom_step linked stop)

/-! ### Resuming -/

section Resuming

variable {handle : Handle} {record : FiberRecord}

/-- Behind its cycle, a resume keeps what the cycle left of suspended fibers. -/
theorem Resumable.moves_ended {switched last : Machine} {engine : Engine} {args : List Value}
    {result : Except Failure Exit} (resumable : Resumable machine handle record)
    (linked : machine.Linked tidy) (agrees : engine.Agrees tidy engine)
    (isSwitch : switchTo handle record.context machine = .ok () switched)
    (switches : SwitchesTo machine handle record switched)
    (ran : runFiber engine record args switched = ended result last)
    (isIntact : IsIntact (resumeFiber engine handle record args machine)) :
    Machine.Moves tidy ∅ last ((resumeFiber engine handle record args).after machine) := by
  have resumed := resumeFiber_of_ended isSwitch ran
  rw [resumed] at isIntact
  have cycle : TracksFrom tidy (fun _ _ => True) (EndsCycle tidy) switched
      (runFiber engine record args) (runFiber engine record args) :=
    resumable.tracksFrom_runFiber linked switches args
  obtain ⟨leads, outcome, after, isLeft, -, returns⟩ :=
    resumable.returns linked switches cycle ran isIntact
  obtain ⟨record', found', -, leaves⟩ := returns.leaves
  have running : last.currentFiber = some handle :=
    leads.beside.currentFiber.trans switches.currentFiber
  rw [after_congr (resumed.trans isLeft), after_resolve]
  exact ⟨returns.linked, .of_keepsParked (leaves.keepsParked leads.linked found' running)⟩

section Started

variable {switched : Machine} {args : List Value} (linked : machine.Linked tidy)
  (resumable : Resumable machine handle record)
  (isSwitch : switchTo handle record.context machine = .ok () switched)
  (switches : SwitchesTo machine handle record switched)

include linked resumable switches

theorem Resumable.moves_started :
    Machine.Moves tidy ∅ machine ((startFiber record args).after switched) :=
  have linked' := switches.linked_after linked resumable.found resumable.waiting
  Machine.Moves.trans_empty ⟨linked', .of_keepsParked switches.keepsParked⟩
    (Carries.carriesFrom switched linked')

/-- The cycle of a fiber that was started is that of its loop. -/
theorem Resumable.runFiber_of_started {next : Machine}
    (began : startFiber record args switched = .ok () next) {engine : Engine}
    {result : Except Failure Exit} {last : Machine}
    (ran : engine.loop 0 (deeper next) = ended result last) :
    runFiber engine record args switched = ended result (shallower last) := by
  have room : HasRoom next := by
    have start : StartsFrom tidy switched (startFiber record args) :=
      startsFrom_startFiber (switches.linked_after linked resumable.found resumable.waiting)
        (resumable.deep_after switches linked) args
    have leads := start.leads (by rw [began]; trivial)
    rw [after_of_ok began] at leads
    rw [HasRoom, leads.beside.nativeDepth, leads.beside.config]
    exact resumable.room_after switches
  refine (bind_of_ok began).trans ((nested_of_room room _).trans ?_)
  rw [ran]
  cases result <;> rfl

include isSwitch

omit linked resumable switches in
/-- Without a start, the engine is of no matter. -/
theorem resumeFiber_of_notStarted {failure : Failure} {next : Machine}
    (began : startFiber record args switched = .error failure next) (engine : Engine) :
    resumeFiber engine handle record args machine =
      leaveFiber handle record.context (.error failure) next := by
  have fails : runFiber engine record args switched = ended (.error failure) next :=
    bind_of_error began
  exact resumeFiber_of_ended isSwitch fails

/-- A fiber that cannot be started asks for nothing. -/
theorem asksFrom_of_notStarted {failure : Failure} {next : Machine}
    (began : startFiber record args switched = .error failure next) :
    AsksFrom tidy ∅ machine fun engine => resumeFiber engine handle record args := by
  have starts : Machine.Moves tidy ∅ machine ((startFiber record args).after switched) :=
    resumable.moves_started linked switches
  have fails : runFiber (.ofHosts #[] 0) record args switched = ended (.error failure) next :=
    bind_of_error began
  have same (engine engine' : Engine) : resumeFiber engine' handle record args machine =
      resumeFiber engine handle record args machine :=
    (resumeFiber_of_notStarted isSwitch began engine').trans
      (resumeFiber_of_notStarted isSwitch began engine).symm
  rw [after_of_error began] at starts
  refine .nothing same fun engine isIntact => ?_
  rw [← same engine (.ofHosts #[] 0)] at isIntact
  rw [after_congr (same (.ofHosts #[] 0) engine)]
  exact starts.trans_empty (resumable.moves_ended linked (Engine.agrees_idle tidy) isSwitch switches
    fails isIntact)

/-- A fiber that was started asks for its loop. -/
theorem asksAt_of_started {next : Machine}
    (began : startFiber record args switched = .ok () next) :
    AsksAt tidy ∅ machine (fun engine => resumeFiber engine handle record args) (.loop 0)
      (deeper next) := by
  have starts : Machine.Moves tidy ∅ machine ((startFiber record args).after switched) :=
    resumable.moves_started linked switches
  have runs {engine : Engine} {result : Except Failure Exit} {last : Machine}
      (ran : engine.loop 0 (deeper next) = ended result last) :
      runFiber engine record args switched = ended result (shallower last) :=
    resumable.runFiber_of_started linked switches began ran
  rw [after_of_ok began] at starts
  refine
    { moves := starts.trans_empty ⟨linked_deeper starts.linked, .deeper next⟩
      same := fun engine engine' alike => ?_
      ends := fun engine agrees behind isIntact => ?_ }
  · obtain ⟨result, last, ran⟩ := exists_ended (engine.loop 0) (deeper next)
    exact (resumeFiber_of_ended isSwitch (runs (alike.symm.trans ran))).trans
      (resumeFiber_of_ended isSwitch (runs ran)).symm
  · obtain ⟨result, last, ran⟩ := exists_ended (engine.loop 0) (deeper next)
    have ends := resumable.moves_ended linked agrees isSwitch switches (runs ran) isIntact
    have intact : IsIntact (engine.loop 0 (deeper next)) := by
      rw [resumeFiber_of_ended isSwitch (runs ran)] at isIntact
      rw [ran]
      cases result with
      | ok exit => trivial
      | error failure =>
          cases failure with
          | breach cause => exact absurd isIntact (not_isIntact_leaveFiber _ _ _ _)
          | _ => rfl
    have isLast : (engine.loop 0).after (deeper next) = last := by
      rw [after, ran]
      cases result <;> rfl
    have linked := behind intact
    rw [Engine.behind, isLast] at linked ⊢
    exact ⟨intact, Machine.Moves.trans_empty ⟨linked_shallower linked, .shallower last⟩ ends⟩

end Started

instance Asks.resume (fiber : Value) (args : List Value) :
    Asks tidy fun engine => resume engine fiber args where
  asksFrom machine linked := by
    by_cases isReady : ∃ handle record, fiber = .object handle ∧ Resumable machine handle record
    · obtain ⟨handle, record, rfl, resumable⟩ := isReady
      obtain ⟨switched, isSwitch, switches⟩ := switchTo_of_linked linked resumable.found
      refine AsksFrom.congr ?_ (.refl linked) fun engine => resume_of_resumable resumable engine args
      cases began : startFiber record args switched with
      | error failure next => exact asksFrom_of_notStarted linked resumable isSwitch switches began
      | ok _ next =>
          exact .once _ _ (asksAt_of_started linked resumable isSwitch switches began)
    · have rejected (handle : Handle) (record : FiberRecord) (isFiber : fiber = .object handle) :
          ¬ Resumable machine handle record :=
        fun resumable => isReady ⟨handle, record, isFiber, resumable⟩
      obtain ⟨failure, next, keeps, failed⟩ := resume_of_not_resumable rejected args
      refine .nothing (fun engine engine' => by rw [failed, failed]) fun engine _ => ?_
      rw [after_of_error (failed engine)]
      exact .of_keepsFibers linked keeps

end Resuming

end VM

end RiteVm
