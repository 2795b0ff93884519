import RiteVm.Proofs.Unwinding.Exits
import RiteVm.Proofs.Windows.Runs

/-!
Contract: calls do not disturb registers below them.

Owns:
- events that make calls, and the level above which they do so: a register of the caller's window,
  or the top of the stack for code that is no bytecode;
- the theorem that a later event, up to the one behind the call, finds what registers below the
  level held, in all frames there are, and what stacks held that did not run;
- a run in which a call clears a register of a frame below the caller, above the level.

The window of a frame overlaps that of the frame below from the register at which it was called, so
nothing above this register is safe from what the frame calls.
-/

namespace RiteVm

open RiteVm.Bytecode VM

namespace Event

/-- A call is made: by an instruction, above the registers in front of the one that it names, or by
code that is no bytecode, above all frames. -/
def CallsAbove (level : Nat) : Event → Prop
  | cycle _ machine => machine.CallsAt level
  | called _ _ machine => ∃ context, machine.context? machine.current = some context ∧
    level = context.stackTop
  | ended .. => False

/-- An event happens on a register stack, or makes it run. -/
def RunsOn (hosts : Array HostMethod) (id : ContextId) (event : Event) : Prop :=
  (event.machine hosts).current = id ∨ ∃ fuel call machine place start,
    event = called fuel call machine ∧
      (Engine.ofHosts hosts fuel).ComesTo call machine place start ∧ start.current = id

end Event

namespace Machine

/-- The value of a register of the frame at a position of a stack. -/
def register? (machine : Machine) (id : ContextId) (position register : Nat) : Option Value :=
  ((machine.framesOf id)[position]?).map fun frame => machine.slotOf id (frame.base + register)

/-- The frames of the running stack hold what they held in the registers below a level, apart from
slots that were written, and so do stacks that rest in all their registers, or they are gone. -/
structure KeepsRegisters (level : Nat) (written : Set (ContextId × Nat)) (rests : ContextId → Prop)
    (before after : Machine) : Prop where
  running : ∀ position frame register, before.frames[position]? = some frame →
    frame.base + register < level → (before.current, frame.base + register) ∉ written →
    after.register? before.current position register =
      before.register? before.current position register
  others : ∀ id, rests id → KeepsStack written id before after

theorem Linked.started_current {machine : Machine} (linked : machine.Linked True) :
    machine.Started machine.current := by
  refine ⟨index_lt_of_live linked.live_current, fun handle record found isStack isNew => ?_⟩
  refine linked.context_ne_current found ?_ isStack
  rw [isNew]
  exact nofun

end Machine

section Calls

variable {catches : Failure → Bool} {hosts : Array HostMethod} {total level : Nat} {α : Type}
  {body : Engine → VM α} {start : Machine} {events earlier meanwhile later : List Event}
  {call event : Event} {holding : Holding}

theorem Event.CallsAbove.written_eq (calls : call.CallsAbove level)
    (linked : (call.machine hosts).Linked True) : call.written = ∅ := by
  cases call with
  | cycle stop machine =>
      have calls : machine.CallsAt level := calls
      have noWrite :=
        (calls.of_keepsStacks (Machine.keepsStacks_collectedIfDue linked)).writtenSlot?_eq_none
      refine Set.eq_empty_of_forall_notMem fun slot isWritten => ?_
      exact nomatch noWrite.symm.trans isWritten
  | called fuel code machine | ended fuel code machine => rfl

/-- A call is ready above its level, as the frames are there that the caller runs on. -/
theorem Event.CallsAbove.readyFor {window : Window} (calls : call.CallsAbove level)
    (isLevel : window.level = level)
    (isCount : window.count = (call.machine hosts).frames.length) :
    (Holding.lower window).ReadyFor hosts call := by
  cases call with
  | cycle stop machine => exact fun _ => ⟨Nat.le_of_eq isCount, .inr (isLevel ▸ calls)⟩
  | called fuel code machine =>
      obtain ⟨context, running, rfl⟩ := calls
      exact ⟨fun _ => ⟨Nat.le_of_eq isCount, isLevel ▸ Machine.reachesTo_stackTop running⟩, trivial⟩
  | ended fuel code machine => exact calls.elim

theorem Follows.linked_of_mem {tidy ends : Prop} {after machine : Machine}
    {written : Set (ContextId × Nat)}
    (follows : Follows tidy hosts ends after machine written events) (member : event ∈ events) : (event.machine hosts).Linked tidy := by
  obtain ⟨earlier, later, rfl⟩ := List.append_of_mem member
  exact follows.drop.1

/-- From a call on, what is held is kept as long as the events that follow are ready. -/
theorem Happens.keeps_from_call (most : CatchesAtMost True catches)
    (conform : HostsConform catches hosts) (linked : start.Linked True)
    (happens : Happens catches hosts total (.code body) start
      (earlier ++ call :: (meanwhile ++ event :: later)))
    (calls : call.CallsAbove level) (isReady : holding.ReadyFor hosts call)
    (bounds : holding.Bounds (call.machine hosts))
    (readies : ∀ other ∈ meanwhile, holding.Bounds (other.machine hosts) →
      holding.ReadyFor hosts other) :
    holding.Keeps ((call.machine hosts).captured (writtenIn meanwhile)) (call.machine hosts)
      (event.machine hosts) := by
  have follows := happens.follows most conform ⟨rfl, linked⟩
  have linkedAt {other : Event} (member : other ∈ call :: (meanwhile ++ event :: later)) :
      (other.machine hosts).Linked True :=
    follows.linked_of_mem (List.mem_append_right _ member)
  have noWrite : call.written = ∅ := calls.written_eq (linkedAt List.mem_cons_self)
  have crosses : (Activity.code body).CrossesIn holding False True ∅ (.ofHosts hosts total) start :=
    False.elim
  have spans := happens.spans holding most conform ⟨rfl, linked⟩ crosses
  have goesOn := spans.drop.onward isReady bounds (noWrite ▸ Set.empty_subset _)
    (fun other member => linkedAt (List.mem_cons_of_mem _ (List.mem_append_left _ member))) readies
  rwa [noWrite, Set.empty_union] at goesOn

/-- As long as the frames are there that a call was made from, each event in and behind the call
finds in their registers below the call what they held, apart from captured variables that were
written meanwhile, and so it does in all registers of stacks on which nothing happened. -/
theorem Happens.call_keeps_registers (most : CatchesAtMost True catches)
    (conform : HostsConform catches hosts) (linked : start.Linked True)
    (happens : Happens catches hosts total (.code body) start events)
    (inOrder : events = earlier ++ call :: (meanwhile ++ event :: later))
    (calls : call.CallsAbove level)
    (inside : ∀ other ∈ meanwhile,
      (other.machine hosts).current = (call.machine hosts).current →
        (call.machine hosts).frames.length < (other.machine hosts).frames.length)
    (stands : (call.machine hosts).frames.length ≤
      ((event.machine hosts).framesOf (call.machine hosts).current).length) :
    Machine.KeepsRegisters level ((call.machine hosts).captured (writtenIn meanwhile))
      (fun id => ∀ other ∈ call :: meanwhile, ¬ other.RunsOn hosts id) (call.machine hosts)
      (event.machine hosts) := by
  subst inOrder
  have linkedCall : (call.machine hosts).Linked True :=
    (happens.follows most conform ⟨rfl, linked⟩).linked_of_mem
      (List.mem_append_right _ List.mem_cons_self)
  refine ⟨fun position frame register located below unwritten => ?_, fun id rests => ?_⟩
  · -- the caller and the frames below it own what is below the level
    let window : Window :=
      { stack := (call.machine hosts).current
        count := (call.machine hosts).frames.length
        level
        positive := Nat.zero_lt_of_lt (List.getElem?_eq_some_iff.mp located).1 }
    have bounds : window.Bounds (call.machine hosts) :=
      ⟨linkedCall.started_current, .of_length_le (Nat.le_refl _)⟩
    have isReady : (Holding.lower window).ReadyFor hosts call := calls.readyFor rfl rfl
    have keeps := happens.keeps_from_call most conform linked calls isReady bounds
      fun other member bounds =>
        Holding.readyFor_lower bounds fun isCurrent => inside other member isCurrent.symm
    obtain ⟨-, bases, slots, -⟩ := Window.Keeps.kept keeps bounds stands
    have sameBase := bases position (List.getElem?_eq_some_iff.mp located).1
    have located' : ((call.machine hosts).framesOf window.stack)[position]? = some frame := located
    rw [located'] at sameBase
    obtain ⟨frame', located'', isBase⟩ := Option.map_eq_some_iff.mp sameBase
    rw [Machine.register?, Machine.register?, located', located'', Option.map_some, Option.map_some,
      isBase]
    exact congrArg some (slots _ below unwritten)
  · -- nothing happens on the other stack, so it is held as a whole
    have rests' {other : Event} (member : other ∈ call :: meanwhile) :
        (Holding.whole id).ReadyFor hosts other :=
      Holding.readyFor_whole (fun isCurrent => rests other member (.inl isCurrent))
        fun fuel code machine isCall place start comes isCurrent =>
          rests other member (.inr ⟨fuel, code, machine, place, start, isCall, comes, isCurrent⟩)
    have keeps := happens.keeps_from_call most conform linked calls (rests' List.mem_cons_self)
      trivial fun other member _ => rests' (List.mem_cons_of_mem _ member)
    exact Or.imp_right (fun same => ⟨same.frames, same.slots⟩) keeps

end Calls

/-! ### Windows that overlap -/

namespace Overlapping

/-- The body of a class that does nothing. -/
def innerUnit : CodeUnit where
  localCount := 1
  registerCount := 3
  code := (Instruction.encodeAll [(.returnValue, { a := 0 })]).toArray
  handlers := []
  pool := #[]
  symbols := #[]
  children := []

/-- The body of a class in which such a body is run. -/
def outerUnit : CodeUnit where
  localCount := 1
  registerCount := 3
  code := (Instruction.encodeAll
    [(.targetClass, { a := 1 }), (.exec, { a := 1 }), (.returnValue, { a := 1 })]).toArray
  handlers := []
  pool := #[]
  symbols := #[]
  children := [innerUnit]

/-- A program that holds a number in its last register while it runs the body of a class. -/
def program : CodeUnit where
  localCount := 1
  registerCount := 5
  code := (Instruction.encodeAll
    [(.loadSeven, { a := 4 }), (.targetClass, { a := 1 }), (.exec, { a := 1 }),
      (.returnValue, { a := 4 })]).toArray
  handlers := []
  pool := #[]
  symbols := #[]
  children := [outerUnit]

theorem program_validate : program.validate = .ok () := by cbv

/-- A class without methods, which takes the definitions of the program. -/
def target : Object where
  classHandle := .null
  content := .classOrModule
    { kind := .ordinary, superclass := none, instances := .special, methods := ⟨[]⟩
      ancestors := some ⟨0, [⟨1, 1⟩]⟩ }

/-- A machine with nothing but this class. -/
def machine : Machine :=
  { Machine.empty {} with
    heap := ((Heap.new {}).allocate target).1
    symbols := .empty
    coreClasses := ⟨[(.object, ⟨1, 1⟩)]⟩ }

theorem linked : machine.Linked True := by
  have wellFormed : (Heap.new {}).WellFormed := Heap.wellFormed_new {}
  have keeps : (Machine.empty {}).KeepsFibers machine :=
    ⟨rfl, rfl, rfl, rfl, rfl, rfl, rfl, rfl, fun _ =>
      .allocate wellFormed rfl (Object.not_captures rfl)⟩
  exact (Machine.KeepsOthers.of_keepsFibers wellFormed keeps).linked (Machine.linked_empty {})

/-- The machine in front of each cycle of the program. -/
def reached : Nat → Machine
  | 0 => deeper ((pushProgramFrame program (.object .null) ⟨1, 1⟩).after machine)
  | count + 1 => (continued? (cycle (.ofHosts #[] 0) 0 (reached count))).getD default

/-- The instructions of the program. -/
def opcodes : List Opcode := [.loadSeven, .targetClass, .exec, .returnValue]

/-- The instruction that comes next. -/
def opcode? (machine : Machine) : Option Opcode :=
  match Query.frame machine with
  | .ok frame => (frame.unit.bind (instructionAt? ·.code frame.pc)).map (·.op)
  | .error _ => none

/-- The instructions of the program ask no engine. -/
theorem step_alike {machine : Machine} {op : Opcode} (isOp : opcode? machine = some op)
    (known : op ∈ opcodes) (engine engine' : Engine) :
    step engine' 0 machine = step engine 0 machine := by
  rw [opcode?] at isOp
  cases read : Query.frame machine with
  | error breach => rw [read] at isOp; exact nomatch isOp
  | ok frame =>
      rw [read] at isOp
      obtain ⟨instruction, isInstruction, rfl⟩ := Option.map_eq_some_iff.mp isOp
      obtain ⟨unit, isUnit, decoded⟩ := Option.bind_eq_some_iff.mp isInstruction
      have alike : execute { engine := engine', stop := 0, frame, unit } instruction =
          execute { engine, stop := 0, frame, unit } instruction := by
        simp only [opcodes, List.mem_cons, List.not_mem_nil, or_false] at known
        rcases known with isOp | isOp | isOp | isOp <;> simp only [execute, isOp]
      rw [step, step, bind_of_ok (liftM_of_ok read), bind_of_ok (liftM_of_ok read), isUnit]
      dsimp only
      rw [decoded]
      dsimp only
      rw [alike]

theorem cycle_alike {count : Nat} (below : count < 8) (engine engine' : Engine) :
    cycle engine' 0 (reached count) = cycle engine 0 (reached count) := by
  have known : ∀ count < 8, ∃ op ∈ opcodes, opcode? (reached count).collectedIfDue = some op := by
    decide +kernel
  obtain ⟨op, known, isOp⟩ := known count below
  rw [cycle_eq, cycle_eq]
  exact settle_congr (step_alike isOp known engine engine')

theorem cycled {count : Nat} (below : count < 7) (engine : Engine) :
    cycle engine 0 (reached count) = .ok none (reached (count + 1)) := by
  have continues : ∀ count < 7, (continued? (cycle (.ofHosts #[] 0) 0 (reached count))).isSome := by
    decide +kernel
  rw [cycle_alike (Nat.lt_succ_of_lt below) (.ofHosts #[] 0)]
  exact eq_ok_of_continued? (continues count below)

/-- Whether a cycle ends its loop by a return. -/
def endsByReturn : EStateM.Result Failure Machine (Option Exit) → Bool
  | .ok (some (.returned _)) _ => true
  | _ => false

theorem returned : ∃ value next,
    cycle (.ofHosts #[] 0) 0 (reached 7) = .ok (some (.returned value)) next := by
  have isReturn : endsByReturn (cycle (.ofHosts #[] 0) 0 (reached 7)) = true := by
    decide +kernel
  unfold endsByReturn at isReturn
  split at isReturn
  · rename_i value next ended
    exact ⟨value, next, ended⟩
  · cases isReturn

/-- The cycles that are left from one of them on. -/
def cyclesFrom (count left : Nat) : List Event :=
  (List.range' count (left + 1)).map fun count => .cycle 0 (reached count)

theorem loop_happens (count left : Nat) (isAll : count + left = 7) :
    Happens (fun _ => false) #[] (left + 1) (.answer (.loop 0)) (reached count)
      (cyclesFrom count left) := by
  induction left generalizing count with
  | zero =>
      obtain rfl : count = 7 := isAll
      obtain ⟨value, next, cycled⟩ := returned
      refine .last (fun next => ?_) (.nothing (cycle_alike (by decide)))
      rw [cycled]
      exact nofun
  | succ left inductionHypothesis =>
      have below : count < 7 := by omega
      exact .cycle (cycled below _) (.nothing (cycle_alike (Nat.lt_succ_of_lt below)))
        (inductionHypothesis (count + 1) (by omega))

theorem loop_returns (count left : Nat) (isAll : count + left = 7) :
    ∃ value last, runLoop #[] (left + 1) 0 (reached count) = .ok (.returned value) last := by
  induction left generalizing count with
  | zero =>
      obtain rfl : count = 7 := isAll
      obtain ⟨value, next, cycled⟩ := returned
      exact ⟨value, next, runLoop_of_ok cycled⟩
  | succ left inductionHypothesis =>
      obtain ⟨value, last, returns⟩ := inductionHypothesis (count + 1) (by omega)
      exact ⟨value, last, (runLoop_of_ok (cycled (by omega) _)).trans returns⟩

theorem run_of_loop {engine : Engine} {result : Except Failure Exit} {last : Machine}
    (ran : engine.loop 0 (reached 0) = ended result last) :
    VM.run engine program machine = finishCall result (shallower last) := by
  have room : HasRoom ((pushProgramFrame program (.object .null) ⟨1, 1⟩).after machine) := by
    rw [HasRoom]
    decide +kernel
  rw [reached] at ran
  have nests :
      nested (engine.loop 0) ((pushProgramFrame program (.object .null) ⟨1, 1⟩).after machine) =
        ended result (shallower last) := by
    rw [nested_of_room room, ran]
    cases result <;> rfl
  have runs : runUnit engine program (.object .null) ⟨1, 1⟩ machine =
      finishCall result (shallower last) :=
    bind_of_ok (attempt_of_ended nests)
  rw [VM.run, program_validate]
  exact runs

theorem comesTo_loop :
    (Engine.ofHosts #[] 8).ComesTo (VM.run · program) machine (.loop 0) (reached 0) := by
  obtain ⟨value, last, returns⟩ := loop_returns 0 7 rfl
  have returns : (Engine.ofHosts #[] 8).loop 0 (reached 0) = ended (.ok (.returned value)) last :=
    returns
  have stops :
    (Engine.ofHosts #[] 0).loop 0 (reached 0) = ended (.error .outOfFuel) (reached 0) := rfl
  have differs :
    VM.run (.ofHosts #[] 0) program machine ≠ VM.run (.ofHosts #[] 8) program machine := by
    rw [run_of_loop stops, run_of_loop returns]
    rintro ⟨⟩
  refine Engine.comesTo_of_same _ (fun engine engine' alike => ?_) differs
  obtain ⟨result, last, ran⟩ := exists_ended (engine.loop 0) (reached 0)
  rw [run_of_loop ran, run_of_loop (alike.symm.trans ran)]

theorem run_returns : ∃ value last, VM.run (.ofHosts #[] 8) program machine = .ok value last := by
  obtain ⟨value, last, returns⟩ := loop_returns 0 7 rfl
  have returns : (Engine.ofHosts #[] 8).loop 0 (reached 0) = ended (.ok (.returned value)) last :=
    returns
  exact ⟨value, shallower last, run_of_loop returns⟩

/-- What happens when the program runs. -/
def events : List Event :=
  .called 8 (VM.run · program) machine ::
    (cyclesFrom 0 7 ++ [.ended 8 (VM.run · program) machine])

theorem happens :
    Happens (fun _ => false) #[] 8 (.code fun engine => VM.run engine program) machine events := by
  obtain ⟨value, last, returns⟩ := run_returns
  refine .call (.entry (.run program)) ?_ (.starts comesTo_loop (loop_happens 0 7 rfl))
  rw [returns]
  trivial

theorem callsAt : (reached 4).CallsAt 2 := by decide +kernel

theorem written_eq : writtenIn [.cycle 0 (reached 5)] = ∅ := by
  have noWrite : (reached 5).collectedIfDue.writtenSlot? = none := by decide +kernel
  refine Set.eq_empty_of_forall_notMem fun slot => ?_
  rintro ⟨event, member, isWritten⟩
  obtain rfl : event = .cycle 0 (reached 5) := List.mem_singleton.mp member
  exact nomatch noWrite.symm.trans isWritten

end Overlapping

open Overlapping

/-- When the body of the outer class runs that of the inner one, registers of both callers below the
call are safe. -/
theorem Happens.call_keeps_registers_overlapping :
    Machine.KeepsRegisters 2 ((reached 4).captured (writtenIn [.cycle 0 (reached 5)]))
      (fun id =>
        ∀ other ∈ [.cycle 0 (reached 4), .cycle 0 (reached 5)], ¬ Event.RunsOn #[] id other)
      (reached 4) (reached 6) := by
  have inOrder : Overlapping.events = [.called 8 (VM.run · program) machine, .cycle 0 (reached 0),
      .cycle 0 (reached 1), .cycle 0 (reached 2), .cycle 0 (reached 3)] ++
      .cycle 0 (reached 4) :: ([.cycle 0 (reached 5)] ++ .cycle 0 (reached 6) ::
        [.cycle 0 (reached 7), .ended 8 (VM.run · program) machine]) := rfl
  have inside : ∀ other ∈ [Event.cycle 0 (reached 5)],
      (other.machine #[]).current = (reached 4).current →
        (reached 4).frames.length < (other.machine #[]).frames.length := by
    intro other member _
    obtain rfl : other = .cycle 0 (reached 5) := List.mem_singleton.mp member
    rw [Event.machine]
    decide +kernel
  have stands : (reached 4).frames.length ≤ ((reached 6).framesOf (reached 4).current).length := by
    decide +kernel
  have keeps :=
    Happens.call_keeps_registers (catchesAtMost_nothing True) (hostsConform_empty _) linked
    happens inOrder callsAt inside stands
  exact keeps

/-- Registers of lower frames are not safe in general: the body of the outer class calls at its first
register, which is the third one of the program, and the window of the inner one, which is cleared
when it is pushed, ends with the fifth one. No closure is about. -/
theorem Happens.call_may_disturb_lower_frame :
    (program.validate = .ok () ∧
      ∃ value last, VM.run (.ofHosts #[] 8) program machine = .ok value last) ∧
    Happens (fun _ => false) #[] 8 (.code fun engine => VM.run engine program) machine
      (.called 8 (VM.run · program) machine :: [.cycle 0 (reached 0), .cycle 0 (reached 1),
        .cycle 0 (reached 2), .cycle 0 (reached 3)] ++
        .cycle 0 (reached 4) :: ([.cycle 0 (reached 5)] ++ .cycle 0 (reached 6) ::
          [.cycle 0 (reached 7), .ended 8 (VM.run · program) machine])) ∧
    ((reached 4).CallsAt 2 ∧ (reached 4).frames.length = 2 ∧ (reached 5).frames.length = 3 ∧
      (reached 6).frames.length = 2) ∧
    (reached 4).captured (writtenIn [.cycle 0 (reached 5)]) = ∅ ∧
    (reached 4).register? ⟨0⟩ 0 4 = some (.int 7) ∧ (reached 6).register? ⟨0⟩ 0 4 = some .nil := by
  refine ⟨⟨program_validate, run_returns⟩, happens, ⟨callsAt, ?_, ?_, ?_⟩, ?_, ?_, ?_⟩
  · decide +kernel
  · decide +kernel
  · decide +kernel
  · rw [written_eq, Machine.captured]
    exact Set.eq_empty_of_forall_notMem fun slot isWritten => isWritten.1
  · decide +kernel
  · decide +kernel

end RiteVm
