import RiteVm.Core.Boot
import RiteVm.Execution.Loop
import RiteVm.Host.Storage
import RiteVm.Proofs.Evolution.Execution

/-!
Contract: runs only evolve the machine, whatever a host asks for.

Owns:
- the interpreter loop and the engine that a host's methods take part in;
- what a host may ask of a machine, and methods that ask for nothing else;
- the machines that a host reaches from a new one.

A host creates instances only of what is a class at that moment.
-/

namespace RiteVm

namespace VM

/-! ### The interpreter loop -/

namespace Evolves

instance collect : Evolves VM.collect := ⟨fun _ => .of_change rfl .collect⟩

instance collectIfDue : Evolves collectIfDue := by
  unfold VM.collectIfDue
  infer_instance

instance recover (stop : Nat) (result : Except Failure (Option Exit)) :
    Evolves (recover stop result) := by
  unfold VM.recover
  split <;> infer_instance

instance cycle (engine : Engine) [engine.Evolves] (stop : Nat) : Evolves (cycle engine stop) := by
  unfold VM.cycle
  infer_instance

end Evolves

end VM

/-! ### Hosts -/

/-- An action that a host may ask for at any time. -/
inductive HostAction (engine : Engine) : {α : Type} → VM α → Prop where
  | query {α : Type} (query : Query α) : HostAction engine (liftM query : VM α)
  | intern (name : Bytes) : HostAction engine (VM.intern name)
  -- values
  | newString (bytes : Bytes) : HostAction engine (VM.newString bytes)
  | newArray (items : Array Value) : HostAction engine (VM.newArray items)
  | newHash : HostAction engine VM.newHash
  | newRange (first last : Value) (exclusive : Bool) :
      HostAction engine (VM.newRange first last exclusive)
  | raise {α : Type} (core : CoreClass) (message : String) :
      HostAction engine (VM.raise core message : VM α)
  | arrayPush (array item : Value) : HostAction engine (VM.arrayPush array item)
  | hashSet (hash key value : Value) : HostAction engine (VM.hashSet hash key value)
  | hashDelete (hash key : Value) : HostAction engine (VM.hashDelete hash key)
  | modifyPayload (value : Value) (change : Int → Int) :
      HostAction engine (VM.modifyPayload value change)
  | freeze (value : Value) : HostAction engine (VM.freeze value)
  | getVariable (value : Value) (name : String) : HostAction engine (VM.getVariable value name)
  | setVariable (value : Value) (name : String) (content : Value) :
      HostAction engine (VM.setVariable value name content)
  | getGlobal (name : String) : HostAction engine (VM.getGlobal name)
  | setGlobal (name : String) (value : Value) : HostAction engine (VM.setGlobal name value)
  -- classes
  | defineClassUnder (outer : Handle) (name : String) (superclass? : Option Handle) :
      HostAction engine (VM.defineClassUnder outer name superclass?)
  | defineModuleUnder (outer : Handle) (name : String) :
      HostAction engine (VM.defineModuleUnder outer name)
  | defineMethod (handle : Handle) (name : String) (body : NativeMethod) :
      HostAction engine (VM.defineMethod handle name body)
  | defineSingletonMethod (value : Value) (name : String) (body : NativeMethod) :
      HostAction engine (VM.defineSingletonMethod value name body)
  | removeMethod (handle : Handle) (name : Symbol) :
      HostAction engine (VM.removeMethod handle name)
  | undefMethod (handle : Handle) (name : Symbol) : HostAction engine (VM.undefMethod handle name)
  | aliasMethod (handle : Handle) (new old : Symbol) :
      HostAction engine (VM.aliasMethod handle new old)
  | includeModule (handle module : Handle) : HostAction engine (VM.includeModule handle module)
  | singletonClass (value : Value) : HostAction engine (VM.singletonClass value)
  | ancestors (handle : Handle) : HostAction engine (VM.ancestors handle)
  | respondsToText (value : Value) (name : String) :
      HostAction engine (VM.respondsToText value name)
  | isKindOf (value : Value) (handle : Handle) : HostAction engine (VM.isKindOf value handle)
  | defineConst (handle : Handle) (name : String) (value : Value) :
      HostAction engine (VM.defineConst handle name value)
  | getConst? (handle : Handle) (name : String) : HostAction engine (VM.getConst? handle name)
  -- arguments
  | checkArity (args : Args) (fewest : Nat) (most? : Option Nat) :
      HostAction engine (VM.checkArity args fewest most?)
  | intArg (args : Args) (index : Nat) : HostAction engine (VM.intArg args index)
  | symbolArg (args : Args) (index : Nat) : HostAction engine (VM.symbolArg args index)
  -- calls
  | funcall (receiver : Value) (name : String) (args : List Value) (block : Value) :
      HostAction engine (VM.funcall engine receiver name args block)
  | callProc (proc : Value) (args : List Value) : HostAction engine (VM.callProc engine proc args)
  | run (unit : Bytecode.CodeUnit) : HostAction engine (VM.run engine unit)
  | load (binary : Bytes) : HostAction engine (VM.load engine binary)
  | loadInto (binary : Bytes) (target : Handle) :
      HostAction engine (VM.loadInto engine binary target)
  -- fibers
  | newFiber (block : Value) : HostAction engine (VM.newFiber block)
  | resume (fiber : Value) (args : List Value) : HostAction engine (VM.resume engine fiber args)
  | yieldFiber (args : List Value) : HostAction engine (VM.yieldFiber args)
  | resumeWaiter (fiber : Value) : HostAction engine (VM.resumeWaiter fiber)
  | terminationWaiter (fiber : Value) : HostAction engine (VM.terminationWaiter fiber)
  | pollResume (waiter : ResumeWaiter) (waker : Waker) :
      HostAction engine (VM.pollResume waiter waker)
  | pollTermination (waiter : TerminationWaiter) (waker : Waker) :
      HostAction engine (VM.pollTermination waiter waker)
  -- what is kept in use
  | pin (value : Value) : HostAction engine (VM.pin value)
  | unpin (pin : Pin) : HostAction engine (VM.unpin pin)
  | protect (value : Value) : HostAction engine (VM.protect value)
  | restoreArena (mark : Nat) : HostAction engine (VM.restoreArena mark)
  | collect : HostAction engine VM.collect

/-- What a host does with a machine: one action after the other, each of which may depend
on what the earlier ones returned. -/
inductive HostRun (engine : Engine) : Machine → {α : Type} → VM α → Prop where
  | action {machine : Machine} {α : Type} {action : VM α} :
      HostAction engine action → HostRun engine machine action
  | newObject {machine : Machine} {classHandle : Handle} {record : ClassRecord} :
      machine.class? classHandle = some record →
      HostRun engine machine (VM.newObject classHandle)
  | newData {machine : Machine} {classHandle : Handle} {record : ClassRecord}
      (typeName : String) (payload : Int) :
      machine.class? classHandle = some record →
      HostRun engine machine (VM.newData classHandle typeName payload)
  | newException {machine : Machine} {classHandle : Handle} {record : ClassRecord}
      (message : Value) :
      machine.class? classHandle = some record →
      HostRun engine machine (VM.newException classHandle message)
  | finish {machine : Machine} {α : Type} (value : α) : HostRun engine machine (pure value)
  | fail {machine : Machine} {α : Type} (failure : Failure) :
      HostRun engine machine (throw failure : VM α)
  | attempt {machine : Machine} {α : Type} {action : VM α} :
      HostRun engine machine action → HostRun engine machine (VM.attempt action)
  | next {machine : Machine} {α β : Type} {action : VM α} {rest : α → VM β} :
      HostRun engine machine action →
      (∀ value next, action machine = .ok value next → HostRun engine next (rest value)) →
      HostRun engine machine (action >>= rest)

/-- Methods of a host that do nothing else than what a host may do. -/
def HostsAreRegular (hosts : Array HostMethod) : Prop :=
  ∀ body ∈ hosts, ∀ engine self args machine, HostRun engine machine (body engine self args)

namespace VM

variable {α : Type} {engine : Engine} [engine.Evolves]

namespace Evolves

instance modifyPayload (value : Value) (change : Int → Int) :
    Evolves (modifyPayload value change) := by
  have modify (handle : Handle) : Evolves (modifyObject handle fun object =>
      match object.content with
      | .data record =>
        { object with content := .data { record with payload := change record.payload } }
      | _ => object) :=
    .of_modifyObject fun object => by
      obtain ⟨classHandle, content, frozen, fields⟩ := object
      cases content <;> exact ⟨rfl, rfl⟩
  exact optionForM _

instance pin (value : Value) : Evolves (pin value) where
  evolvesFrom machine := by
    cases value <;> exact .of_change rfl (.outside rfl rfl rfl rfl)

theorem of_hostAction {action : VM α} (asked : HostAction engine action) : Evolves action := by
  cases asked with
  | getVariable value name => exact seq
  | setVariable value name content => exact seq
  | getGlobal name => exact seq
  | setGlobal name value => exact seq
  | respondsToText value name => exact seq
  | unpin pin => exact Evolves.unpin pin
  | protect value => exact protectValue value
  | restoreArena mark => exact Evolves.restoreArena mark
  | _ => infer_instance

end Evolves

/-- Whatever a host does evolves the machine. -/
theorem EvolvesFrom.of_hostRun {machine : Machine} {action : VM α}
    (run : HostRun engine machine action) : EvolvesFrom machine action := by
  induction run with
  | action asked => exact (Evolves.of_hostAction asked).evolvesFrom _
  | newObject known => exact .bind (.allocate rfl (.known known)) fun _ _ _ => .of_evolves
  | newData typeName payload known =>
      exact .bind (.allocate rfl (.known known)) fun _ _ _ => .of_evolves
  | newException message known => exact .allocate rfl (.known known)
  | finish value => exact (Evolves.ofValue value).evolvesFrom _
  | fail failure => exact (Evolves.ofFailure failure).evolvesFrom _
  | attempt _ inductionHypothesis =>
      exact inductionHypothesis.attempt
  | next _ _ first second => exact .bind first second

end VM

/-! ### The engine -/

theorem Engine.evolves_ofHosts {hosts : Array HostMethod} (regular : HostsAreRegular hosts)
    (fuel : Nat) : (Engine.ofHosts hosts fuel).Evolves := by
  induction fuel with
  | zero => exact ⟨fun _ => .ofFailure _, fun _ _ _ => .ofFailure _⟩
  | succ fuel inductionHypothesis =>
      constructor
      · intro stop
        change VM.Evolves (VM.cycle (Engine.ofHosts hosts fuel) stop >>= _)
        refine @VM.Evolves.seq _ _ _ _ _ fun exit? => ?_
        split
        · infer_instance
        · exact inductionHypothesis.1 stop
      · intro method self args
        change VM.Evolves (VM.runMethod hosts (Engine.ofHosts hosts fuel) method self args)
        refine .runMethod _ (fun body isHost self args => ⟨fun machine => ?_⟩) _ _ _
        exact .of_hostRun (regular body isHost _ _ _ _)

/-! ### Reached machines -/

/-- The machines that a host reaches from a new one, at the end of what it does as well as
between the instructions of the loops that it starts. -/
inductive Machine.Reached (config : Config) (hosts : Array HostMethod) : Machine → Prop where
  | new : Reached config hosts (.new config)
  | host {machine : Machine} {α : Type} {action : VM α} (fuel : Nat) :
      Reached config hosts machine → HostRun (.ofHosts hosts fuel) machine action →
      Reached config hosts (action.after machine)
  | cycle {machine : Machine} (fuel stop : Nat) :
      Reached config hosts machine →
      Reached config hosts ((VM.cycle (.ofHosts hosts fuel) stop).after machine)

/-- Whatever a host reaches evolves from a new machine. -/
theorem Machine.Reached.evolution {config : Config} {hosts : Array HostMethod} {machine : Machine}
    (reached : Reached config hosts machine) (regular : HostsAreRegular hosts) :
    (Machine.new config).Evolution machine := by
  induction reached with
  | new => exact .refl
  | host fuel _ run inductionHypothesis =>
      have := Engine.evolves_ofHosts regular fuel
      exact inductionHypothesis.trans (VM.EvolvesFrom.of_hostRun run)
  | cycle fuel stop _ inductionHypothesis =>
      have := Engine.evolves_ofHosts regular fuel
      exact inductionHypothesis.trans (VM.Evolves.evolvesFrom _)

end RiteVm
