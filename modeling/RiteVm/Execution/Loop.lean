import RiteVm.Core.Natives
import RiteVm.Execution.Step
import RiteVm.Machine.Collector

/-!
Contract: the interpreter loop.

Owns:
- one cycle of the loop: a due collection, an instruction, and the dispatch of an
  exception or exit that it ended in;
- the engine, in which loops run instructions, instructions run methods, and methods run
  loops.

The engine spends one unit of fuel on each cycle and on each level of nesting, so every
run ends, if not otherwise then with the failure `outOfFuel`.
-/

namespace RiteVm

namespace VM

/-- Dispatches the exception or exit that an instruction ended in, if a frame of the
running loop is left. -/
def recover (stop : Nat) (result : Except Failure (Option Exit)) :
    VM (Except Failure (Option Exit)) := do
  match result with
  | .error (.raised exception) =>
    if stop < (← Query.depth) then
      attempt do
        handleRaise exception stop
        return none
    else return result
  | .error (.unwinding target value) =>
    if stop < (← Query.depth) then attempt (exitTo target value stop) else return result
  | _ => return result

/-- The value that the end of a loop hands on. -/
def carried (result : Except Failure (Option Exit)) : Value :=
  match result with
  | .ok (some exit) => exit.value
  | .error (.raised exception) => .object exception
  | .error (.unwinding _ value) => value
  | _ => .nil

/-- One cycle of the loop that ends with the frame `stop`. Objects that the instruction
allocated are kept in use only by what refers to them. -/
def cycle (engine : Engine) (stop : Nat) : VM (Option Exit) := do
  collectIfDue
  let mark ← Query.arenaMark
  let result ← attempt (step engine stop)
  modifyHeap (·.restoreArena mark)
  let result ← recover stop result
  modifyHeap (·.protect (carried result))
  resolve result

end VM

mutual

/-- Runs cycles until the frame `stop` has returned or the fiber yields. -/
def runLoop (hosts : Array HostMethod) (fuel stop : Nat) : VM Exit :=
  match fuel with
  | 0 => throw .outOfFuel
  | fuel + 1 => do
    match ← VM.cycle ⟨runLoop hosts fuel, runNative hosts fuel, fuel⟩ stop with
    | some exit => return exit
    | none => runLoop hosts fuel stop

/-- Runs a method body that is no bytecode. -/
def runNative (hosts : Array HostMethod) (fuel : Nat) (method : NativeMethod)
    (self : Value) (args : Args) : VM Value :=
  match fuel with
  | 0 => throw .outOfFuel
  | fuel + 1 =>
    VM.runMethod hosts ⟨runLoop hosts fuel, runNative hosts fuel, fuel⟩ method self args

end

/-- The engine with the methods of a host and a bound on the length of runs. -/
def Engine.ofHosts (hosts : Array HostMethod) (fuel : Nat) : Engine :=
  ⟨runLoop hosts fuel, runNative hosts fuel, fuel⟩

end RiteVm
