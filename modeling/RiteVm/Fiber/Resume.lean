import RiteVm.Call.Dispatch
import RiteVm.Machine.Raise

/-!
Contract: fibers, which run on register stacks of their own, and observing them from outside.

Owns:
- what a completed resume cycle does to the signals of a fiber;
- waiters for the next cycle and for the end of a fiber, and polling them;
- new fibers and their states;
- resuming a fiber, which runs an interpreter loop on its stack until the fiber hands a
  value over or ends;
- handing a value over, which leaves the frame of the method on top of the stack; the
  next resume leaves this frame and completes the call.

A waker is registered once in each list. Lists are emptied when their wakers are woken:
at the end of every cycle those that wait for a cycle, and at the last one also those
that wait for the end.
-/

namespace RiteVm

/-- Waits for the next cycle of a fiber to be completed. -/
structure ResumeWaiter where
  /-- the number of the signals that the fiber shares -/
  signals : Nat
  /-- cycles that were completed when the waiter was created -/
  after : Nat
deriving DecidableEq, Repr

/-- Waits for the end of a fiber. -/
structure TerminationWaiter where
  /-- the number of the signals that the fiber shares -/
  signals : Nat
deriving DecidableEq, Repr

/-- A list of wakers that contains a waker. -/
def registerWaker (wakers : List Waker) (waker : Waker) : List Waker :=
  if waker ∈ wakers then wakers else wakers ++ [waker]

namespace FiberSignals

/-- The signals behind a completed cycle, and the wakers that are woken. -/
def completeCycle (signals : FiberSignals) (state : FiberState) :
    FiberSignals × List Waker :=
  let cycles := signals.cycles + 1
  if state.isAlive then
    ({ signals with cycles, resumeWakers := [] }, signals.resumeWakers)
  else
    ({ cycles, finished := some state },
      signals.terminationWakers ++ signals.resumeWakers)

/-- Whether more cycles than a number were completed, or the fiber has ended. -/
def isPast (signals : FiberSignals) (after : Nat) : Bool :=
  after < signals.cycles || signals.finished.isSome

/-- Polls for a cycle; a waker is registered while it is not completed. -/
def pollResume (signals : FiberSignals) (after : Nat) (waker : Waker) :
    FiberSignals × Bool :=
  if signals.isPast after then (signals, true)
  else ({ signals with resumeWakers := registerWaker signals.resumeWakers waker }, false)

/-- Polls for the final state; a waker is registered while there is none. -/
def pollTermination (signals : FiberSignals) (waker : Waker) :
    FiberSignals × Option FiberState :=
  match signals.finished with
  | some state => (signals, some state)
  | none =>
    ({ signals with terminationWakers := registerWaker signals.terminationWakers waker },
      none)

end FiberSignals

namespace VM

/-- Changes the signals with a number and hands over a result. -/
def withSignals {α : Type} (number : Nat) (change : FiberSignals → FiberSignals × α) :
    VM α := fun machine =>
  let (signals, result) := change (machine.signals.getD number {})
  .ok result { machine with signals := machine.signals.setIfInBounds number signals }

/-- Completes a cycle of a fiber and wakes who waits for it. -/
def completeCycle (fiber : Handle) (state : FiberState) : VM Unit := do
  let record ← Query.fiberRecord fiber
  let wakers ← withSignals record.signals (·.completeCycle state)
  modify fun machine => { machine with woken := machine.woken ++ wakers }

/-- A waiter for the next cycle of a fiber. -/
def resumeWaiter (fiber : Value) : VM ResumeWaiter := do
  let record ← Query.fiberRecord (← expectFiber fiber)
  let signals := (← get).signals.getD record.signals {}
  return { signals := record.signals, after := signals.cycles }

/-- A waiter for the end of a fiber. -/
def terminationWaiter (fiber : Value) : VM TerminationWaiter := do
  let record ← Query.fiberRecord (← expectFiber fiber)
  return { signals := record.signals }

/-- Whether the cycle that a waiter waits for is completed. -/
def pollResume (waiter : ResumeWaiter) (waker : Waker) : VM Bool :=
  withSignals waiter.signals (·.pollResume waiter.after waker)

/-- The final state of a fiber, once it has ended. -/
def pollTermination (waiter : TerminationWaiter) (waker : Waker) : VM (Option FiberState) :=
  withSignals waiter.signals (·.pollTermination waker)

end VM

namespace Query

/-- The state of a fiber; nothing for another value. -/
def fiberState? (value : Value) : Query (Option FiberState) := do
  return (← part? Object.fiber? value).map (·.state)

end Query

namespace VM

/-- Values that pass between a fiber and its resumer: none is nil, one is itself, and
several become an array. -/
def packValues (values : List Value) : VM Value :=
  match values with
  | [] => pure .nil
  | [value] => pure value
  | values => newArray values.toArray

/-- A fiber that runs a block when it is resumed first. -/
def newFiber (block : Value) : VM Value := do
  let body ← expectProc block
  let machine ← get
  let context : ContextId := ⟨machine.contexts.size⟩
  let signals := machine.signals.size
  set { machine with
    contexts := machine.contexts.push (some {}), signals := machine.signals.push {} }
  let handle ← allocate
    { classHandle := ← Query.coreClass .fiber
      content := .fiber { context, body, state := .created, signals } }
  modify (·.modifyContext context ({ · with owner := some handle }))
  return .object handle

/-- Sets the state of a fiber. -/
def setFiberState (handle : Handle) (state : FiberState) : VM Unit := do
  let record ← Query.fiberRecord handle
  setContent handle (.fiber { record with state })

/-- Pushes the frame of a fiber's body on its stack. -/
def enterFiberBody (body : Handle) (args : List Value) : VM Unit := do
  let env? := (← Query.object body).proc?.bind (·.env)
  let (self, method, owner) ←
    match env? with
    | some env => do
      let captured ← Query.envRecord env
      pure (← Query.capturedVar env 0, captured.method, captured.owner)
    | none => pure (← Query.mainObject, none, none)
  let site ← layOutArgs 0 self (.ofList args)
  pushProcFrame site body none none .nil true
  modifyFrame ({ · with method, owner })

/-- Completes the call in which a fiber handed a value over. -/
def completeYield (args : List Value) : VM Unit := do
  match ← popFrame? with
  | none => breach .noYieldFrame
  | some frame => setRegister frame.base 0 (← packValues args)

/-- Makes the stack of a fiber the current one. -/
def switchTo (handle : Handle) (context : ContextId) : VM Unit := do
  (← get).currentFiber.forM (setFiberState · .resumed)
  modify fun machine =>
    { machine with
      resumers := machine.resumers ++ [(machine.current, machine.currentFiber)]
      current := context
      currentFiber := some handle }
  setFiberState handle .running

/-- Makes the stack of the resumer the current one again. -/
def switchBack : VM Unit := do
  match (← get).resumers.getLast? with
  | none => breach .noResumer
  | some (context, fiber?) =>
    modify fun machine =>
      { machine with
        resumers := machine.resumers.dropLast, current := context, currentFiber := fiber? }
    fiber?.forM (setFiberState · .running)

/-- The state of a fiber behind a cycle, and what the resumer receives. -/
def fiberOutcome (result : Except Failure Exit) : VM (FiberState × Except Failure Value) := do
  match result with
  | .ok (.yielded value) => return (.suspended, .ok value)
  | .ok (.returned value) => return (.dead, .ok value)
  | .error (.unwinding _ _) =>
    let exception ← exceptionHere .localJumpError "break from proc-closure"
    return (.failed, .error (.raised exception))
  | .error failure => return (.failed, .error failure)

/-- Runs a fiber until it hands a value over or ends. The first time the arguments go to
its body, later on they are the value of the call in which it handed a value over. -/
def resume (engine : Engine) (fiber : Value) (args : List Value) : VM Value := do
  let handle ← expectFiber fiber
  let record ← Query.fiberRecord handle
  match record.state with
  | .running | .resumed => raise .fiberError "double resume"
  | .dead | .failed => raise .fiberError "resuming dead fiber"
  | .created | .suspended => pure ()
  let machine ← get
  if machine.config.maxCallDepth ≤ machine.resumers.length then raiseStackError
  checkNativeDepth
  switchTo handle record.context
  let result ← attempt do
    if record.state = .created then enterFiberBody record.body args else completeYield args
    nested (engine.loop 0)
  switchBack
  let (state, outcome) ← fiberOutcome result
  setFiberState handle state
  if !state.isAlive then modify (·.removeContext record.context)
  completeCycle handle state
  resolve outcome

/-- Hands values over to the resumer of the running fiber. Only the code of the fiber
itself can do so, without a method that is no bytecode in between. -/
def yieldFiber (args : List Value) : VM Value := do
  if (← get).currentFiber.isNone then
    raise .fiberError "can't yield from root fiber"
  let between := ((← Query.context).frames.toList.drop 1).dropLast
  if between.any fun frame => frame.unit.isNone || frame.boundary then
    raise .fiberError "can't cross native function boundary"
  let value ← packValues args
  modify fun machine => { machine with yielded := some value }
  return .nil

end VM

end RiteVm
