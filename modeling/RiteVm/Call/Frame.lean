import RiteVm.Call.Site
import RiteVm.Machine.Variables

/-!
Contract: frames that calls push and leave.

Owns:
- new procs;
- the frames of procs and of methods that are no bytecode;
- leaving a frame, which copies captured variables out of its registers.
-/

namespace RiteVm

open RiteVm.Bytecode

namespace VM

/-- A new proc. -/
def newProc (unit : CodeUnit) (upper env : Option Handle) (targetClass : Handle)
    (strict : Bool) : VM Handle := do
  let classHandle ← Query.coreClass .proc
  allocate { classHandle, content := .proc { unit, upper, env, targetClass, strict } }

/-- Puts a frame on top of the current register stack. -/
def pushFrame (frame : Frame) : VM Unit :=
  modifyContext fun context => { context with frames := context.frames.push frame }

/-- Pushes a frame that runs a proc on the arguments at a call site. Its other registers
are nil. -/
def pushProcFrame (site : CallSite) (proc : Handle) (owner : Option Handle)
    (method : Option Symbol) (block : Value) (boundary : Bool) : VM Unit := do
  checkDepth
  let record ← Query.procRecord proc
  let argsTop := site.blockAt + 1
  let top := max (site.receiverAt + record.unit.registerCount.toNat) argsTop
  modifyContext (·.clear argsTop top)
  pushFrame
    { base := site.receiverAt, top, proc := some proc, unit := some record.unit
      argCount := site.argCount, hasKeywords := site.hasKeywords, method, owner
      targetClass := record.targetClass, boundary, block }

/-- Pushes the frame of a method that is no bytecode. -/
def pushNativeFrame (site : CallSite) (owner : Handle) (method : Symbol) (block : Value) :
    VM Unit := do
  let top := max (site.blockAt + 1) (← Query.context).stackTop
  pushFrame
    { base := site.receiverAt, top, proc := none, unit := none
      argCount := site.argCount, hasKeywords := site.hasKeywords, method := some method
      owner := some owner, targetClass := owner, boundary := false, block }

/-- Leaves the frame on top of the current register stack, if there is one. -/
def popFrame? : VM (Option Frame) := do
  match (← Query.context).frames.back? with
  | none => return none
  | some frame =>
    modifyContext fun context => { context with frames := context.frames.pop }
    frame.env.forM detachEnv
    return some frame

/-- Drops the frames above a height. -/
def truncateFrames (height : Nat) : VM Unit :=
  modifyContext fun context => { context with frames := context.frames.take height }

end VM

end RiteVm
