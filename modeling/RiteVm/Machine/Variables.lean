import RiteVm.Machine.Raise

/-!
Contract: instance variables, global variables and captured variables.

Owns:
- instance variables of objects; immediate values have none;
- global variables, which are nil until they are set;
- the variables that closures capture, in the registers of a live frame or copied when
  the frame was left.
-/

namespace RiteVm

namespace Query

/-- An instance variable, nil if it was not set. -/
def instanceVar (value : Value) (name : Symbol) : Query Value := do
  return ((← object? value).bind (·.fields.get? name)).getD .nil

/-- A global variable, nil if it was not set. -/
def globalVar (name : Symbol) : Query Value := fun machine =>
  .ok ((machine.globals.get? name).getD .nil)

/-- The captured variable in a register. -/
def capturedVar (env : Handle) (register : Nat) : Query Value := do
  match (← envRecord env).storage with
  | .onStack id _ base count => fun machine =>
    .ok <|
      if register < count then
        ((machine.context? id).map (·.slot (base + register))).getD .nil
      else .nil
  | .detached values => return values.getD register .nil

/-- The values of the registers that an environment refers to, in order. -/
def capturedValues (env : Handle) (count : Nat) : Query (List Value) :=
  (List.range count).mapM (capturedVar env)

end Query

namespace VM

/-- Sets an instance variable. -/
def setInstanceVar (value : Value) (name : Symbol) (content : Value) : VM Unit := do
  checkFrozen value
  match value with
  | .object handle =>
    modifyObject handle fun object =>
      { object with fields := object.fields.insert name content }
    modifyHeap (·.grow 24)
  | _ => return

/-- Sets a global variable. -/
def setGlobalVar (name : Symbol) (value : Value) : VM Unit :=
  modify fun machine => { machine with globals := machine.globals.insert name value }

/-- Sets the captured variable in a register, if the environment has the register. -/
def setCapturedVar (env : Handle) (register : Nat) (value : Value) : VM Unit := do
  let record ← Query.envRecord env
  match record.storage with
  | .onStack id _ base count =>
    if register < count then
      modify (·.modifyContext id fun context =>
        { context with stack := context.stack.setIfInBounds (base + register) value })
  | .detached values =>
    setContent env (.env
      { record with storage := .detached (values.setIfInBounds register value) })

/-- Copies captured variables out of the registers of a frame that is left. -/
def detachEnv (env : Handle) : VM Unit := do
  match (← Query.object env).env? with
  | some record@{ storage := .onStack _ _ _ count, .. } =>
    let values ← Query.capturedValues env count
    setContent env (.env { record with storage := .detached values.toArray })
    modifyHeap (·.grow (count * 16))
  | _ => return

end VM

end RiteVm
