import RiteVm.Class.Methods
import RiteVm.Machine.Collector
import RiteVm.Machine.Variables

/-!
Contract: what a host keeps in a machine, and how.

Owns:
- variables under names given as text;
- payloads of the host, which are given back when their object is reclaimed;
- the two ways to keep a value in use: pins, and the arena with its marks.

Asking for a variable makes its name known to the machine even if the variable does not
exist.
-/

namespace RiteVm

namespace Query

/-- The payload of a host's object; nothing for another value. -/
def payload? (value : Value) : Query (Option Int) := do
  return (← part? Object.data? value).map (·.payload)

end Query

namespace VM

/-- An instance variable under a name given as text. -/
def getVariable (value : Value) (name : String) : VM Value := do
  Query.instanceVar value (← internText name)

/-- Sets an instance variable under a name given as text. -/
def setVariable (value : Value) (name : String) (content : Value) : VM Unit := do
  setInstanceVar value (← internText name) content

/-- A global variable under a name given as text. -/
def getGlobal (name : String) : VM Value := do Query.globalVar (← internText name)

/-- Sets a global variable under a name given as text. -/
def setGlobal (name : String) (value : Value) : VM Unit := do
  setGlobalVar (← internText name) value

/-- Whether a value has a method under a name given as text. -/
def respondsToText (value : Value) (name : String) : VM Bool := do
  respondsTo value (← internText name)

/-- A new object that holds a payload. -/
def newData (classHandle : Handle) (typeName : String) (payload : Int) : VM Value := do
  return .object (← allocate { classHandle, content := .data { typeName, payload } })

/-- Changes the payload of a host's object. Other values stay as they are. -/
def modifyPayload (value : Value) (change : Int → Int) : VM Unit :=
  value.handle?.forM fun handle =>
    modifyObject handle fun object =>
      match object.content with
      | .data record =>
        { object with content := .data { record with payload := change record.payload } }
      | _ => object

/-- Keeps a value in use until it is unpinned. -/
def pin (value : Value) : VM Pin := fun machine =>
  let (heap, pin) := machine.heap.pin value
  .ok pin { machine with heap }

/-- Lets go of a pinned value. -/
def unpin (pin : Pin) : VM Unit := modifyHeap (·.unpin pin)

/-- Keeps a value in use until the arena is restored to an earlier mark. -/
def protect (value : Value) : VM Unit := modifyHeap (·.protect value)

/-- Lets go of what entered the arena since a mark. -/
def restoreArena (mark : Nat) : VM Unit := modifyHeap (·.restoreArena mark)

end VM

end RiteVm
