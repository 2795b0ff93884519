import RiteVm.Object.Basic

/-!
Contract: the heap.

Owns:
- cells that hold objects, and their reuse under a new generation;
- the objects that a host holds: those allocated since a mark, and those pinned;
- the estimate of used bytes and the threshold at which a collection is due.

A handle of a reclaimed object never leads to an object again, because its cell goes on
with another generation.
-/

namespace RiteVm

/-- When collections take place. -/
structure CollectorConfig where
  /-- estimated bytes at which the first collection is due -/
  initialThreshold : Nat := 102400
  /-- the next threshold in percent of the bytes in use after a collection -/
  growthPercent : Nat := 150
deriving DecidableEq, Repr, Inhabited

/-- A cell of the heap. Its generation is odd while it holds an object. -/
structure Cell where
  generation : Nat
  object : Option Object

/-- The heap. -/
structure Heap where
  config : CollectorConfig
  /-- the first cell stays empty -/
  cells : Array Cell := #[⟨0, none⟩]
  /-- empty cells that can be used again, the last one emptied first -/
  free : List Nat := []
  bytesInUse : Nat := 0
  threshold : Nat
  /-- objects allocated by the host or by the running native method -/
  arena : Array Handle := #[]
  /-- objects pinned by the host -/
  pins : Table Nat Handle := {}
  nextPin : Nat := 0
  collections : Nat := 0
  freed : Nat := 0

/-- A value that the host keeps in use. -/
structure Pin where
  id : Option Nat
  value : Value
deriving DecidableEq, Repr, Inhabited

namespace Heap

def new (config : CollectorConfig) : Heap := { config, threshold := config.initialThreshold }

instance : Inhabited Heap := ⟨new {}⟩

/-- The object that a handle leads to, unless it was reclaimed. -/
def get? (heap : Heap) (handle : Handle) : Option Object :=
  match heap.cells[handle.slot]? with
  | some cell => if cell.generation = handle.generation then cell.object else none
  | none => none

/-- Changes the object that a handle leads to. -/
def modify (heap : Heap) (handle : Handle) (change : Object → Object) : Heap :=
  { heap with
    cells := heap.cells.modify handle.slot fun cell =>
      if cell.generation = handle.generation then
        { cell with object := cell.object.map change }
      else cell }

/-- Keeps an object in use until the arena is restored to an earlier mark. -/
def protect (heap : Heap) (value : Value) : Heap :=
  match value with
  | .object handle => { heap with arena := heap.arena.push handle }
  | _ => heap

/-- Puts an object into an empty cell, or into a new one if there is none. -/
def place (heap : Heap) (object : Object) : Heap × Handle :=
  match heap.free with
  | slot :: free =>
    let generation := ((heap.cells[slot]?).map (·.generation)).getD 0 + 1
    let cells := heap.cells.setIfInBounds slot ⟨generation, some object⟩
    ({ heap with cells, free }, ⟨slot, generation⟩)
  | [] =>
    let slot := heap.cells.size
    ({ heap with cells := heap.cells.push ⟨1, some object⟩ }, ⟨slot, 1⟩)

/-- Allocates an object, which stays in use until the arena is restored. -/
def allocate (heap : Heap) (object : Object) : Heap × Handle :=
  let size := object.estimatedSize
  let (heap, handle) := heap.place object
  ({ heap with bytesInUse := heap.bytesInUse + size, arena := heap.arena.push handle }, handle)

/-- Takes account of bytes that an object acquired. -/
def grow (heap : Heap) (bytes : Nat) : Heap := { heap with bytesInUse := heap.bytesInUse + bytes }

/-- Whether a collection is due. -/
def isDue (heap : Heap) : Bool := heap.threshold ≤ heap.bytesInUse

/-- The handles of all objects in the order of their cells. -/
def handles (heap : Heap) : List Handle :=
  (heap.cells.toList.zipIdx).filterMap fun (cell, slot) =>
    cell.object.map fun _ => ⟨slot, cell.generation⟩

/-- Number of objects. -/
def live (heap : Heap) : Nat := heap.cells.foldl (fun count cell =>
  if cell.object.isSome then count + 1 else count) 0

/-- Empties the cell of an object. -/
def remove (heap : Heap) (handle : Handle) : Heap :=
  { heap with
    cells := heap.cells.modify handle.slot fun cell => ⟨cell.generation + 1, none⟩
    free := handle.slot :: heap.free }

/-- Keeps a value in use until it is unpinned. -/
def pin (heap : Heap) (value : Value) : Heap × Pin :=
  match value with
  | .object handle =>
    ({ heap with pins := heap.pins.insert heap.nextPin handle, nextPin := heap.nextPin + 1 },
      ⟨some heap.nextPin, value⟩)
  | _ => (heap, ⟨none, value⟩)

def unpin (heap : Heap) (pin : Pin) : Heap :=
  match pin.id with
  | some id => { heap with pins := heap.pins.erase id }
  | none => heap

/-- A mark of the arena. -/
def arenaMark (heap : Heap) : Nat := heap.arena.size

/-- Lets go of the objects that entered the arena since a mark. -/
def restoreArena (heap : Heap) (mark : Nat) : Heap := { heap with arena := heap.arena.take mark }

/-- The objects that the heap itself keeps in use. -/
def roots (heap : Heap) : List Node := (heap.pins.values ++ heap.arena.toList).map .object

end Heap

end RiteVm
