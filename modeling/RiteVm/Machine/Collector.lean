import RiteVm.Machine.Failure
import Std.Data.HashSet.Lemmas

/-!
Contract: the collection of unreachable objects.

Owns:
- the roots of a machine and the references of a node;
- marking: what of a set of nodes cannot be reached from a work list;
- the collection, which empties the cells of the unreachable objects, gives payloads back
  to the host and takes the register stacks of collected fibers away.

Marking ends because each step either takes a node out of the set or shortens the work
list.
-/

namespace RiteVm

/-- The nodes of a set that a walk from a work list along the references does not reach. -/
def unreached (references : Node → List Node) (white : Std.HashSet Node)
    (work : List Node) : Std.HashSet Node :=
  match work with
  | [] => white
  | node :: rest =>
    if node ∈ white then unreached references (white.erase node) (references node ++ rest)
    else unreached references white rest
termination_by (white.size, work.length)
decreasing_by
  · rename_i present
    apply Prod.Lex.left
    have nonempty : white.size ≠ 0 := by
      intro empty
      have := Std.HashSet.isEmpty_eq_size_eq_zero (m := white)
      simp_all [Std.HashSet.isEmpty_iff_forall_not_mem]
    rw [Std.HashSet.size_erase, if_pos present]
    omega
  · apply Prod.Lex.right
    simp

namespace Machine

/-- The references of an object or register stack. -/
def nodeReferences (machine : Machine) : Node → List Node
  | .object handle => ((machine.heap.get? handle).map Object.references).getD []
  | .context id => ((machine.context? id).map Context.references).getD []

/-- The nodes that the machine keeps in use. -/
def roots (machine : Machine) : List Node :=
  machine.heap.roots
    ++ [.context rootContext, .context machine.current]
    ++ Node.ofOption machine.currentFiber
    ++ machine.resumers.flatMap (fun (id, fiber) => .context id :: Node.ofOption fiber)
    ++ (machine.yielded.map Node.ofValue).getD []
    ++ Node.ofValues machine.globals.values
    ++ machine.coreClasses.values.map .object ++ [.object machine.mainObject]

/-- All objects and register stacks. -/
def nodes (machine : Machine) : List Node :=
  machine.heap.handles.map .object
    ++ (List.range machine.contexts.size).map fun index => .context ⟨index⟩

/-- The objects that cannot be reached from the roots, in the order of their cells. -/
def unreachable (machine : Machine) : List Handle :=
  let white := unreached machine.nodeReferences (.ofList machine.nodes) machine.roots
  machine.heap.handles.filter fun handle => white.contains (.object handle)

/-- Gives back what an object holds outside the heap. -/
def release (machine : Machine) (content : Content) : Machine :=
  match content with
  | .data record => { machine with released := machine.released.push record.payload }
  | .fiber record => machine.removeContext record.context
  | _ => machine

/-- Empties the cell of an object. -/
def reclaim (machine : Machine) (handle : Handle) : Machine :=
  match machine.heap.get? handle with
  | some object => release { machine with heap := machine.heap.remove handle } object.content
  | none => machine

/-- Gives back the payloads of all objects, as at the end of a machine. -/
def shutdown (machine : Machine) : Machine :=
  machine.heap.handles.foldl reclaim machine

/-- Collects the unreachable objects. The next threshold grows with the bytes in use, and
cached methods are dropped because they keep nothing in use. -/
def collect (machine : Machine) : Machine :=
  let dead := machine.unreachable
  let machine := dead.foldl reclaim machine
  let config := machine.heap.config
  let bytes := machine.heap.cells.foldl
    (fun bytes cell => bytes + (cell.object.map Object.estimatedSize).getD 0) 0
  { machine with
    heap.bytesInUse := bytes
    heap.threshold := max config.initialThreshold (bytes * config.growthPercent / 100)
    heap.collections := machine.heap.collections + 1
    heap.freed := machine.heap.freed + dead.length
    methodCache.entries := ∅ }

end Machine

/-- Collects the unreachable objects. -/
def VM.collect : VM Unit := modify Machine.collect

/-- Collects if a collection is due. -/
def VM.collectIfDue : VM Unit := do
  if (← get).heap.isDue then VM.collect

end RiteVm
