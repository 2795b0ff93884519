import Mathlib.Data.List.Nodup
import Mathlib.Data.List.Perm.Subperm
import Mathlib.Tactic.ByContra
import RiteVm.Machine.Collector
import RiteVm.Proofs.Collector.References

/-!
Contract: what of a machine is reachable, and that a collection removes exactly the rest.

Owns:
- the roots of a machine, one constructor for each place that keeps an object in use;
- reachability along the references that objects and register stacks store;
- marking: a node stays unmarked exactly if it is in the set and unreachable;
- the look-up of a handle after objects were reclaimed and after a collection;
- the exactness of a collection, with the survivors unchanged and closed under references.

Marking is described for any start set that contains every node with references, which is
the case for the objects and register stacks of a machine. A collection is exact for every machine,
in whatever way its objects refer to each other.
-/

namespace RiteVm

namespace Machine

/-- What the machine keeps in use by itself. -/
inductive IsRoot (machine : Machine) : Node → Prop where
  | pin {id : Nat} {handle : Handle} :
      (id, handle) ∈ machine.heap.pins.entries → IsRoot machine (.object handle)
  | arena {handle : Handle} : handle ∈ machine.heap.arena → IsRoot machine (.object handle)
  | rootContext : IsRoot machine (.context rootContext)
  | current : IsRoot machine (.context machine.current)
  | currentFiber {fiber : Handle} :
      machine.currentFiber = some fiber → IsRoot machine (.object fiber)
  | resumer {context : ContextId} {fiber : Option Handle} :
      (context, fiber) ∈ machine.resumers → IsRoot machine (.context context)
  | resumingFiber {context : ContextId} {fiber : Handle} :
      (context, some fiber) ∈ machine.resumers → IsRoot machine (.object fiber)
  | yielded {value : Value} {node : Node} :
      machine.yielded = some value → value.RefersTo node → IsRoot machine node
  | global {name : Symbol} {value : Value} {node : Node} :
      (name, value) ∈ machine.globals.entries → value.RefersTo node → IsRoot machine node
  | coreClass {core : CoreClass} {handle : Handle} :
      (core, handle) ∈ machine.coreClasses.entries → IsRoot machine (.object handle)
  | mainObject : IsRoot machine (.object machine.mainObject)

/-- An object or register stack that exists stores a reference. -/
inductive RefersTo (machine : Machine) : Node → Node → Prop where
  | object {handle : Handle} {object : Object} {node : Node} :
      machine.heap.get? handle = some object → object.RefersTo node →
      RefersTo machine (.object handle) node
  | context {id : ContextId} {context : Context} {node : Node} :
      machine.context? id = some context → context.RefersTo node →
      RefersTo machine (.context id) node

/-- A root, or what something reachable refers to. -/
inductive Reachable (machine : Machine) : Node → Prop where
  | root {node : Node} : machine.IsRoot node → Reachable machine node
  | step {node target : Node} :
      Reachable machine node → machine.RefersTo node target → Reachable machine target

/-! ### Agreement with the lists that the collector follows -/

theorem mem_roots {machine : Machine} {node : Node} :
    node ∈ machine.roots ↔ machine.IsRoot node := by
  simp only [roots, Heap.roots, List.mem_append, List.mem_map, Table.mem_values,
    Array.mem_toList_iff, List.mem_cons, List.not_mem_nil, or_false, Node.mem_ofOption,
    List.mem_flatMap, Table.mem_ofValues_values]
  constructor
  · rintro (((((((⟨handle, ⟨id, pinned⟩ | held, rfl⟩ | (rfl | rfl)) | ⟨fiber, isFiber, rfl⟩) |
      ⟨⟨context, fiber⟩, waiting, resumer⟩) | yielded) | ⟨name, value, stored, reference⟩) |
      ⟨handle, ⟨core, stored⟩, rfl⟩) | rfl)
    · exact .pin pinned
    · exact .arena held
    · exact .rootContext
    · exact .current
    · exact .currentFiber isFiber
    · rcases resumer with rfl | ⟨handle, rfl, rfl⟩
      · exact .resumer waiting
      · exact .resumingFiber waiting
    · cases isYielded : machine.yielded with
      | none => simp [isYielded] at yielded
      | some value =>
          rw [isYielded] at yielded
          exact .yielded isYielded (Node.mem_ofValue.mp yielded)
    · exact .global stored reference
    · exact .coreClass stored
    · exact .mainObject
  · intro isRoot
    cases isRoot with
    | pin pinned =>
        exact .inl (.inl (.inl (.inl (.inl (.inl (.inl ⟨_, .inl ⟨_, pinned⟩, rfl⟩))))))
    | arena held => exact .inl (.inl (.inl (.inl (.inl (.inl (.inl ⟨_, .inr held, rfl⟩))))))
    | rootContext => exact .inl (.inl (.inl (.inl (.inl (.inl (.inr (.inl rfl)))))))
    | current => exact .inl (.inl (.inl (.inl (.inl (.inl (.inr (.inr rfl)))))))
    | currentFiber isFiber => exact .inl (.inl (.inl (.inl (.inl (.inr ⟨_, isFiber, rfl⟩)))))
    | resumer waiting => exact .inl (.inl (.inl (.inl (.inr ⟨_, waiting, .inl rfl⟩))))
    | resumingFiber waiting =>
        exact .inl (.inl (.inl (.inl (.inr ⟨_, waiting, .inr ⟨_, rfl, rfl⟩⟩))))
    | yielded isYielded reference =>
        refine .inl (.inl (.inl (.inr ?_)))
        rw [isYielded]
        exact Node.mem_ofValue.mpr reference
    | global stored reference => exact .inl (.inl (.inr ⟨_, _, stored, reference⟩))
    | coreClass stored => exact .inl (.inr ⟨_, ⟨_, stored⟩, rfl⟩)
    | mainObject => exact .inr rfl

theorem mem_nodeReferences {machine : Machine} {node target : Node} :
    target ∈ machine.nodeReferences node ↔ machine.RefersTo node target := by
  cases node with
  | object handle =>
      rw [nodeReferences]
      cases found : machine.heap.get? handle with
      | none =>
          simp only [Option.map_none, Option.getD_none, List.not_mem_nil, false_iff]
          rintro ⟨stored, _⟩
          simp [found] at stored
      | some object =>
          rw [Option.map_some, Option.getD_some, Object.mem_references]
          constructor
          · exact .object found
          · rintro ⟨stored, reference⟩
            obtain rfl := Option.some.inj (found.symm.trans stored)
            exact reference
  | context id =>
      rw [nodeReferences]
      cases found : machine.context? id with
      | none =>
          simp only [Option.map_none, Option.getD_none, List.not_mem_nil, false_iff]
          rintro (_ | ⟨stored, _⟩)
          simp [found] at stored
      | some context =>
          rw [Option.map_some, Option.getD_some, Context.mem_references]
          constructor
          · exact .context found
          · rintro (_ | ⟨stored, reference⟩)
            obtain rfl := Option.some.inj (found.symm.trans stored)
            exact reference

/-- What is reachable lies in any list that has the roots and whatever its nodes refer to. -/
theorem Reachable.mem_of_closed {machine : Machine} {node : Node} {nodes : List Node}
    (reachable : machine.Reachable node) (hasRoots : ∀ root ∈ machine.roots, root ∈ nodes)
    (closed : ∀ node ∈ nodes, ∀ target ∈ machine.nodeReferences node, target ∈ nodes) :
    node ∈ nodes := by
  induction reachable with
  | root isRoot => exact hasRoots _ (mem_roots.mpr isRoot)
  | step _ refers inductionHypothesis =>
      exact closed _ inductionHypothesis _ (mem_nodeReferences.mpr refers)

end Machine

theorem Heap.mem_handles {heap : Heap} {handle : Handle} :
    handle ∈ heap.handles ↔ ∃ object, heap.get? handle = some object := by
  simp only [handles, get?, List.mem_filterMap, Option.map_eq_some_iff]
  constructor
  · rintro ⟨⟨cell, slot⟩, member, object, holds, rfl⟩
    have located : heap.cells[slot]? = some cell := by
      simpa using List.mem_zipIdx_iff_getElem?.mp member
    refine ⟨object, ?_⟩
    simp only [located, ↓reduceIte]
    exact holds
  · rintro ⟨object, found⟩
    cases located : heap.cells[handle.slot]? with
    | none => simp [located] at found
    | some cell =>
        rw [located] at found
        simp only [Option.ite_none_right_eq_some] at found
        refine ⟨(cell, handle.slot), ?_, object, found.2, by simp [found.1]⟩
        exact List.mem_zipIdx_iff_getElem?.mpr (by simpa using located)

/-- There are no more objects than cells. -/
theorem Heap.length_handles_le (heap : Heap) : heap.handles.length ≤ heap.cells.size := by
  calc heap.handles.length
      ≤ heap.cells.toList.zipIdx.length := List.length_filterMap_le _ _
    _ = heap.cells.size := by simp

/-- There are no more than that of any kind. -/
theorem Heap.length_le_size {heap : Heap} {list : List Handle} (nodup : list.Nodup)
    (live : ∀ handle ∈ list, ∃ object, heap.get? handle = some object) : list.length ≤ heap.cells.size :=
  have inside : list ⊆ heap.handles := fun handle member => mem_handles.mpr (live handle member)
  Nat.le_trans (nodup.subperm inside).length_le heap.length_handles_le

namespace Machine

/-- Whatever has references is among the nodes of the machine. -/
theorem mem_nodes_of_refersTo {machine : Machine} {node target : Node}
    (reference : machine.RefersTo node target) : node ∈ machine.nodes := by
  rw [nodes, List.mem_append, List.mem_map, List.mem_map]
  cases reference with
  | object found => exact .inl ⟨_, Heap.mem_handles.mpr ⟨_, found⟩, rfl⟩
  | @context id context _ found =>
      refine .inr ⟨id.index, ?_, rfl⟩
      rw [List.mem_range]
      by_contra beyond
      have missing : machine.contexts[id.index]? = none :=
        Array.getElem?_eq_none (Nat.le_of_not_lt beyond)
      rw [context?, missing] at found
      exact nomatch found

end Machine

/-! ### Marking -/

section Marking

variable {references : Node → List Node}

/-- The unmarked nodes are some of those that were unmarked before. -/
theorem mem_of_mem_unreached {white : Std.HashSet Node} {work : List Node} {node : Node}
    (unmarked : node ∈ unreached references white work) : node ∈ white := by
  fun_induction unreached references white work with
  | case1 => exact unmarked
  | case2 white marked rest isWhite inductionHypothesis =>
      exact (Std.HashSet.mem_erase.mp (inductionHypothesis unmarked)).2
  | case3 white marked rest notWhite inductionHypothesis => exact inductionHypothesis unmarked

/-- A node gets marked only if it has every property that the work list has and that
references hand on. -/
theorem of_not_mem_unreached {property : Node → Prop}
    (handedOn : ∀ node, property node → ∀ target ∈ references node, property target)
    {white : Std.HashSet Node} {work : List Node} (started : ∀ node ∈ work, property node)
    {node : Node} (wasUnmarked : node ∈ white)
    (marked : node ∉ unreached references white work) : property node := by
  fun_induction unreached references white work with
  | case1 => exact absurd wasUnmarked marked
  | case2 white first rest isWhite inductionHypothesis =>
      have firstHas : property first := started first List.mem_cons_self
      by_cases isFirst : node = first
      · rw [isFirst]
        exact firstHas
      · refine inductionHypothesis ?_ ?_ marked
        · intro other member
          rcases List.mem_append.mp member with referenced | waiting
          · exact handedOn first firstHas other referenced
          · exact started other (List.mem_cons_of_mem _ waiting)
        · rw [Std.HashSet.mem_erase]
          exact ⟨by simpa using Ne.symm isFirst, wasUnmarked⟩
  | case3 white first rest notWhite inductionHypothesis =>
      refine inductionHypothesis ?_ wasUnmarked marked
      intro other waiting
      exact started other (List.mem_cons_of_mem _ waiting)

/-- If the references of marked nodes are marked or wait in the work list, then at the
end the marked nodes contain the work list and are closed under references. -/
theorem marked_closed {white : Std.HashSet Node} {work : List Node}
    (covered : ∀ node, node ∉ white → ∀ target ∈ references node,
      target ∉ white ∨ target ∈ work) :
    (∀ node ∈ work, node ∉ unreached references white work) ∧
      ∀ node, node ∉ unreached references white work → ∀ target ∈ references node,
        target ∉ unreached references white work := by
  fun_induction unreached references white work with
  | case1 white =>
      refine ⟨nofun, ?_⟩
      intro node marked target referenced
      rcases covered node marked target referenced with done | waiting
      · exact done
      · exact nomatch waiting
  | case2 white first rest isWhite inductionHypothesis =>
      have stillCovered : ∀ node, node ∉ white.erase first → ∀ target ∈ references node,
          target ∉ white.erase first ∨ target ∈ references first ++ rest := by
        intro node marked target referenced
        rw [List.mem_append]
        by_cases isFirst : node = first
        · subst isFirst
          exact .inr (.inl referenced)
        · have wasMarked : node ∉ white := by
            intro unmarked
            exact marked (Std.HashSet.mem_erase.mpr ⟨by simpa using Ne.symm isFirst, unmarked⟩)
          rcases covered node wasMarked target referenced with done | waiting
          · exact .inl fun unmarked => done (Std.HashSet.mem_erase.mp unmarked).2
          · rcases List.mem_cons.mp waiting with rfl | waiting
            · exact .inl (by simp)
            · exact .inr (.inr waiting)
      obtain ⟨workMarked, closed⟩ := inductionHypothesis stillCovered
      refine ⟨?_, closed⟩
      intro node waiting
      rcases List.mem_cons.mp waiting with rfl | waiting
      · intro unmarked
        have := mem_of_mem_unreached unmarked
        simp at this
      · exact workMarked node (List.mem_append_right _ waiting)
  | case3 white first rest notWhite inductionHypothesis =>
      have stillCovered : ∀ node, node ∉ white → ∀ target ∈ references node,
          target ∉ white ∨ target ∈ rest := by
        intro node marked target referenced
        rcases covered node marked target referenced with done | waiting
        · exact .inl done
        · rcases List.mem_cons.mp waiting with rfl | waiting
          · exact .inl notWhite
          · exact .inr waiting
      obtain ⟨workMarked, closed⟩ := inductionHypothesis stillCovered
      refine ⟨?_, closed⟩
      intro node waiting
      rcases List.mem_cons.mp waiting with rfl | waiting
      · exact fun unmarked => notWhite (mem_of_mem_unreached unmarked)
      · exact workMarked node waiting

end Marking

/-- Marking a machine from its roots leaves exactly the unreachable nodes unmarked. -/
theorem Machine.mem_unreached_iff {machine : Machine} {node : Node} :
    node ∈ unreached machine.nodeReferences (.ofList machine.nodes) machine.roots ↔
      node ∈ machine.nodes ∧ ¬ machine.Reachable node := by
  have covered : ∀ node, node ∉ Std.HashSet.ofList machine.nodes →
      ∀ target ∈ machine.nodeReferences node,
        target ∉ Std.HashSet.ofList machine.nodes ∨ target ∈ machine.roots := by
    intro node unknown target referenced
    refine absurd ?_ unknown
    simpa using mem_nodes_of_refersTo (mem_nodeReferences.mp referenced)
  obtain ⟨rootsMarked, closed⟩ := marked_closed covered
  constructor
  · intro unmarked
    refine ⟨by simpa using mem_of_mem_unreached unmarked, ?_⟩
    intro reachable
    induction reachable with
    | root isRoot => exact rootsMarked _ (mem_roots.mpr isRoot) unmarked
    | @step node target _ reference inductionHypothesis =>
        exact closed node inductionHypothesis target (mem_nodeReferences.mpr reference) unmarked
  · rintro ⟨known, unreachable⟩
    by_contra marked
    refine unreachable (of_not_mem_unreached ?_ ?_ (by simpa using known) marked)
    · intro node reachable target referenced
      exact .step reachable (mem_nodeReferences.mp referenced)
    · intro node isRoot
      exact .root (mem_roots.mp isRoot)

end RiteVm

namespace RiteVm

/-- Emptying the cell of an object affects the look-up of its own handle only. -/
theorem Heap.get?_remove {heap : Heap} {handle : Handle} {object : Object}
    (found : heap.get? handle = some object) (other : Handle) :
    (heap.remove handle).get? other = if other = handle then none else heap.get? other := by
  have sameSlot (isSame : handle.slot = other.slot) :
      (heap.remove handle).get? other = none := by
    cases located : heap.cells[other.slot]? <;>
      simp [get?, remove, Array.getElem?_modify, isSame, located]
  by_cases isHandle : other = handle
  · rw [if_pos isHandle, sameSlot (by rw [isHandle])]
  · rw [if_neg isHandle]
    by_cases isSame : handle.slot = other.slot
    · rw [sameSlot isSame]
      -- the cell is occupied under the generation of the removed handle
      have stale : heap.get? other = none := by
        rw [get?, ← isSame]
        rw [get?] at found
        cases located : heap.cells[handle.slot]? with
        | none => rfl
        | some cell =>
            rw [located] at found
            have current : cell.generation = handle.generation :=
              (Option.ite_none_right_eq_some.mp found).1
            refine if_neg fun same => isHandle ?_
            rw [Handle.mk.injEq]
            exact ⟨isSame.symm, same.symm.trans current⟩
      rw [stale]
    · simp [get?, remove, Array.getElem?_modify, isSame]

namespace Machine

section Reclaiming

variable {machine : Machine}

@[simp]
theorem release_heap (content : Content) : (machine.release content).heap = machine.heap := by
  cases content <;> rfl

theorem get?_reclaim (handle other : Handle) :
    (machine.reclaim handle).heap.get? other =
      if other = handle then none else machine.heap.get? other := by
  rw [reclaim]
  cases found : machine.heap.get? handle with
  | none =>
      by_cases isHandle : other = handle
      · rw [if_pos isHandle, isHandle]
        exact found
      · rw [if_neg isHandle]
  | some object =>
      simp only [release_heap]
      exact Heap.get?_remove found other

theorem get?_foldl_reclaim (dead : List Handle) (other : Handle) :
    (dead.foldl reclaim machine).heap.get? other =
      if other ∈ dead then none else machine.heap.get? other := by
  induction dead generalizing machine with
  | nil => simp
  | cons first rest inductionHypothesis =>
      rw [List.foldl_cons, inductionHypothesis, get?_reclaim]
      by_cases inRest : other ∈ rest
      · rw [if_pos inRest, if_pos (List.mem_cons_of_mem _ inRest)]
      · rw [if_neg inRest]
        by_cases isFirst : other = first
        · rw [if_pos isFirst, if_pos (by simp [isFirst])]
        · rw [if_neg isFirst, if_neg (by simp [isFirst, inRest])]

/-- Reclaiming objects concerns neither the core classes nor the method cache. -/
theorem foldl_reclaim_outside (dead : List Handle) :
    (dead.foldl reclaim machine).coreClasses = machine.coreClasses ∧
      (dead.foldl reclaim machine).methodCache = machine.methodCache := by
  induction dead generalizing machine with
  | nil => exact ⟨rfl, rfl⟩
  | cons first rest inductionHypothesis =>
      have step : (machine.reclaim first).coreClasses = machine.coreClasses ∧
          (machine.reclaim first).methodCache = machine.methodCache := by
        rw [reclaim]
        split
        · rename_i object _
          cases isContent : object.content <;> simp only [release, removeContext, and_self]
        · exact ⟨rfl, rfl⟩
      rw [List.foldl_cons, ← step.1, ← step.2]
      exact inductionHypothesis

end Reclaiming

section Collecting

variable {machine : Machine} {handle : Handle}

theorem mem_unreachable :
    handle ∈ machine.unreachable ↔
      handle ∈ machine.heap.handles ∧ ¬ machine.Reachable (.object handle) := by
  have known (live : handle ∈ machine.heap.handles) : Node.object handle ∈ machine.nodes :=
    List.mem_append_left _ (List.mem_map_of_mem live)
  rw [unreachable, List.mem_filter, Std.HashSet.contains_iff_mem, mem_unreached_iff]
  constructor
  · rintro ⟨live, -, isUnreachable⟩
    exact ⟨live, isUnreachable⟩
  · rintro ⟨live, isUnreachable⟩
    exact ⟨live, known live, isUnreachable⟩

theorem get?_collect :
    machine.collect.heap.get? handle =
      if handle ∈ machine.unreachable then none else machine.heap.get? handle :=
  get?_foldl_reclaim machine.unreachable handle

theorem coreClass_collect (core : CoreClass) :
    machine.collect.coreClass core = machine.coreClass core := by
  have same : machine.collect.coreClasses = machine.coreClasses :=
    (foldl_reclaim_outside machine.unreachable).1
  rw [coreClass, coreClass, same]

/-- A collection drops the cached methods and nothing else of their cache. -/
theorem methodCache_collect :
    machine.collect.methodCache = { machine.methodCache with entries := ∅ } := by
  have same : (machine.unreachable.foldl reclaim machine).methodCache = machine.methodCache :=
    (foldl_reclaim_outside machine.unreachable).2
  rw [collect]
  simp only [same]

theorem get?_collect_of_reachable (reachable : machine.Reachable (.object handle)) :
    machine.collect.heap.get? handle = machine.heap.get? handle := by
  rw [get?_collect, if_neg]
  intro isDead
  exact (mem_unreachable.mp isDead).2 reachable

theorem get?_collect_of_not_reachable (unreachable : ¬ machine.Reachable (.object handle)) :
    machine.collect.heap.get? handle = none := by
  rw [get?_collect]
  by_cases isDead : handle ∈ machine.unreachable
  · rw [if_pos isDead]
  · rw [if_neg isDead]
    cases found : machine.heap.get? handle with
    | none => rfl
    | some object =>
        exact absurd (mem_unreachable.mpr ⟨Heap.mem_handles.mpr ⟨object, found⟩, unreachable⟩)
          isDead

/-- What is left after a collection was reachable and is as it was. -/
theorem reachable_of_get?_collect {object : Object}
    (survived : machine.collect.heap.get? handle = some object) :
    machine.Reachable (.object handle) ∧ machine.heap.get? handle = some object := by
  have reachable : machine.Reachable (.object handle) := by
    by_contra unreachable
    rw [get?_collect_of_not_reachable unreachable] at survived
    exact nomatch survived
  exact ⟨reachable, (get?_collect_of_reachable reachable).symm.trans survived⟩

end Collecting

/-- A collection removes exactly the objects that cannot be reached. The others are as
they were, nothing is added, and a survivor refers to no removed object. -/
theorem collect_exact (machine : Machine) :
    (∀ handle object, machine.heap.get? handle = some object →
      (machine.collect.heap.get? handle = none ↔ ¬ machine.Reachable (.object handle))) ∧
    (∀ handle object, machine.collect.heap.get? handle = some object →
      machine.heap.get? handle = some object) ∧
    (∀ handle object target, machine.collect.heap.get? handle = some object →
      object.RefersTo (.object target) →
      machine.collect.heap.get? target = machine.heap.get? target) := by
  refine ⟨?_, ?_, ?_⟩
  · intro handle object live
    constructor
    · intro removed reachable
      rw [get?_collect_of_reachable reachable, live] at removed
      exact nomatch removed
    · exact get?_collect_of_not_reachable
  · intro handle object survived
    exact (reachable_of_get?_collect survived).2
  · intro handle object target survived reference
    obtain ⟨reachable, live⟩ := reachable_of_get?_collect survived
    exact get?_collect_of_reachable (.step reachable (.object live reference))

end Machine

end RiteVm
