import RiteVm.Proofs.Fibers.Registers
import RiteVm.Proofs.Unwinding.TopFrame

/-!
Contract: the edits that leave every object in its role and every frame in its place.

Owns:
- the role of an object, which is what other parts of the machine rely on it to be;
- edits, with one constructor for each kind, and the content that an edit may give an object;
- objects keep their roles, and register stacks their frames, through any number of edits.

Does not own: that actions only make edits. Pushing and leaving frames, pending records,
switching between fibers and collections are no edits.
-/

namespace RiteVm

/-! ### Roles -/

/-- What the machine relies on an object to be. -/
inductive Role where
  | exception
  /-- a record of an exit that waits for an ensure clause -/
  | exit
  /-- the fiber that owns a register stack -/
  | fiber (context : ContextId)
  | other
deriving DecidableEq, Repr

/-- The role of an object that stores a content. -/
def Content.role : Content → Role
  | .exception _ => .exception
  | .exit _ => .exit
  | .fiber record => .fiber record.context
  | _ => .other

/-- Another content that an edit may give to an object. -/
inductive Content.Edit : Content → Content → Prop where
  | same (content : Content) : Edit content content
  | string (before after : Bytes) : Edit (.string before) (.string after)
  | array (before after : Array Value) : Edit (.array before) (.array after)
  | hash (before after : OrderedHash) : Edit (.hash before) (.hash after)
  | classOrModule (before after : ClassRecord) :
      Edit (.classOrModule before) (.classOrModule after)
  | exception (before after : ExceptionRecord) : Edit (.exception before) (.exception after)
  | data (before after : DataRecord) : Edit (.data before) (.data after)
  /-- captured variables are from here on kept in the environment -/
  | detach (record : EnvRecord) (values : Array Value) :
      Edit (.env record) (.env { record with storage := .detached values })
  | fiberState (record : FiberRecord) (state : FiberState) :
      Edit (.fiber record) (.fiber { record with state })

theorem Content.Edit.role_eq {before after : Content} (edit : before.Edit after) :
    after.role = before.role := by
  cases edit <;> rfl

/-- The role of the object that a handle leads to. -/
def Heap.role? (heap : Heap) (handle : Handle) : Option Role :=
  (heap.get? handle).map fun object => object.content.role

/-- The role of the object that a handle leads to. -/
def Machine.role? (machine : Machine) (handle : Handle) : Option Role := machine.heap.role? handle

/-- Code, registers, environment and surroundings of a frame are the same. -/
structure Frame.SamePlace (before after : Frame) : Prop where
  base : after.base = before.base
  proc : after.proc = before.proc
  unit : after.unit = before.unit
  boundary : after.boundary = before.boundary
  env : after.env = before.env

/-- At most the values of slots differ. -/
structure Context.SameFrames (before after : Context) : Prop where
  frames : after.frames = before.frames
  pending : after.pending = before.pending
  owner : after.owner = before.owner

theorem Context.sameFrames_ensureSize (context : Context) (size : Nat) :
    context.SameFrames (context.ensureSize size) := by
  rw [Context.ensureSize]
  split <;> exact ⟨rfl, rfl, rfl⟩

theorem Context.sameFrames_setSlot (context : Context) (index : Nat) (value : Value) :
    context.SameFrames (context.setSlot index value) :=
  have same := context.sameFrames_ensureSize (index + 1)
  ⟨same.frames, same.pending, same.owner⟩

theorem Context.sameFrames_clear (context : Context) (first last : Nat) :
    context.SameFrames (context.clear first last) :=
  have same := context.sameFrames_ensureSize last
  ⟨same.frames, same.pending, same.owner⟩

namespace Machine

/-! ### Edits -/

/-- One edit of a machine. -/
inductive Edit (machine : Machine) : Machine → Prop where
  /-- names, globals, core classes, cached methods and what observes fibers -/
  | aside {symbols : SymbolTable} {globals : Table Symbol Value}
      {coreClasses : Table CoreClass Handle} {mainObject : Handle} {methodCache : MethodCache}
      {signals : Array FiberSignals} {woken : Array Waker} :
      Edit machine
        { machine with symbols, globals, coreClasses, mainObject, methodCache, signals, woken }
  /-- the accounts of the heap, and what the host keeps in use -/
  | accounts {heap : Heap} :
      heap.cells = machine.heap.cells → heap.free = machine.heap.free →
      Edit machine { machine with heap }
  /-- a new object that is no fiber -/
  | allocate {object : Object} : object.fiber? = none → Edit machine (machine.allocate object)
  | rewrite {handle : Handle} {change : Object → Object} :
      (∀ object, machine.heap.get? handle = some object →
        object.content.Edit (change object).content) →
      Edit machine (machine.rewrite handle change)
  /-- other values in the slots of a register stack -/
  | slots {id : ContextId} {change : Context → Context} :
      (∀ context, Context.SameFrames context (change context)) →
      Edit machine (machine.modifyContext id change)
  /-- another address or extent of the running frame -/
  | frame {change : Frame → Frame} :
      (∀ frame, Frame.SamePlace frame (change frame)) →
      Edit machine (machine.modifyContext machine.current (·.modifyTop change))
  /-- an environment that is there, for the running frame -/
  | scope {env : Handle} : (machine.role? env).isSome →
      Edit machine
        (machine.modifyContext machine.current (·.modifyTop ({ · with env := some env })))

/-- Any number of edits in a row. -/
abbrev Edited : Machine → Machine → Prop := Relation.ReflTransGen Edit

/-- Objects stay and keep their roles. -/
def KeepsRoles (before after : Machine) : Prop :=
  ∀ handle role, before.role? handle = some role → after.role? handle = some role

variable {before machine after : Machine}

theorem KeepsRoles.refl (machine : Machine) : machine.KeepsRoles machine := fun _ _ => id

theorem KeepsRoles.trans (first : before.KeepsRoles machine) (second : machine.KeepsRoles after) :
    before.KeepsRoles after :=
  fun handle role known => second handle role (first handle role known)

theorem KeepsRoles.of_heap (same : after.heap = before.heap) : before.KeepsRoles after := by
  intro handle role known
  rw [role?, same]
  exact known

theorem role?_of_cells (same : after.heap.cells = before.heap.cells) (handle : Handle) :
    after.role? handle = before.role? handle := by
  rw [role?, role?, Heap.role?, Heap.role?, Heap.get?, Heap.get?, same]

theorem keepsRoles_allocate (wellFormed : machine.heap.WellFormed) (object : Object) :
    machine.KeepsRoles (machine.allocate object) := by
  intro handle role known
  have isOther : handle ≠ (machine.heap.allocate object).2 := by
    rintro rfl
    rw [role?, Heap.role?, wellFormed.get?_allocate_snd] at known
    exact nomatch known
  rw [role?, Heap.role?, Machine.allocate, wellFormed.get?_allocate, if_neg isOther]
  exact known

theorem keepsRoles_rewrite {handle : Handle} {change : Object → Object}
    (edits : ∀ object, machine.heap.get? handle = some object →
      object.content.Edit (change object).content) :
    machine.KeepsRoles (machine.rewrite handle change) := by
  intro other role known
  rw [role?, Heap.role?, get?_rewrite]
  split
  · rename_i isHandle
    rw [isHandle, role?, Heap.role?] at known
    cases found : machine.heap.get? handle with
    | none =>
        rw [found] at known
        exact nomatch known
    | some object =>
        rw [found] at known
        rw [← known]
        exact congrArg some (edits object found).role_eq
  · exact known

/-- An edit keeps the heap well-formed, and objects in their roles. -/
theorem Edit.keepsRoles (edit : before.Edit after) (wellFormed : before.heap.WellFormed) :
    after.heap.WellFormed ∧ before.KeepsRoles after := by
  cases edit with
  | aside => exact ⟨wellFormed, .of_heap rfl⟩
  | accounts cells free =>
      exact ⟨wellFormed.of_cells cells free, fun handle role known =>
        (role?_of_cells cells handle).trans known⟩
  | allocate => exact ⟨wellFormed.allocate _, keepsRoles_allocate wellFormed _⟩
  | rewrite edits => exact ⟨wellFormed.modify _ _, keepsRoles_rewrite edits⟩
  | slots => exact ⟨wellFormed, .of_heap rfl⟩
  | frame => exact ⟨wellFormed, .of_heap rfl⟩
  | scope => exact ⟨wellFormed, .of_heap rfl⟩

/-- So do any number of edits. -/
theorem Edited.keepsRoles (edited : before.Edited after) (wellFormed : before.heap.WellFormed) :
    after.heap.WellFormed ∧ before.KeepsRoles after := by
  induction edited with
  | refl => exact ⟨wellFormed, .refl before⟩
  | tail _ edit inductionHypothesis =>
      obtain ⟨wellFormed', keeps⟩ := inductionHypothesis
      obtain ⟨wellFormed'', keeps'⟩ := edit.keepsRoles wellFormed'
      exact ⟨wellFormed'', keeps.trans keeps'⟩

/-- No edit makes a fiber. -/
theorem Edit.role?_of_fiber (edit : before.Edit after) (wellFormed : before.heap.WellFormed)
    {handle : Handle} {id : ContextId} (isFiber : after.role? handle = some (.fiber id)) :
    before.role? handle = some (.fiber id) := by
  cases edit with
  | accounts cells free =>
      rw [role?, Heap.role?, Heap.get?, cells] at isFiber
      exact isFiber
  | @allocate object noFiber =>
      rw [role?, Heap.role?, Machine.allocate, wellFormed.get?_allocate] at isFiber
      split at isFiber
      · rw [Object.fiber?] at noFiber
        cases isContent : object.content with
        | fiber => rw [isContent] at noFiber; cases noFiber
        | _ => rw [Option.map_some, isContent] at isFiber; cases isFiber
      · exact isFiber
  | rewrite edits =>
      rw [role?, Heap.role?, get?_rewrite] at isFiber
      split at isFiber
      · rename_i isHandle
        obtain ⟨_, changed, isRole⟩ := Option.map_eq_some_iff.mp isFiber
        obtain ⟨object, found, rfl⟩ := Option.map_eq_some_iff.mp changed
        rw [role?, Heap.role?, isHandle, found, Option.map_some, ← (edits object found).role_eq, isRole]
      · exact isFiber
  | _ => exact isFiber

theorem Edited.role?_of_fiber (edited : before.Edited after) (wellFormed : before.heap.WellFormed)
    {handle : Handle} {id : ContextId} (isFiber : after.role? handle = some (.fiber id)) :
    before.role? handle = some (.fiber id) := by
  induction edited with
  | refl => exact isFiber
  | tail edited edit inductionHypothesis =>
      exact inductionHypothesis (edit.role?_of_fiber (Edited.keepsRoles edited wellFormed).1 isFiber)

/-- Number of frames on a register stack. -/
def frameCount? (machine : Machine) (id : ContextId) : Option Nat :=
  (machine.context? id).map fun context => context.frames.size

theorem frameCount?_modifyContext {id : ContextId} {change : Context → Context}
    (same : ∀ context, (change context).frames.size = context.frames.size) (other : ContextId) :
    (machine.modifyContext id change).frameCount? other = machine.frameCount? other := by
  rw [frameCount?, frameCount?, context?_of_modifyContext]
  split
  · rw [Option.map_map]
    exact congrFun (congrArg Option.map (funext same)) _
  · rfl

/-- What runs on which level, with which limits and how many frames. -/
structure SameRun (before after : Machine) : Prop where
  config : after.config = before.config
  nativeDepth : after.nativeDepth = before.nativeDepth
  current : after.current = before.current
  resumers : after.resumers = before.resumers
  frameCount? : ∀ id, after.frameCount? id = before.frameCount? id

theorem SameRun.refl (machine : Machine) : machine.SameRun machine :=
  ⟨rfl, rfl, rfl, rfl, fun _ => rfl⟩

theorem SameRun.trans (first : before.SameRun machine) (second : machine.SameRun after) :
    before.SameRun after where
  config := second.config.trans first.config
  nativeDepth := second.nativeDepth.trans first.nativeDepth
  current := second.current.trans first.current
  resumers := second.resumers.trans first.resumers
  frameCount? id := (second.frameCount? id).trans (first.frameCount? id)

theorem SameRun.symm (same : before.SameRun after) : after.SameRun before where
  config := same.config.symm
  nativeDepth := same.nativeDepth.symm
  current := same.current.symm
  resumers := same.resumers.symm
  frameCount? id := (same.frameCount? id).symm

theorem Edit.sameRun (edit : before.Edit after) : before.SameRun after := by
  cases edit with
  | slots same =>
      exact ⟨rfl, rfl, rfl, rfl,
        frameCount?_modifyContext fun context => congrArg Array.size (same context).frames⟩
  | frame =>
      exact ⟨rfl, rfl, rfl, rfl, frameCount?_modifyContext fun context => Array.size_modify⟩
  | scope =>
      exact ⟨rfl, rfl, rfl, rfl, frameCount?_modifyContext fun context => Array.size_modify⟩
  | _ => exact ⟨rfl, rfl, rfl, rfl, fun _ => rfl⟩

/-- Edits neither push nor leave frames. -/
theorem Edited.sameRun (edited : before.Edited after) : before.SameRun after := by
  induction edited with
  | refl => exact .refl before
  | tail _ edit inductionHypothesis => exact inductionHypothesis.trans edit.sameRun

/-- A handle leads to an exception. -/
def IsException (machine : Machine) (handle : Handle) : Prop :=
  machine.role? handle = some .exception

theorem IsException.exists_object {handle : Handle} (isException : machine.IsException handle) :
    ∃ object, machine.heap.get? handle = some object ∧ object.exception?.isSome := by
  obtain ⟨object, found, isRole⟩ := Option.map_eq_some_iff.mp isException
  refine ⟨object, found, ?_⟩
  cases isContent : object.content with
  | exception record => rw [Object.exception?, isContent]; rfl
  | _ => rw [isContent] at isRole; cases isRole

end Machine

end RiteVm
