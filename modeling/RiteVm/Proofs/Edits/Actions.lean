import RiteVm.Proofs.Edits.Changes
import RiteVm.Proofs.Evolution.Classes

/-!
Contract: actions that only edit the machine, and raise nothing but exceptions.

Owns:
- editing from one machine, and from every machine, however the action ends;
- the rules for the ways in which actions are put together;
- new exceptions, and the actions that allocate or change an object, a register or the
  running frame.

`Edits` is a class, so that the instances for the parts of an action give the instance for
the action. What raises an exception that it did not create is not edited by these rules: it
has to know that its handle leads to one.
-/

namespace RiteVm

namespace VM

/-- From one machine, an action makes only edits, and what it raises is an exception. -/
structure EditsFrom {α : Type} (machine : Machine) (action : VM α) : Prop where
  edited : machine.Edited (action.after machine)
  raises : ∀ exception next, action machine = .error (.raised exception) next →
    next.IsException exception

/-- An action makes only edits, and what it raises is an exception. -/
class Edits {α : Type} (action : VM α) : Prop where
  editsFrom : ∀ machine, machine.heap.WellFormed → EditsFrom machine action

/-! ### Composition -/

section Composition

variable {α β : Type} {machine : Machine} {action : VM α} {rest : α → VM β}

theorem EditsFrom.of_edits [edits : Edits action] (wellFormed : machine.heap.WellFormed) :
    EditsFrom machine action :=
  edits.editsFrom machine wellFormed

theorem EditsFrom.of_edit {next : Machine} {value : α}
    (succeeded : action machine = .ok value next) (edit : machine.Edit next) :
    EditsFrom machine action where
  edited := by
    rw [after_of_ok succeeded]
    exact .single edit
  raises _ _ raised := nomatch succeeded.symm.trans raised

/-- A failure that changes nothing. -/
theorem EditsFrom.of_failed {failure : Failure} (failed : action machine = .error failure machine)
    (isException : ∀ exception, failure = .raised exception → machine.IsException exception) :
    EditsFrom machine action where
  edited := by
    rw [after_of_error failed]
  raises exception next raised := by
    cases failed.symm.trans raised
    exact isException exception rfl

theorem EditsFrom.wellFormed_of_ok (edits : EditsFrom machine action)
    (wellFormed : machine.heap.WellFormed) {value : α} {next : Machine}
    (succeeded : action machine = .ok value next) :
    next.heap.WellFormed ∧ machine.KeepsRoles next := by
  have edited := edits.edited
  rw [after_of_ok succeeded] at edited
  exact edited.keepsRoles wellFormed

/-- A successful first part hands its value and its machine to the second one. -/
theorem EditsFrom.bind (wellFormed : machine.heap.WellFormed) (first : EditsFrom machine action)
    (second : ∀ value next, action machine = .ok value next → next.heap.WellFormed →
      machine.KeepsRoles next → EditsFrom next (rest value)) :
    EditsFrom machine (action >>= rest) := by
  cases result : action machine with
  | ok value next =>
      obtain ⟨wellFormed', keeps⟩ := first.wellFormed_of_ok wellFormed result
      obtain ⟨edited', raises'⟩ := second value next result wellFormed' keeps
      have edited := first.edited
      rw [after_of_ok result] at edited
      refine ⟨?_, fun exception last raised => ?_⟩
      · rw [after_bind_of_ok result]
        exact edited.trans edited'
      · rw [bind_of_ok result] at raised
        exact raises' exception last raised
  | error failure next =>
      have failed : (action >>= rest) machine = .error failure next := bind_of_error result
      have edited := first.edited
      rw [after_of_error result] at edited
      refine ⟨?_, fun exception last raised => ?_⟩
      · rw [after_of_error failed]
        exact edited
      · cases failed.symm.trans raised
        exact first.raises exception next result

/-- What was read holds of the machine in which the action goes on. -/
theorem EditsFrom.query_bind {query : Query α}
    (second : ∀ value, query machine = .ok value → EditsFrom machine (rest value)) :
    EditsFrom machine (liftM query >>= rest) := by
  cases result : query machine with
  | ok value =>
      obtain ⟨edited, raises⟩ := second value result
      have goesOn : (liftM query >>= rest : VM β) machine = rest value machine :=
        bind_of_ok (liftM_of_ok result)
      refine ⟨?_, fun exception next raised => ?_⟩
      · rw [after, goesOn]
        exact edited
      · exact raises exception next (goesOn.symm.trans raised)
  | error breach =>
      exact .of_failed (bind_of_error (liftM_of_error result)) fun _ => nofun

namespace Edits

/-- A failure that is no exception. -/
theorem ofFailure {failure : Failure} (notRaised : ∀ exception, failure ≠ .raised exception) :
    Edits (throw failure : VM α) :=
  ⟨fun _ _ => .of_failed rfl fun exception isRaised => absurd isRaised (notRaised exception)⟩

instance ofValue (value : α) : Edits (pure value : VM α) :=
  ⟨fun _ _ => ⟨.refl, fun _ _ => nofun⟩⟩

instance ofMachine : Edits (MonadState.get : VM Machine) :=
  ⟨fun _ _ => ⟨.refl, fun _ _ => nofun⟩⟩

instance seq [first : Edits action] [second : ∀ value, Edits (rest value)] :
    Edits (action >>= rest) where
  editsFrom machine wellFormed := (first.editsFrom machine wellFormed).bind wellFormed
    fun value next _ wellFormed _ => (second value).editsFrom next wellFormed

instance ofQuery (query : Query α) : Edits (liftM query : VM α) where
  editsFrom machine wellFormed := by
    rw [← bind_pure (liftM query)]
    exact .query_bind fun _ _ => (ofValue _).editsFrom machine wellFormed

/-- The action behind a part of it whose value it depends on. -/
theorem behind [Edits action] (others : ∀ value, Edits (rest value)) : Edits (action >>= rest) :=
  seq

instance mapped (change : α → β) [Edits action] : Edits (change <$> action) := by
  rw [map_eq_pure_bind]
  infer_instance

instance branch (condition : Prop) [Decidable condition] {yes no : VM α} [Edits yes]
    [Edits no] : Edits (if condition then yes else no) := by
  split <;> infer_instance

instance ofBreach (cause : Breach) : Edits (VM.breach cause : VM α) := ofFailure fun _ => nofun

instance ofFatal (cause : FatalCause) : Edits (VM.fatal cause : VM α) := ofFailure fun _ => nofun

instance ofLoadError (error : Binary.LoadError) : Edits (throw (.load error) : VM α) :=
  ofFailure fun _ => nofun

instance ofOutOfFuel : Edits (throw .outOfFuel : VM α) := ofFailure fun _ => nofun

end Edits

end Composition

/-! ### Repetition -/

section Repetition

variable {α β : Type}

namespace Edits

instance listForM {action : α → VM PUnit} [edits : ∀ value, Edits (action value)]
    (list : List α) : Edits (list.forM action) := by
  induction list with
  | nil => exact ofValue _
  | cons first rest inductionHypothesis => exact seq

instance listMapM {action : α → VM β} [edits : ∀ value, Edits (action value)]
    (list : List α) : Edits (list.mapM action) := by
  induction list with
  | nil =>
      rw [List.mapM_nil]
      infer_instance
  | cons first rest inductionHypothesis =>
      rw [List.mapM_cons]
      infer_instance

instance listFoldlM {action : β → α → VM β} [edits : ∀ state value, Edits (action state value)]
    (initial : β) (list : List α) : Edits (list.foldlM action initial) := by
  induction list generalizing initial with
  | nil => exact ofValue _
  | cons first rest inductionHypothesis => exact seq

instance listForIn {action : α → β → VM (ForInStep β)}
    [edits : ∀ value state, Edits (action value state)] (list : List α) (initial : β) :
    Edits (forIn list initial action) := by
  induction list generalizing initial with
  | nil => exact ofValue _
  | cons first rest inductionHypothesis =>
      rw [List.forIn_cons]
      refine behind fun step => ?_
      cases step <;> infer_instance

instance listFilterM {action : α → VM Bool} [edits : ∀ value, Edits (action value)]
    (list : List α) : Edits (list.filterM action) := by
  have filterAux (kept : List α) : Edits (list.filterAuxM action kept) := by
    induction list generalizing kept with
    | nil => exact ofValue _
    | cons first rest inductionHypothesis => exact seq
  unfold List.filterM
  infer_instance

instance optionForM {action : α → VM PUnit} [edits : ∀ value, Edits (action value)]
    (option : Option α) : Edits (option.forM action) := by
  cases option
  · exact ofValue _
  · exact edits _

instance optionMapM {action : α → VM β} [edits : ∀ value, Edits (action value)]
    (option : Option α) : Edits (option.mapM action) := by
  cases option
  · exact ofValue _
  · exact mapped _

end Edits

end Repetition

/-! ### Edits of the heap -/

section Objects

variable {machine : Machine}

theorem Edits.of_modify {change : Machine → Machine} (edit : ∀ machine, Machine.Edit machine (change machine)) :
    Edits (modify change : VM PUnit) :=
  ⟨fun machine _ => .of_edit rfl (edit machine)⟩

/-- A change of what the heap keeps beside its cells. -/
theorem Edits.of_accounts {change : Heap → Heap} (cells : ∀ heap, (change heap).cells = heap.cells)
    (free : ∀ heap, (change heap).free = heap.free) : Edits (modifyHeap change) :=
  of_modify fun _ => .accounts (cells _) (free _)

theorem Edits.of_allocate {object : Object} (noFiber : object.fiber? = none) :
    Edits (VM.allocate object) :=
  ⟨fun _ _ => .of_edit rfl (.allocate noFiber)⟩

/-- A new object has the role of what it stores. -/
theorem role?_of_allocate {next : Machine} {object : Object} {handle : Handle}
    (wellFormed : machine.heap.WellFormed)
    (allocated : VM.allocate object machine = .ok handle next) :
    next.role? handle = some object.content.role := by
  have isNext : next = machine.allocate object := by cases allocated; rfl
  have isHandle : handle = (machine.heap.allocate object).2 := by cases allocated; rfl
  rw [isNext, isHandle, Machine.role?, Heap.role?, Machine.allocate, wellFormed.get?_allocate,
    if_pos rfl]
  rfl

theorem EditsFrom.modifyObject {handle : Handle} {change : Object → Object}
    (edits : ∀ object, machine.heap.get? handle = some object →
      object.content.Edit (change object).content) :
    EditsFrom machine (VM.modifyObject handle change) :=
  .of_edit rfl (.rewrite edits)

theorem Edits.of_modifyObject {handle : Handle} {change : Object → Object}
    (edits : ∀ object : Object, object.content.Edit (change object).content) :
    Edits (VM.modifyObject handle change) :=
  ⟨fun _ _ => .modifyObject fun object _ => edits object⟩

/-- Another content of an object that was just read. -/
theorem EditsFrom.setContent {handle : Handle} {object : Object} {content : Content}
    (found : machine.heap.get? handle = some object) (edit : object.content.Edit content) :
    EditsFrom machine (VM.setContent handle content) := by
  refine .modifyObject fun other isOther => ?_
  cases found.symm.trans isOther
  exact edit

namespace Edits

instance growHeap (bytes : Nat) : Edits (modifyHeap (·.grow bytes)) :=
  of_accounts (fun _ => rfl) (fun _ => rfl)

instance protectValue (value : Value) : Edits (modifyHeap (·.protect value)) := by
  refine of_accounts (fun heap => ?_) (fun heap => ?_) <;> cases value <;> rfl

instance restoreArena (mark : Nat) : Edits (modifyHeap (·.restoreArena mark)) :=
  of_accounts (fun _ => rfl) (fun _ => rfl)

instance unpin (pin : Pin) : Edits (modifyHeap (·.unpin pin)) := by
  refine of_accounts (fun heap => ?_) (fun heap => ?_) <;> rw [Heap.unpin] <;> split <;> rfl

instance intern (name : Bytes) : Edits (VM.intern name) := ⟨fun _ _ => .of_edit rfl .aside⟩

instance internText (name : String) : Edits (VM.internText name) :=
  inferInstanceAs (Edits (VM.intern _))

instance modifyItems (handle : Handle) (change : Array Value → Array Value) :
    Edits (VM.modifyItems handle change) :=
  of_modifyObject fun object => by
    obtain ⟨classHandle, content, frozen, fields⟩ := object
    cases content <;> first | exact .array _ _ | exact .same _

instance modifyException (handle : Handle) (change : ExceptionRecord → ExceptionRecord) :
    Edits (modifyException handle change) :=
  of_modifyObject fun object => by
    obtain ⟨classHandle, content, frozen, fields⟩ := object
    cases content <;> first | exact .exception _ _ | exact .same _

end Edits

end Objects

/-! ### Edits of registers and frames -/

namespace Edits

theorem of_slots {change : Context → Context}
    (same : ∀ context, Context.SameFrames context (change context)) :
    Edits (VM.modifyContext change) :=
  ⟨fun _ _ => .of_edit rfl (.slots same)⟩

theorem of_frame {change : Frame → Frame} (same : ∀ frame, Frame.SamePlace frame (change frame)) :
    Edits (VM.modifyFrame change) :=
  ⟨fun _ _ => .of_edit rfl (.frame same)⟩

instance setSlot (index : Nat) (value : Value) : Edits (setSlot index value) :=
  of_slots fun context => context.sameFrames_setSlot index value

instance setRegister (base register : Nat) (value : Value) :
    Edits (setRegister base register value) :=
  setSlot _ _

instance clear (first last : Nat) : Edits (VM.modifyContext (·.clear first last)) :=
  of_slots fun context => context.sameFrames_clear first last

instance setPc (pc : Nat) : Edits (modifyFrame ({ · with pc })) :=
  of_frame fun _ => ⟨rfl, rfl, rfl, rfl, rfl⟩

instance setEnsuring (ensuring : Option Handle) : Edits (modifyFrame ({ · with ensuring })) :=
  of_frame fun _ => ⟨rfl, rfl, rfl, rfl, rfl⟩

end Edits

/-! ### Exceptions -/

section Exceptions

variable {α : Type}

namespace Edits

instance newString (bytes : Bytes) : Edits (newString bytes) := by
  have create (classHandle : Handle) : Edits (allocate { classHandle, content := .string bytes }) :=
    of_allocate rfl
  unfold VM.newString VM.newCore
  infer_instance

instance newText (text : String) : Edits (newText text) := newString _

instance newException (classHandle : Handle) (message : Value) :
    Edits (newException classHandle message) :=
  of_allocate rfl

instance fillBacktrace (handle : Handle) : Edits (fillBacktrace handle) := by
  unfold VM.fillBacktrace
  refine behind fun exception? => ?_
  split <;> infer_instance

instance exceptionHere (core : CoreClass) (message : String) :
    Edits (exceptionHere core message) := by
  unfold VM.exceptionHere
  infer_instance

end Edits

/-- A new exception that was not raised yet. -/
theorem isException_newException {machine next : Machine} {classHandle exception : Handle}
    {message : Value} (wellFormed : machine.heap.WellFormed)
    (created : newException classHandle message machine = .ok exception next) :
    next.IsException exception :=
  role?_of_allocate wellFormed created

/-- A new exception leads to an exception. -/
theorem isException_exceptionHere {machine next : Machine} {core : CoreClass} {message : String}
    {exception : Handle} (wellFormed : machine.heap.WellFormed)
    (created : exceptionHere core message machine = .ok exception next) :
    next.IsException exception := by
  rw [exceptionHere] at created
  obtain ⟨text, withText, isText, created⟩ := bind_eq_ok_iff.mp created
  obtain ⟨classHandle, _, isClass, created⟩ := bind_eq_ok_iff.mp created
  obtain ⟨-, rfl⟩ := liftM_eq_ok_iff.mp isClass
  obtain ⟨handle, withException, allocated, created⟩ := bind_eq_ok_iff.mp created
  obtain ⟨_, last, filled, returned⟩ := bind_eq_ok_iff.mp created
  obtain ⟨rfl, rfl⟩ := pure_eq_ok_iff.mp returned
  have texts : EditsFrom machine (newText message) := .of_edits wellFormed
  have wellFormed := (texts.wellFormed_of_ok wellFormed isText).1
  have creates : EditsFrom withText (newException classHandle text) := .of_edits wellFormed
  have wellFormed' := (creates.wellFormed_of_ok wellFormed allocated).1
  have fills : EditsFrom withException (fillBacktrace handle) := .of_edits wellFormed'
  exact (fills.wellFormed_of_ok wellFormed' filled).2 _ _
    (isException_newException wellFormed allocated)

/-- A new exception is raised after further edits. -/
theorem Edits.of_exceptionHere {core : CoreClass} {message : String} {edit : Handle → VM PUnit}
    [edits : ∀ exception, Edits (edit exception)] :
    Edits (do
      let exception ← VM.exceptionHere core message
      edit exception
      throw (.raised exception) : VM α) where
  editsFrom machine wellFormed := by
    refine .bind wellFormed (.of_edits wellFormed) fun exception next created wellFormed' _ => ?_
    refine .bind wellFormed' (.of_edits wellFormed') fun _ last _ _ keeps => ?_
    refine .of_failed rfl fun _ isRaised => ?_
    cases isRaised
    exact keeps _ _ (isException_exceptionHere wellFormed created)

namespace Edits

instance raise (core : CoreClass) (message : String) : Edits (raise core message : VM α) where
  editsFrom machine wellFormed := by
    unfold VM.raise
    refine .bind wellFormed (.of_edits wellFormed) fun exception next created _ _ => ?_
    refine .of_failed rfl fun _ isRaised => ?_
    cases isRaised
    exact isException_exceptionHere wellFormed created

instance raiseNameError (message : String) (name : Symbol) :
    Edits (raiseNameError message name : VM α) :=
  of_exceptionHere

instance raiseNoMethod (message : String) (receiver : Value) (name : Symbol) :
    Edits (raiseNoMethod message receiver name : VM α) :=
  of_exceptionHere

instance raiseStackError : Edits (raiseStackError : VM α) := raise _ _

end Edits

end Exceptions

end VM

end RiteVm
