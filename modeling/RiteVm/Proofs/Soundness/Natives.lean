import RiteVm.Core.Natives
import RiteVm.Proofs.Fibers.Calls
import RiteVm.Proofs.Soundness.Calls

/-!
Contract: the methods of the core classes sustain a sound machine.

Owns: one instance for each part of such a method that starts something, and for each family
of methods.

An exception object is raised only after its handle was seen to lead to one.
-/

namespace RiteVm.VM

set_option synthInstance.maxSize 3000

variable {limits : Config} {strict : Prop} {level : Nat} {machine : Machine} {α : Type}

/-- An exception that is there is raised as it is. -/
theorem sustainsFrom_raiseObject (sound : machine.SoundAt limits strict level) {exception : Handle}
    (isException : machine.IsException exception) :
    SustainsFrom limits strict level machine (raiseObject exception : VM α)
      (raiseObject exception) := by
  unfold raiseObject
  refine .edits_bind sound (.of_edits sound.wellFormed) fun _ next _ sound' edited => ?_
  refine sustainsFrom_throw sound' fun _ _ isRaised => ?_
  cases isRaised
  exact (edited.keepsRoles sound.wellFormed).2 _ _ isException

theorem isException_of_object {handle : Handle} {object : Object}
    (read : Query.object handle machine = .ok object) (isSome : object.exception?.isSome) :
    machine.IsException handle := by
  obtain ⟨record, isRecord⟩ := Option.isSome_iff_exists.mp isSome
  have isContent : object.content = .exception record := by
    rw [Object.exception?] at isRecord
    split at isRecord <;> simp_all
  rw [Machine.IsException, Machine.role?, Heap.role?, Query.object_eq_ok_iff.mp read, Option.map_some,
    isContent]
  rfl

instance Fails.ofRaiseObject (exception : Handle) : Fails (raiseObject exception : VM α) := by
  unfold raiseObject
  infer_instance

/-- A new exception is raised at once. -/
instance Sustains.raiseNew {β : Type} (classHandle : Handle) (message : Value)
    {rest rest' : Handle → α → VM β} :
    Sustains limits strict level
      (newException classHandle message >>= fun exception =>
        raiseObject exception >>= rest exception)
      (newException classHandle message >>= fun exception =>
        raiseObject exception >>= rest' exception) where
  sustainsFrom machine sound := by
    refine .edits_bind sound (.of_edits sound.wellFormed) fun exception next created sound' _ => ?_
    have isException := isException_newException sound.wellFormed created
    exact .bind (sustainsFrom_raiseObject sound' isException) fun value last raised _ =>
      absurd raised (Fails.ne_ok next value last)

variable {engine engine' : Engine} [sustained : engine.Sustained limits strict (level + 1) engine']

/-! ### Objects -/



namespace Sustains

instance answersEqual (self other : Value) :
    Sustains limits strict level (answersEqual engine self other) (answersEqual engine' self other) := by
  unfold VM.answersEqual
  infer_instance

instance forward (self : Value) (args : Args) :
    Sustains limits strict level (forward engine self args) (forward engine' self args) := by
  unfold VM.forward
  infer_instance

instance exceptionFor (args : Args) :
    Sustains limits strict level (exceptionFor engine args) (exceptionFor engine' args) := by
  unfold VM.exceptionFor
  refine behind fun content? => ?_
  split <;> infer_instance

instance raiseArgs (args : Args) :
    Sustains limits strict level (raiseArgs engine args) (raiseArgs engine' args) := by
  have finish (exception : Value) : Sustains limits strict level (do
      match exception with
      | .object handle =>
        if (← Query.object handle).exception?.isSome then VM.raiseObject handle
      | _ => pure ()
      VM.raise .typeError "exception object expected" : VM Value) (do
      match exception with
      | .object handle =>
        if (← Query.object handle).exception?.isSome then VM.raiseObject handle
      | _ => pure ()
      VM.raise .typeError "exception object expected" : VM Value) := by
    dsimp only
    split
    · refine ⟨fun machine sound => .query_bind sound fun object read => ?_⟩
      split
      · rename_i isSome
        exact .bind (sustainsFrom_raiseObject sound (isException_of_object read isSome))
          fun _ _ _ sound => .of_edits sound
      · exact .of_edits sound
    · infer_instance
  dsimp only at finish
  unfold VM.raiseArgs
  infer_instance

instance runObjectMethod (self : Value) (args : Args) (method : ObjectMethod) :
    Sustains limits strict level (runObjectMethod engine self args method)
      (runObjectMethod engine' self args method) := by
  cases method <;> unfold VM.runObjectMethod <;> infer_instance

/-! ### Modules -/

instance newClass (args : Args) :
    Sustains limits strict level (newClass engine args) (newClass engine' args) := by
  have finish (handle : Handle) : Sustains limits strict level (do
      match args.block? with
      | some block =>
        let body ← VM.expectProc block
        modifyHeap (·.protect (.object handle))
        let _ ← VM.callProc engine (.object body) [.object handle]
      | none => pure ()
      return Value.object handle : VM Value) (do
      match args.block? with
      | some block =>
        let body ← VM.expectProc block
        modifyHeap (·.protect (.object handle))
        let _ ← VM.callProc engine' (.object body) [.object handle]
      | none => pure ()
      return Value.object handle : VM Value) := by
    dsimp only
    split <;> infer_instance
  dsimp only at finish
  unfold VM.newClass
  infer_instance

instance newInstance (self : Value) (args : Args) :
    Sustains limits strict level (newInstance engine self args) (newInstance engine' self args) := by
  unfold VM.newInstance
  infer_instance

instance runModuleMethod (self : Value) (args : Args) (method : ModuleMethod) :
    Sustains limits strict level (runModuleMethod engine self args method)
      (runModuleMethod engine' self args method) := by
  cases method <;> unfold VM.runModuleMethod
  case name =>
    refine behind fun handle => behind fun record => ?_
    split <;> infer_instance
  case constGet =>
    refine behind fun handle => behind fun name => behind fun value? => ?_
    split <;> infer_instance
  all_goals infer_instance

/-! ### Exceptions -/

instance messageValue (value : Value) :
    Sustains limits strict level (messageValue engine value) (messageValue engine' value) := by
  unfold VM.messageValue
  infer_instance

instance copyException (self message : Value) :
    Sustains limits strict level (copyException engine self message) (copyException engine' self message) := by
  have copy (object : Object) (record : ExceptionRecord) : Edits (VM.allocate
      { classHandle := object.classHandle, content := .exception record
        fields := object.fields }) :=
    .of_allocate rfl
  unfold VM.copyException
  dsimp only
  infer_instance

instance runExceptionMethod (self : Value) (args : Args) (method : ExceptionMethod) :
    Sustains limits strict level (runExceptionMethod engine self args method)
      (runExceptionMethod engine' self args method) := by
  cases method <;> unfold VM.runExceptionMethod
  case backtrace =>
    refine behind fun exception => ?_
    dsimp only
    split <;> infer_instance
  all_goals infer_instance

/-! ### Containers -/

instance callEach (block : Value) (values : List Value) :
    Sustains limits strict level (callEach engine block values) (callEach engine' block values) := by
  induction values with
  | nil => exact inferInstanceAs (Sustains limits strict level (pure _) (pure _))
  | cons value rest inductionHypothesis =>
      unfold VM.callEach
      infer_instance

instance callItems (block array : Value) (rounds index : Nat) :
    Sustains limits strict level (callItems engine block array rounds index)
      (callItems engine' block array rounds index) := by
  induction rounds generalizing index with
  | zero => exact inferInstanceAs (Sustains limits strict level (throw _) (throw _))
  | succ rounds inductionHypothesis =>
      unfold VM.callItems
      refine behind fun item? => ?_
      split <;> infer_instance

instance callPairs (block : Value) (pairs : List (Value × Value)) :
    Sustains limits strict level (callPairs engine block pairs) (callPairs engine' block pairs) := by
  induction pairs with
  | nil => exact inferInstanceAs (Sustains limits strict level (pure _) (pure _))
  | cons pair rest inductionHypothesis =>
      unfold VM.callPairs
      infer_instance

instance areEqual (left right : Value) :
    Sustains limits strict level (areEqual engine left right) (areEqual engine' left right) := by
  unfold VM.areEqual
  split
  · infer_instance
  · have ask : Sustains limits strict level (do
        match ← Query.string? left, ← Query.string? right with
        | some left, some right => return left == right
        | _, _ => return (← VM.callWith engine left .opEq [right]).isTruthy : VM Bool) (do
        match ← Query.string? left, ← Query.string? right with
        | some left, some right => return left == right
        | _, _ => return (← VM.callWith engine' left .opEq [right]).isTruthy : VM Bool) := by
      refine behind fun left? => behind fun right? => ?_
      split <;> infer_instance
    infer_instance

instance areAllEqual (pairs : List (Value × Value)) :
    Sustains limits strict level (areAllEqual engine pairs) (areAllEqual engine' pairs) := by
  induction pairs with
  | nil => exact inferInstanceAs (Sustains limits strict level (pure _) (pure _))
  | cons pair rest inductionHypothesis =>
      unfold VM.areAllEqual
      infer_instance

instance runArrayMethod (self : Value) (args : Args) (method : ArrayMethod) :
    Sustains limits strict level (runArrayMethod engine self args method)
      (runArrayMethod engine' self args method) := by
  cases method <;> unfold VM.runArrayMethod
  case get =>
    refine behind fun _ => behind fun start => ?_
    have slice (count : Int64) (items? : Option (Array Value)) : Edits (
        match sliceOf? (items?.getD #[]) start.toInt count.toInt with
        | some slice => VM.newArray slice
        | none => Pure.pure .nil : VM Value) := by
      split <;> infer_instance
    infer_instance
  case equal =>
    refine behind fun left? => behind fun right? => ?_
    split <;> infer_instance
  case each =>
    rw [sustained.rounds]
    infer_instance
  all_goals infer_instance

instance runHashMethod (self : Value) (args : Args) (method : HashMethod) :
    Sustains limits strict level (runHashMethod engine self args method)
      (runHashMethod engine' self args method) := by
  cases method <;> unfold VM.runHashMethod <;> infer_instance

instance runRangeMethod (self : Value) (args : Args) (method : RangeMethod) :
    Sustains limits strict level (runRangeMethod engine self args method)
      (runRangeMethod engine' self args method) := by
  cases method <;> unfold VM.runRangeMethod <;> infer_instance

/-! ### Numbers, texts and closures -/

instance countWith (block : Value) (start : Int) (count : Nat) :
    Sustains limits strict level (countWith engine block start count) (countWith engine' block start count) := by
  induction count generalizing start with
  | zero => exact inferInstanceAs (Sustains limits strict level (pure _) (pure _))
  | succ count inductionHypothesis =>
      unfold VM.countWith
      infer_instance

instance runNumberMethod (self : Value) (args : Args) (method : NumberMethod) :
    Sustains limits strict level (runNumberMethod engine self args method)
      (runNumberMethod engine' self args method) := by
  cases method <;> unfold VM.runNumberMethod
  case arithmetic op =>
    refine behind fun _ => behind fun result? => ?_
    split <;> infer_instance
  case comparison op =>
    refine behind fun _ => ?_
    split <;> infer_instance
  case negate =>
    dsimp only
    split <;> infer_instance
  case toI =>
    dsimp only
    split
    · split <;> infer_instance
    · infer_instance
  all_goals infer_instance

instance runTextMethod (self : Value) (args : Args) (method : TextMethod) :
    Sustains limits strict level (runTextMethod self args method) (runTextMethod self args method) := by
  cases method <;> unfold VM.runTextMethod
  case concat =>
    refine behind fun _ => behind fun bytes => behind fun more? => ?_
    split <;> infer_instance
  case equal =>
    refine behind fun left? => behind fun right? => ?_
    split <;> infer_instance
  case symbolToS =>
    dsimp only
    split <;> infer_instance
  all_goals infer_instance

instance runClosureMethod (self : Value) (args : Args) (method : ClosureMethod) :
    Sustains limits strict level (runClosureMethod engine self args method)
      (runClosureMethod engine' self args method) := by
  cases method <;> unfold VM.runClosureMethod
  case newFiber =>
    dsimp only
    split <;> infer_instance
  all_goals infer_instance

/-- A method is balanced if the methods of the host are. -/
theorem runMethod {hosts : Array HostMethod}
    (balanced : ∀ body ∈ hosts, ∀ self args,
      Sustains limits strict level (body engine self args) (body engine' self args))
    (method : NativeMethod) (self : Value) (args : Args) :
    Sustains limits strict level (runMethod hosts engine method self args)
      (runMethod hosts engine' method self args) := by
  unfold VM.runMethod
  cases method with
  | host index =>
      dsimp only
      cases found : hosts[index]? with
      | none => exact ofEdits
      | some body => exact balanced body (Array.mem_of_getElem? found) self args
  | _ => infer_instance

end Sustains

end RiteVm.VM
