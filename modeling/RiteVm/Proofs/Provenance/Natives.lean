import RiteVm.Proofs.Provenance.Execution

/-!
Contract: the methods of the core classes mention only what a told machine has given out, and
do the same with engines that agree there.

Owns: one instance for each part of such a method, and for each family of methods.
-/

namespace RiteVm

namespace Query.Reads

variable {seen : Set Mention}

instance nominalSuperclass {fuel : Nat} {handle : Handle} : Reads seen (Query.nominalSuperclass fuel handle) := by
  induction fuel generalizing handle seen with
  | zero => exact ofBreach _
  | succ fuel inductionHypothesis =>
      have := @inductionHypothesis
      unfold Query.nominalSuperclass
      refine @seq _ _ _ _ _ _ _ _ fun record => ?_
      split
      · infer_instance
      · rename_i superclass found
        have : Within (seen ∪ Mentions.of record) superclass := .of_some found
        infer_instance

end Query.Reads

/-- A method that is no host's captures nothing. -/
theorem Within.of_core {seen : Set Mention} {body : NativeMethod} (core : ∀ index, body ≠ .host index) :
    Within seen body := by
  cases body with
  | host index => exact absurd rfl (core index)
  | _ => exact ⟨Set.empty_subset _⟩

namespace VM.Tells

set_option synthInstance.maxSize 3000

variable {α : Type} [Mentions α] {captures : Nat → Set Handle} {seen : Set Mention} {handle : Handle}
  {self array value : Value} {args : Args}

/-! ### Objects and modules -/

instance strictCopy [Within seen handle] : Tells captures seen (VM.strictCopy handle) := by
  unfold VM.strictCopy
  infer_instance

instance raiseObject [Within seen handle] : Tells captures seen (VM.raiseObject handle : VM α) := by
  unfold VM.raiseObject
  infer_instance

instance allocateInstance [Within seen handle] : Tells captures seen (VM.allocateInstance handle) := by
  have create {seen : Set Mention} [Within seen handle] {content : Content} [Loose content] [Within seen content] :
      Tells captures seen (do
        return Value.object (← VM.allocate { classHandle := handle, content })) := by
    infer_instance
  unfold VM.allocateInstance
  refine behind fun record => ?_
  split
  · infer_instance
  · infer_instance
  · dsimp only
    split
    · rw [pure_bind]
      infer_instance
    · rw [pure_bind]
      infer_instance
    · rw [pure_bind]
      infer_instance
    · rw [pure_bind]
      infer_instance
    · rw [pure_bind]
      infer_instance
    · refine behind fun name => ⟨fun machine told isSeen => ?_⟩
      exact .bind (raise.tellsFrom machine told isSeen) fun _ _ raised => absurd raised raise_ne_ok

instance symbolArgs : Tells captures seen (VM.symbolArgs args) := by
  exact listMapM_of _ fun _ _ => symbolOf

instance includeAll {modules : List Value} [Within seen handle] [Within seen modules] :
    Tells captures seen (VM.includeAll handle modules) := by
  unfold VM.includeAll
  infer_instance

instance {method : ModuleMethod} : Within seen (NativeMethod.module method) := .of_core nofun

instance defineAttribute {reader writer : Bool} {name : Symbol} :
    Tells captures seen (VM.defineAttribute handle reader writer name) := by
  unfold VM.defineAttribute
  dsimp only
  infer_instance

instance methodBody [Within seen args] : Tells captures seen (VM.methodBody args) := by
  unfold VM.methodBody
  split
  · rename_i block _ found
    have : Within seen block := .of_some found
    infer_instance
  · infer_instance
  · infer_instance

/-! ### Exceptions and containers -/

instance expectException [Within seen value] : Tells captures seen (VM.expectException value) := by
  unfold VM.expectException
  dsimp only
  split
  · refine behind fun object => ?_
    split
    · rename_i record found
      have : Within (seen ∪ Mentions.of object) record := .of_some found
      infer_instance
    · infer_instance
  · infer_instance

instance popItem : Tells captures seen (VM.popItem array) := by
  unfold VM.popItem
  refine behind fun _ => behind fun items? => ?_
  split
  · rename_i last? found
    have : Within (seen ∪ Mentions.of () ∪ Mentions.of items?) last? := .of_some found
    infer_instance
  · infer_instance

instance runTextMethod {method : TextMethod} [Within seen self] :
    Tells captures seen (VM.runTextMethod self args method) := by
  cases method <;> unfold VM.runTextMethod
  case concat =>
    refine behind fun _ => behind fun bytes => behind fun more? => ?_
    split <;> infer_instance
  case equal =>
    refine behind fun left? => behind fun right? => ?_
    split <;> infer_instance
  case symbolToS =>
    dsimp only
    split <;> infer_instance
  all_goals infer_instance

end VM.Tells

namespace VM

/-! ### Parts of methods -/

/-- Raises the exception that the arguments of `raise` stand for. -/
def raiseGiven (engine : Engine) (args : Args) : VM Value := do
  match ← exceptionFor engine args with
  | .object handle =>
    if (← Query.object handle).exception?.isSome then raiseObject handle
  | _ => pure ()
  raise .typeError "exception object expected"

/-- Gives a new class its singleton class and runs the block that is its body. -/
def fillClass (engine : Engine) (args : Args) (handle : Handle) : VM Value := do
  let _ ← singletonClass (.object handle)
  match args.block? with
  | some block =>
    let body ← expectProc block
    modifyHeap (·.protect (.object handle))
    let _ ← callProc engine (.object body) [.object handle]
  | none => pure ()
  return .object handle

/-- A new class without a name below another one. -/
def classBelow (engine : Engine) (args : Args) (superclass : Handle) : VM Value := do
  let record ← Query.classRecord superclass
  if record.kind ≠ .ordinary then raise .typeError "superclass must be a Class"
  let handle ← allocateClass .ordinary (some superclass) record.instances
  fillClass engine args handle

/-- A copy of an exception with another record. -/
def copyObject (handle : Handle) (record : ExceptionRecord) : VM Value := do
  let object ← Query.object handle
  return .object (← allocate
    { classHandle := object.classHandle, content := .exception record
      fields := object.fields })

/-- Asks an object that is no string whether it equals another one. -/
def askEqual (engine : Engine) (left right : Value) : VM Bool := do
  match ← Query.string? left, ← Query.string? right with
  | some left, some right => return left == right
  | _, _ => return (← callWith engine left .opEq [right]).isTruthy

/-- A new array of a slice. -/
def sliceFrom (items? : Option (Array Value)) (start count : Int64) : VM Value :=
  match sliceOf? (items?.getD #[]) start.toInt count.toInt with
  | some slice => newArray slice
  | none => pure .nil

end VM

namespace VM.SharesRun

set_option synthInstance.maxSize 3000

variable {captures : Nat → Set Handle} {seen : Set Mention} {engine engine' : Engine}
  [agrees : engine.SharesRuns captures engine'] {self other value block : Value} {args : Args}
  {values : List Value} {pairs : List (Value × Value)}

/-! ### Objects and modules -/

instance answersEqual [Within seen self] [Within seen other] :
    SharesRun captures seen (VM.answersEqual engine self other) (VM.answersEqual engine' self other) := by
  unfold VM.answersEqual
  infer_instance

instance forward [Within seen self] [Within seen args] :
    SharesRun captures seen (VM.forward engine self args) (VM.forward engine' self args) := by
  unfold VM.forward
  infer_instance

instance exceptionFor [Within seen args] :
    SharesRun captures seen (VM.exceptionFor engine args) (VM.exceptionFor engine' args) := by
  unfold VM.exceptionFor
  refine behind fun content? => ?_
  split <;> infer_instance

instance raiseArgs [Within seen args] :
    SharesRun captures seen (VM.raiseArgs engine args) (VM.raiseArgs engine' args) := by
  have raiseNew {seen : Set Mention} [Within seen args] {rest rest' : Handle → VM Value}
      [∀ handle, SharesRun captures (seen ∪ Mentions.of handle) (rest handle) (rest' handle)] :
      SharesRun captures seen (do
        let classHandle ← Query.coreClass .runtimeError
        let exception ← VM.newException classHandle (args.get 0)
        rest exception) (do
        let classHandle ← Query.coreClass .runtimeError
        let exception ← VM.newException classHandle (args.get 0)
        rest' exception) := by
    rw [← bind_assoc, ← bind_assoc]
    infer_instance
  have given {seen : Set Mention} [Within seen args] :
      SharesRun captures seen (VM.raiseGiven engine args) (VM.raiseGiven engine' args) := by
    unfold VM.raiseGiven
    refine behind fun exception => ?_
    dsimp only
    split <;> infer_instance
  unfold VM.raiseGiven at given
  dsimp only at given
  unfold VM.raiseArgs
  infer_instance

instance runObjectMethod {method : ObjectMethod} [Within seen self] [Within seen args] :
    SharesRun captures seen (VM.runObjectMethod engine self args method)
      (VM.runObjectMethod engine' self args method) := by
  cases method <;> unfold VM.runObjectMethod <;> infer_instance

instance newClass [Within seen args] :
    SharesRun captures seen (VM.newClass engine args) (VM.newClass engine' args) := by
  have finish {seen : Set Mention} [Within seen args] {handle : Handle} [Within seen handle] :
      SharesRun captures seen (VM.fillClass engine args handle) (VM.fillClass engine' args handle) := by
    unfold VM.fillClass
    refine behind fun _ => ?_
    dsimp only
    split
    · rename_i block found
      have : Within seen block := .of_some found
      infer_instance
    · infer_instance
  have create {seen : Set Mention} [Within seen args] {superclass : Handle} [Within seen superclass] :
      SharesRun captures seen (VM.classBelow engine args superclass) (VM.classBelow engine' args superclass) := by
    unfold VM.classBelow
    refine ⟨fun machine told sound isSeen => .query_bind told fun record read => ?_⟩
    have known := Query.classRecord_eq_ok_iff.mp read
    split
    · have fails : SharesRun captures seen (VM.raise .typeError "superclass must be a Class" : VM PUnit)
          (VM.raise .typeError "superclass must be a Class") := inferInstance
      exact .bind sound (fails.sharesFrom machine told sound isSeen) fun _ _ raised => absurd raised raise_ne_ok
    · rename_i isOrdinary
      have allocated : Tells captures seen (allocateClass .ordinary (some superclass) record.instances) :=
        inferInstance
      refine .bind sound ⟨rfl, allocated.tellsFrom machine told isSeen,
        Evolves.allocateBelow known (Decidable.not_not.mp isOrdinary)⟩
          fun handle next _ toldOn soundOn advances within => ?_
      have finished : SharesRun captures (seen ∪ Mentions.of handle) (VM.fillClass engine args handle)
          (VM.fillClass engine' args handle) := finish
      exact finished.sharesFrom next toldOn soundOn
        (Set.union_subset (isSeen.trans advances.issued_subset) within.subset)
  unfold VM.classBelow VM.fillClass at create
  dsimp only at create
  unfold VM.newClass
  infer_instance

instance newInstance [Within seen self] [Within seen args] :
    SharesRun captures seen (VM.newInstance engine self args) (VM.newInstance engine' self args) := by
  unfold VM.newInstance
  infer_instance

instance runModuleMethod {method : ModuleMethod} [Within seen self] [Within seen args] :
    SharesRun captures seen (VM.runModuleMethod engine self args method)
      (VM.runModuleMethod engine' self args method) := by
  cases method <;> unfold VM.runModuleMethod
  case name =>
    refine behind fun handle => behind fun record => ?_
    split <;> infer_instance
  case constGet =>
    refine behind fun handle => behind fun name => behind fun value? => ?_
    split <;> infer_instance
  all_goals infer_instance

/-! ### Exceptions -/

instance messageValue [Within seen value] :
    SharesRun captures seen (VM.messageValue engine value) (VM.messageValue engine' value) := by
  unfold VM.messageValue
  infer_instance

instance copyException [Within seen self] [Within seen value] :
    SharesRun captures seen (VM.copyException engine self value) (VM.copyException engine' self value) := by
  have copy {seen : Set Mention} {handle : Handle} {record : ExceptionRecord} [Within seen record] :
      SharesRun captures seen (VM.copyObject handle record) (VM.copyObject handle record) := by
    refine ⟨fun machine told sound isSeen => ?_⟩
    have tells : Tells captures seen (VM.copyObject handle record) := by
      unfold VM.copyObject
      infer_instance
    refine ⟨rfl, tells.tellsFrom machine told isSeen, .query_bind fun object read => ?_⟩
    have given : machine.GivesClass object.classHandle := .ofObject (Query.object_eq_ok_iff.mp read)
    exact .bind (.allocate rfl given) fun _ _ _ => .of_evolves
  unfold VM.copyObject at copy
  unfold VM.copyException
  dsimp only
  infer_instance

instance runExceptionMethod {method : ExceptionMethod} [Within seen self] [Within seen args] :
    SharesRun captures seen (VM.runExceptionMethod engine self args method)
      (VM.runExceptionMethod engine' self args method) := by
  cases method <;> unfold VM.runExceptionMethod
  case backtrace =>
    refine behind fun exception => ?_
    dsimp only
    split <;> infer_instance
  all_goals infer_instance

/-! ### Containers -/

instance callEach [Within seen block] [isValues : Within seen values] :
    SharesRun captures seen (VM.callEach engine block values) (VM.callEach engine' block values) := by
  rename_i isBlock
  induction values generalizing seen with
  | nil => exact inferInstanceAs (SharesRun captures seen (pure ()) (pure ()))
  | cons value rest inductionHypothesis =>
      have := isValues.head
      have := isValues.tail
      have := @inductionHypothesis
      unfold VM.callEach
      infer_instance

instance callItems {rounds index : Nat} [Within seen block] :
    SharesRun captures seen (VM.callItems engine block value rounds index)
      (VM.callItems engine' block value rounds index) := by
  rename_i isBlock
  induction rounds generalizing index seen with
  | zero => exact inferInstanceAs (SharesRun captures seen (throw .outOfFuel : VM Unit) (throw .outOfFuel))
  | succ rounds inductionHypothesis =>
      have := @inductionHypothesis
      unfold VM.callItems
      refine behind fun item? => ?_
      split <;> infer_instance

instance callPairs [Within seen block] [isPairs : Within seen pairs] :
    SharesRun captures seen (VM.callPairs engine block pairs) (VM.callPairs engine' block pairs) := by
  rename_i isBlock
  induction pairs generalizing seen with
  | nil => exact inferInstanceAs (SharesRun captures seen (pure ()) (pure ()))
  | cons pair rest inductionHypothesis =>
      have := isPairs.head
      have := isPairs.tail
      have := @inductionHypothesis
      unfold VM.callPairs
      infer_instance

instance areEqual [Within seen self] [Within seen other] :
    SharesRun captures seen (VM.areEqual engine self other) (VM.areEqual engine' self other) := by
  unfold VM.areEqual
  split
  · infer_instance
  · have ask {seen : Set Mention} [Within seen self] [Within seen other] :
        SharesRun captures seen (VM.askEqual engine self other) (VM.askEqual engine' self other) := by
      unfold VM.askEqual
      refine behind fun left? => behind fun right? => ?_
      split <;> infer_instance
    unfold VM.askEqual at ask
    infer_instance

instance areAllEqual [isPairs : Within seen pairs] :
    SharesRun captures seen (VM.areAllEqual engine pairs) (VM.areAllEqual engine' pairs) := by
  induction pairs generalizing seen with
  | nil => exact inferInstanceAs (SharesRun captures seen (pure true) (pure true))
  | cons pair rest inductionHypothesis =>
      have := isPairs.head
      have := isPairs.tail
      have := @inductionHypothesis
      unfold VM.areAllEqual
      infer_instance

instance runArrayMethod {method : ArrayMethod} [Within seen self] [Within seen args] :
    SharesRun captures seen (VM.runArrayMethod engine self args method)
      (VM.runArrayMethod engine' self args method) := by
  cases method <;> unfold VM.runArrayMethod
  case get =>
    refine behind fun _ => behind fun start => ?_
    have slice {seen : Set Mention} {items? : Option (Array Value)} {count : Int64} [Within seen items?] :
        SharesRun captures seen (VM.sliceFrom items? start count) (VM.sliceFrom items? start count) := by
      have isSlice : Within seen (sliceOf? (items?.getD #[]) start.toInt count.toInt) := inferInstance
      unfold VM.sliceFrom
      split
      · rename_i slice found
        have : Within seen slice := .of_some found
        infer_instance
      · infer_instance
    unfold VM.sliceFrom at slice
    infer_instance
  case equal =>
    refine behind fun left? => behind fun right? => ?_
    split <;> infer_instance
  case each =>
    rw [agrees.rounds]
    infer_instance
  all_goals infer_instance

instance runHashMethod {method : HashMethod} [Within seen self] [Within seen args] :
    SharesRun captures seen (VM.runHashMethod engine self args method)
      (VM.runHashMethod engine' self args method) := by
  cases method <;> unfold VM.runHashMethod <;> infer_instance

instance runRangeMethod {method : RangeMethod} [Within seen self] [Within seen args] :
    SharesRun captures seen (VM.runRangeMethod engine self args method)
      (VM.runRangeMethod engine' self args method) := by
  cases method <;> unfold VM.runRangeMethod <;> infer_instance

/-! ### Numbers and closures -/

instance countWith {start : Int} {count : Nat} [Within seen block] :
    SharesRun captures seen (VM.countWith engine block start count) (VM.countWith engine' block start count) := by
  rename_i isBlock
  induction count generalizing start seen with
  | zero => exact inferInstanceAs (SharesRun captures seen (pure ()) (pure ()))
  | succ count inductionHypothesis =>
      have := @inductionHypothesis
      unfold VM.countWith
      infer_instance

instance runNumberMethod {method : NumberMethod} [Within seen self] [Within seen args] :
    SharesRun captures seen (VM.runNumberMethod engine self args method)
      (VM.runNumberMethod engine' self args method) := by
  cases method <;> unfold VM.runNumberMethod
  case arithmetic op =>
    refine behind fun _ => behind fun result? => ?_
    split <;> infer_instance
  case comparison op =>
    refine behind fun _ => ?_
    split <;> infer_instance
  case negate =>
    have {number : Int64} : Within seen (Value.negInt number) := by
      rw [Value.negInt]
      infer_instance
    dsimp only
    split <;> infer_instance
  case toI =>
    dsimp only
    split
    · split <;> infer_instance
    · infer_instance
  all_goals infer_instance

instance runClosureMethod {method : ClosureMethod} [Within seen self] [Within seen args] :
    SharesRun captures seen (VM.runClosureMethod engine self args method)
      (VM.runClosureMethod engine' self args method) := by
  cases method <;> unfold VM.runClosureMethod
  case newFiber =>
    dsimp only
    split
    · rename_i block found
      have : Within seen block := .of_some found
      infer_instance
    · infer_instance
  all_goals infer_instance

end VM.SharesRun

end RiteVm
