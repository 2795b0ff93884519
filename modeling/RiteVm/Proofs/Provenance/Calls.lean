import RiteVm.Call.Binding
import RiteVm.Call.Enclosing
import RiteVm.Execution.Program
import RiteVm.Fiber.Resume
import RiteVm.Proofs.Provenance.Classes

/-!
Contract: calls, frames, fibers and programs mention only what a told machine has given out.

Owns:
- the queries about arguments, scopes and frames;
- one instance for each action that lays out arguments, pushes or leaves frames, binds
  parameters, or switches between fibers, as far as it needs no engine.
-/

namespace RiteVm

/-! ### Reading frames -/

namespace Query.Reads

set_option synthInstance.maxSize 3000

variable {α β : Type} [Mentions α] [Mentions β] {seen : Set Mention} {base first count index level : Nat}
  {site : CallSite} {value : Value} {name : Symbol}

instance optionBindM {query : α → Query (Option β)} [reads : ∀ value, Reads (seen ∪ Mentions.of value) (query value)]
    {option : Option α} [within : Within seen option] : Reads seen (option.bindM query) := by
  cases option with
  | none => exact ofValue none
  | some value =>
      have : Within seen value := ⟨within.subset⟩
      exact absorb value (reads value)

omit [Mentions β] in
instance listFindM {query : α → Query Bool} {list : List α} [isList : Within seen list] :
    Reads seen (list.findM? query) := by
  induction list generalizing seen with
  | nil => exact ofValue none
  | cons first rest inductionHypothesis =>
      have := isList.head
      unfold List.findM?
      refine @seq _ _ _ _ _ _ _ _ fun found => ?_
      have : Within (seen ∪ Mentions.of found) rest := isList.tail.mono Set.subset_union_left
      split
      · infer_instance
      · exact inductionHypothesis

instance slots : Reads seen (Query.slots first count) := by
  unfold Query.slots
  infer_instance

instance positionalAt : Reads seen (Query.positionalAt site) := by
  unfold Query.positionalAt
  infer_instance

instance keywordsOf : Reads seen (Query.keywordsOf site) := by
  unfold Query.keywordsOf
  infer_instance

instance argsAt : Reads seen (Query.argsAt site) := by
  unfold Query.argsAt
  infer_instance

instance passedArgs {frame : Frame} {spec : Bytecode.ArgSpec} : Reads seen (Query.passedArgs base frame spec) := by
  unfold Query.passedArgs
  extract_lets site finish
  have isFinish {seen : Set Mention} (strict : Bool) : Reads seen (finish strict) := by
    refine @seq _ _ _ _ _ _ _ _ fun positional => ?_
    extract_lets withKeywords
    have isWithKeywords {seen : Set Mention} (keywords? : Option Value) [isKeywords : Within seen keywords?]
        [Within seen positional] : Reads seen (withKeywords keywords?) := by
      refine @seq _ _ _ _ _ _ _ _ fun block => ?_
      extract_lets withExtra
      have isWithExtra {seen : Set Mention} (extra : List Value) [Within seen extra] [Within seen positional]
          [Within seen keywords?] [Within seen block] : Reads seen (withExtra extra) := by
        dsimp only [withExtra]
        split <;> infer_instance
      split
      · rename_i keywords
        have : Within seen keywords := ⟨isKeywords.subset⟩
        infer_instance
      · infer_instance
    infer_instance
  split <;> infer_instance

instance dictionary? : Reads seen (VM.dictionary? base) := by
  unfold VM.dictionary?
  infer_instance

instance enclosingProc {proc? : Option Handle} [isProc : Within seen proc?] :
    Reads seen (Query.enclosingProc level proc?) := by
  induction level generalizing proc? seen with
  | zero => exact ofValue proc?
  | succ level inductionHypothesis =>
      unfold Query.enclosingProc
      refine @seq _ _ _ _ _ _ _ _ fun upper? => inductionHypothesis

instance enclosingEnv? : Reads seen (Query.enclosingEnv? level) := by
  unfold Query.enclosingEnv?
  infer_instance

instance callerBlock : Reads seen Query.callerBlock := by
  unfold Query.callerBlock
  infer_instance

instance callerSelf? : Reads seen Query.callerSelf? := by
  unfold Query.callerSelf?
  refine @seq _ _ _ _ _ _ _ _ fun context => ?_
  split <;> infer_instance

end Query.Reads

namespace VM.Tells

-- long actions consist of many parts
set_option synthInstance.maxSize 3000

variable {α : Type} [Mentions α] {captures : Nat → Set Handle} {seen : Set Mention}
  {base first index level operand register receiverAt height : Nat} {site : CallSite} {name : Symbol}
  {args : Args} {values : List Value} {receiver value block self fiber : Value} {handle target : Handle}
  {unit : Bytecode.CodeUnit} {keywords? : Option Value}

/-! ### Arguments -/

instance raiseArity {expected : String} {given : Nat} : Tells captures seen (VM.raiseArity given expected : VM α) :=
  raise

instance checkArity {fewest : Nat} {most? : Option Nat} : Tells captures seen (VM.checkArity args fewest most?) := by
  unfold VM.checkArity
  infer_instance

instance intArg : Tells captures seen (VM.intArg args index) := by
  unfold VM.intArg
  split <;> infer_instance

instance symbolOf : Tells captures seen (VM.symbolOf value) := by
  unfold VM.symbolOf
  split
  · infer_instance
  · refine behind fun bytes? => ?_
    split <;> infer_instance

instance symbolArg : Tells captures seen (VM.symbolArg args index) := symbolOf

instance blockToYield [Within seen args] : Tells captures seen (VM.blockToYield args) := by
  unfold VM.blockToYield
  split
  · rename_i block found
    have : Within seen block := .of_some found
    infer_instance
  · infer_instance

instance blockToKeep [Within seen args] : Tells captures seen (VM.blockToKeep args) := by
  unfold VM.blockToKeep
  split
  · rename_i block found
    have : Within seen block := .of_some found
    infer_instance
  · infer_instance

/-! ### Call sites -/

instance setSlots [isValues : Within seen values] : Tells captures seen (VM.setSlots first values) := by
  induction values generalizing first seen with
  | nil => exact ofValue _
  | cons value rest inductionHypothesis =>
      have := isValues.head
      have := isValues.tail
      have := @inductionHypothesis
      unfold VM.setSlots
      infer_instance

instance normalizeArgs {withBlock : Bool} : Tells captures seen (VM.normalizeArgs receiverAt operand withBlock) := by
  unfold VM.normalizeArgs
  dsimp only
  split <;> refine behind fun block => ?_ <;> split
  · infer_instance
  · split <;> infer_instance
  · infer_instance
  · split <;> infer_instance

instance packForMissing : Tells captures seen (VM.packForMissing site name) := by
  unfold VM.packForMissing
  dsimp only
  infer_instance

instance layOutArgs [Within seen receiver] [Within seen args] :
    Tells captures seen (VM.layOutArgs receiverAt receiver args) := by
  unfold VM.layOutArgs
  dsimp only
  infer_instance

/-! ### Frames -/

instance newProc {upper env : Option Handle} {strict : Bool} [Within seen upper] [Within seen env]
    [Within seen target] : Tells captures seen (VM.newProc unit upper env target strict) := by
  unfold VM.newProc
  infer_instance

instance pushFrame {frame : Frame} [Within seen frame] : Tells captures seen (VM.pushFrame frame) :=
  modifyContext

instance checkDepth : Tells captures seen VM.checkDepth := by
  unfold VM.checkDepth
  infer_instance

instance checkNativeDepth : Tells captures seen VM.checkNativeDepth := by
  unfold VM.checkNativeDepth
  infer_instance

instance pushProcFrame {owner : Option Handle} {method : Option Symbol} {boundary : Bool} [Within seen handle]
    [Within seen owner] [Within seen block] :
    Tells captures seen (VM.pushProcFrame site handle owner method block boundary) := by
  unfold VM.pushProcFrame
  dsimp only
  infer_instance

instance pushNativeFrame [Within seen handle] [Within seen block] :
    Tells captures seen (VM.pushNativeFrame site handle name block) := by
  unfold VM.pushNativeFrame
  dsimp only
  infer_instance

instance popFrame? : Tells captures seen VM.popFrame? := by
  unfold VM.popFrame?
  refine behind fun context => ?_
  split
  · infer_instance
  · rename_i frame found
    have : Within (seen ∪ Mentions.of context) frame := .of_some found
    infer_instance

instance truncateFrames : Tells captures seen (VM.truncateFrames height) :=
  modifyContext

/-! ### Calls by name -/

instance raiseUndefinedCall [Within seen receiver] :
    Tells captures seen (VM.raiseUndefinedCall receiver name : VM α) := by
  unfold VM.raiseUndefinedCall
  infer_instance

instance takeYielded : Tells captures seen VM.takeYielded := by
  have clear {seen : Set Mention} :
      Tells captures seen (modify fun machine : Machine => { machine with yielded := none } : VM PUnit) := by
    refine of_outside (fun _ => rfl) fun machine within => ?_
    obtain ⟨heap, contexts, fiber, resumers, -, others⟩ := Within.machine_iff.mp within
    exact Within.machine_iff.mpr ⟨heap, contexts, fiber, resumers, inferInstance, others⟩
  unfold VM.takeYielded
  dsimp only
  infer_instance

instance resolveCall [Within seen receiver] [Within seen args] :
    Tells captures seen (VM.resolveCall receiver name args) := by
  unfold VM.resolveCall
  refine behind fun handle => behind fun found? => ?_
  split
  · infer_instance
  · refine behind fun missing? => ?_
    split <;> infer_instance

instance finishCall {result : Except Failure Exit} [isResult : Within seen result] :
    Tells captures seen (VM.finishCall result) := by
  unfold VM.finishCall
  split
  · rename_i value
    have : Within seen value := ⟨isResult.subset⟩
    infer_instance
  · infer_instance
  · rename_i target value
    have : Within seen value := ⟨isResult.subset⟩
    infer_instance
  · rename_i failure _
    have : Within seen failure := ⟨isResult.subset⟩
    infer_instance

/-! ### Scopes and parameters -/

instance frameEnv : Tells captures seen VM.frameEnv := by
  unfold VM.frameEnv
  refine behind fun frame => ?_
  split
  · rename_i env found
    have : Within (seen ∪ Mentions.of frame) env := .of_some found
    infer_instance
  · refine behind fun machine => ?_
    dsimp only
    infer_instance

instance enclosingEnv : Tells captures seen (VM.enclosingEnv level) := by
  unfold VM.enclosingEnv
  refine behind fun env? => ?_
  split <;> infer_instance

instance outwardArg : Tells captures seen (VM.outwardArg base level index) := by
  unfold VM.outwardArg
  split <;> infer_instance

instance argArray : Tells captures seen (VM.argArray base register operand) := by
  unfold VM.argArray
  dsimp only
  infer_instance

instance pushBlock : Tells captures seen (VM.pushBlock base register operand) := by
  unfold VM.pushBlock
  dsimp only
  infer_instance

instance becomeProc : Tells captures seen VM.becomeProc := by
  unfold VM.becomeProc
  refine behind fun frame => behind fun receiver => behind fun proc => behind fun record => ?_
  dsimp only
  split
  · rename_i env found
    have : Within (seen ∪ Mentions.of frame ∪ Mentions.of receiver ∪ Mentions.of proc ∪ Mentions.of record) env :=
      .of_some found
    infer_instance
  · infer_instance

instance newDictionary [Within seen keywords?] : Tells captures seen (VM.newDictionary keywords?) := by
  unfold VM.newDictionary
  infer_instance

instance takeKeyword : Tells captures seen (VM.takeKeyword base name) := by
  unfold VM.takeKeyword
  refine behind fun digest => behind fun dictionary? => ?_
  extract_lets finish
  have isFinish {seen : Set Mention} (found : Option Value) [Within seen found] :
      Tells captures seen (finish found) := by
    dsimp only [finish]
    split
    · rename_i keyword isKeyword
      have : Within seen keyword := ⟨isKeyword.subset⟩
      infer_instance
    · infer_instance
  split <;> infer_instance

instance checkKeywords : Tells captures seen (VM.checkKeywords base) := by
  unfold VM.checkKeywords
  refine behind fun dictionary? => ?_
  split
  · refine behind fun pairs? => ?_
    split <;> infer_instance
  · infer_instance

instance placeArgs {frame : Frame} {spec : Bytecode.ArgSpec} {bound : BoundArgs} [Within seen bound]
    [Within seen keywords?] [Within seen block] :
    Tells captures seen (VM.placeArgs base frame spec bound keywords? block) := by
  unfold VM.placeArgs
  dsimp only
  infer_instance

instance enter {spec : Bytecode.ArgSpec} : Tells captures seen (VM.enter base spec) := by
  unfold VM.enter
  infer_instance

/-! ### Fibers -/

instance packValues [isValues : Within seen values] : Tells captures seen (VM.packValues values) := by
  unfold VM.packValues
  split
  · infer_instance
  · have := isValues.head
    infer_instance
  · infer_instance

instance setFiberState {state : FiberState} : Tells captures seen (VM.setFiberState handle state) := by
  unfold VM.setFiberState
  infer_instance

instance enterFiberBody [Within seen handle] [Within seen values] :
    Tells captures seen (VM.enterFiberBody handle values) := by
  unfold VM.enterFiberBody
  refine behind fun object => ?_
  dsimp only
  split
  · rename_i env found
    have : Within (seen ∪ Mentions.of object) env := .of_some found
    infer_instance
  · infer_instance

instance completeYield [Within seen values] : Tells captures seen (VM.completeYield values) := by
  unfold VM.completeYield
  refine behind fun frame? => ?_
  split <;> infer_instance

instance switchTo {context : ContextId} [Within seen handle] : Tells captures seen (VM.switchTo handle context) := by
  have switch {seen : Set Mention} [Within seen handle] : Tells captures seen (modify fun machine : Machine =>
      { machine with
        resumers := machine.resumers ++ [(machine.current, machine.currentFiber)]
        current := context
        currentFiber := some handle } : VM PUnit) := by
    refine of_outside (fun _ => rfl) fun machine within => ?_
    have isFiber : Within (seen ∪ Mentions.of machine) (some handle) := inferInstance
    have isResumers : Within (seen ∪ Mentions.of machine)
      (machine.resumers ++ [(machine.current, machine.currentFiber)]) := inferInstance
    obtain ⟨heap, contexts, -, -, others⟩ := Within.machine_iff.mp within
    exact Within.machine_iff.mpr ⟨heap, contexts, isFiber, isResumers, others⟩
  unfold VM.switchTo
  infer_instance

instance switchBack : Tells captures seen VM.switchBack := by
  have switch {seen : Set Mention} {context : ContextId} {fiber? : Option Handle} [Within seen fiber?] :
      Tells captures seen (modify fun machine : Machine =>
        { machine with
          resumers := machine.resumers.dropLast, current := context, currentFiber := fiber? } :
        VM PUnit) := by
    refine of_outside (fun _ => rfl) fun machine within => ?_
    have isFiber : Within (seen ∪ Mentions.of machine) fiber? := inferInstance
    have isResumers : Within (seen ∪ Mentions.of machine) machine.resumers.dropLast := inferInstance
    obtain ⟨heap, contexts, -, -, others⟩ := Within.machine_iff.mp within
    exact Within.machine_iff.mpr ⟨heap, contexts, isFiber, isResumers, others⟩
  unfold VM.switchBack
  refine behind fun machine => ?_
  split
  · infer_instance
  · rename_i context fiber? found
    have : Within (seen ∪ Mentions.of machine) (context, fiber?) := .of_some found
    have := this.snd
    infer_instance

instance fiberOutcome {result : Except Failure Exit} [isResult : Within seen result] :
    Tells captures seen (VM.fiberOutcome result) := by
  unfold VM.fiberOutcome
  split
  · rename_i value
    have : Within seen value := ⟨isResult.subset⟩
    infer_instance
  · rename_i value
    have : Within seen value := ⟨isResult.subset⟩
    infer_instance
  · infer_instance
  · rename_i failure _
    have : Within seen failure := ⟨isResult.subset⟩
    infer_instance

instance withSignals [Plain α] {number : Nat} {change : FiberSignals → FiberSignals × α} :
    Tells captures seen (VM.withSignals number change) where
  tellsFrom machine told _ := by
    have parts := Within.machine_iff.mp told.within
    exact .of_ok rfl ⟨told.founded, Within.machine_iff.mpr parts⟩ (.refl _) inferInstance

instance completeCycle {state : FiberState} : Tells captures seen (VM.completeCycle handle state) := by
  have wake {seen : Set Mention} {wakers : List Waker} : Tells captures seen (modify fun machine : Machine =>
      { machine with woken := machine.woken ++ wakers } : VM PUnit) :=
    of_outside (fun _ => rfl) fun machine within => by
      have parts := Within.machine_iff.mp within
      exact Within.machine_iff.mpr parts
  unfold VM.completeCycle
  infer_instance

instance resumeWaiter [Within seen fiber] : Tells captures seen (VM.resumeWaiter fiber) := by
  unfold VM.resumeWaiter
  infer_instance

instance terminationWaiter [Within seen fiber] : Tells captures seen (VM.terminationWaiter fiber) := by
  unfold VM.terminationWaiter
  infer_instance

instance pollResume {waiter : ResumeWaiter} {waker : Waker} : Tells captures seen (VM.pollResume waiter waker) :=
  withSignals

instance pollTermination {waiter : TerminationWaiter} {waker : Waker} :
    Tells captures seen (VM.pollTermination waiter waker) :=
  withSignals

instance dropContext {context : ContextId} : Tells captures seen (modify (·.removeContext context) : VM PUnit) := by
  refine of_outside (fun _ => rfl) fun machine within => ?_
  have : Within (seen ∪ Mentions.of machine) (machine.contexts.setIfInBounds context.index none) := inferInstance
  obtain ⟨heap, -, others⟩ := Within.machine_iff.mp within
  exact Within.machine_iff.mpr ⟨heap, this, others⟩

/-- A new fiber has a register stack of its own. -/
instance newFiber [Within seen block] : Tells captures seen (VM.newFiber block) := by
  unfold VM.newFiber
  refine behind fun body => ⟨fun machine told isSeen => ?_⟩
  have pushed : Machine.Told captures { machine with
      contexts := machine.contexts.push (some {}), signals := machine.signals.push {} } := by
    refine ⟨told.founded, ?_⟩
    obtain ⟨heap, contexts, others⟩ := Within.machine_iff.mp told.within
    have empty : Within (machine.heap.issued captures) (some (Context.mk #[] #[] none none)) := inferInstance
    have : Within (machine.heap.issued captures) (machine.contexts.push (some (Context.mk #[] #[] none none))) :=
      inferInstance
    exact Within.machine_iff.mpr ⟨heap, this, others⟩
  refine .bind (.of_ok rfl told (.refl _) told.within) fun start next got toldOn _ _ => ?_
  cases got
  refine .bind (.of_ok rfl pushed (.refl _) inferInstance) fun _ next pushed toldOn advances _ => ?_
  cases pushed
  have register : Tells captures (seen ∪ Mentions.of body) (do
      let handle ← VM.allocate
        { classHandle := ← Query.coreClass .fiber
          content := .fiber
            { context := ⟨machine.contexts.size⟩, body, state := .created, signals := machine.signals.size } }
      modify (·.modifyContext ⟨machine.contexts.size⟩ ({ · with owner := some handle }))
      return Value.object handle) := inferInstance
  exact register.tellsFrom _ toldOn isSeen

instance yieldFiber [Within seen values] : Tells captures seen (VM.yieldFiber values) := by
  have hand {seen : Set Mention} {value : Value} [Within seen value] : Tells captures seen
      (modify fun machine : Machine => { machine with yielded := some value } : VM PUnit) := by
    refine of_outside (fun _ => rfl) fun machine within => ?_
    have isYielded : Within (seen ∪ Mentions.of machine) (some value) := inferInstance
    obtain ⟨heap, contexts, fiber, resumers, -, others⟩ := Within.machine_iff.mp within
    exact Within.machine_iff.mpr ⟨heap, contexts, fiber, resumers, isYielded, others⟩
  unfold VM.yieldFiber
  dsimp only
  infer_instance

/-! ### Programs -/

instance clearSlots {top : Nat} : Tells captures seen (VM.modifyContext (·.clear base top)) := modifyContext

instance pushProgramFrame [Within seen self] [Within seen target] :
    Tells captures seen (VM.pushProgramFrame unit self target) := by
  unfold VM.pushProgramFrame
  dsimp only
  infer_instance

instance readProgram {binary : Bytes} : Tells captures seen (VM.readProgram binary) := by
  unfold VM.readProgram
  split <;> infer_instance

end VM.Tells

end RiteVm
