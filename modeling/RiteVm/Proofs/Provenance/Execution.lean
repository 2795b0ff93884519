import RiteVm.Execution.Loop
import RiteVm.Proofs.Evolution.Runs
import RiteVm.Proofs.Fibers.Calls
import RiteVm.Proofs.MethodCache.Soundness
import RiteVm.Proofs.Provenance.Calls

/-!
Contract: instructions mention only what a told machine has given out, and do the same with
engines that agree there.

Owns:
- the parts of instructions that need no engine, and all ways of leaving frames;
- actions that share their runs: from told and sound machines, whatever is different elsewhere;
- engines that share the runs of their loops and methods;
- one instance for each call, for each instruction and for one cycle of a loop.

What two engines share is what both do in machines of this kind. So where the engines differ, no
such machine was.
-/

namespace RiteVm

/-! ### Parts of instructions -/

namespace Query.Reads

variable {seen : Set Mention} {value : Value} {index : Nat}

instance itemsOf [Within seen value] : Reads seen (VM.itemsOf value) := by
  unfold VM.itemsOf
  infer_instance

instance destructuredItem [Within seen value] : Reads seen (VM.destructuredItem value index) := by
  unfold VM.destructuredItem
  infer_instance

instance outermostLenient {fuel : Nat} {proc : Handle} [Within seen proc] :
    Reads seen (Query.outermostLenient fuel proc) := by
  rename_i isProc
  induction fuel generalizing proc seen with
  | zero => exact ofBreach _
  | succ fuel inductionHypothesis =>
      unfold Query.outermostLenient
      refine @seq _ _ _ _ _ _ _ _ fun object => ?_
      split
      · rename_i upper found
        have : Within (seen ∪ Mentions.of object) upper := .of_some found
        have := @inductionHypothesis
        infer_instance
      · infer_instance

end Query.Reads

namespace VM.Tells

set_option synthInstance.maxSize 3000

variable {captures : Nat → Set Handle} {seen : Set Mention} {base register count index stop target top : Nat}
  {name : Symbol} {left right value : Value} {handle : Handle} {unit : Bytecode.CodeUnit}

/-- Arithmetic on integers hands over a number. -/
theorem onInts_ne_object {op : ArithOp} {left right : Int64} {result : Value}
    (computed : op.onInts left right = .value result) (handle : Handle) : result ≠ .object handle := by
  rintro rfl
  have orFloat (number? : Option Int64) (float : Float) :
      IntOutcome.orFloat number? float ≠ .value (.object handle) := by
    cases number? <;> nofun
  have expecting (number? : Option Int64) : IntOutcome.expecting number? ≠ .value (.object handle) := by
    cases number? <;> nofun
  cases op <;> grind [ArithOp.onInts]

instance arithmetic {op : ArithOp} : Tells captures seen (VM.arithmetic op left right) := by
  unfold VM.arithmetic
  split
  · split
    · rename_i result computed
      have : Within seen result := .of_isImmediate (onInts_ne_object computed)
      infer_instance
    · infer_instance
    · infer_instance
  · split <;> infer_instance

instance executeDestructure {before after : Nat} :
    Tells captures seen (VM.executeDestructure base register before after) := by
  unfold VM.executeDestructure
  infer_instance

instance unitSymbol : Tells captures seen (VM.unitSymbol unit index) := by
  unfold VM.unitSymbol
  split <;> infer_instance

instance unitString : Tells captures seen (VM.unitString unit index) := by
  unfold VM.unitString
  split <;> infer_instance

instance unitChild : Tells captures seen (VM.unitChild unit index) := by
  unfold VM.unitChild
  split <;> infer_instance

instance unitLiteral : Tells captures seen (VM.unitLiteral unit index) := by
  unfold VM.unitLiteral
  split <;> infer_instance

instance definitionScope [Within seen value] : Tells captures seen (VM.definitionScope value) := by
  unfold VM.definitionScope
  infer_instance

instance definitionSuperclass [Within seen value] : Tells captures seen (VM.definitionSuperclass value) := by
  unfold VM.definitionSuperclass
  refine behind fun isClassOrModule => behind fun isModule => ?_
  split <;> infer_instance

instance scopedConst [Within seen value] : Tells captures seen (VM.scopedConst value name) := by
  unfold VM.scopedConst
  refine behind fun handle => behind fun value? => ?_
  split <;> infer_instance

instance matchesRescue : Tells captures seen (VM.matchesRescue left right) := by
  unfold VM.matchesRescue
  refine behind fun isClass => ?_
  split <;> infer_instance

instance addPairs : Tells captures seen (VM.addPairs base register count) := by
  unfold VM.addPairs
  infer_instance

instance concatenate : Tells captures seen (VM.concatenate base register) := by
  unfold VM.concatenate
  infer_instance

instance newClosure {strict : Bool} [Within seen handle] : Tells captures seen (VM.newClosure unit handle strict) := by
  unfold VM.newClosure
  infer_instance

instance executeBody : Tells captures seen (VM.executeBody base register unit index) := by
  unfold VM.executeBody
  infer_instance

instance internValue : Tells captures seen (VM.internValue value) := by
  unfold VM.internValue
  refine behind fun bytes? => ?_
  split <;> infer_instance

/-! ### Leaving frames -/

instance enterHandler {kind : Bytecode.CatchKind} [Within seen handle] :
    Tells captures seen (VM.enterHandler target handle kind) := by
  unfold VM.enterHandler
  infer_instance

instance divert {handler : Bytecode.CatchHandler} {target : ExitTarget} [Within seen value] :
    Tells captures seen (VM.divert handler target value) := by
  unfold VM.divert
  infer_instance

instance leaveFrames [Within seen value] : Tells captures seen (VM.leaveFrames target value stop top) := by
  rename_i isValue
  induction top generalizing seen with
  | zero => exact ofBreach _
  | succ top inductionHypothesis =>
      have := @inductionHypothesis
      unfold VM.leaveFrames
      refine behind fun handler? => ?_
      split
      · infer_instance
      · refine behind fun frame? => ?_
        split <;> infer_instance

instance exitTo [Within seen value] : Tells captures seen (VM.exitTo target value stop) := by
  unfold VM.exitTo
  infer_instance

instance returnValue [Within seen value] : Tells captures seen (VM.returnValue value stop) := by
  unfold VM.returnValue
  infer_instance

instance linkCause {ensuring : Option Handle} [isEnsuring : Within seen ensuring] :
    Tells captures seen (VM.linkCause handle ensuring) := by
  unfold VM.linkCause
  split
  · rename_i previous
    have : Within seen previous := ⟨isEnsuring.subset⟩
    infer_instance
  · infer_instance

instance findHandler [Within seen handle] : Tells captures seen (VM.findHandler handle stop top) := by
  rename_i isHandle
  induction top generalizing seen with
  | zero => exact ofBreach _
  | succ top inductionHypothesis =>
      have := @inductionHypothesis
      unfold VM.findHandler
      refine behind fun frame => behind fun _ => ?_
      split <;> infer_instance

instance handleRaise [Within seen handle] : Tells captures seen (VM.handleRaise handle stop) := by
  unfold VM.handleRaise
  infer_instance

instance jumpUnwinding : Tells captures seen (VM.jumpUnwinding target) := by
  have leave {seen : Set Mention} {handler? : Option Bytecode.CatchHandler} : Tells captures seen (match handler? with
      | some handler => VM.divert handler (.address target) .nil
      | none => do
        VM.modifyContext ({ · with pending := none })
        VM.modifyFrame ({ · with ensuring := none, pc := target }) : VM Unit) := by
    split <;> infer_instance
  unfold VM.jumpUnwinding
  refine behind fun handler? => ?_
  dsimp only
  split <;> infer_instance

instance resumePending [Within seen value] : Tells captures seen (VM.resumePending value stop) := by
  unfold VM.resumePending
  refine behind fun _ => ?_
  split
  · infer_instance
  · rename_i handle
    refine behind fun object => ?_
    have isContent : Within (seen ∪ Mentions.of () ∪ Mentions.of object) object.content := inferInstance
    split
    · infer_instance
    · rename_i frame value found
      rw [found] at isContent
      have : Within (seen ∪ Mentions.of () ∪ Mentions.of object) value := ⟨isContent.subset⟩
      infer_instance
    · infer_instance
    · infer_instance
  · infer_instance

instance loadPending : Tells captures seen VM.loadPending := by
  unfold VM.loadPending
  refine behind fun context => ?_
  split
  · infer_instance
  · rename_i pending found
    have : Within (seen ∪ Mentions.of context) pending := .of_some found
    infer_instance

instance breakOut [Within seen value] : Tells captures seen (VM.breakOut value stop) := by
  unfold VM.breakOut
  refine behind fun depth => behind fun frame => ?_
  split
  · infer_instance
  · refine behind fun strict => ?_
    split
    · infer_instance
    · refine behind fun home? => ?_
      split <;> infer_instance

instance returnFromMethod [Within seen value] : Tells captures seen (VM.returnFromMethod value stop) := by
  unfold VM.returnFromMethod
  refine behind fun frame => ?_
  split
  · infer_instance
  · rename_i proc found
    have : Within (seen ∪ Mentions.of frame) proc := .of_some found
    refine behind fun strict => ?_
    split
    · infer_instance
    · refine behind fun bound => behind fun outermost => behind fun object => ?_
      split
      · infer_instance
      · refine behind fun home? => ?_
        split <;> infer_instance

/-! ### The loop -/

instance collect : Tells captures seen VM.collect where
  tellsFrom machine told _ := .of_ok rfl told.collect (Machine.advances_collect machine) inferInstance

instance collectIfDue : Tells captures seen VM.collectIfDue := by
  unfold VM.collectIfDue
  infer_instance

instance recover {result : Except Failure (Option Exit)} [isResult : Within seen result] :
    Tells captures seen (VM.recover stop result) := by
  unfold VM.recover
  split
  · rename_i exception
    have : Within seen exception := ⟨isResult.subset⟩
    infer_instance
  · rename_i target value
    have : Within seen value := ⟨isResult.subset⟩
    infer_instance
  · infer_instance

end VM.Tells

namespace VM

/-- Appends bytes to a string. -/
def appendBytes (handle : Handle) (tail : Bytes) : VM Unit := do
  match (← Query.object handle).content with
  | .string bytes => do
    setContent handle (.string (bytes ++ tail))
    grow tail.size
  | _ => do
    fatal .appendToOther
    grow tail.size

/-! ### Actions that share their runs -/

variable {α β : Type} [Mentions α] [Mentions β] {captures : Nat → Set Handle} {seen : Set Mention}
  {machine : Machine} {action action' : VM α} {rest rest' : α → VM β}

/-- Two actions do the same, which mentions only what was given out and evolves the machine. -/
structure SharesRunFrom (captures : Nat → Set Handle) (machine : Machine) (action action' : VM α) : Prop where
  same : action' machine = action machine
  tells : TellsFrom captures machine action
  evolves : EvolvesFrom machine action

/-- Two actions about data that are seen do the same in told and sound machines. -/
class SharesRun (captures : Nat → Set Handle) (seen : Set Mention) (action action' : VM α) : Prop where
  sharesFrom : ∀ machine : Machine, machine.Told captures → machine.Sound →
    seen ⊆ machine.heap.issued captures → SharesRunFrom captures machine action action'

namespace SharesRunFrom

/-- What an action hands over lets the next one go on. -/
theorem bind (sound : machine.Sound) (first : SharesRunFrom captures machine action action')
    (second : ∀ value next, action machine = .ok value next → next.Told captures → next.Sound →
      machine.heap.Advances next.heap → Within (next.heap.issued captures) value →
      SharesRunFrom captures next (rest value) (rest' value)) :
    SharesRunFrom captures machine (action >>= rest) (action' >>= rest') := by
  have soundOn {value : α} {next : Machine} (done : action machine = .ok value next) : next.Sound := by
    have evolves := first.evolves
    rw [EvolvesFrom, after_of_ok done] at evolves
    exact sound.of_evolution evolves
  refine ⟨?_, first.tells.bind fun value next done told advances within => ?_,
    first.evolves.bind fun value next done => ?_⟩
  · cases result : action machine with
    | ok value next =>
        have told := first.tells.told
        have advances := first.tells.advances
        rw [after_of_ok result] at told advances
        have goesOn := second value next result told (soundOn result) advances (first.tells.value value next result)
        rw [bind_of_ok result, bind_of_ok (first.same.trans result)]
        exact goesOn.same
    | error failure next => rw [bind_of_error result, bind_of_error (first.same.trans result)]
  · exact (second value next done told (soundOn done) advances within).tells
  · have told := first.tells.told
    have advances := first.tells.advances
    rw [after_of_ok done] at told advances
    exact (second value next done told (soundOn done) advances (first.tells.value value next done)).evolves

omit [Mentions α] in
/-- What was read holds of the machine in which the action goes on. -/
theorem query_bind {query : Query α} (told : machine.Told captures)
    (second : ∀ value, query machine = .ok value → SharesRunFrom captures machine (rest value) (rest' value)) :
    SharesRunFrom captures machine (liftM query >>= rest) (liftM query >>= rest') := by
  refine ⟨?_, .query_bind told fun value read => (second value read).tells,
    .query_bind fun value read => (second value read).evolves⟩
  cases result : query machine with
  | ok value =>
      rw [bind_of_ok (liftM_of_ok result), bind_of_ok (liftM_of_ok result)]
      exact (second value result).same
  | error breach => rw [bind_of_error (liftM_of_error result), bind_of_error (liftM_of_error result)]

theorem attempt (shares : SharesRunFrom captures machine action action') :
    SharesRunFrom captures machine (VM.attempt action) (VM.attempt action') :=
  ⟨by rw [VM.attempt, VM.attempt, shares.same], shares.tells.attempt, shares.evolves.attempt⟩

end SharesRunFrom

namespace SharesRun

-- long actions consist of many parts
set_option synthInstance.maxSize 3000

/-- An action without an engine. -/
instance ofTells [tells : Tells captures seen action] [evolves : Evolves action] :
    SharesRun captures seen action action where
  sharesFrom machine told _ isSeen := ⟨rfl, tells.tellsFrom machine told isSeen, evolves.evolvesFrom machine⟩

theorem mono (shares : SharesRun captures seen action action') {more : Set Mention} (subset : seen ⊆ more) :
    SharesRun captures more action action' where
  sharesFrom machine told sound isSeen := shares.sharesFrom machine told sound (subset.trans isSeen)

/-- Data that are seen make no difference. -/
theorem absorb {β : Type} [Mentions β] (value : β) [within : Within seen value]
    (shares : SharesRun captures (seen ∪ Mentions.of value) action action') : SharesRun captures seen action action' :=
  shares.mono (Set.union_subset subset_rfl within.subset)

instance seq [first : SharesRun captures seen action action']
    [second : ∀ value, SharesRun captures (seen ∪ Mentions.of value) (rest value) (rest' value)] :
    SharesRun captures seen (action >>= rest) (action' >>= rest') where
  sharesFrom machine told sound isSeen :=
    (first.sharesFrom machine told sound isSeen).bind sound fun value next _ toldOn soundOn advances within =>
      (second value).sharesFrom next toldOn soundOn
        (Set.union_subset (isSeen.trans advances.issued_subset) within.subset)

/-- The action behind a part of it whose value it depends on. -/
theorem behind [SharesRun captures seen action action']
    (others : ∀ value, SharesRun captures (seen ∪ Mentions.of value) (rest value) (rest' value)) :
    SharesRun captures seen (action >>= rest) (action' >>= rest') :=
  seq

instance mapped {change : α → β} [SharesRun captures seen action action']
    [∀ value, Within (seen ∪ Mentions.of value) (change value)] :
    SharesRun captures seen (change <$> action) (change <$> action') := by
  rw [map_eq_pure_bind, map_eq_pure_bind]
  infer_instance

instance branch {condition : Prop} [Decidable condition] {yes no yes' no' : VM α} [SharesRun captures seen yes yes']
    [SharesRun captures seen no no'] :
    SharesRun captures seen (if condition then yes else no) (if condition then yes' else no') := by
  split <;> infer_instance

instance attempted [shares : SharesRun captures seen action action'] :
    SharesRun captures seen (attempt action) (attempt action') :=
  ⟨fun machine told sound isSeen => (shares.sharesFrom machine told sound isSeen).attempt⟩

instance nested [shares : SharesRun captures seen action action'] :
    SharesRun captures seen (VM.nested action) (VM.nested action') := by
  have within {seen : Set Mention} {machine : Machine} (within : Within seen machine) (depth : Nat) :
      Within seen { machine with nativeDepth := depth } := by
    have parts := Within.machine_iff.mp within
    exact Within.machine_iff.mpr parts
  have enter : Tells captures (seen ∪ Mentions.of ()) (modify fun machine : Machine =>
      { machine with nativeDepth := machine.nativeDepth + 1 } : VM PUnit) :=
    Tells.of_outside (fun _ => rfl) fun _ isWithin => within isWithin _
  have leave {seen : Set Mention} : Tells captures seen (modify fun machine : Machine =>
      { machine with nativeDepth := machine.nativeDepth - 1 } : VM PUnit) :=
    Tells.of_outside (fun _ => rfl) fun _ isWithin => within isWithin _
  have entered : Evolves (modify fun machine : Machine =>
      { machine with nativeDepth := machine.nativeDepth + 1 } : VM PUnit) :=
    .of_outside (fun _ => rfl) (fun _ => rfl) (fun _ => rfl)
  have left : Evolves (modify fun machine : Machine =>
      { machine with nativeDepth := machine.nativeDepth - 1 } : VM PUnit) :=
    .of_outside (fun _ => rfl) (fun _ => rfl) (fun _ => rfl)
  have : SharesRun captures (seen ∪ Mentions.of () ∪ Mentions.of ()) action action' :=
    shares.mono (Set.subset_union_left.trans Set.subset_union_left)
  unfold VM.nested
  infer_instance

end SharesRun

end VM

/-! ### Engines -/

/-- Two engines run loops and methods alike, from told and sound machines that have given out what
the methods are called with. -/
class Engine.SharesRuns (captures : Nat → Set Handle) (engine engine' : Engine) : Prop where
  rounds : engine'.rounds = engine.rounds
  loop : ∀ stop, VM.SharesRun captures ∅ (engine.loop stop) (engine'.loop stop)
  native : ∀ method self args, VM.SharesRun captures (Mentions.of method ∪ Mentions.of self ∪ Mentions.of args)
    (engine.native method self args) (engine'.native method self args)

namespace VM.SharesRun

set_option synthInstance.maxSize 3000

variable {captures : Nat → Set Handle} {seen : Set Mention} {engine engine' : Engine}
  [engine.SharesRuns captures engine'] {base register operand stop : Nat} {site : CallSite} {name : Symbol}
  {args : Args} {values : List Value} {receiver value block self fiber : Value} {owner proc target : Handle}
  {body : NativeMethod} {withBlock : Bool} {unit : Bytecode.CodeUnit}

instance loop : SharesRun captures seen (engine.loop stop) (engine'.loop stop) :=
  (Engine.SharesRuns.loop stop).mono (Set.empty_subset _)

instance native [isBody : Within seen body] [isSelf : Within seen self] [isArgs : Within seen args] :
    SharesRun captures seen (engine.native body self args) (engine'.native body self args) :=
  (Engine.SharesRuns.native body self args).mono
    (Set.union_subset (Set.union_subset isBody.subset isSelf.subset) isArgs.subset)

/-! ### Calls by instructions -/

instance callNative [Within seen body] [Within seen owner] :
    SharesRun captures seen (VM.callNative engine site body owner name)
      (VM.callNative engine' site body owner name) := by
  have leave {seen : Set Mention} {value : Value} [Within seen value] :
      SharesRun captures seen (leaveNative site.receiverAt value) (leaveNative site.receiverAt value) := by
    unfold leaveNative
    refine behind fun yielded? => ?_
    split <;> infer_instance
  unfold leaveNative at leave
  unfold VM.callNative
  infer_instance

instance callMethod {found : FoundMethod} [isFound : Within seen found] :
    SharesRun captures seen (VM.callMethod engine site found name) (VM.callMethod engine' site found name) := by
  have isMethod : Within seen found.method := inferInstance
  unfold VM.callMethod
  split
  · rename_i body isProc
    rw [isProc] at isMethod
    have := Within.of_proc isMethod
    infer_instance
  · rename_i body isNative
    rw [isNative] at isMethod
    have := Within.of_native isMethod
    infer_instance
  · infer_instance

instance dispatch : SharesRun captures seen (VM.dispatch engine site name) (VM.dispatch engine' site name) := by
  unfold VM.dispatch
  refine behind fun receiver => behind fun handle => behind fun found? => ?_
  split
  · infer_instance
  · refine behind fun missing? => ?_
    split <;> infer_instance

instance send : SharesRun captures seen (VM.send engine base register name operand withBlock)
    (VM.send engine' base register name operand withBlock) := by
  unfold VM.send
  infer_instance

instance sendSelf : SharesRun captures seen (VM.sendSelf engine base register name operand withBlock)
    (VM.sendSelf engine' base register name operand withBlock) := by
  unfold VM.sendSelf
  infer_instance

instance callSuper : SharesRun captures seen (VM.callSuper engine base register operand)
    (VM.callSuper engine' base register operand) := by
  unfold VM.callSuper
  refine behind fun frame => ?_
  split
  · refine behind fun receiver => behind fun handle => behind fun found => ?_
    split <;> infer_instance
  · infer_instance

/-! ### Calls by name -/

instance callNativeBody [Within seen receiver] [Within seen body] [Within seen owner] [Within seen args] :
    SharesRun captures seen (VM.callNativeBody engine receiver body owner name args)
      (VM.callNativeBody engine' receiver body owner name args) := by
  unfold VM.callNativeBody
  refine behind fun context => ?_
  dsimp only
  refine behind fun _ => behind fun _ => behind fun _ => behind fun height => behind fun _ => behind fun result => ?_
  refine behind fun _ => ?_
  split <;> infer_instance

instance callProcBody [Within seen receiver] [Within seen proc] [Within seen owner] [Within seen args] :
    SharesRun captures seen (VM.callProcBody engine receiver proc owner name args)
      (VM.callProcBody engine' receiver proc owner name args) := by
  unfold VM.callProcBody
  infer_instance

instance callWithArgs [Within seen receiver] [Within seen args] :
    SharesRun captures seen (VM.callWithArgs engine receiver name args)
      (VM.callWithArgs engine' receiver name args) := by
  unfold VM.callWithArgs
  refine behind fun _ => behind fun resolved => ?_
  obtain ⟨found, name, args⟩ := resolved
  have isFound : Within (Mentions.of (found, name, args)) found := inferInstance
  have isArgs : Within (Mentions.of (found, name, args)) args := inferInstance
  have isMethod : Within (Mentions.of (found, name, args)) found.method := inferInstance
  dsimp only
  split
  · rename_i body isNative
    rw [isNative] at isMethod
    have := Within.of_native isMethod
    infer_instance
  · rename_i body isProc
    rw [isProc] at isMethod
    have := Within.of_proc isMethod
    infer_instance
  · infer_instance

instance callWith [Within seen receiver] [Within seen values] :
    SharesRun captures seen (VM.callWith engine receiver name values) (VM.callWith engine' receiver name values) :=
  callWithArgs

instance callProc [Within seen receiver] [Within seen values] :
    SharesRun captures seen (VM.callProc engine receiver values) (VM.callProc engine' receiver values) :=
  callWith

instance textBytes [Within seen value] :
    SharesRun captures seen (VM.textBytes engine value) (VM.textBytes engine' value) := by
  unfold VM.textBytes
  split
  · infer_instance
  · infer_instance
  · refine behind fun bytes? => ?_
    split
    · infer_instance
    · refine behind fun text => behind fun textBytes? => ?_
      split <;> infer_instance
  · infer_instance

/-! ### Programs and fibers -/

instance runUnit [Within seen self] [Within seen target] :
    SharesRun captures seen (VM.runUnit engine unit self target) (VM.runUnit engine' unit self target) := by
  unfold VM.runUnit
  infer_instance

instance run : SharesRun captures seen (VM.run engine unit) (VM.run engine' unit) := by
  unfold VM.run
  split <;> infer_instance

instance load {binary : Bytes} : SharesRun captures seen (VM.load engine binary) (VM.load engine' binary) := by
  unfold VM.load
  infer_instance

instance loadInto {binary : Bytes} [Within seen target] :
    SharesRun captures seen (VM.loadInto engine binary target) (VM.loadInto engine' binary target) := by
  unfold VM.loadInto
  infer_instance

instance funcall {name : String} [Within seen receiver] [Within seen values] [Within seen block] :
    SharesRun captures seen (VM.funcall engine receiver name values block)
      (VM.funcall engine' receiver name values block) := by
  unfold VM.funcall
  infer_instance

instance resume [Within seen fiber] [Within seen values] :
    SharesRun captures seen (VM.resume engine fiber values) (VM.resume engine' fiber values) := by
  have dropped {context : ContextId} : Evolves (modify (·.removeContext context) : VM PUnit) :=
    .of_outside (fun _ => rfl) (fun _ => rfl) (fun _ => rfl)
  unfold VM.resume
  refine behind fun handle => behind fun record => ?_
  dsimp only
  split <;> infer_instance

/-! ### Instructions -/

instance executeArithmetic {op : ArithOp} :
    SharesRun captures seen (VM.executeArithmetic engine base register op name)
      (VM.executeArithmetic engine' base register op name) := by
  unfold VM.executeArithmetic
  refine behind fun left => behind fun right => behind fun result? => ?_
  split <;> infer_instance

instance executeImmediate {number : Nat} {op : ArithOp} :
    SharesRun captures seen (VM.executeImmediate engine base register number op name)
      (VM.executeImmediate engine' base register number op name) := by
  unfold VM.executeImmediate
  refine behind fun left => behind fun result? => ?_
  split <;> infer_instance

instance executeComparison {op : CompareOp} :
    SharesRun captures seen (VM.executeComparison engine base register op)
      (VM.executeComparison engine' base register op) := by
  unfold VM.executeComparison
  refine behind fun left => behind fun right => ?_
  split <;> infer_instance

instance executeEquality :
    SharesRun captures seen (VM.executeEquality engine base register) (VM.executeEquality engine' base register) := by
  unfold VM.executeEquality
  refine behind fun left => behind fun right => ?_
  split <;> infer_instance

instance executeGetIndex :
    SharesRun captures seen (VM.executeGetIndex engine base register) (VM.executeGetIndex engine' base register) := by
  unfold VM.executeGetIndex
  refine behind fun receiver => behind fun index => behind fun content? => ?_
  split
  · rename_i items index
    have : Within (Mentions.of (some (Content.array items))) items := ⟨subset_rfl⟩
    infer_instance
  · infer_instance
  · infer_instance

instance executeSetIndex :
    SharesRun captures seen (VM.executeSetIndex engine base register) (VM.executeSetIndex engine' base register) := by
  unfold VM.executeSetIndex
  refine behind fun receiver => behind fun index => behind fun value => behind fun content? => ?_
  split <;> infer_instance

instance appendText [Within seen self] [Within seen value] :
    SharesRun captures seen (VM.appendText engine self value) (VM.appendText engine' self value) := by
  have append {seen : Set Mention} {handle : Handle} {tail : Bytes} :
      SharesRun captures seen (VM.appendBytes handle tail) (VM.appendBytes handle tail) := by
    refine ⟨fun machine told sound isSeen => ?_⟩
    unfold VM.appendBytes
    refine .query_bind told fun object read => ?_
    split
    · rename_i bytes isString
      have store : Tells captures seen (VM.setContent handle (.string (bytes ++ tail))) := inferInstance
      have grow : SharesRun captures ∅ (VM.grow tail.size) (VM.grow tail.size) := inferInstance
      refine .bind sound ⟨rfl, store.tellsFrom machine told isSeen, ?_⟩ fun _ next _ told sound _ _ =>
        grow.sharesFrom next told sound (Set.empty_subset _)
      refine .setContent (Query.object_eq_ok_iff.mp read) ?_ rfl
      rw [Object.class?, isString]
    · have fails : SharesRun captures seen (do VM.fatal .appendToOther; VM.grow tail.size : VM Unit)
          (do VM.fatal .appendToOther; VM.grow tail.size) := inferInstance
      exact fails.sharesFrom machine told sound isSeen
  unfold VM.appendBytes at append
  unfold VM.appendText
  refine behind fun tail => behind fun _ => ?_
  dsimp only
  split <;> infer_instance

instance execute {frame : Frame} {instruction : Bytecode.Instruction} [Within seen frame] :
    SharesRun captures seen (VM.execute { engine, stop, frame, unit } instruction)
      (VM.execute { engine := engine', stop, frame, unit } instruction) := by
  unfold VM.execute
  dsimp only
  split <;> infer_instance

instance step : SharesRun captures seen (VM.step engine stop) (VM.step engine' stop) := by
  unfold VM.step
  refine behind fun frame => ?_
  split
  · infer_instance
  · split <;> infer_instance

instance cycle : SharesRun captures seen (VM.cycle engine stop) (VM.cycle engine' stop) := by
  unfold VM.cycle
  infer_instance

end VM.SharesRun

end RiteVm
