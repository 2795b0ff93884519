import RiteVm.Proofs.Arguments.Layouts

/-!
Contract: a method receives the arguments of its call site.

Owns:
- looking a method up, which changes no object but classes;
- the frame that begins a proc, and what its parameters are bound to;
- calls of a found method, by instructions and by name.
-/

namespace RiteVm

open RiteVm.Bytecode

/-! ### Looking methods up -/

/-- Classes stay classes, and all other objects are as they were. -/
def Heap.SameButClasses (before after : Heap) : Prop :=
  ∀ handle, after.get? handle = before.get? handle ∨
    ((before.get? handle).bind Object.class?).isSome ∧
      ((after.get? handle).bind Object.class?).isSome

namespace Heap.SameButClasses

variable {before heap after : Heap}

theorem refl (heap : Heap) : heap.SameButClasses heap := fun _ => .inl rfl

theorem trans (first : before.SameButClasses heap) (second : heap.SameButClasses after) :
    before.SameButClasses after := by
  intro handle
  rcases second handle with same | ⟨wasClass, isClass⟩
  · rw [same]
    exact first handle
  · rcases first handle with same | ⟨wasClass', -⟩
    · exact .inr ⟨same ▸ wasClass, isClass⟩
    · exact .inr ⟨wasClass', isClass⟩

theorem keepsObjects (same : before.SameButClasses after) : before.KeepsObjects after := by
  intro handle object found plain
  rcases same handle with same | ⟨wasClass, -⟩
  · exact same.trans found
  · rw [found, Option.bind_some, plain] at wasClass
    exact nomatch wasClass

/-- A class is no string. -/
theorem string?_eq (same : before.SameButClasses after) (handle : Handle) :
    (after.get? handle).bind Object.string? = (before.get? handle).bind Object.string? := by
  have notString {object? : Option Object} (isClass : (object?.bind Object.class?).isSome) :
      object?.bind Object.string? = none := by
    cases object? with
    | none => rfl
    | some object =>
        rw [Option.bind_some, Object.class?] at isClass
        rw [Option.bind_some, Object.string?]
        split at isClass <;> simp_all
  rcases same handle with same | ⟨wasClass, isClass⟩
  · rw [same]
  · rw [notString wasClass, notString isClass]

theorem digest_eq {machine next : Machine} (same : machine.heap.SameButClasses next.heap) :
    next.digest = machine.digest := by
  rw [Machine.digest, Machine.digest]
  exact congrArg _ (funext same.string?_eq)

end Heap.SameButClasses

namespace VM

/-- An action that succeeds leaves all objects but classes as they are. -/
class OnlyClasses {α : Type} (action : VM α) : Prop where
  keeps : ∀ machine value next, action machine = .ok value next →
    machine.heap.SameButClasses next.heap

namespace OnlyClasses

variable {α β : Type}

instance seq {first : VM α} {rest : α → VM β} [onlyFirst : OnlyClasses first]
    [onlyRest : ∀ value, OnlyClasses (rest value)] : OnlyClasses (first >>= rest) where
  keeps machine result last succeeded := by
    obtain ⟨value, next, began, ended⟩ := bind_eq_ok_iff.mp succeeded
    exact (onlyFirst.keeps machine value next began).trans
      ((onlyRest value).keeps next result last ended)

instance stays (value : α) : OnlyClasses (pure value : VM α) where
  keeps _ _ _ done := by
    cases done
    exact .refl _

instance query (query : Query α) : OnlyClasses (liftM query : VM α) where
  keeps _ _ _ read := by
    obtain ⟨-, rfl⟩ := liftM_eq_ok_iff.mp read
    exact .refl _

instance reads : OnlyClasses (get : VM Machine) where
  keeps _ _ _ read := by
    cases read
    exact .refl _

instance fails {action : VM α} [fails : Fails action] : OnlyClasses action where
  keeps machine value next succeeded := absurd succeeded (fails.ne_ok machine value next)

instance cacheMethod (handle : Handle) (name : Symbol) (found : FoundMethod) :
    OnlyClasses (cacheMethod handle name found) where
  keeps _ _ _ cached := by
    cases cached
    exact .refl _

instance modifyClass (handle : Handle) (change : ClassRecord → ClassRecord) :
    OnlyClasses (modifyClass handle change) where
  keeps machine _ next changed := by
    obtain ⟨record, isClass, rfl⟩ := modifyClass_eq_ok_iff.mp changed
    intro other
    rw [Machine.setClass, Machine.get?_rewrite]
    by_cases isHandle : other = handle
    · obtain ⟨object, found, isRecord⟩ := Option.bind_eq_some_iff.mp isClass
      rw [if_pos isHandle, isHandle, found]
      exact .inr ⟨by rw [Option.bind_some, isRecord]; rfl, rfl⟩
    · exact .inl (if_neg isHandle)

instance listFoldlM {action : β → α → VM β} [only : ∀ state value, OnlyClasses (action state value)]
    (initial : β) (list : List α) : OnlyClasses (list.foldlM action initial) := by
  induction list generalizing initial with
  | nil => exact stays _
  | cons first rest inductionHypothesis => exact seq

instance ancestorsWithin (fuel : Nat) (handle : Handle) :
    OnlyClasses (ancestorsWithin fuel handle) := by
  induction fuel generalizing handle with
  | zero => exact ⟨fun _ _ _ => nofun⟩
  | succ fuel inductionHypothesis =>
      unfold VM.ancestorsWithin
      refine @seq _ _ _ _ _ fun machine => @seq _ _ _ _ _ fun record => ?_
      split <;> infer_instance

instance ancestors (handle : Handle) : OnlyClasses (ancestors handle) := by
  unfold VM.ancestors
  infer_instance

instance findMethod (handle : Handle) (name : Symbol) : OnlyClasses (findMethod handle name) := by
  unfold VM.findMethod
  refine @seq _ _ _ _ _ fun cached? => ?_
  split
  · infer_instance
  · refine @seq _ _ _ _ _ fun list => @seq _ _ _ _ _ fun found? => ?_
    split <;> infer_instance

instance findSuperMethod (handle owner : Handle) (name : Symbol) :
    OnlyClasses (findSuperMethod handle owner name) := by
  unfold VM.findSuperMethod
  refine @seq _ _ _ _ _ fun list => ?_
  split
  · infer_instance
  · refine @seq _ _ _ _ _ fun found? => ?_
    split <;> infer_instance

instance resolveCall (receiver : Value) (name : Symbol) (args : Args) :
    OnlyClasses (resolveCall receiver name args) := by
  unfold VM.resolveCall
  refine @seq _ _ _ _ _ fun handle => @seq _ _ _ _ _ fun found? => ?_
  split
  · infer_instance
  · refine @seq _ _ _ _ _ fun missing? => ?_
    split <;> infer_instance

end OnlyClasses

end VM

/-! ### The beginning of a proc -/

/-- The running stack is no stack of a fiber that a collection takes away. -/
theorem Machine.Linked.context?_collect {tidy : Prop} {machine : Machine}
    (linked : machine.Linked tidy) :
    machine.collect.context? machine.collect.current = machine.context? machine.current := by
  have notOwner : ∀ handle ∈ machine.unreachable, ∀ object record,
      machine.heap.get? handle = some object → object.content = .fiber record →
      record.context ≠ machine.current := by
    intro handle isDead object record found isFiber
    have isRecord : machine.fiber? handle = some record := by
      rw [Machine.fiber?, Heap.fiber?, found, Option.bind_some, Object.fiber?, isFiber]
    refine linked.context_ne_of_chain isRecord (List.mem_append_right _ List.mem_cons_self) ?_
    intro isCurrent
    exact (Machine.mem_unreachable.mp isDead).2 (.root (.currentFiber isCurrent))
  obtain ⟨sameContext, sameCurrent⟩ := Machine.context?_foldl_reclaim notOwner
  have isCurrent : machine.collect.current = machine.current := sameCurrent
  rw [isCurrent]
  exact sameContext

namespace Query

/-- What parameters are bound to, given what a call passes. A single array may be spread. -/
def bindingOf (spec : ArgSpec) (strict : Bool) (given : List Value) (keywords? : Option Value)
    (block : Value) : Query PassedArgs := do
  let items? ←
    match given with
    | [single] => array? single
    | _ => pure none
  return { strict, args := spec.spread strict given items?, keywords?, block }

end Query

/-- Nothing stands for no keywords, and a hash for its pairs. -/
def Heap.StandsFor (heap : Heap) (keywords? : Option Value) (keywords : List (Value × Value)) :
    Prop :=
  match keywords? with
  | some hash => heap.HoldsHash hash keywords
  | none => keywords = []

/-- The frame of a proc is on top of the running stack and executes its first instruction next.
Its register 0 is the receiver, and whatever parameters it has are bound to the arguments of the
call. Without parameters for them, keywords are one more positional argument. -/
structure Machine.Begins (machine : Machine) (frame : Frame) (proc : Handle) (receiver : Value)
    (args : Args) : Prop where
  running : Query.frame machine = .ok frame
  isProc : frame.proc = some proc
  atStart : frame.pc = 0
  isBlock : frame.block = args.block
  isReceiver : Query.register frame.base 0 machine = .ok receiver
  enters : ∃ strict keywords?, machine.heap.StandsFor keywords? args.keywords ∧
    ∀ spec, Query.passedArgs frame.base frame spec machine =
      Query.bindingOf spec strict
        (args.positional ++
          if spec.takesKeywords || args.keywords.isEmpty then [] else keywords?.toList)
        keywords? args.block machine

section Begins

variable {machine : Machine} {context : Context} {frame : Frame} {proc : Handle}
  {receiver : Value} {args : Args}

/-- The value in the place of the keyword hash, if one is passed. -/
def CallSite.keywords? (site : CallSite) (context : Context) : Option Value :=
  if site.hasKeywords then some (context.slot site.keywordsAt) else none

theorem CallSite.Holds.standsFor {site : CallSite} (holds : site.Holds machine.heap context args) :
    machine.heap.StandsFor (site.keywords? context) args.keywords := by
  have keywords := holds.keywords
  rw [CallSite.keywords?]
  split at keywords <;> rename_i hasKeywords
  · rw [if_pos hasKeywords]
    exact keywords
  · rw [if_neg hasKeywords]
    exact keywords

/-- Whether a frame counts its arguments. Without a proc it does. -/
def Frame.strictness (frame : Frame) : Query Bool :=
  match frame.proc with
  | some proc => Query.isStrict proc
  | none => pure true

/-- What is read at the call site of a frame that is known to count its arguments or not. -/
def Query.passedAt (site : CallSite) (spec : ArgSpec) (strict : Bool) : Query PassedArgs := do
  let positional ← positionalAt site
  let keywords? ← if site.hasKeywords then some <$> slot site.keywordsAt else pure none
  let block ← slot site.blockAt
  let extra ←
    match keywords? with
    | some keywords => do
      let isEmpty ← hasNoEntries keywords
      pure (if spec.takesKeywords || isEmpty then [] else [keywords])
    | none => pure []
  bindingOf spec strict (positional ++ extra) keywords? block

theorem Query.passedArgs_eq (base : Nat) (frame : Frame) (spec : ArgSpec) :
    passedArgs base frame spec = (do
      passedAt ⟨base, frame.argCount, frame.hasKeywords⟩ spec (← frame.strictness)) := by
  rw [Frame.strictness]
  unfold passedArgs
  cases frame.proc <;> rfl

/-- A frame reads what the call site at its base holds. -/
theorem passedArgs_of_strictness (running : machine.context? machine.current = some context)
    {strict : Bool} (isStrict : frame.strictness machine = .ok strict) {site : CallSite}
    (isSite : site = ⟨frame.base, frame.argCount, frame.hasKeywords⟩)
    (holds : site.Holds machine.heap context args) (spec : ArgSpec) :
    Query.passedArgs frame.base frame spec machine =
      Query.bindingOf spec strict
        (args.positional ++ if spec.takesKeywords || args.keywords.isEmpty then []
          else (site.keywords? context).toList)
        (site.keywords? context) args.block machine := by
  have isBlock : Query.slot site.blockAt machine = .ok args.block :=
    (CallSite.slot_of_running running _).trans (congrArg _ holds.block)
  have keywords := holds.keywords
  rw [Query.passedArgs_eq, ← isSite, Query.bind_of_ok isStrict, Query.passedAt,
    Query.bind_of_ok (holds.positionalAt running), CallSite.keywords?]
  split at keywords <;> rename_i hasKeywords
  · have isHash : (some <$> Query.slot site.keywordsAt) machine =
        .ok (some (context.slot site.keywordsAt)) := by
      rw [map_eq_pure_bind, Query.bind_of_ok (CallSite.slot_of_running running _)]
      rfl
    rw [if_pos hasKeywords, if_pos hasKeywords, Query.bind_of_ok isHash]
    dsimp only
    rw [Query.bind_of_ok isBlock, Query.bind_of_ok (Query.hasNoEntries_of_holds keywords), pure_bind]
    rfl
  · rw [if_neg hasKeywords, if_neg hasKeywords,
      Query.bind_of_ok (rfl : (pure none : Query (Option Value)) machine = .ok none)]
    dsimp only
    rw [Query.bind_of_ok isBlock, pure_bind, keywords, List.isEmpty_nil, Bool.or_true, if_pos rfl]

/-- So does the frame of a proc. -/
theorem passedArgs_of_holds (running : machine.context? machine.current = some context)
    (isProc : frame.proc = some proc) (holdsProc : machine.heap.HoldsProc (.object proc))
    (holds : (CallSite.mk frame.base frame.argCount frame.hasKeywords).Holds machine.heap context
      args) :
    ∃ strict keywords?, machine.heap.StandsFor keywords? args.keywords ∧
      ∀ spec, Query.passedArgs frame.base frame spec machine =
        Query.bindingOf spec strict
          (args.positional ++
            if spec.takesKeywords || args.keywords.isEmpty then [] else keywords?.toList)
          keywords? args.block machine := by
  obtain ⟨handle, object, isHandle, found, isSome⟩ := holdsProc
  obtain ⟨record, isRecord⟩ := Option.isSome_iff_exists.mp isSome
  cases isHandle
  have strict : frame.strictness machine = .ok record.strict := by
    rw [Frame.strictness, isProc]
    change Query.isStrict proc machine = _
    rw [Query.isStrict, Query.bind_of_ok (Query.object_eq_ok_iff.mpr found), isRecord]
    rfl
  exact ⟨record.strict, _, holds.standsFor, passedArgs_of_strictness running strict rfl holds⟩

/-- The frame of a proc is on top of a stack whose slots hold the receiver and the arguments of
the call, below the top of the frame. -/
structure Machine.Stands (machine : Machine) (context : Context) (frame : Frame) (proc : Handle)
    (receiver : Value) (args : Args) : Prop where
  running : machine.context? machine.current = some context
  onTop : context.frames.back? = some frame
  isProc : frame.proc = some proc
  atStart : frame.pc = 0
  isBlock : frame.block = args.block
  holdsProc : machine.heap.HoldsProc (.object proc)
  isReceiver : context.slot frame.base = receiver
  holds : (CallSite.mk frame.base frame.argCount frame.hasKeywords).Holds machine.heap context args
  inside : (CallSite.mk frame.base frame.argCount frame.hasKeywords).blockAt < frame.top

namespace Machine.Stands

variable {next : Machine} {tidy : Prop}

theorem begins (stands : machine.Stands context frame proc receiver args) :
    machine.Begins frame proc receiver args where
  running := by
    rw [Query.frame, Query.bind_of_ok (VM.context_eq_ok_iff.mpr stands.running), stands.onTop]
    rfl
  isProc := stands.isProc
  atStart := stands.atStart
  isBlock := stands.isBlock
  isReceiver := (CallSite.slot_of_running stands.running _).trans (congrArg _ stands.isReceiver)
  enters := passedArgs_of_holds stands.running stands.isProc stands.holdsProc stands.holds

/-- The arguments are still there in a machine that has what the stack refers to. -/
theorem of_kept (stands : machine.Stands context frame proc receiver args)
    (running : next.context? next.current = some context)
    (kept : ∀ handle, context.RefersTo (.object handle) →
      next.heap.get? handle = machine.heap.get? handle) :
    next.Stands context frame proc receiver args := by
  have member : frame ∈ context.frames := Array.mem_of_back? stands.onTop
  have keptSlot {index : Nat} (below : index < frame.top) {handle : Handle}
      (isSlot : context.slot index = .object handle) :
      next.heap.get? handle = machine.heap.get? handle :=
    kept handle (Context.refersTo_slot (Context.mem_frames_iff.mp member) below isSlot)
  have inside := stands.inside
  refine { stands with running, holdsProc := ?_, holds := ⟨?_, ?_, stands.holds.block⟩ }
  · obtain ⟨handle, object, isHandle, found, isSome⟩ := stands.holdsProc
    cases isHandle
    exact ⟨proc, object, rfl, (kept proc (.frame member (.proc stands.isProc))).trans found, isSome⟩
  · have positional := stands.holds.positional
    split at positional
    · rename_i isPacked
      obtain ⟨handle, object, isValue, found, isArray⟩ := positional
      have below : frame.base + 1 < frame.top := by
        rw [CallSite.blockAt, CallSite.keywordsAt, CallSite.argSlots, if_pos isPacked] at inside
        dsimp only at inside
        omega
      rw [if_pos isPacked]
      exact ⟨handle, object, isValue, (keptSlot below isValue).trans found, isArray⟩
    · rename_i notPacked
      rwa [if_neg notPacked]
  · have keywords := stands.holds.keywords
    split at keywords
    · rename_i hasKeywords
      obtain ⟨handle, object, table, isValue, found, isHash, isPairs⟩ := keywords
      rw [CallSite.blockAt, if_pos hasKeywords] at inside
      rw [if_pos hasKeywords]
      exact ⟨handle, object, table, isValue,
        (keptSlot (by omega) isValue).trans found, isHash, isPairs⟩
    · rename_i noKeywords
      rwa [if_neg noKeywords]

/-- A collection takes no argument away. -/
theorem collectedIfDue (stands : machine.Stands context frame proc receiver args)
    (linked : machine.Linked tidy) :
    machine.collectedIfDue.Stands context frame proc receiver args := by
  rw [Machine.collectedIfDue]
  split
  · refine stands.of_kept ((linked.context?_collect).trans stands.running) fun handle refers => ?_
    exact get?_collect_of_reachable (.step (.root .current) (.context stands.running refers))
  · exact stands

end Machine.Stands

end Begins

/-! ### Pushing a frame -/

theorem Context.slot_clear_of_lt (context : Context) {first index : Nat} (below : index < first)
    (last : Nat) : (context.clear first last).slot index = context.slot index := by
  have unchanged (indices : List Nat) (stack : Array Value) (above : ∀ other ∈ indices, index < other) :
      (indices.foldl (fun stack other => stack.setIfInBounds other .nil) stack)[index]? =
        stack[index]? := by
    induction indices generalizing stack with
    | nil => rfl
    | cons other rest inductionHypothesis =>
        have isAbove := above other List.mem_cons_self
        rw [List.foldl_cons, inductionHypothesis _ fun other member =>
          above other (List.mem_cons_of_mem _ member), Array.getElem?_setIfInBounds_ne (by omega)]
  rw [← context.slot_ensureSize last index, Context.clear, Context.slot, Context.slot,
    Array.getD_eq_getD_getElem?, Array.getD_eq_getD_getElem?, unchanged]
  intro other member
  have := List.mem_range'_1.mp member
  omega

namespace VM

variable {machine : Machine} {context : Context} {site : CallSite} {receiver : Value} {args : Args}
  {proc owner : Handle} {name : Symbol}

theorem checkDepth_of_room (running : machine.context? machine.current = some context)
    (room : context.frames.size < machine.config.maxCallDepth) :
    checkDepth machine = .ok () machine := by
  have depth : Query.depth machine = .ok context.frames.size :=
    Query.bind_of_ok (context_eq_ok_iff.mpr running)
  have enough : ¬ machine.config.maxCallDepth ≤ context.frames.size := by omega
  rw [checkDepth, get_bind, bind_of_ok (liftM_of_ok depth), if_neg enough]
  rfl

/-- The frame of a proc is pushed above the arguments of its call site. -/
theorem pushProcFrame_stands (running : machine.context? machine.current = some context)
    (holds : site.Holds machine.heap context args)
    (isReceiver : context.slot site.receiverAt = receiver)
    (room : context.frames.size < machine.config.maxCallDepth)
    (holdsProc : machine.heap.HoldsProc (.object proc)) (boundary : Bool) (owner : Handle)
    (name : Symbol) :
    ∃ next context' frame,
      pushProcFrame site proc (some owner) (some name) args.block boundary machine = .ok () next ∧
      next = { machine with contexts := next.contexts } ∧
      next.Stands context' frame proc receiver args ∧ frame.method = some name ∧
      frame.owner = some owner := by
  obtain ⟨handle, object, isHandle, found, isSome⟩ := id holdsProc
  cases isHandle
  obtain ⟨record, isRecord⟩ := Option.isSome_iff_exists.mp isSome
  have read : Query.procRecord proc machine = .ok record := by
    rw [Query.procRecord, Query.bind_of_ok (Query.object_eq_ok_iff.mpr found), isRecord]
    rfl
  let top := max (site.receiverAt + record.unit.registerCount.toNat) (site.blockAt + 1)
  let frame : Frame :=
    { base := site.receiverAt, top, proc := some proc, unit := some record.unit
      argCount := site.argCount, hasKeywords := site.hasKeywords, method := some name
      owner := some owner, targetClass := record.targetClass, boundary, block := args.block }
  let cleared := machine.modifyContext machine.current (·.clear (site.blockAt + 1) top)
  let push (context : Context) : Context := { context with frames := context.frames.push frame }
  have same (index : Nat) (below : index < site.blockAt + 1) :
      (push (context.clear (site.blockAt + 1) top)).slot index = context.slot index :=
    context.slot_clear_of_lt below top
  have beforeBlock := site.receiverAt_lt_blockAt
  refine ⟨cleared.modifyContext cleared.current push, push (context.clear (site.blockAt + 1) top),
    frame, ?_, rfl, ?_, rfl, rfl⟩
  · rw [pushProcFrame, bind_of_ok (checkDepth_of_room running room),
      bind_of_ok (liftM_of_ok read)]
    rfl
  · exact
      { running := Machine.context?_modifyContext (Machine.context?_modifyContext running _) _
        onTop := Array.back?_push
        isProc := rfl
        atStart := rfl
        isBlock := rfl
        holdsProc := holdsProc
        isReceiver := (same site.receiverAt (by omega)).trans isReceiver
        holds := holds.withBlock (.refl _) (fun index _ below => same index (by omega))
          ((same _ (by omega)).trans holds.block)
        inside := by
          show site.blockAt < top
          omega }

/-- A method that is no bytecode runs on what its call site holds. -/
theorem callNative_runs (running : machine.context? machine.current = some context)
    (holds : site.Holds machine.heap context args)
    (isReceiver : context.slot site.receiverAt = receiver)
    (room : context.frames.size < machine.config.maxCallDepth) (body : NativeMethod) :
    ∃ entered, ∀ engine, callNative engine site body owner name machine =
      (engine.native body receiver args >>= leaveNative site.receiverAt) entered := by
  have isSlot := (CallSite.slot_of_running running site.receiverAt).trans (congrArg _ isReceiver)
  refine ⟨(pushNativeFrame site owner name args.block).after machine, fun engine => ?_⟩
  have pushed : pushNativeFrame site owner name args.block machine =
      .ok () ((pushNativeFrame site owner name args.block).after machine) := by
    have read := liftM_of_ok (context_eq_ok_iff.mpr running)
    rw [after, pushNativeFrame, bind_of_ok read]
    rfl
  rw [callNative, bind_of_ok (checkDepth_of_room running room),
    bind_of_ok (liftM_of_ok (holds.argsAt running)), bind_of_ok (liftM_of_ok isSlot),
    bind_of_ok pushed]
  rfl

end VM

end RiteVm
