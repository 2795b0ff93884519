import RiteVm.Proofs.Arguments.Reception

/-!
Contract: arguments arrive unchanged by every route.

Owns:
- the ways to call a method by name, by an instruction or by a method that is no bytecode;
- what is done once the method is found, or `method_missing` in its place;
- the receiver and the arguments that the method then receives.
-/

namespace RiteVm

/-- The machine as the next cycle begins with it: at any depth of loops, with any objects in use
by a host, and behind a collection if one is due. -/
def Machine.nextCycle (machine : Machine) (arena : Array Handle) (depth : Nat) : Machine :=
  ({ machine.withArena arena with nativeDepth := depth } : Machine).collectedIfDue

/-- There is room for one more frame, and what is to run in it exists. -/
structure Machine.CanEnter (machine : Machine) (method : Method) : Prop where
  room : machine.frames.length < machine.config.maxCallDepth
  isDefined : method ≠ .undefined
  holdsProc : ∀ proc, method = .proc proc → machine.heap.HoldsProc (.object proc)

namespace VM

/-- Runs an action one level deeper. -/
def deepen {α : Type} (action : VM α) : VM α := do
  modify deeper
  let result ← attempt action
  modify shallower
  resolve result

/-- Drops what a method that is no bytecode left behind. An exit to its frame is its value. -/
def finishNative (height : Nat) (result : Except Failure Value) : VM Value := do
  truncateFrames height
  match result with
  | .ok value => return value
  | .error (.unwinding target value) =>
    if target = height then return value
    else finishCall (.error (.unwinding target value))
  | .error failure => throw failure

/-- A call hands a receiver and arguments to a found method. A method that is no bytecode runs
on them; a proc begins with them, also when its first cycle collects. -/
inductive Delivers {α : Type} (call : Engine → VM α) (waits : VM Value → VM α)
    (runs : Engine → VM α) (machine : Machine) (name : Symbol) (receiver : Value) (args : Args) :
    FoundMethod → Prop where
  | native {body : NativeMethod} {owner : Handle} (entered : Machine) :
      (∀ engine, call engine machine = waits (engine.native body receiver args) entered) →
      Delivers call waits runs machine name receiver args ⟨.native body, owner⟩
  | proc {proc owner : Handle} (entered : Machine) (frame : Frame) :
      (∀ engine, call engine machine = runs engine entered) →
      frame.method = some name → frame.owner = some owner →
      entered.Begins frame proc receiver args →
      (∀ arena depth, (entered.nextCycle arena depth).Begins frame proc receiver args) →
      Delivers call waits runs machine name receiver args ⟨.proc proc, owner⟩

/-- The next method of a name behind the class in which the running one was found. -/
def resolveSuper (receiver : Value) (owner : Handle) (name : Symbol) (args : Args) :
    VM (FoundMethod × Symbol × Args) := do
  match ← findSuperMethod (← Query.classOf receiver) owner name with
  | .unrelated => raise .typeError "self has wrong type to call super in this context"
  | .missing => raiseNoMethod s!"no superclass method '{← Query.symbolText name}'" receiver name
  | .found found => return (found, name, args)

/-- A way to call a method by name: how the method is found, the action that calls it, what the
action does with the result of a method that is no bytecode, and how it goes on with the frame of
a proc. -/
inductive CallsByName (machine : Machine) (context : Context) (receiver : Value) (name : Symbol)
    (args : Args) : {α : Type} → VM (FoundMethod × Symbol × Args) → (Engine → VM α) →
      (VM Value → VM α) → (Engine → VM α) → Prop where
  | send {base register operand : Nat} {withBlock : Bool} :
      machine.Offers context (base + register) operand withBlock args →
      context.slot (base + register) = receiver →
      CallsByName machine context receiver name args (resolveCall receiver name args)
        (fun engine => send engine base register name operand withBlock)
        (· >>= leaveNative (base + register)) (fun _ => pure none)
  | sendSelf {base register operand : Nat} {withBlock : Bool} :
      machine.Offers context (base + register) operand withBlock args →
      context.slot base = receiver →
      CallsByName machine context receiver name args (resolveCall receiver name args)
        (fun engine => sendSelf engine base register name operand withBlock)
        (· >>= leaveNative (base + register)) (fun _ => pure none)
  | callSuper {frame : Frame} {owner : Handle} {base register operand : Nat} :
      machine.Offers context (base + register) operand true args →
      context.slot base = receiver →
      context.frames.back? = some frame → frame.method = some name → frame.owner = some owner →
      CallsByName machine context receiver name args (resolveSuper receiver owner name args)
        (fun engine => callSuper engine base register operand)
        (· >>= leaveNative (base + register)) (fun _ => pure none)
  | host :
      machine.Distinct args.keywords → HasRoom machine →
      CallsByName machine context receiver name args (resolveCall receiver name args)
        (fun engine => callWithArgs engine receiver name args)
        (fun run => attempt (deepen run) >>= finishNative machine.frames.length)
        (fun engine => attempt (deepen (engine.loop machine.frames.length)) >>= finishCall)

variable {tidy : Prop} {machine next : Machine} {context : Context} {site : CallSite}
  {receiver : Value} {name : Symbol} {args : Args} {found : FoundMethod}

/-! ### After the look-up -/

theorem linked_of_ok {α : Type} {action : VM α} [Carries tidy action] {value : α}
    (linked : machine.Linked tidy) (succeeded : action machine = .ok value next) :
    next.Linked tidy := by
  have carries : CarriesFrom tidy machine action := .of_carries linked
  rw [CarriesFrom, after_of_ok succeeded] at carries
  exact carries.linked

theorem begins_nextCycle {frame : Frame} {proc : Handle} (linked : machine.Linked tidy)
    (stands : machine.Stands context frame proc receiver args) (arena : Array Handle)
    (depth : Nat) : (machine.nextCycle arena depth).Begins frame proc receiver args := by
  let rested : Machine := { machine.withArena arena with nativeDepth := depth }
  have stands' : rested.Stands context frame proc receiver args :=
    stands.of_kept stands.running fun _ _ => rfl
  have keeps : machine.KeepsFibers (machine.withArena arena) :=
    ⟨rfl, rfl, rfl, rfl, rfl, rfl, rfl, rfl, fun wellFormed => .of_cells wellFormed rfl rfl⟩
  have linked' := (Machine.KeepsOthers.of_keepsFibers linked.wellFormed keeps).linked linked
  have restedLinked : rested.Linked tidy :=
    { linked' with fits := fun handle record found => { linked'.fits handle record found with } }
  exact (stands'.collectedIfDue restedLinked).begins

/-- What a call site holds is what the method receives. -/
theorem callMethod_delivers (name : Symbol) (linked : machine.Linked tidy)
    (running : machine.context? machine.current = some context)
    (holds : site.Holds machine.heap context args)
    (isReceiver : context.slot site.receiverAt = receiver) (enters : machine.CanEnter found.method) :
    Delivers (fun engine => callMethod engine site found name) (· >>= leaveNative site.receiverAt)
      (fun _ => pure none) machine name receiver args found := by
  obtain ⟨method, owner⟩ := found
  have room := enters.room
  rw [Machine.frames_of_context? running, Array.length_toList] at room
  cases method with
  | native body =>
      obtain ⟨entered, runs⟩ := callNative_runs running holds isReceiver room body
      exact .native entered runs
  | proc proc =>
      obtain ⟨entered, context', frame, pushed, -, stands, isMethod, isOwner⟩ :=
        pushProcFrame_stands running holds isReceiver room (enters.holdsProc proc rfl) false owner
          name
      have linked' : entered.Linked tidy := linked_of_ok linked pushed
      refine .proc entered frame (fun engine => ?_) isMethod isOwner stands.begins
        (begins_nextCycle linked' stands)
      have isBlock := (CallSite.slot_of_running running site.blockAt).trans
        (congrArg _ holds.block)
      exact (bind_of_ok (liftM_of_ok isBlock)).trans (bind_of_ok pushed)
  | undefined => exact absurd rfl enters.isDefined

/-! ### The look-up -/

/-- A method is called with its own name and arguments, or `method_missing` with the name that is
missing in front of them. -/
def IsCalledWith (name : Symbol) (args : Args) (name' : Symbol) (args' : Args) : Prop :=
  (name' = name ∧ args' = args) ∨ (name' = .methodMissing ∧ args' = args.prepend (.symbol name))

theorem resolveCall_cases {name' : Symbol} {args' : Args}
    (resolved : resolveCall receiver name args machine = .ok (found, name', args') next) :
    ∃ handle, Query.classOf receiver machine = .ok handle ∧
      ((findMethod handle name machine = .ok (some found) next ∧ name' = name ∧ args' = args) ∨
        ∃ between, findMethod handle name machine = .ok none between ∧
          findMethod handle .methodMissing between = .ok (some found) next ∧
          name' = .methodMissing ∧ args' = args.prepend (.symbol name)) := by
  unfold resolveCall at resolved
  obtain ⟨handle, _, read, resolved⟩ := bind_eq_ok_iff.mp resolved
  obtain ⟨isClass, rfl⟩ := liftM_eq_ok_iff.mp read
  obtain ⟨found?, between, looked, resolved⟩ := bind_eq_ok_iff.mp resolved
  refine ⟨handle, isClass, ?_⟩
  cases found? with
  | some found =>
      cases resolved
      exact .inl ⟨looked, rfl, rfl⟩
  | none =>
      obtain ⟨missing?, last, looked', resolved⟩ := bind_eq_ok_iff.mp resolved
      cases missing? with
      | some found =>
          cases resolved
          exact .inr ⟨between, looked, looked', rfl, rfl⟩
      | none => exact absurd resolved (Fails.ne_ok _ _ _)

theorem resolveCall_calls {name' : Symbol} {args' : Args}
    (resolved : resolveCall receiver name args machine = .ok (found, name', args') next) :
    IsCalledWith name args name' args' := by
  obtain ⟨_, -, ⟨-, rfl, rfl⟩ | ⟨_, -, -, rfl, rfl⟩⟩ := resolveCall_cases resolved
  · exact .inl ⟨rfl, rfl⟩
  · exact .inr ⟨rfl, rfl⟩

/-- A failure is the same whatever was to be returned. -/
theorem raiseUndefinedCall_bind {α β : Type} (receiver : Value) (name : Symbol) (rest : α → VM β) :
    raiseUndefinedCall receiver name >>= rest = raiseUndefinedCall receiver name := by
  simp only [raiseUndefinedCall, raiseNoMethod, bind_assoc]
  rfl

/-- An instruction fails to find a method as a call by name does. -/
theorem dispatch_of_unresolved {failure : Failure} {site : CallSite}
    (isSlot : Query.slot site.receiverAt machine = .ok receiver)
    (failed : resolveCall receiver name args machine = .error failure next) (engine : Engine) :
    dispatch engine site name machine = .error failure next := by
  refine (bind_of_ok (liftM_of_ok isSlot)).trans ?_
  unfold resolveCall at failed
  cases isClass : Query.classOf receiver machine with
  | error breach =>
      rw [bind_of_error (liftM_of_error isClass)] at failed
      cases failed
      exact bind_of_error (liftM_of_error isClass)
  | ok handle =>
      rw [bind_of_ok (liftM_of_ok isClass)] at failed
      refine (bind_of_ok (liftM_of_ok isClass)).trans ?_
      cases looked : findMethod handle name machine with
      | error failure between =>
          rw [bind_of_error looked] at failed
          cases failed
          exact bind_of_error looked
      | ok found? between =>
          rw [bind_of_ok looked] at failed
          refine (bind_of_ok looked).trans ?_
          cases found? with
          | some found => exact nomatch failed
          | none =>
              dsimp only at failed ⊢
              cases looked' : findMethod handle .methodMissing between with
              | error failure last =>
                  rw [bind_of_error looked'] at failed
                  cases failed
                  exact bind_of_error looked'
              | ok missing? last =>
                  rw [bind_of_ok looked'] at failed
                  refine (bind_of_ok looked').trans ?_
                  cases missing? with
                  | some found => exact nomatch failed
                  | none =>
                      change raiseUndefinedCall receiver name last = _ at failed
                      change raiseUndefinedCall receiver name last = _
                      rw [← raiseUndefinedCall_bind receiver name fun _ => pure none]
                      exact bind_of_error failed

/-- What leaves register stacks alone goes on with the same one. -/
theorem running_of_quiet {α : Type} {action : VM α} [quiet : Quiet action] {value : α}
    (running : machine.context? machine.current = some context)
    (succeeded : action machine = .ok value next) :
    next.context? next.current = some context := by
  have keeps : machine.KeepsFibers (action.after machine) := quiet.quietFrom machine
  rw [after_of_ok succeeded] at keeps
  rw [keeps.current, Machine.context?, keeps.contexts]
  exact running

/-- Once an action that finds methods has succeeded, a call site holds what it held. -/
theorem holds_of_ok {α : Type} {action : VM α} [quiet : Quiet action] [only : OnlyClasses action]
    {value : α} (linked : machine.Linked tidy)
    (running : machine.context? machine.current = some context)
    (holds : site.Holds machine.heap context args) (succeeded : action machine = .ok value next) :
    next.Linked tidy ∧ next.context? next.current = some context ∧
      site.Holds next.heap context args := by
  refine ⟨linked_of_ok linked succeeded, running_of_quiet running succeeded, ?_⟩
  exact holds.withBlock (only.keeps machine value next succeeded).keepsObjects (fun _ _ _ => rfl)
    holds.block

/-- What does the same as another call hands over the same. -/
theorem Delivers.congr {α : Type} {call call' : Engine → VM α} {waits : VM Value → VM α}
    {runs : Engine → VM α} (same : ∀ engine, call engine machine = call' engine next)
    (delivers : Delivers call' waits runs next name receiver args found) :
    Delivers call waits runs machine name receiver args found := by
  cases delivers with
  | native entered calls => exact .native entered fun engine => (same engine).trans (calls engine)
  | proc entered frame calls isMethod isOwner begins kept =>
      exact .proc entered frame (fun engine => (same engine).trans (calls engine)) isMethod isOwner
        begins kept

theorem canEnter_of_prepares {method : Method} {context context' : Context} {first : Nat}
    (enters : machine.CanEnter method) (running : machine.context? machine.current = some context)
    (prepares : machine.Prepares first context next context') : next.CanEnter method where
  room := by
    have sameConfig : next.config = machine.config := by rw [prepares.rest]
    have room := enters.room
    rw [Machine.frames_of_context? running] at room
    rwa [Machine.frames_of_context? prepares.running, prepares.frames, sameConfig]
  isDefined := enters.isDefined
  holdsProc proc isProc := (enters.holdsProc proc isProc).mono prepares.objects.keepsObjects

/-- Dispatching a call finds the method that a call by name finds, and hands over the same
arguments. -/
theorem dispatch_delivers (linked : machine.Linked tidy)
    (running : machine.context? machine.current = some context)
    (holds : site.Holds machine.heap context args)
    (isReceiver : context.slot site.receiverAt = receiver) {name' : Symbol} {args' : Args}
    (resolved : resolveCall receiver name args machine = .ok (found, name', args') next)
    (enters : next.CanEnter found.method) :
    Delivers (fun engine => dispatch engine site name) (· >>= leaveNative site.receiverAt)
      (fun _ => pure none) machine name' receiver args' found := by
  have isSlot := (CallSite.slot_of_running running site.receiverAt).trans (congrArg _ isReceiver)
  obtain ⟨handle, isClass, ⟨looked, rfl, rfl⟩ | ⟨between, looked, looked', rfl, rfl⟩⟩ :=
    resolveCall_cases resolved
  · obtain ⟨linked', running', holds'⟩ := holds_of_ok linked running holds looked
    refine .congr (fun engine => ?_)
      (callMethod_delivers _ linked' running' holds' isReceiver enters)
    refine (bind_of_ok (liftM_of_ok isSlot)).trans ?_
    exact (bind_of_ok (liftM_of_ok isClass)).trans (bind_of_ok looked)
  · obtain ⟨linked₁, running₁, holds₁⟩ := holds_of_ok linked running holds looked
    obtain ⟨linked₂, running₂, holds₂⟩ := holds_of_ok linked₁ running₁ holds₁ looked'
    obtain ⟨packed, last, context', packs, prepares, sameReceiver, packedHolds⟩ :=
      packForMissing_prepares running₂ linked₂.wellFormed holds₂ name
    have isReceiver' : context'.slot packed.receiverAt = receiver := by
      rw [sameReceiver, prepares.slots _ (Nat.lt_succ_self _), isReceiver]
    rw [← sameReceiver]
    refine .congr (fun engine => ?_) (callMethod_delivers _ (linked_of_ok linked₂ packs)
      prepares.running packedHolds isReceiver' (canEnter_of_prepares enters running₂ prepares))
    refine (bind_of_ok (liftM_of_ok isSlot)).trans ?_
    refine (bind_of_ok (liftM_of_ok isClass)).trans ((bind_of_ok looked).trans ?_)
    exact (bind_of_ok looked').trans (bind_of_ok packs)

/-! ### Calls by name -/

/-- One more level can be entered, so nothing is raised before the action. -/
theorem attempt_nested_bind {α β : Type} (room : HasRoom machine) (action : VM α)
    (rest : Except Failure α → VM β) :
    (attempt (nested action) >>= rest) machine = (attempt (deepen action) >>= rest) machine := by
  have same : nested action machine = deepen action machine :=
    bind_of_ok (checkNativeDepth_of_room room)
  show EStateM.bind _ _ _ = EStateM.bind _ _ _
  rw [EStateM.bind, EStateM.bind, attempt, attempt, same]

theorem distinct_of_ok {α : Type} {action : VM α} [only : OnlyClasses action] {value : α}
    {keywords : List (Value × Value)} (distinct : machine.Distinct keywords)
    (succeeded : action machine = .ok value next) : next.Distinct keywords := by
  rwa [Machine.Distinct, (only.keeps machine value next succeeded).digest_eq]

theorem callNativeBody_delivers (linked : machine.Linked tidy)
    (running : machine.context? machine.current = some context) (room : HasRoom machine)
    {body : NativeMethod} {owner : Handle} (enters : machine.CanEnter (.native body)) :
    Delivers (fun engine => callNativeBody engine receiver body owner name args)
      (fun run => attempt (deepen run) >>= finishNative machine.frames.length)
      (fun engine => attempt (deepen (engine.loop machine.frames.length)) >>= finishCall)
      machine name receiver args ⟨.native body, owner⟩ := by
  have depth := enters.room
  rw [Machine.frames_of_context? running, Array.length_toList] at depth
  let site : CallSite := { receiverAt := context.stackTop }
  obtain ⟨received, stored, -, stores⟩ :=
    setSlot_prepares running linked.wellFormed site.receiverAt receiver
  obtain ⟨next, stored', -, stores'⟩ :=
    setSlot_prepares stores.running stores.wellFormed site.blockAt args.block
  have prepares := stores.trans stores' (Nat.le_of_lt site.receiverAt_lt_blockAt)
  have isDepth : Query.depth next = .ok machine.frames.length := by
    rw [Query.depth, Query.bind_of_ok (context_eq_ok_iff.mpr prepares.running), prepares.frames,
      Machine.frames_of_context? running, Array.length_toList]
    rfl
  let entered := (pushNativeFrame site owner name args.block).after next
  have pushed : pushNativeFrame site owner name args.block next = .ok () entered := by
    have read := liftM_of_ok (context_eq_ok_iff.mpr prepares.running)
    dsimp only [entered]
    rw [after, pushNativeFrame, bind_of_ok read]
    rfl
  have rest : entered = { next with contexts := entered.contexts } := by
    dsimp only [entered]
    rw [after, pushNativeFrame,
      bind_of_ok (liftM_of_ok (context_eq_ok_iff.mpr prepares.running))]
    rfl
  have room' : HasRoom entered := by
    rw [HasRoom, rest, prepares.rest]
    exact room
  refine .native entered fun engine => ?_
  rw [callNativeBody, bind_of_ok (liftM_of_ok (context_eq_ok_iff.mpr running))]
  refine (bind_of_ok (checkDepth_of_room running depth)).trans ?_
  refine (bind_of_ok stored).trans ((bind_of_ok stored').trans ?_)
  refine (bind_of_ok (liftM_of_ok isDepth)).trans ((bind_of_ok pushed).trans ?_)
  exact attempt_nested_bind room' _ (finishNative machine.frames.length)

theorem callProcBody_delivers (linked : machine.Linked tidy)
    (running : machine.context? machine.current = some context)
    (distinct : machine.Distinct args.keywords) (room : HasRoom machine) {proc owner : Handle}
    (enters : machine.CanEnter (.proc proc)) :
    Delivers (fun engine => callProcBody engine receiver proc owner name args)
      (fun run => attempt (deepen run) >>= finishNative machine.frames.length)
      (fun engine => attempt (deepen (engine.loop machine.frames.length)) >>= finishCall)
      machine name receiver args ⟨.proc proc, owner⟩ := by
  have depth := enters.room
  obtain ⟨site, laid, context', lays, prepares, isSite, isReceiver, holds⟩ :=
    layOutArgs_prepares running linked.wellFormed receiver distinct context.stackTop
  have enters' := canEnter_of_prepares enters running prepares
  have depth' := enters'.room
  rw [Machine.frames_of_context? prepares.running, Array.length_toList] at depth'
  have isDepth : Query.depth laid = .ok machine.frames.length := by
    rw [Query.depth, Query.bind_of_ok (context_eq_ok_iff.mpr prepares.running), prepares.frames,
      Machine.frames_of_context? running, Array.length_toList]
    rfl
  obtain ⟨entered, context'', frame, pushed, rest, stands, isMethod, isOwner⟩ :=
    pushProcFrame_stands prepares.running holds (isSite ▸ isReceiver) depth'
      (enters'.holdsProc proc rfl) true owner name
  have linked' : entered.Linked tidy := linked_of_ok (linked_of_ok linked lays) pushed
  have room' : HasRoom entered := by
    rw [HasRoom, rest, prepares.rest]
    exact room
  refine .proc entered frame (fun engine => ?_) isMethod isOwner stands.begins
    (begins_nextCycle linked' stands)
  rw [callProcBody, bind_of_ok (liftM_of_ok (context_eq_ok_iff.mpr running))]
  refine (bind_of_ok lays).trans ((bind_of_ok (liftM_of_ok isDepth)).trans ?_)
  exact (bind_of_ok pushed).trans (attempt_nested_bind room' _ finishCall)

/-! ### Every route -/

/-- A call finds the method that a look-up in a prepared machine finds, and hands over the receiver
and the arguments; if there is no method, it fails as the look-up does. -/
def HandsOver {α : Type} (lookUp : VM (FoundMethod × Symbol × Args)) (call : Engine → VM α)
    (waits : VM Value → VM α) (runs : Engine → VM α) (machine prepared : Machine) (receiver : Value)
    (name : Symbol) (args : Args) : Prop :=
  (∀ failure next, lookUp prepared = .error failure next →
    ∀ engine, call engine machine = .error failure next) ∧
  ∀ found name' args' resolved, lookUp prepared = .ok (found, name', args') resolved →
    IsCalledWith name args name' args' ∧
      (resolved.CanEnter found.method →
        Delivers call waits runs machine name' receiver args' found)

theorem send_handsOver {base register operand : Nat} {withBlock : Bool} (name : Symbol)
    (linked : machine.Linked tidy) (running : machine.context? machine.current = some context)
    (offers : machine.Offers context (base + register) operand withBlock args)
    (isReceiver : context.slot (base + register) = receiver) :
    ∃ prepared context', machine.Prepares (base + register + 1) context prepared context' ∧
      HandsOver (resolveCall receiver name args)
        (fun engine => send engine base register name operand withBlock)
        (· >>= leaveNative (base + register)) (fun _ => pure none) machine prepared receiver name
        args := by
  obtain ⟨site, prepared, context', normalizes, prepares, isSite, holds⟩ :=
    normalizeArgs_prepares running linked.wellFormed offers
  have isReceiver' : context'.slot site.receiverAt = receiver := by
    rw [isSite, prepares.slots _ (Nat.lt_succ_self _), isReceiver]
  have isSlot := (CallSite.slot_of_running prepares.running site.receiverAt).trans
    (congrArg _ isReceiver')
  have sent (engine : Engine) : send engine base register name operand withBlock machine =
      dispatch engine site name prepared := bind_of_ok normalizes
  refine ⟨prepared, context', prepares, ?_, ?_⟩
  · intro failure next failed engine
    exact (sent engine).trans (dispatch_of_unresolved isSlot failed engine)
  · intro found name' args' resolved isResolved
    refine ⟨resolveCall_calls isResolved, fun enters => ?_⟩
    have delivers := dispatch_delivers (linked_of_ok linked normalizes) prepares.running holds
      isReceiver' isResolved enters
    rw [isSite] at delivers
    exact delivers.congr sent

/-- `self` is stored in the register of the receiver first. -/
theorem sendSelf_handsOver {base register operand : Nat} {withBlock : Bool}
    (linked : machine.Linked tidy) (running : machine.context? machine.current = some context)
    (offers : machine.Offers context (base + register) operand withBlock args)
    (isSelf : context.slot base = receiver) :
    ∃ prepared context', machine.Prepares (base + register) context prepared context' ∧
      HandsOver (resolveCall receiver name args)
        (fun engine => sendSelf engine base register name operand withBlock)
        (· >>= leaveNative (base + register)) (fun _ => pure none) machine prepared receiver name
        args := by
  obtain ⟨received, stored, sameHeap, stores⟩ :=
    setSlot_prepares running linked.wellFormed (base + register) receiver
  have offers' := offers.of_same stores.objects.keepsObjects (Machine.digest_of_heap sameHeap)
    fun index behind => Context.slot_setSlot_of_ne context receiver (Nat.ne_of_gt behind)
  obtain ⟨prepared, context', prepares, failed, delivers⟩ :=
    send_handsOver name (linked_of_ok linked stored) stores.running offers'
      (Context.slot_setSlot _ _ _)
  have isSlot := (CallSite.slot_of_running running base).trans (congrArg _ isSelf)
  have sent (engine : Engine) : sendSelf engine base register name operand withBlock machine =
      send engine base register name operand withBlock received :=
    (bind_of_ok (liftM_of_ok isSlot)).trans (bind_of_ok stored)
  refine ⟨prepared, context', stores.trans prepares (Nat.le_succ _), ?_, ?_⟩
  · intro failure next isFailure engine
    exact (sent engine).trans (failed failure next isFailure engine)
  · intro found name' args' resolved isResolved
    obtain ⟨isCalledWith, enters⟩ := delivers found name' args' resolved isResolved
    exact ⟨isCalledWith, fun canEnter => (enters canEnter).congr sent⟩

theorem raise_bind {α β : Type} (core : CoreClass) (message : String) (rest : α → VM β) :
    raise core message >>= rest = raise core message := by
  simp only [raise, bind_assoc]
  rfl

theorem raiseNoMethod_bind {α β : Type} (message : String) (receiver : Value) (name : Symbol)
    (rest : α → VM β) :
    raiseNoMethod message receiver name >>= rest = raiseNoMethod message receiver name := by
  simp only [raiseNoMethod, bind_assoc]
  rfl

/-- The method is looked up before the arguments are brought into form. -/
theorem callSuper_eq {base : Nat} {frame : Frame} {owner : Handle} (engine : Engine)
    (register operand : Nat) (args : Args) (isFrame : Query.frame machine = .ok frame)
    (isMethod : frame.method = some name) (isOwner : frame.owner = some owner)
    (isSelf : Query.register base 0 machine = .ok receiver) :
    callSuper engine base register operand machine =
      (resolveSuper receiver owner name args >>= fun (found, name, _) => do
        setRegister base register receiver
        let site ← normalizeArgs (base + register) operand true
        callMethod engine site found name) machine := by
  rw [callSuper, bind_of_ok (liftM_of_ok isFrame), isMethod, isOwner]
  dsimp only
  rw [bind_of_ok (liftM_of_ok isSelf), resolveSuper, bind_assoc]
  cases isClass : Query.classOf receiver machine with
  | error breach =>
      rw [bind_of_error (liftM_of_error isClass), bind_of_error (liftM_of_error isClass)]
  | ok handle =>
      rw [bind_of_ok (liftM_of_ok isClass), bind_of_ok (liftM_of_ok isClass), bind_assoc]
      cases looked : findSuperMethod handle owner name machine with
      | error failure next => rw [bind_of_error looked, bind_of_error looked]
      | ok found next =>
          rw [bind_of_ok looked, bind_of_ok looked]
          cases found with
          | found found => rfl
          | unrelated =>
              dsimp only
              rw [raise_bind]
          | missing =>
              dsimp only
              rw [bind_assoc]
              simp only [raiseNoMethod_bind]

theorem resolveSuper_eq_ok {owner : Handle} {name' : Symbol} {args' : Args}
    (resolved : resolveSuper receiver owner name args machine = .ok (found, name', args') next) :
    ∃ handle, Query.classOf receiver machine = .ok handle ∧
      findSuperMethod handle owner name machine = .ok (.found found) next ∧ name' = name ∧
      args' = args := by
  unfold resolveSuper at resolved
  obtain ⟨handle, _, read, resolved⟩ := bind_eq_ok_iff.mp resolved
  obtain ⟨isClass, rfl⟩ := liftM_eq_ok_iff.mp read
  obtain ⟨result, last, looked, resolved⟩ := bind_eq_ok_iff.mp resolved
  cases result with
  | found found =>
      cases resolved
      exact ⟨handle, isClass, looked, rfl, rfl⟩
  | unrelated => exact absurd resolved raise_ne_ok
  | missing =>
      obtain ⟨_, _, -, raised⟩ := bind_eq_ok_iff.mp resolved
      exact absurd raised (Fails.ne_ok _ _ _)

theorem callSuper_handsOver {base register operand : Nat} {frame : Frame} {owner : Handle}
    (linked : machine.Linked tidy) (running : machine.context? machine.current = some context)
    (offers : machine.Offers context (base + register) operand true args)
    (isSelf : context.slot base = receiver) (onTop : context.frames.back? = some frame)
    (isMethod : frame.method = some name) (isOwner : frame.owner = some owner) :
    HandsOver (resolveSuper receiver owner name args)
      (fun engine => callSuper engine base register operand)
      (· >>= leaveNative (base + register)) (fun _ => pure none) machine machine receiver name
      args := by
  have isFrame : Query.frame machine = .ok frame := by
    rw [Query.frame, Query.bind_of_ok (context_eq_ok_iff.mpr running), onTop]
    rfl
  have isSlot := (CallSite.slot_of_running running base).trans (congrArg _ isSelf)
  have calls (engine : Engine) :=
    callSuper_eq engine register operand args isFrame isMethod isOwner isSlot
  refine ⟨fun failure next failed engine => (calls engine).trans (bind_of_error failed), ?_⟩
  intro found name' args' resolved isResolved
  obtain ⟨handle, -, looked, rfl, rfl⟩ := resolveSuper_eq_ok isResolved
  refine ⟨.inl ⟨rfl, rfl⟩, fun enters => ?_⟩
  have same := OnlyClasses.keeps _ _ _ looked
  have running' := running_of_quiet running looked
  have linked' := linked_of_ok linked looked
  obtain ⟨received, stored, sameHeap, stores⟩ :=
    setSlot_prepares running' linked'.wellFormed (base + register) receiver
  have offers' := offers.of_same (same.keepsObjects.trans stores.objects.keepsObjects)
    ((Machine.digest_of_heap sameHeap).trans same.digest_eq)
    fun index behind => Context.slot_setSlot_of_ne context receiver (Nat.ne_of_gt behind)
  obtain ⟨site, prepared, context', normalizes, prepares, isSite, holds⟩ :=
    normalizeArgs_prepares stores.running stores.wellFormed offers'
  have isReceiver : context'.slot site.receiverAt = receiver := by
    rw [isSite, prepares.slots _ (Nat.lt_succ_self _), Context.slot_setSlot]
  have delivers := callMethod_delivers name'
    (linked_of_ok (linked_of_ok linked' stored) normalizes) prepares.running holds isReceiver
    (canEnter_of_prepares enters running' (stores.trans prepares (Nat.le_succ _)))
  rw [isSite] at delivers
  refine delivers.congr fun engine => ?_
  refine (calls engine).trans ((bind_of_ok isResolved).trans ?_)
  exact (bind_of_ok stored).trans (bind_of_ok normalizes)

theorem callWithArgs_handsOver (linked : machine.Linked tidy)
    (running : machine.context? machine.current = some context)
    (distinct : machine.Distinct args.keywords) (room : HasRoom machine) :
    HandsOver (resolveCall receiver name args)
      (fun engine => callWithArgs engine receiver name args)
      (fun run => attempt (deepen run) >>= finishNative machine.frames.length)
      (fun engine => attempt (deepen (engine.loop machine.frames.length)) >>= finishCall)
      machine machine receiver name args := by
  have checked := checkNativeDepth_of_room room
  refine ⟨?_, ?_⟩
  · intro failure next failed engine
    exact (bind_of_ok checked).trans (bind_of_error failed)
  · intro found name' args' resolved isResolved
    have calls := resolveCall_calls isResolved
    refine ⟨calls, fun enters => ?_⟩
    have keeps : machine.KeepsFibers ((resolveCall receiver name args).after machine) :=
      Quiet.quietFrom machine
    rw [after_of_ok isResolved] at keeps
    have running' := running_of_quiet running isResolved
    have room' : HasRoom resolved := by
      rw [HasRoom, keeps.nativeDepth, keeps.config]
      exact room
    have sameDepth : resolved.frames.length = machine.frames.length := by
      rw [Machine.frames_of_context? running', Machine.frames_of_context? running]
    have linked' := linked_of_ok linked isResolved
    have distinct' : resolved.Distinct args'.keywords := by
      have sameKeywords : args'.keywords = args.keywords := by
        rcases calls with ⟨-, rfl⟩ | ⟨-, rfl⟩ <;> rfl
      rw [sameKeywords]
      exact distinct_of_ok distinct isResolved
    obtain ⟨method, owner⟩ := found
    rw [← sameDepth]
    cases method with
    | native body =>
        exact (callNativeBody_delivers linked' running' room' enters).congr fun _ =>
          (bind_of_ok checked).trans (bind_of_ok isResolved)
    | proc proc =>
        exact (callProcBody_delivers linked' running' distinct' room' enters).congr fun _ =>
          (bind_of_ok checked).trans (bind_of_ok isResolved)
    | undefined => exact absurd rfl enters.isDefined

/-- However a method is called by name, it is the one that a look-up finds, or `method_missing` in
its place, and it receives the receiver and the arguments of the call. -/
theorem CallsByName.arguments_arrive {α : Type} {lookUp : VM (FoundMethod × Symbol × Args)}
    {call : Engine → VM α} {waits : VM Value → VM α} {runs : Engine → VM α}
    (linked : machine.Linked tidy)
    (running : machine.context? machine.current = some context)
    (calls : CallsByName machine context receiver name args lookUp call waits runs) :
    ∃ prepared context' first, machine.Prepares first context prepared context' ∧
      HandsOver lookUp call waits runs machine prepared receiver name args := by
  cases calls with
  | send offers isReceiver =>
      obtain ⟨prepared, context', prepares, handsOver⟩ :=
        send_handsOver _ linked running offers isReceiver
      exact ⟨prepared, context', _, prepares, handsOver⟩
  | sendSelf offers isSelf =>
      obtain ⟨prepared, context', prepares, handsOver⟩ :=
        sendSelf_handsOver linked running offers isSelf
      exact ⟨prepared, context', _, prepares, handsOver⟩
  | callSuper offers isSelf onTop isMethod isOwner =>
      exact ⟨machine, context, 0, .refl running linked.wellFormed 0,
        callSuper_handsOver linked running offers isSelf onTop isMethod isOwner⟩
  | host distinct room =>
      exact ⟨machine, context, 0, .refl running linked.wellFormed 0,
        callWithArgs_handsOver linked running distinct room⟩

end VM

/-! ### A call of a missing method -/

namespace Missing

/-- The class of nil, whose only method takes the calls of missing ones. -/
def nilClass : Object where
  classHandle := .null
  content := .classOrModule
    { kind := .ordinary, superclass := none, instances := .special
      methods := ⟨[(.methodMissing, .proc ⟨2, 1⟩)]⟩
      ancestors := some ⟨0, [⟨1, 1⟩]⟩ }

def body : Object where
  classHandle := .null
  content := .proc
    { unit :=
        { localCount := 3, registerCount := 6, code := #[], handlers := [], pool := #[]
          symbols := #[], children := [] }
      upper := none, env := none, targetClass := .null, strict := true }

def idle : Machine :=
  { Machine.empty {} with
    heap := (((Heap.new {}).allocate nilClass).1.allocate body).1
    coreClasses := ⟨[(.nil, ⟨1, 1⟩)]⟩ }

/-- A machine with a receiver, a positional argument and a keyword in registers 1 to 4. -/
def machine : Machine :=
  (VM.setSlots 1 [.nil, .int 5, .symbol ⟨300⟩, .int 7]).after idle

def args : Args := { positional := [.int 5], keywords := [(.symbol ⟨300⟩, .int 7)] }

theorem linked : machine.Linked True := by
  have wellFormed : (Heap.new {}).WellFormed := Heap.wellFormed_new {}
  have withClass : (Heap.new {}).KeepsFibers ((Heap.new {}).allocate nilClass).1 :=
    .allocate wellFormed rfl (Object.not_captures rfl)
  have withBody : ((Heap.new {}).allocate nilClass).1.KeepsFibers idle.heap :=
    .allocate withClass.wellFormed rfl (@Object.not_captures body rfl)
  have keeps : (Machine.empty {}).KeepsFibers idle :=
    ⟨rfl, rfl, rfl, rfl, rfl, rfl, rfl, rfl, fun _ => withClass.trans withBody⟩
  have isEmpty : (Machine.empty {}).Linked True := Machine.linked_empty {}
  have isLinked := (Machine.KeepsOthers.of_keepsFibers wellFormed keeps).linked isEmpty
  have carries : VM.CarriesFrom True idle
    (VM.setSlots 1 [.nil, .int 5, .symbol ⟨300⟩, .int 7]) := .of_carries isLinked
  exact carries.linked

def context : Context :=
  { stack := #[.nil, .nil, .int 5, .symbol ⟨300⟩, .int 7] }

theorem running : machine.context? machine.current = some context := rfl

theorem offers : machine.Offers context (0 + 1) 17 true args where
  positional := rfl
  keywords := ⟨rfl, by simp [Machine.Distinct, args]⟩
  block := rfl
  isBlock := .inl rfl

section LookUp

variable {prepared : Machine} (found : prepared.heap.get? ⟨1, 1⟩ = some nilClass)
  (sameCache : prepared.methodCache = {})

def record : ClassRecord :=
  { kind := .ordinary, superclass := none, instances := .special
    methods := ⟨[(.methodMissing, .proc ⟨2, 1⟩)]⟩
    ancestors := some ⟨0, [⟨1, 1⟩]⟩ }

include found

theorem isRecord : Query.classRecord ⟨1, 1⟩ prepared = .ok record :=
  Query.classRecord_eq_ok_iff.mpr (by rw [Machine.class?, found]; rfl)

include sameCache

theorem ancestors : VM.ancestors ⟨1, 1⟩ prepared = .ok [⟨1, 1⟩] prepared := by
  have isState : (get : VM Machine) prepared = .ok prepared prepared := rfl
  have listed : record.cachedAncestors? prepared.methodCache.hierarchy = some [⟨1, 1⟩] := by
    rw [sameCache]
    rfl
  show VM.ancestorsWithin (prepared.heap.cells.size + 1) ⟨1, 1⟩ prepared = _
  rw [VM.ancestorsWithin, VM.bind_of_ok isState, VM.bind_of_ok (VM.liftM_of_ok (isRecord found)),
    listed]
  rfl

theorem looksUp (name : Symbol) : VM.findMethod ⟨1, 1⟩ name prepared =
    ((Query.lookupMethod name [⟨1, 1⟩] : VM (Option FoundMethod)) >>= fun found? =>
      match found? with
      | some found => do
        VM.cacheMethod ⟨1, 1⟩ name found
        return some found
      | none => return none) prepared := by
  have uncached : Query.cachedMethod? ⟨1, 1⟩ name prepared = .ok none := by
    rw [Query.cachedMethod?, sameCache, Std.HashMap.getElem?_empty]
  rw [VM.findMethod, VM.bind_of_ok (VM.liftM_of_ok uncached)]
  exact VM.bind_of_ok (ancestors found sameCache)

/-- Whatever was allocated, `method_missing` is found for another name. -/
theorem resolved (isClass : Query.classOf .nil prepared = .ok ⟨1, 1⟩) :
    VM.resolveCall .nil ⟨200⟩ args prepared =
      .ok (⟨.proc ⟨2, 1⟩, ⟨1, 1⟩⟩, .methodMissing, args.prepend (.symbol ⟨200⟩))
        ((VM.cacheMethod ⟨1, 1⟩ .methodMissing ⟨.proc ⟨2, 1⟩, ⟨1, 1⟩⟩).after prepared) := by
  have noEntry : Query.lookupMethod ⟨200⟩ [⟨1, 1⟩] prepared = .ok none := by
    rw [Query.lookupMethod, Query.bind_of_ok (isRecord found)]
    rfl
  have entry : Query.lookupMethod .methodMissing [⟨1, 1⟩] prepared =
      .ok (some ⟨.proc ⟨2, 1⟩, ⟨1, 1⟩⟩) := by
    rw [Query.lookupMethod, Query.bind_of_ok (isRecord found)]
    rfl
  have notFound : VM.findMethod ⟨1, 1⟩ ⟨200⟩ prepared = .ok none prepared :=
    (looksUp found sameCache _).trans (VM.bind_of_ok (VM.liftM_of_ok noEntry))
  have isMissing : VM.findMethod ⟨1, 1⟩ .methodMissing prepared = .ok _ _ :=
    (looksUp found sameCache _).trans (VM.bind_of_ok (VM.liftM_of_ok entry))
  refine (VM.bind_of_ok (VM.liftM_of_ok isClass)).trans ((VM.bind_of_ok notFound).trans ?_)
  exact VM.bind_of_ok isMissing

end LookUp

end Missing

/-- The positional argument and the keyword arrive behind the missing name. -/
theorem VM.CallsByName.arguments_arrive_missing :
    ∃ entered frame,
      (∀ engine, VM.send engine 0 1 ⟨200⟩ 17 true Missing.machine = .ok none entered) ∧
      entered.Begins frame ⟨2, 1⟩ .nil
        { positional := [.symbol ⟨200⟩, .int 5], keywords := [(.symbol ⟨300⟩, .int 7)] } := by
  obtain ⟨prepared, context', first, prepares, -, delivers⟩ :=
    VM.CallsByName.arguments_arrive Missing.linked Missing.running
      (VM.CallsByName.send Missing.offers rfl : VM.CallsByName _ _ _ ⟨200⟩ _ _ _ _ _)
  have sameCache : prepared.methodCache = {} := by
    rw [prepares.rest]
    rfl
  have isClass : Query.classOf .nil prepared = .ok ⟨1, 1⟩ := by
    rw [prepares.rest]
    rfl
  obtain ⟨-, enters⟩ := delivers _ _ _ _
    (Missing.resolved (prepares.objects _ _ rfl) sameCache isClass)
  have noFrames : ((VM.cacheMethod ⟨1, 1⟩ .methodMissing ⟨.proc ⟨2, 1⟩, ⟨1, 1⟩⟩).after
      prepared).frames = [] := by
    have isContext := Machine.frames_of_context? prepares.running
    rw [prepares.frames] at isContext
    exact isContext
  have canEnter : ((VM.cacheMethod ⟨1, 1⟩ .methodMissing ⟨.proc ⟨2, 1⟩, ⟨1, 1⟩⟩).after
      prepared).CanEnter (.proc ⟨2, 1⟩) :=
    { room := by
        rw [noFrames]
        have sameConfig : prepared.config = {} := by
          rw [prepares.rest]
          rfl
        show 0 < prepared.config.maxCallDepth
        rw [sameConfig]
        decide
      isDefined := nofun
      holdsProc := by
        rintro proc ⟨⟩
        exact ⟨⟨2, 1⟩, Missing.body, rfl, prepares.objects _ _ rfl, rfl⟩ }
  cases enters canEnter with
  | proc entered frame calls _ _ begins _ => exact ⟨entered, frame, calls, begins⟩

end RiteVm
