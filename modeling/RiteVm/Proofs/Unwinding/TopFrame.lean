import RiteVm.Proofs.Unwinding.RunningStack

/-!
Contract: what the parts of leaving frames do to the running stack.

Owns:
- what is read of the frame on top;
- changing the frame on top, leaving it, and moving it to a handler;
- recording where an exception was raised and which one it replaces.

Every statement says how the action ends, so that none of these parts can fail while the
machine runs on its stack.
-/

namespace RiteVm

open RiteVm.Bytecode

/-- The stack whose frame on top is changed. -/
def Context.modifyTop (context : Context) (change : Frame → Frame) : Context :=
  { context with frames := context.frames.modify (context.frames.size - 1) change }

/-- The stack without the frame on top. -/
def Context.popTop (context : Context) : Context :=
  { context with frames := context.frames.pop }

namespace Query

variable {machine : Machine} {context : Context} {frame : Frame} {below : List Frame}

theorem bind_of_ok {α β : Type} {query : Query α} {rest : α → Query β} {value : α}
    (read : query machine = .ok value) : (query >>= rest) machine = rest value machine := by
  change (query machine >>= fun value => rest value machine) = _
  rw [read]
  rfl

theorem object_of_found {handle : Handle} {object : Object}
    (found : machine.heap.get? handle = some object) :
    Query.object handle machine = .ok object :=
  object_eq_ok_iff.mpr found

/-- A query for every item of a list succeeds if it succeeds for each. -/
theorem mapM_of_ok {α β : Type} {query : α → Query β} {items : List α}
    (reads : ∀ item ∈ items, ∃ value, query item machine = .ok value) :
    ∃ values, items.mapM query machine = .ok values := by
  induction items with
  | nil => exact ⟨[], rfl⟩
  | cons item rest inductionHypothesis =>
      obtain ⟨value, read⟩ := reads item List.mem_cons_self
      obtain ⟨values, readRest⟩ :=
        inductionHypothesis fun other member => reads other (List.mem_cons_of_mem _ member)
      refine ⟨value :: values, ?_⟩
      rw [List.mapM_cons, bind_of_ok read, bind_of_ok readRest]
      rfl

theorem context_of_running (running : machine.context? machine.current = some context) :
    Query.context machine = .ok context := by
  rw [Query.context, running]

theorem frame_of_running (running : machine.context? machine.current = some context)
    (top : context.activations = frame :: below) : Query.frame machine = .ok frame := by
  rw [Query.frame, bind_of_ok (context_of_running running), Context.back?_of_activations top]
  rfl

theorem context_of_runsOn (runs : machine.RunsOn context) :
    Query.context machine = .ok context := context_of_running runs.running

theorem depth_of_runsOn (runs : machine.RunsOn context) :
    Query.depth machine = .ok context.activations.length := by
  rw [Query.depth, bind_of_ok (context_of_runsOn runs), Context.activations,
    List.length_reverse, Array.length_toList]
  rfl

theorem slot_of_runsOn (runs : machine.RunsOn context) (index : Nat) :
    Query.slot index machine = .ok (context.slot index) := by
  rw [Query.slot, bind_of_ok (context_of_runsOn runs)]
  rfl

theorem register_of_runsOn (runs : machine.RunsOn context) (base register : Nat) :
    Query.register base register machine = .ok (context.slot (base + register)) :=
  slot_of_runsOn runs (base + register)

section Top

variable (runs : machine.RunsOn context) (top : context.activations = frame :: below)

include runs top

theorem frame_of_runsOn : Query.frame machine = .ok frame := frame_of_running runs.running top

theorem coveringEnsure?_of_runsOn :
    coveringEnsure? machine =
      .ok (frame.unit.bind (·.handlerFor? frame.pc (some .ensure))) := by
  rw [coveringEnsure?, bind_of_ok (frame_of_runsOn runs top)]
  rfl

end Top

/-- Where the frames are can be told while their procs are in the heap. -/
theorem backtrace_of_runsOn (runs : machine.RunsOn context) :
    ∃ lines, backtrace machine = .ok lines := by
  rw [backtrace, bind_of_ok (context_of_runsOn runs)]
  apply mapM_of_ok
  intro frame member
  have named : ∃ name?, frame.method.mapM symbolText machine = .ok name? := by
    cases frame.method with
    | none => exact ⟨none, rfl⟩
    | some name => exact ⟨some (machine.symbols.text name), rfl⟩
  obtain ⟨name?, readName⟩ := named
  rw [frameLine, bind_of_ok readName]
  cases frame.unit with
  | none => exact ⟨_, rfl⟩
  | some unit =>
      cases isProc : frame.proc with
      | none => exact ⟨_, rfl⟩
      | some proc =>
          obtain ⟨object, found⟩ := runs.held frame member proc (.inl isProc)
          have read : isStrict proc machine = .ok ((object.proc?.map (·.strict)).getD false) := by
            rw [isStrict, bind_of_ok (object_of_found found)]
            rfl
          have negated : ((! ·) <$> isStrict proc : Query Bool) machine =
              .ok (!(object.proc?.map (·.strict)).getD false) := by
            rw [← bind_pure_comp, bind_of_ok read]
            rfl
          dsimp only
          rw [bind_of_ok negated]
          exact ⟨_, rfl⟩

end Query

namespace Machine

variable {machine next : Machine} {context : Context} {frame : Frame} {below : List Frame}

theorem movesTo_modifyContext (running : machine.context? machine.current = some context)
    (change : Context → Context) :
    machine.MovesTo (machine.modifyContext machine.current change) (change context) :=
  ⟨rfl, .refl _, context?_modifyContext running change⟩

/-- A change of the heap that keeps what is on its way. -/
theorem movesTo_withHeap (running : machine.context? machine.current = some context)
    {heap : Heap} (retains : machine.heap.Retains heap) :
    machine.MovesTo { machine with heap } context :=
  ⟨rfl, retains, running⟩

end Machine

/-- The stack whose frame on top goes on at a handler, with a record pending. -/
def Context.entering (context : Context) (target : Nat) (record : Handle) (kind : CatchKind) :
    Context :=
  { context.modifyTop ({ · with pc := target }) with pending := some { record, kind } }

namespace VM

variable {machine : Machine} {context : Context} {frame : Frame} {below : List Frame}

theorem modifyContext_ok (change : Context → Context) :
    modifyContext change machine =
      .ok () (machine.modifyContext machine.current change) := rfl

theorem modifyFrame_ok (change : Frame → Frame) :
    modifyFrame change machine =
      .ok () (machine.modifyContext machine.current (·.modifyTop change)) := rfl

theorem modifyHeap_ok (change : Heap → Heap) :
    modifyHeap change machine = .ok () { machine with heap := change machine.heap } := rfl

/-- Captured variables are copied out of the registers, whatever they are. -/
theorem detachEnv_of_found {env : Handle} {object : Object}
    (running : machine.context? machine.current = some context)
    (found : machine.heap.get? env = some object) :
    ∃ next, detachEnv env machine = .ok () next ∧ machine.MovesTo next context := by
  have read : (liftM (Query.object env) : VM Object) machine = .ok object machine :=
    liftM_of_ok (Query.object_of_found found)
  rw [detachEnv, bind_of_ok read]
  cases isEnv : object.env? with
  | none => exact ⟨machine, rfl, .refl running⟩
  | some record =>
      have isContent : object.content = .env record := by
        rw [Object.env?] at isEnv
        split at isEnv
        · rename_i isContent
          rw [isContent, Option.some.inj isEnv]
        · exact nomatch isEnv
      have copied (copy : EnvRecord) : machine.heap.Retains
          (machine.heap.modify env fun object => { object with content := .env copy }) := by
        refine .modify _ _ ?_ ?_ ?_
        · intro object' exit found' isExit
          obtain rfl := Option.some.inj (found.symm.trans found')
          exact nomatch isContent.symm.trans isExit
        · intro object' found' isException
          obtain rfl := Option.some.inj (found.symm.trans found')
          rw [Object.exception?, isContent] at isException
          exact nomatch isException
        · intro object' fiber found' isFiber
          exact nomatch isFiber
      have readEnv := Query.envRecord_eq_ok_iff.mpr
        (show (machine.heap.get? env).bind Object.env? = some record by rw [found]; exact isEnv)
      obtain ⟨storage, method, owner⟩ := record
      cases storage with
      | detached values => exact ⟨machine, rfl, .refl running⟩
      | onStack owningContext owningFiber base count =>
          have captured : ∃ values, Query.capturedValues env count machine = .ok values := by
            apply Query.mapM_of_ok
            intro register _
            rw [Query.capturedVar, Query.bind_of_ok readEnv]
            exact ⟨_, rfl⟩
          obtain ⟨values, captured⟩ := captured
          dsimp only
          rw [bind_of_ok (liftM_of_ok captured)]
          exact ⟨_, rfl, Machine.movesTo_withHeap running ((copied _).trans (.of_cells rfl rfl))⟩

section Top

variable (runs : machine.RunsOn context) (top : context.activations = frame :: below)

include runs top

/-- The frame on top is left. -/
theorem popFrame?_of_runsOn : ∃ next, popFrame? machine = .ok (some frame) next ∧
    machine.MovesTo next context.popTop := by
  have popped := Machine.movesTo_modifyContext runs.running Context.popTop
  rw [popFrame?, bind_of_ok (liftM_of_ok (Query.context_of_runsOn runs)),
    Context.back?_of_activations top]
  dsimp only
  rw [bind_of_ok (modifyContext_ok _)]
  cases isEnv : frame.env with
  | none => exact ⟨_, rfl, popped⟩
  | some env =>
      obtain ⟨object, found⟩ := runs.held frame (by simp [top]) env (.inr isEnv)
      obtain ⟨next, detached, moves⟩ := detachEnv_of_found popped.running found
      refine ⟨next, ?_, popped.trans moves⟩
      exact bind_of_ok detached

end Top

/-- A handler is entered with a record pending. -/
theorem enterHandler_of_running (running : machine.context? machine.current = some context)
    (target : Nat) (record : Handle) (kind : CatchKind) :
    ∃ next, enterHandler target record kind machine = .ok () next ∧
      machine.MovesTo next (context.entering target record kind) ∧
      next.heap = machine.heap := by
  have moved := Machine.movesTo_modifyContext running
    fun context => context.modifyTop ({ · with pc := target })
  exact ⟨_, rfl, moved.trans (Machine.movesTo_modifyContext moved.running _), rfl⟩

/-- An ensure clause is entered with a record of the exit. -/
theorem divert_of_runsOn (runs : machine.RunsOn context) (handler : CatchHandler)
    (target : ExitTarget) (value : Value) :
    ∃ next record object, divert handler target value machine = .ok () next ∧
      machine.MovesTo next (context.entering handler.target.toNat record .ensure) ∧
      next.heap.get? record = some object ∧ object.content = .exit { target, value } := by
  have isClass : (liftM (Query.coreClass .object) : VM Handle) machine =
      .ok (machine.coreClass .object) machine := rfl
  rw [divert, bind_of_ok isClass]
  generalize isObject : ({ classHandle := machine.coreClass .object
                           content := .exit { target, value } } : Object) = object
  have isExit : object.content = .exit { target, value } := by rw [← isObject]
  have notFiber (record : FiberRecord) : object.content ≠ .fiber record := by
    rw [isExit]
    exact nofun
  have allocated := Machine.movesTo_withHeap runs.running (.allocate object notFiber)
  have stored : (machine.heap.allocate object).1.get? (machine.heap.allocate object).2 =
      some object := by
    have lookup := runs.wellFormed.get?_place object (machine.heap.place object).2
    rw [if_pos rfl] at lookup
    exact lookup
  obtain ⟨next, enters, moves, sameHeap⟩ := enterHandler_of_running allocated.running
    handler.target.toNat (machine.heap.allocate object).2 .ensure
  refine ⟨next, (machine.heap.allocate object).2, object, enters, allocated.trans moves, ?_, isExit⟩
  rw [sameHeap]
  exact stored

/-! ### Exceptions -/

/-- An exception stays one, whatever becomes known of it. -/
theorem retains_modifyException (heap : Heap) (exception : Handle)
    (change : ExceptionRecord → ExceptionRecord) :
    heap.Retains (heap.modify exception fun object =>
      match object.content with
      | .exception record => { object with content := .exception (change record) }
      | _ => object) := by
  refine .modify _ _ ?_ ?_ ?_
  · intro object record _ isExit
    simp only [isExit]
  · intro object _ isException
    cases isContent : object.content <;> simp_all [Object.exception?]
  · intro object record _ isFiber
    cases isContent : object.content <;> simp_all

theorem linkCause_of_running (running : machine.context? machine.current = some context)
    (exception : Handle) (ensuring : Option Handle) :
    ∃ next, linkCause exception ensuring machine = .ok () next ∧
      machine.MovesTo next context := by
  cases ensuring with
  | none => exact ⟨machine, rfl, .refl running⟩
  | some previous =>
      rw [linkCause]
      by_cases isOther : previous ≠ exception
      · rw [if_pos isOther]
        exact ⟨_, rfl, Machine.movesTo_withHeap running (retains_modifyException _ _ _)⟩
      · rw [if_neg isOther]
        exact ⟨machine, rfl, .refl running⟩

theorem fillBacktrace_of_runsOn (runs : machine.RunsOn context) {exception : Handle}
    {object : Object} (found : machine.heap.get? exception = some object) :
    ∃ next, fillBacktrace exception machine = .ok () next ∧ machine.MovesTo next context := by
  have read : (liftM (Query.object exception) : VM Object) machine = .ok object machine :=
    liftM_of_ok (Query.object_of_found found)
  obtain ⟨lines, readLines⟩ := Query.backtrace_of_runsOn runs
  rw [fillBacktrace, bind_of_ok read]
  cases object.exception? with
  | none => exact ⟨machine, rfl, .refl runs.running⟩
  | some record =>
      obtain ⟨message, cause, backtrace, receiver, name⟩ := record
      cases backtrace with
      | some known => exact ⟨machine, rfl, .refl runs.running⟩
      | none =>
          dsimp only
          rw [bind_of_ok (liftM_of_ok readLines)]
          exact ⟨_, rfl, Machine.movesTo_withHeap runs.running (retains_modifyException _ _ _)⟩

end VM

end RiteVm
