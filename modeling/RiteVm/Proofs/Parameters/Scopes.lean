import RiteVm.Call.Enclosing
import RiteVm.Proofs.Parameters.Entry

/-!
Contract: what code inside a method finds of the method's variables.

Owns:
- environments that have the variables of a scope, in the registers of a live frame or copied
  when the frame was left;
- procs some scopes inside the one of an environment;
- frames that run code on some level inside a scope, and what they read of it;
- that a closure sees the variables of the frame in which it is created, and goes on to see
  them when the frame is left.

Does not own: which of the variables are parameters.
-/

namespace RiteVm

open RiteVm.Bytecode

/-! ### Variables of a scope -/

/-- An environment has some variables of a scope, which are in the registers of a frame or were
copied when it was left. Their base is told if they are on the running stack. -/
inductive Machine.HasVariables (machine : Machine) (size : Nat) (wanted : Nat → Prop)
    (contents : Nat → Value) (env : Handle) (place : Option Nat) : Prop where
  | live {object : Object} {record : EnvRecord} {id : ContextId} {fiber : Option Handle}
      {base : Nat} {context : Context} (found : machine.heap.get? env = some object)
      (isEnv : object.content = .env record) (onStack : record.storage = .onStack id fiber base size)
      (running : machine.context? id = some context)
      (same : ∀ register, wanted register → context.slot (base + register) = contents register)
      (isPlace : place = if id = machine.current then some base else none)
  | left {object : Object} {record : EnvRecord} {values : Array Value}
      (found : machine.heap.get? env = some object) (isEnv : object.content = .env record)
      (detached : record.storage = .detached values)
      (same : ∀ register, wanted register → values.getD register .nil = contents register)
      (isPlace : place = none)

/-- A proc is some scopes inside the one that an environment belongs to. -/
inductive Machine.Encloses (machine : Machine) (env : Handle) : Nat → Handle → Prop where
  | own {proc : Handle} {object : Object} {record : ProcRecord}
      (found : machine.heap.get? proc = some object) (isProc : object.proc? = some record)
      (isEnv : record.env = some env) : Encloses machine env 0 proc
  | outward {proc upper : Handle} {object : Object} {record : ProcRecord} {level : Nat}
      (found : machine.heap.get? proc = some object) (isProc : object.proc? = some record)
      (isUpper : record.upper = some upper) (encloses : Encloses machine env level upper) :
      Encloses machine env (level + 1) proc

/-- The frame on top runs code some scopes inside the one that has the variables: in the frame
with the variables itself, or in a block. -/
inductive Machine.Inside (machine : Machine) (context : Context) (inner : Frame) (size : Nat)
    (wanted : Nat → Prop) (contents : Nat → Value) : Nat → Option Nat → Prop where
  | own (same : ∀ register, wanted register →
      context.slot (inner.base + register) = contents register) :
      Inside machine context inner size wanted contents 0 (some inner.base)
  | block {proc env : Handle} {level : Nat} {place : Option Nat} (isProc : inner.proc = some proc)
      (encloses : machine.Encloses env level proc)
      (has : machine.HasVariables size wanted contents env place) :
      Inside machine context inner size wanted contents (level + 1) place

section Reading

variable {machine : Machine} {context : Context} {inner : Frame} {rest : List Frame} {size : Nat}
  {wanted : Nat → Prop} {contents : Nat → Value} {env : Handle} {place : Option Nat} {level : Nat}

theorem Machine.HasVariables.capturedVar (has : machine.HasVariables size wanted contents env place)
    (covers : ∀ register, wanted register → register < size) {register : Nat}
    (isWanted : wanted register) :
    Query.capturedVar env register machine = .ok (contents register) := by
  have readEnv {object : Object} {record : EnvRecord} (found : machine.heap.get? env = some object)
      (isEnv : object.content = .env record) : Query.envRecord env machine = .ok record := by
    refine Query.envRecord_eq_ok_iff.mpr ?_
    rw [found, Option.bind_some, Object.env?, isEnv]
  cases has with
  | live found isEnv onStack running same =>
      rw [Query.capturedVar, Query.bind_of_ok (readEnv found isEnv), onStack]
      dsimp only
      rw [if_pos (covers register isWanted), running]
      exact congrArg _ (same register isWanted)
  | left found isEnv detached same =>
      rw [Query.capturedVar, Query.bind_of_ok (readEnv found isEnv), detached]
      exact congrArg _ (same register isWanted)

/-- Going outward from a proc leads to one with the environment. -/
theorem Machine.Encloses.enclosingProc {proc : Handle} (encloses : machine.Encloses env level proc) :
    ∃ home object record, Query.enclosingProc level (some proc) machine = .ok (some home) ∧
      machine.heap.get? home = some object ∧ object.proc? = some record ∧ record.env = some env := by
  induction encloses with
  | @own proc object record found isProc isEnv => exact ⟨proc, object, record, rfl, found, isProc, isEnv⟩
  | @outward proc upper object record level found isProc isUpper _ inductionHypothesis =>
      obtain ⟨home, homeObject, homeRecord, isHome, foundHome, isHomeProc, isEnv⟩ := inductionHypothesis
      refine ⟨home, homeObject, homeRecord, ?_, foundHome, isHomeProc, isEnv⟩
      have readUpper : ((some proc).bindM fun proc => do
          return (← Query.object proc).proc?.bind (·.upper) : Query (Option Handle)) machine =
            .ok (some upper) := by
        change (Query.object proc >>= fun object => pure (object.proc?.bind (·.upper))) machine = _
        rw [Query.bind_of_ok (Query.object_of_found found), isProc, Option.bind_some, isUpper]
        rfl
      rw [Query.enclosingProc, Query.bind_of_ok readUpper]
      exact isHome

/-- Code inside a scope reads its variables. -/
theorem VM.outwardArg_of_inside (runs : machine.RunsOn context)
    (top : context.activations = inner :: rest)
    (inside : machine.Inside context inner size wanted contents level place)
    (covers : ∀ register, wanted register → register < size) (index : Nat)
    (isWanted : wanted (1 + index)) :
    outwardArg inner.base level index machine = .ok (contents (1 + index)) machine := by
  cases inside with
  | own same =>
      have read := liftM_of_ok (Query.register_of_runsOn runs inner.base (1 + index))
      rw [same _ isWanted] at read
      exact read
  | @block proc env level place isProc encloses has =>
      obtain ⟨home, object, record, isHome, found, isHomeProc, isEnv⟩ := encloses.enclosingProc
      have isFound : Query.enclosingEnv? level machine = .ok (some env) := by
        rw [Query.enclosingEnv?, Query.bind_of_ok (Query.frame_of_runsOn runs top), isProc,
          Query.bind_of_ok isHome]
        change (Query.object home >>= fun object => pure (object.proc?.bind (·.env))) machine = _
        rw [Query.bind_of_ok (Query.object_of_found found), isHomeProc, Option.bind_some, isEnv]
        rfl
      have reached : enclosingEnv level machine = .ok env machine := by
        rw [enclosingEnv, bind_of_ok (liftM_of_ok isFound)]
        rfl
      rw [outwardArg, bind_of_ok reached]
      exact liftM_of_ok (has.capturedVar covers isWanted)

end Reading

/-! ### What keeps the variables -/

section Keeping

variable {machine next : Machine} {context context' : Context} {inner inner' : Frame}
  {below : List Frame} {first size : Nat} {change : Frame → Frame} {wanted : Nat → Prop}
  {contents : Nat → Value} {env : Handle} {place : Option Nat} {level : Nat}

theorem Machine.Encloses.mono {proc : Handle} (encloses : machine.Encloses env level proc)
    (objects : machine.heap.Extends next.heap) : next.Encloses env level proc := by
  induction encloses with
  | own found isProc isEnv => exact .own (objects _ _ found) isProc isEnv
  | outward found isProc isUpper _ inductionHypothesis =>
      exact .outward (objects _ _ found) isProc isUpper inductionHypothesis

/-- Variables on the running stack are kept with their slots, others with their objects. -/
theorem Machine.HasVariables.fills (has : machine.HasVariables size wanted contents env place)
    (runs : machine.RunsOn context) (fills : machine.Fills first change context next context')
    (apart : ∀ base, place = some base → ∀ register, wanted register →
      context'.slot (base + register) = context.slot (base + register)) :
    next.HasVariables size wanted contents env place := by
  cases has with
  | @live object record id fiber base stack found isEnv onStack running same isPlace =>
      rw [← fills.current] at isPlace
      by_cases isCurrent : id = machine.current
      · subst isCurrent
        obtain rfl := Option.some.inj (running.symm.trans runs.running)
        have isBase : place = some base := by rw [isPlace, if_pos fills.current.symm]
        exact .live (fills.objects _ _ found) isEnv onStack (fills.current ▸ fills.runs.running)
          (fun register isWanted => (apart base isBase register isWanted).trans
            (same register isWanted)) isPlace
      · exact .live (fills.objects _ _ found) isEnv onStack ((fills.others id isCurrent).trans running)
          same isPlace
  | left found isEnv detached same isPlace =>
      exact .left (fills.objects _ _ found) isEnv detached same isPlace

/-- Code stays inside a scope while the slots of the variables are as they are. -/
theorem Machine.Inside.fills (inside : machine.Inside context inner size wanted contents level place)
    (runs : machine.RunsOn context) (fills : machine.Fills first change context next context')
    (sameBase : inner'.base = inner.base) (sameProc : inner'.proc = inner.proc)
    (apart : ∀ base, place = some base → ∀ register, wanted register →
      context'.slot (base + register) = context.slot (base + register)) :
    next.Inside context' inner' size wanted contents level place := by
  cases inside with
  | own same =>
      rw [← sameBase]
      refine .own fun register isWanted => ?_
      rw [sameBase]
      exact (apart _ rfl register isWanted).trans (same register isWanted)
  | block isProc encloses has =>
      exact .block (sameProc.trans isProc) (encloses.mono fills.objects) (has.fills runs fills apart)

theorem Machine.HasVariables.mono (has : machine.HasVariables size wanted contents env place)
    {fewer : Nat → Prop} (more : ∀ register, fewer register → wanted register) :
    machine.HasVariables size fewer contents env place := by
  cases has with
  | live found isEnv onStack running same isPlace =>
      exact .live found isEnv onStack running (fun register isWanted => same register (more register isWanted))
        isPlace
  | left found isEnv detached same isPlace =>
      exact .left found isEnv detached (fun register isWanted => same register (more register isWanted))
        isPlace

/-- Some of the variables are among all of them. -/
theorem Machine.Inside.mono (inside : machine.Inside context inner size wanted contents level place)
    {fewer : Nat → Prop} (more : ∀ register, fewer register → wanted register) :
    machine.Inside context inner size fewer contents level place := by
  cases inside with
  | own same => exact .own fun register isWanted => same register (more register isWanted)
  | block isProc encloses has => exact .block isProc encloses (has.mono more)

end Keeping

/-! ### Closures -/

/-- The environment of a frame, if it has been created, refers to the registers of the frame. -/
def Machine.CapturesOwn (machine : Machine) (frame : Frame) (size : Nat) : Prop :=
  match frame.env with
  | none => (frame.unit.map (·.localCount.toNat)).getD 1 = size
  | some env => ∃ object record fiber, machine.heap.get? env = some object ∧
      object.content = .env record ∧
      record.storage = .onStack machine.current fiber frame.base size

section Creating

variable {machine : Machine} {context : Context} {inner : Frame} {below : List Frame} {size : Nat}
  {wanted : Nat → Prop} {contents : Nat → Value} {env : Handle} {place : Option Nat} {level : Nat}

/-- The environment of the running frame is created when it is first needed, and changes nothing
but the frame. -/
theorem VM.frameEnv_fills (runs : machine.RunsOn context)
    (top : context.activations = inner :: below) (first size : Nat) :
    ∃ env next context', frameEnv machine = .ok env next ∧
      machine.Fills first ({ · with env := some env }) context next context' ∧
      context'.slot = context.slot ∧
      (machine.CapturesOwn inner size → ∃ object record fiber, next.heap.get? env = some object ∧
        object.content = .env record ∧
        record.storage = .onStack machine.current fiber inner.base size) := by
  have read := liftM_of_ok (Query.frame_of_runsOn runs top)
  cases isEnv : inner.env with
  | some env =>
      refine ⟨env, machine, context, ?_, ?_, rfl, fun captures => ?_⟩
      · rw [frameEnv, bind_of_ok read, isEnv]
        rfl
      · refine (Machine.Fills.of_alters runs (.refl none machine) first).congr_change top ?_
        rw [← isEnv]
        rfl
      · rwa [Machine.CapturesOwn, isEnv] at captures
  | none =>
      let count := (inner.unit.map (·.localCount.toNat)).getD 1
      let record : EnvRecord :=
        { storage := .onStack machine.current machine.currentFiber inner.base count
          method := inner.method, owner := inner.owner }
      let object : Object := { classHandle := machine.coreClass .object, content := .env record }
      let env := (machine.heap.allocate object).2
      have found : (machine.allocate object).heap.get? env = some object :=
        (runs.wellFormed.get?_allocate object _).trans (if_pos rfl)
      have allocated : machine.Fills first id context (machine.allocate object) context :=
        .of_alters runs (.allocate runs.wellFormed rfl) first
      let next := (machine.allocate object).modifyContext machine.current
        (Context.modifyTop · ({ · with env := some env }))
      have moves := Machine.movesTo_modifyContext allocated.runs.running
        (Context.modifyTop · ({ · with env := some env }))
      have changedTop : (context.modifyTop ({ · with env := some env })).activations =
          { inner with env := some env } :: below := Context.activations_modify top _
      refine ⟨env, next, context.modifyTop ({ · with env := some env }), ?_, ?_, rfl,
        fun captures => ?_⟩
      · rw [frameEnv, bind_of_ok read, isEnv]
        rfl
      · exact
          { rest := rfl
            runs :=
              { running := moves.running
                wellFormed := allocated.runs.wellFormed
                held := fun frame member handle holds => by
                  rw [changedTop] at member
                  rcases List.mem_cons.mp member with rfl | isBelow
                  · rcases holds with isProc | isNew
                    · exact allocated.runs.held inner (by simp [top]) handle (.inl isProc)
                    · obtain rfl := Option.some.inj isNew
                      exact ⟨object, found⟩
                  · exact allocated.runs.held frame (by simp [top, isBelow]) handle holds
                owned := allocated.runs.owned }
            others := fun other isOther => by
              rw [Machine.context?_of_modifyContext, if_neg isOther.symm]
              rfl
            objects := allocated.objects
            frames := fun _ _ isTop => Context.activations_modify isTop _
            pending := rfl
            slots := fun _ _ => rfl }
      · rw [Machine.CapturesOwn, isEnv] at captures
        exact ⟨object, record, machine.currentFiber, found, rfl, captures ▸ rfl⟩

/-- Code in a closure is one scope further inside, and finds what the code that creates the
closure finds. -/
theorem VM.newClosure_of_inside (runs : machine.RunsOn context)
    (top : context.activations = inner :: below)
    (inside : machine.Inside context inner size wanted contents level place)
    (captures : level = 0 → machine.CapturesOwn inner size) (unit : CodeUnit)
    (targetClass : Handle) (strict : Bool) :
    ∃ proc env next context', newClosure unit targetClass strict machine =
        .ok (.object proc) next ∧
      machine.Fills 0 ({ · with env := (context'.activations.head?.bind (·.env)) }) context next
        context' ∧
      next.Encloses env level proc ∧ next.HasVariables size wanted contents env place := by
  obtain ⟨own, created, context', creates, fills, sameSlots, isOwn⟩ :=
    frameEnv_fills runs top 0 size
  have createdTop := fills.frames _ _ top
  let record : ProcRecord := { unit, upper := inner.proc, env := some own, targetClass, strict }
  let object : Object := { classHandle := created.coreClass .proc, content := .proc record }
  let proc := (created.heap.allocate object).2
  have found : (created.allocate object).heap.get? proc = some object :=
    (fills.runs.wellFormed.get?_allocate object _).trans (if_pos rfl)
  have allocated : created.Fills 0 id context' (created.allocate object) context' :=
    .of_alters fills.runs (.allocate fills.runs.wellFormed rfl) 0
  have both := fills.trans allocated (Nat.le_refl _)
  have made : newClosure unit targetClass strict machine =
      .ok (.object proc) (created.allocate object) := by
    rw [newClosure, bind_of_ok creates,
      bind_of_ok (liftM_of_ok (Query.frame_of_runsOn fills.runs createdTop))]
    rfl
  have changes : machine.Fills 0 ({ · with env := context'.activations.head?.bind (·.env) }) context
      (created.allocate object) context' :=
    both.congr_change top (by rw [createdTop]; rfl)
  cases inside with
  | own same =>
      obtain ⟨envObject, envRecord, fiber, foundEnv, isEnv, onStack⟩ := isOwn (captures rfl)
      refine ⟨proc, own, _, context', made, changes, .own found rfl rfl,
        .live (allocated.objects _ _ foundEnv) isEnv onStack
          (fills.current ▸ allocated.runs.running) (fun register isWanted => ?_) ?_⟩
      · rw [sameSlots]
        exact same register isWanted
      · rw [if_pos both.current.symm]
  | block isProc encloses has =>
      refine ⟨proc, _, _, context', made, changes, .outward found rfl isProc (encloses.mono both.objects),
        has.fills runs both fun base _ register _ => ?_⟩
      rw [sameSlots]

end Creating

/-! ### Leaving the frame -/

section Leaving

variable {machine : Machine} {context : Context} {frame : Frame} {below : List Frame} {size : Nat}
  {wanted : Nat → Prop} {contents : Nat → Value} {env : Handle} {place : Option Nat}

theorem Query.mapM_eq_ok {α β : Type} {query : α → Query β} {value : α → β} {items : List α}
    (reads : ∀ item ∈ items, query item machine = .ok (value item)) :
    items.mapM query machine = .ok (items.map value) := by
  induction items with
  | nil => rfl
  | cons item rest inductionHypothesis =>
      rw [List.mapM_cons, bind_of_ok (reads item List.mem_cons_self),
        bind_of_ok (inductionHypothesis fun other member => reads other (List.mem_cons_of_mem _ member))]
      rfl

/-- An environment that is told to copy the variables has them from then on. -/
theorem VM.detachEnv_of_hasVariables (has : machine.HasVariables size wanted contents env place)
    (covers : ∀ register, wanted register → register < size) :
    ∃ next, detachEnv env machine = .ok () next ∧
      next.HasVariables size wanted contents env none := by
  cases has with
  | @live object record id fiber base stack found isEnv onStack running same isPlace =>
      have isRecord : object.env? = some record := by rw [Object.env?, isEnv]
      have readEnv : Query.envRecord env machine = .ok record := by
        refine Query.envRecord_eq_ok_iff.mpr ?_
        rw [found, Option.bind_some, isRecord]
      have captured : Query.capturedValues env size machine =
          .ok ((List.range size).map fun register => stack.slot (base + register)) := by
        refine Query.mapM_eq_ok fun register member => ?_
        rw [Query.capturedVar, Query.bind_of_ok readEnv, onStack]
        dsimp only
        rw [if_pos (List.mem_range.mp member), running]
        rfl
      obtain ⟨storage, method, owner⟩ := record
      obtain rfl : storage = .onStack id fiber base size := onStack
      let values := (List.range size).map fun register => stack.slot (base + register)
      let copy : EnvRecord := { storage := .detached values.toArray, method, owner }
      have foundCopy : (machine.rewrite env ({ · with content := .env copy })).heap.get? env =
          some { object with content := .env copy } := by
        rw [Machine.get?_rewrite, if_pos rfl, found]
        rfl
      refine ⟨{ machine.rewrite env ({ · with content := .env copy }) with
        heap := (machine.rewrite env ({ · with content := .env copy })).heap.grow (size * 16) }, ?_,
        .left foundCopy rfl rfl (fun register isWanted => ?_) rfl⟩
      · rw [detachEnv, bind_of_ok (liftM_of_ok (Query.object_of_found found)), isRecord]
        dsimp only
        rw [bind_of_ok (liftM_of_ok captured)]
        rfl
      · rw [← same register isWanted]
        simp [values, Array.getD_eq_getD_getElem?, covers register isWanted]
  | @left object record values found isEnv detached same isPlace =>
      refine ⟨machine, ?_, .left found isEnv detached same rfl⟩
      obtain ⟨storage, method, owner⟩ := record
      obtain rfl : storage = .detached values := detached
      have isRecord : object.env? = some { storage := .detached values, method, owner } := by
        rw [Object.env?, isEnv]
      rw [detachEnv, bind_of_ok (liftM_of_ok (Query.object_of_found found)), isRecord]
      rfl

/-- Leaving a frame whose variables are captured leaves them in the environment. -/
theorem VM.popFrame?_of_hasVariables (runs : machine.RunsOn context)
    (top : context.activations = frame :: below) (isEnv : frame.env = some env)
    (has : machine.HasVariables size wanted contents env place)
    (covers : ∀ register, wanted register → register < size) :
    ∃ next, popFrame? machine = .ok (some frame) next ∧
      next.HasVariables size wanted contents env none := by
  let popped := machine.modifyContext machine.current
    fun context => { context with frames := context.frames.pop }
  have hasThen : popped.HasVariables size wanted contents env place := by
    cases has with
    | @live object record id fiber base stack found isEnv onStack running same isPlace =>
        have running' : popped.context? id = some (if id = machine.current then
            { stack with frames := stack.frames.pop } else stack) := by
          rw [Machine.context?_of_modifyContext]
          split <;> rename_i isCurrent
          · subst isCurrent
            rw [running, if_pos rfl]
            rfl
          · rw [running, if_neg (Ne.symm isCurrent)]
        refine .live found isEnv onStack running' (fun register isWanted => ?_) isPlace
        rw [← same register isWanted]
        split <;> rfl
    | left found isEnv detached same isPlace => exact .left found isEnv detached same isPlace
  obtain ⟨next, detaches, hasNext⟩ := detachEnv_of_hasVariables hasThen covers
  refine ⟨next, ?_, hasNext⟩
  rw [popFrame?, bind_of_ok (liftM_of_ok (Query.context_of_runsOn runs)),
    Context.back?_of_activations top]
  dsimp only
  rw [bind_of_ok (modifyContext_ok _), isEnv]
  exact bind_of_ok detaches

end Leaving

end RiteVm
