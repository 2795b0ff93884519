import RiteVm.Proofs.Collector.Reachability
import RiteVm.Proofs.Fibers.Switching

/-!
Contract: fibers come and go in step with their stacks.

Owns:
- new fibers, each with a stack of its own;
- collections, which take the stacks of collected fibers away.

A fiber that waits or runs is never collected, since the machine itself keeps it in use. Of
all others a collection may take any, in whatever order.
-/

namespace RiteVm

variable {tidy firm : Prop} {machine : Machine} {handle : Handle} {record : FiberRecord}

/-! ### New fibers -/

/-- A new fiber, whose stack and signals come behind all others. -/
def Machine.newFiber (machine : Machine) (body : Handle) : FiberRecord :=
  { context := ⟨machine.contexts.size⟩, body, state := .created, signals := machine.signals.size }

/-- The object of a new fiber. -/
def Machine.fiberObject (machine : Machine) (body : Handle) : Object :=
  { classHandle := machine.coreClass .fiber, content := .fiber (machine.newFiber body) }

/-- The handle of a new fiber. -/
def Machine.newHandle (machine : Machine) (body : Handle) : Handle :=
  (machine.heap.allocate (machine.fiberObject body)).2

/-- The machine with one more fiber. -/
def Machine.withFiber (machine : Machine) (body : Handle) : Machine :=
  let placed := machine.heap.allocate (machine.fiberObject body)
  let opened : Machine :=
    { machine with
      contexts := machine.contexts.push (some {})
      signals := machine.signals.push {}
      heap := placed.1 }
  opened.modifyContext ⟨machine.contexts.size⟩ ({ · with owner := some placed.2 })

namespace Machine

theorem index_lt_of_live {id : ContextId} (live : (machine.context? id).isSome) :
    id.index < machine.contexts.size := by
  by_contra outside
  rw [context?, Array.getElem?_eq_none (Nat.le_of_not_lt outside)] at live
  cases live

theorem context?_withFiber (body : Handle) (id : ContextId) :
    (machine.withFiber body).context? id =
      if id.index = machine.contexts.size then
        some { owner := some (machine.newHandle body) }
      else machine.context? id := by
  have opened (contexts : Array (Option Context)) (same : contexts = machine.contexts.push (some {})) :
      (contexts[id.index]?).join =
        if id.index = machine.contexts.size then some {} else machine.context? id := by
    rw [same, Array.getElem?_push]
    split <;> rfl
  refine (context?_of_modifyContext _ _).trans ?_
  by_cases isNew : id.index = machine.contexts.size
  · rw [if_pos (congrArg ContextId.mk isNew.symm), if_pos isNew]
    exact congrArg (Option.map _) ((opened _ rfl).trans (if_pos isNew))
  · have isOther : (⟨machine.contexts.size⟩ : ContextId) ≠ id :=
      fun same => isNew (congrArg ContextId.index same).symm
    rw [if_neg isOther, if_neg isNew]
    exact (opened _ rfl).trans (if_neg isNew)

theorem size_contexts_withFiber (body : Handle) :
    (machine.withFiber body).contexts.size = machine.contexts.size + 1 :=
  (Array.size_modify ..).trans (Array.size_push ..)

theorem fiber?_withFiber (wellFormed : machine.heap.WellFormed) (body handle : Handle) :
    (machine.withFiber body).fiber? handle =
      if handle = machine.newHandle body then
        some (machine.newFiber body)
      else machine.fiber? handle :=
  wellFormed.fiber?_allocate _ _

section WithFiber

variable (linked : machine.Linked tidy) (body : Handle)

include linked

/-- A fiber that is known is another one than the new one. -/
theorem Linked.ne_new (found : machine.fiber? handle = some record) :
    handle ≠ machine.newHandle body := by
  rintro rfl
  rw [fiber?, Heap.fiber?, newHandle, linked.wellFormed.get?_allocate_snd] at found
  cases found

theorem Linked.fiber?_withFiber_of_found (found : machine.fiber? handle = some record) :
    (machine.withFiber body).fiber? handle = some record := by
  rw [fiber?_withFiber linked.wellFormed, if_neg (linked.ne_new body found), found]

theorem Linked.found_withFiber (found : (machine.withFiber body).fiber? handle = some record) :
    (handle = machine.newHandle body ∧ record = machine.newFiber body) ∨ machine.fiber? handle = some record := by
  rw [fiber?_withFiber linked.wellFormed] at found
  split at found
  · rename_i isNew
    exact .inl ⟨isNew, (Option.some.inj found).symm⟩
  · exact .inr found

/-- The stacks that were there stay as they are. -/
theorem Linked.context?_withFiber_of_found (found : machine.fiber? handle = some record) :
    (machine.withFiber body).context? record.context = machine.context? record.context := by
  rw [context?_withFiber, if_neg]
  exact Nat.ne_of_lt (linked.fits handle record found).context_lt

/-- A new fiber has a stack and signals of its own, and nobody has resumed it. -/
theorem Linked.fits_newFiber :
    (machine.withFiber body).Fits tidy (machine.newHandle body) (machine.newFiber body) := by
  have notInUse (id : ContextId) : (id, some (machine.newHandle body)) ∉ machine.chain := by
    intro member
    obtain ⟨record, wasFound, -⟩ := linked.chain_fiber id _ member
    exact linked.ne_new body wasFound rfl
  refine
    { running := ⟨nofun, fun isCurrent => ?_⟩
      resumed := ⟨nofun, fun member => ?_⟩
      notRoot := fun isRoot => ?_
      live := ?_
      context_lt := ?_
      signals_lt := ?_
      parked := nofun }
  · refine (notInUse machine.current (List.mem_append_right _ ?_)).elim
    exact isCurrent ▸ List.mem_singleton_self _
  · obtain ⟨⟨id, fiber?⟩, isResumer, rfl⟩ := List.mem_map.mp member
    exact (notInUse id (List.mem_append_left _ isResumer)).elim
  · have inside := index_lt_of_live linked.root
    rw [← isRoot] at inside
    exact Nat.lt_irrefl _ inside
  · have isNew : (machine.newFiber body).context.index = machine.contexts.size := rfl
    rw [context?_withFiber, if_pos isNew]
    rfl
  · rw [size_contexts_withFiber]
    exact Nat.lt_succ_self _
  · exact Nat.lt_of_lt_of_eq (Nat.lt_succ_self _) (Array.size_push ..).symm

theorem Linked.fits_withFiber (found : machine.fiber? handle = some record) :
    (machine.withFiber body).Fits tidy handle record :=
  have fits := linked.fits handle record found
  have sameStack := linked.context?_withFiber_of_found body found
  { running := fits.running
    resumed := fits.resumed
    notRoot := fits.notRoot
    live := sameStack ▸ fits.live
    context_lt := by
      rw [size_contexts_withFiber]
      exact Nat.lt_succ_of_lt fits.context_lt
    signals_lt := Nat.lt_of_lt_of_eq (Nat.lt_succ_of_lt fits.signals_lt) (Array.size_push ..).symm
    parked := sameStack ▸ fits.parked }

theorem Linked.withFiber : (machine.withFiber body).Linked tidy where
  wellFormed := linked.wellFormed.allocate _
  root := by
    rw [context?_withFiber, if_neg (Nat.ne_of_lt (index_lt_of_live linked.root))]
    exact linked.root
  chain_nodup := linked.chain_nodup
  chain_root := linked.chain_root
  chain_fiber id handle member := by
    obtain ⟨record, found, isStack⟩ := linked.chain_fiber id handle member
    exact ⟨record, linked.fiber?_withFiber_of_found body found, isStack⟩
  fits handle record found := by
    rcases linked.found_withFiber body found with ⟨rfl, rfl⟩ | wasFound
    · exact linked.fits_newFiber body
    · exact linked.fits_withFiber body wasFound
  apart first second firstRecord secondRecord isFirst isSecond same := by
    rcases linked.found_withFiber body isFirst with ⟨rfl, rfl⟩ | wasFirst <;>
      rcases linked.found_withFiber body isSecond with ⟨rfl, rfl⟩ | wasSecond
    · rfl
    · have fits := linked.fits second secondRecord wasSecond
      rcases same with same | same
      · exact absurd (congrArg ContextId.index same).symm (Nat.ne_of_lt fits.context_lt)
      · exact absurd same.symm (Nat.ne_of_lt fits.signals_lt)
    · have fits := linked.fits first firstRecord wasFirst
      rcases same with same | same
      · exact absurd (congrArg ContextId.index same) (Nat.ne_of_lt fits.context_lt)
      · exact absurd same (Nat.ne_of_lt fits.signals_lt)
    · exact linked.apart first second firstRecord secondRecord wasFirst wasSecond same
  owned id live := by
    by_cases isNew : id.index = machine.contexts.size
    · refine .inr ⟨machine.newHandle body, machine.newFiber body, ?_,
        congrArg ContextId.mk isNew.symm⟩
      rw [fiber?_withFiber linked.wellFormed, if_pos rfl]
    · rw [context?_withFiber, if_neg isNew] at live
      rcases linked.owned id live with isRoot | ⟨handle, record, found, isStack⟩
      · exact .inl isRoot
      · exact .inr ⟨handle, record, linked.fiber?_withFiber_of_found body found, isStack⟩

omit linked in
theorem framesOf_withFiber {id : ContextId} (live : (machine.context? id).isSome) :
    (machine.withFiber body).framesOf id = machine.framesOf id := by
  rw [framesOf, context?_withFiber, if_neg (Nat.ne_of_lt (index_lt_of_live live))]
  rfl

omit linked in
/-- Signals of a new fiber were told nothing, as if they had been there before. -/
theorem signalsOf_withFiber (number : Nat) :
    (machine.withFiber body).signalsOf number = machine.signalsOf number := by
  have isSignals : (machine.withFiber body).signals = machine.signals.push {} := rfl
  rw [signalsOf, signalsOf, isSignals, Array.getD_eq_getD_getElem?, Array.getElem?_push,
    Array.getD_eq_getD_getElem?]
  split
  · rename_i isNew
    rw [isNew, Array.getElem?_eq_none (Nat.le_refl _)]
    rfl
  · rfl

theorem Linked.keepsParked_withFiber : machine.KeepsParked (machine.withFiber body) where
  passed handle passed := passed.allocate _
  captures id index captured :=
    (linked.wellFormed.captures_allocate captured).resolve_left (Object.not_captures rfl id index)
  fibers handle record found := by
    have sameCycles : (machine.withFiber body).cycles record.signals =
        machine.cycles record.signals :=
      congrArg FiberSignals.cycles (signalsOf_withFiber body record.signals)
    exact .inr ⟨record, linked.fiber?_withFiber_of_found body found, rfl, rfl,
      Nat.le_of_eq sameCycles.symm, fun suspended _ =>
        ⟨suspended, linked.context?_withFiber_of_found body found⟩⟩

theorem Linked.beside_withFiber : machine.Beside (machine.withFiber body) where
  config := rfl
  current := rfl
  currentFiber := rfl
  resumers := rfl
  nativeDepth := rfl
  below id member := by
    obtain ⟨⟨_, fiber?⟩, isResumer, rfl⟩ := List.mem_map.mp member
    exact framesOf_withFiber body (linked.live_of_chain (List.mem_append_left _ isResumer))
  watched _ holds := holds.step (linked.keepsParked_withFiber body)
  informs :=
    { size_le := Nat.le_of_lt (Nat.lt_of_lt_of_eq (Nat.lt_succ_self _) (Array.size_push ..).symm)
      fit := fun fit handle record found => by
        rw [signalsOf_withFiber]
        rcases linked.found_withFiber body found with ⟨-, rfl⟩ | wasFound
        · have isNew : (machine.newFiber body).signals = machine.signals.size := rfl
          rw [isNew, signalsOf, Array.getD_eq_getD_getElem?, Array.getElem?_eq_none (Nat.le_refl _)]
          rfl
        · exact fit handle record wasFound
      hears := fun _ => .of_same (signalsOf_withFiber body) rfl }
  busy := .of_chain rfl (fun _ _ _ => linked.fiber?_withFiber_of_found body)
    fun signals => congrArg FiberSignals.cycles (signalsOf_withFiber body signals)

end WithFiber

end Machine

namespace VM

/-- A new fiber leaves the fibers that are there alone. -/
instance Balanced.newFiber (block : Value) :
    Balanced tidy firm (newFiber block) (newFiber block) where
  balancedFrom machine linked := by
    have inPlace : InPlaceFrom machine (expectProc block) := .of_inPlace linked.wellFormed
    refine .bind (.of_inPlaceFrom linked inPlace) fun body next _ linked => ?_
    have created : ∃ handle, (do
        let machine ← get
        let context : ContextId := ⟨machine.contexts.size⟩
        let signals := machine.signals.size
        set { machine with
          contexts := machine.contexts.push (some {}), signals := machine.signals.push {} }
        let handle ← allocate
          { classHandle := ← Query.coreClass .fiber
            content := .fiber { context, body, state := .created, signals } }
        modify (·.modifyContext context ({ · with owner := some handle }))
        return .object handle : VM Value) next = .ok (.object handle) (next.withFiber body) :=
      ⟨_, rfl⟩
    obtain ⟨handle, created⟩ := created
    have isFrames : (next.withFiber body).frames = next.frames :=
      Machine.framesOf_withFiber body linked.live_current
    refine ⟨rfl, fun _ => ?_, ?_⟩
    · rw [after_of_ok created]
      exact ⟨linked.withFiber body, linked.beside_withFiber body,
        isFrames.symm ▸ List.prefix_refl _⟩
    · rw [created]
      exact fun _ => isFrames

end VM

/-! ### Collections -/

namespace Heap

theorem Passed.remove {heap : Heap} {handle other : Handle} (passed : heap.Passed other) :
    (heap.remove handle).Passed other := by
  obtain ⟨cell, located, later⟩ := passed
  by_cases isSlot : handle.slot = other.slot
  · refine ⟨⟨cell.generation + 1, none⟩, ?_, Nat.lt_succ_of_lt later⟩
    rw [Heap.remove, Array.getElem?_modify, if_pos isSlot, located]
    rfl
  · refine ⟨cell, ?_, later⟩
    rw [Heap.remove, Array.getElem?_modify, if_neg isSlot]
    exact located

/-- The handle of an object that was taken away leads nowhere for good. -/
theorem passed_remove {heap : Heap} {handle : Handle} {object : Object}
    (found : heap.get? handle = some object) : (heap.remove handle).Passed handle := by
  rw [get?] at found
  cases located : heap.cells[handle.slot]? with
  | none =>
      rw [located] at found
      cases found
  | some cell =>
      rw [located] at found
      have current : cell.generation = handle.generation :=
        (Option.ite_none_right_eq_some.mp found).1
      refine ⟨⟨cell.generation + 1, none⟩, ?_, current ▸ Nat.lt_succ_self _⟩
      rw [Heap.remove, Array.getElem?_modify, if_pos rfl, located]
      rfl

theorem captures_remove {heap : Heap} {handle : Handle} {object : Object}
    (found : heap.get? handle = some object) {id : ContextId} {index : Nat}
    (captured : (heap.remove handle).Captures id index) : heap.Captures id index := by
  obtain ⟨other, record, isFound, captured⟩ := captured
  rw [get?_remove found] at isFound
  split at isFound
  · exact nomatch isFound
  · exact ⟨other, record, isFound, captured⟩

theorem fiber?_remove {heap : Heap} {handle : Handle} {object : Object}
    (found : heap.get? handle = some object) (other : Handle) :
    (heap.remove handle).fiber? other = if other = handle then none else heap.fiber? other := by
  rw [fiber?, get?_remove found]
  split <;> rfl

end Heap

namespace Machine

/-- Of what matters to fibers, nothing changed but that one fiber and its stack are gone. -/
structure Drops (before : Machine) (handle : Handle) (record : FiberRecord) (after : Machine) :
    Prop where
  wellFormed : after.heap.WellFormed
  config : after.config = before.config
  current : after.current = before.current
  currentFiber : after.currentFiber = before.currentFiber
  resumers : after.resumers = before.resumers
  nativeDepth : after.nativeDepth = before.nativeDepth
  signals : after.signals = before.signals
  woken : after.woken = before.woken
  contextCount : after.contexts.size = before.contexts.size
  contexts : ∀ id, after.context? id =
    if id = record.context then none else before.context? id
  fibers : ∀ other, after.fiber? other = if other = handle then none else before.fiber? other
  gone : after.heap.Passed handle
  passed : ∀ other, before.heap.Passed other → after.heap.Passed other
  captures : ∀ id index, after.heap.Captures id index → before.heap.Captures id index

section Drops

variable {before after : Machine} (drops : Drops before handle record after)
  (linked : before.Linked tidy) (found : before.fiber? handle = some record)
  (idle : record.state ≠ .running ∧ record.state ≠ .resumed)

include drops

theorem Drops.chain_eq : after.chain = before.chain := by
  rw [chain, chain, drops.resumers, drops.current, drops.currentFiber]

theorem Drops.framesOf {id : ContextId} (isOther : id ≠ record.context) :
    after.framesOf id = before.framesOf id := by
  rw [Machine.framesOf, drops.contexts, if_neg isOther]
  rfl

/-- Signals outlive their fiber. -/
theorem Drops.informs : before.Informs after where
  size_le := Nat.le_of_eq (congrArg Array.size drops.signals).symm
  fit fit other otherRecord isFiber := by
    rw [drops.fibers] at isFiber
    split at isFiber
    · cases isFiber
    · rw [signalsOf, drops.signals]
      exact fit other otherRecord isFiber
  hears _ := .of_signals drops.signals drops.woken

include linked found

theorem Drops.context?_other {other : Handle} {otherRecord : FiberRecord}
    (isFiber : before.fiber? other = some otherRecord) (isOther : other ≠ handle) :
    after.context? otherRecord.context = before.context? otherRecord.context := by
  rw [drops.contexts, if_neg fun same => isOther ?_]
  exact linked.apart other handle otherRecord record isFiber found (.inl same)

include idle

theorem Drops.linked_after : after.Linked tidy := by
  have fits := linked.fits handle record found
  have sameChain := drops.chain_eq
  have notInUse {id : ContextId} (member : (id, some handle) ∈ before.chain) : False :=
    linked.not_mem_chain found idle member
  refine
    { wellFormed := drops.wellFormed
      root := ?_
      chain_nodup := sameChain ▸ linked.chain_nodup
      chain_root := sameChain ▸ linked.chain_root
      chain_fiber := ?_
      fits := ?_
      apart := ?_
      owned := ?_ }
  · rw [drops.contexts, if_neg fits.notRoot.symm]
    exact linked.root
  · intro id other member
    rw [sameChain] at member
    obtain ⟨otherRecord, isFiber, isStack⟩ := linked.chain_fiber id other member
    refine ⟨otherRecord, ?_, isStack⟩
    rw [drops.fibers, if_neg fun same => notInUse (same ▸ member)]
    exact isFiber
  · intro other otherRecord isFiber
    rw [drops.fibers] at isFiber
    split at isFiber
    · cases isFiber
    · rename_i isOther
      have otherFits := linked.fits other otherRecord isFiber
      have sameStack := drops.context?_other linked found isFiber isOther
      exact
        { running := by rw [drops.currentFiber]; exact otherFits.running
          resumed := by rw [drops.resumers]; exact otherFits.resumed
          notRoot := otherFits.notRoot
          live := sameStack ▸ otherFits.live
          context_lt := drops.contextCount ▸ otherFits.context_lt
          signals_lt := by rw [drops.signals]; exact otherFits.signals_lt
          parked := sameStack ▸ otherFits.parked }
  · intro first second firstRecord secondRecord isFirst isSecond same
    rw [drops.fibers] at isFirst isSecond
    split at isFirst
    · cases isFirst
    · split at isSecond
      · cases isSecond
      · exact linked.apart first second firstRecord secondRecord isFirst isSecond same
  · intro id live
    rw [drops.contexts] at live
    split at live
    · cases live
    · rename_i isOther
      rcases linked.owned id live with isRoot | ⟨other, otherRecord, isFiber, isStack⟩
      · exact .inl isRoot
      · refine .inr ⟨other, otherRecord, ?_, isStack⟩
        rw [drops.fibers, if_neg]
        · exact isFiber
        · rintro rfl
          cases found.symm.trans isFiber
          exact isOther isStack.symm

omit idle in
theorem Drops.keepsParked : before.KeepsParked after where
  passed := drops.passed
  captures := drops.captures
  fibers other otherRecord isFiber := by
    by_cases isHandle : other = handle
    · exact .inl (isHandle ▸ drops.gone)
    · refine .inr ⟨otherRecord, ?_, rfl, rfl, ?_, fun suspended _ =>
        ⟨suspended, drops.context?_other linked found isFiber isHandle⟩⟩
      · rw [drops.fibers, if_neg isHandle]
        exact isFiber
      · exact Nat.le_of_eq (by rw [cycles, cycles, drops.signals])

theorem Drops.beside : before.Beside after where
  config := drops.config
  current := drops.current
  currentFiber := drops.currentFiber
  resumers := drops.resumers
  nativeDepth := drops.nativeDepth
  below id member := by
    refine drops.framesOf ?_
    rintro rfl
    exact linked.context_not_mem_resumers found idle.2 member
  watched _ holds := holds.step (drops.keepsParked linked found)
  informs := drops.informs
  busy := .of_chain drops.chain_eq
    (fun other otherRecord ⟨id, member⟩ isFiber => by
      rw [drops.fibers, if_neg]
      · exact isFiber
      · rintro rfl
        exact linked.not_mem_chain found idle member)
    (fun signals => by rw [cycles, cycles, drops.signals])

theorem Drops.frames_eq : after.frames = before.frames := by
  rw [frames, drops.current]
  exact drops.framesOf (linked.context_ne_current found idle.1).symm

end Drops

/-- An object that is reclaimed is either a fiber, which goes with its stack, or of no
matter to fibers. -/
theorem reclaim_cases (wellFormed : machine.heap.WellFormed) (handle : Handle) :
    (∃ record, machine.fiber? handle = some record ∧
      machine.Drops handle record (machine.reclaim handle)) ∨
    machine.KeepsFibers (machine.reclaim handle) := by
  rw [reclaim]
  cases found : machine.heap.get? handle with
  | none => exact .inr (.refl machine)
  | some object =>
      have fibers := Heap.fiber?_remove found
      have plain (noFiber : object.fiber? = none) :
          machine.heap.KeepsFibers (machine.heap.remove handle) := by
        refine ⟨wellFormed.remove found, fun other => ?_, fun _ _ => Heap.captures_remove found,
          fun _ => Heap.Passed.remove⟩
        rw [fibers]
        split
        · rename_i isHandle
          rw [isHandle, Heap.fiber?, found]
          exact noFiber.symm
        · rfl
      dsimp only
      cases isContent : object.content with
      | fiber record =>
          have isFiber : machine.fiber? handle = some record := by
            rw [fiber?, Heap.fiber?, found]
            simp only [Option.bind_some, Object.fiber?, isContent]
          refine .inl ⟨record, isFiber, ?_⟩
          exact
            { wellFormed := wellFormed.remove found
              config := rfl
              current := rfl
              currentFiber := rfl
              resumers := rfl
              nativeDepth := rfl
              signals := rfl
              woken := rfl
              contextCount := Array.size_setIfInBounds
              contexts := VM.context?_removeContext _ _
              fibers := fibers
              gone := Heap.passed_remove found
              passed := fun _ => Heap.Passed.remove
              captures := fun _ _ => Heap.captures_remove found }
      | data record =>
          have noFiber : object.fiber? = none := by rw [Object.fiber?, isContent]
          exact .inr ⟨rfl, rfl, rfl, rfl, rfl, rfl, rfl, rfl, fun _ => plain noFiber⟩
      | _ =>
          have noFiber : object.fiber? = none := by rw [Object.fiber?, isContent]
          exact .inr (.of_heap fun _ => plain noFiber)

/-- Objects are reclaimed without harm to the fibers in use. -/
theorem leads_foldl_reclaim (linked : machine.Linked tidy) (dead : List Handle)
    (idle : ∀ handle ∈ dead, machine.currentFiber ≠ some handle ∧
      some handle ∉ machine.resumers.map (·.2)) :
    VM.Leads tidy Eq machine (dead.foldl reclaim machine) ∧
      machine.KeepsParked (dead.foldl reclaim machine) := by
  induction dead generalizing machine with
  | nil => exact ⟨⟨linked, .refl machine, rfl⟩, .refl linked.wellFormed⟩
  | cons first rest inductionHypothesis =>
      have step : VM.Leads tidy Eq machine (machine.reclaim first) ∧
          machine.KeepsParked (machine.reclaim first) := by
        rcases reclaim_cases linked.wellFormed first with ⟨record, found, drops⟩ | keeps
        · have fits := linked.fits first record found
          obtain ⟨notCurrent, notWaiting⟩ := idle first List.mem_cons_self
          have isIdle : record.state ≠ .running ∧ record.state ≠ .resumed :=
            ⟨fun isRunning => notCurrent (fits.running.mp isRunning),
              fun isResumed => notWaiting (fits.resumed.mp isResumed)⟩
          exact ⟨⟨drops.linked_after linked found isIdle, drops.beside linked found isIdle,
            (drops.frames_eq linked found isIdle).symm⟩, drops.keepsParked linked found⟩
        · have others := KeepsOthers.of_keepsFibers linked.wellFormed keeps
          refine ⟨⟨others.linked linked, .of_keepsOthers linked others, ?_⟩,
            .of_keepsFibers linked.wellFormed keeps⟩
          rw [frames, frames, framesOf, framesOf, keeps.current, keeps.context?_eq]
      obtain ⟨leads, parked⟩ := step
      obtain ⟨leads', parked'⟩ := inductionHypothesis leads.linked fun handle member => by
        rw [leads.beside.currentFiber, leads.beside.resumers]
        exact idle handle (List.mem_cons_of_mem _ member)
      exact ⟨⟨leads'.linked, leads.beside.trans leads'.beside, leads.frames.trans leads'.frames⟩,
        parked.trans parked'⟩

/-- A collection takes no fiber away that runs or waits. -/
theorem leads_collect (linked : machine.Linked tidy) :
    VM.Leads tidy Eq machine machine.collect ∧ machine.KeepsParked machine.collect := by
  obtain ⟨reclaimed, parked⟩ : VM.Leads tidy Eq machine (machine.unreachable.foldl reclaim machine) ∧
      machine.KeepsParked (machine.unreachable.foldl reclaim machine) := by
    refine leads_foldl_reclaim linked _ fun handle isDead => ?_
    have unreachable := (mem_unreachable.mp isDead).2
    refine ⟨fun isCurrent => unreachable (.root (.currentFiber isCurrent)), fun waits => ?_⟩
    obtain ⟨⟨id, fiber?⟩, isResumer, rfl⟩ := List.mem_map.mp waits
    exact unreachable (.root (.resumingFiber isResumer))
  have keeps : (machine.unreachable.foldl reclaim machine).KeepsFibers machine.collect :=
    ⟨rfl, rfl, rfl, rfl, rfl, rfl, rfl, rfl, fun wellFormed => .of_cells wellFormed rfl rfl⟩
  have others := KeepsOthers.of_keepsFibers reclaimed.linked.wellFormed keeps
  exact ⟨⟨others.linked reclaimed.linked,
    reclaimed.beside.trans (.of_keepsOthers reclaimed.linked others), reclaimed.frames⟩,
    parked.trans (.of_keepsFibers reclaimed.linked.wellFormed keeps)⟩

end Machine

namespace VM

instance Balanced.collect : Balanced tidy firm collect collect where
  balancedFrom machine linked := by
    obtain ⟨⟨linked', beside, frames⟩, -⟩ := Machine.leads_collect linked
    exact ⟨rfl, fun _ => ⟨linked', beside, frames ▸ List.prefix_refl _⟩, fun _ => frames.symm⟩

instance Balanced.collectIfDue : Balanced tidy firm collectIfDue collectIfDue := by
  unfold VM.collectIfDue
  infer_instance

end VM

end RiteVm
