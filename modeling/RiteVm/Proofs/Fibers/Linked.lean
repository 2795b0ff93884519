import RiteVm.Proofs.Wakeups.Notices

/-!
Contract: how fibers, register stacks and the resumers stay in step.

Owns:
- the stacks whose frames wait for one another, and linked machines, in which every fiber
  fits its state;
- watches, which say what a suspended fiber is kept for;
- changes of the running stack, which leave all other stacks to their fibers.

A watch holds on when its fiber is resumed or collected: it is about the cycle in which the
fiber was suspended, and about nothing behind it.
-/

namespace RiteVm

/-- The innermost frame is that of a method that is no bytecode. -/
def Context.EndsNative (context : Context) : Prop :=
  ∃ frame, context.frames.back? = some frame ∧ frame.unit = none

namespace Machine

variable {tidy : Prop} {before machine after : Machine}

/-- The cycles that a fiber with these signals has completed. -/
def cycles (machine : Machine) (signals : Nat) : Nat := (machine.signals.getD signals {}).cycles

/-- The stacks whose frames wait for one another with their fibers, the running one last. -/
def chain (machine : Machine) : List (ContextId × Option Handle) :=
  machine.resumers ++ [(machine.current, machine.currentFiber)]

/-- The frames of a register stack, the innermost last. -/
def framesOf (machine : Machine) (id : ContextId) : List Frame :=
  ((machine.context? id).map (·.frames.toList)).getD []

/-- The frames of the running stack, the innermost last. -/
def frames (machine : Machine) : List Frame := machine.framesOf machine.current

/-! ### Linked machines -/

/-- A fiber is in the state that its place in the machine gives it, and owns a register
stack as long as it is alive. -/
structure Fits (tidy : Prop) (machine : Machine) (handle : Handle) (record : FiberRecord) :
    Prop where
  running : record.state = .running ↔ machine.currentFiber = some handle
  resumed : record.state = .resumed ↔ some handle ∈ machine.resumers.map (·.2)
  notRoot : record.context ≠ rootContext
  live : (machine.context? record.context).isSome = record.state.isAlive
  context_lt : record.context.index < machine.contexts.size
  signals_lt : record.signals < machine.signals.size
  parked : record.state = .suspended → ∀ context, machine.context? record.context = some context →
    2 ≤ context.frames.size ∧ (tidy → context.EndsNative)

/-- Fibers, register stacks and resumers are in step. A tidy machine also keeps the frame
of the yielding method on top of a suspended stack. -/
structure Linked (tidy : Prop) (machine : Machine) : Prop where
  wellFormed : machine.heap.WellFormed
  root : (machine.context? rootContext).isSome
  chain_nodup : (machine.chain.map (·.1)).Nodup
  chain_root : ∀ id, (id, none) ∈ machine.chain → id = rootContext
  chain_fiber : ∀ id handle, (id, some handle) ∈ machine.chain →
    ∃ record, machine.fiber? handle = some record ∧ record.context = id
  fits : ∀ handle record, machine.fiber? handle = some record → machine.Fits tidy handle record
  apart : ∀ first second firstRecord secondRecord, machine.fiber? first = some firstRecord →
    machine.fiber? second = some secondRecord →
    firstRecord.context = secondRecord.context ∨ firstRecord.signals = secondRecord.signals →
    first = second
  owned : ∀ id, (machine.context? id).isSome →
    id = rootContext ∨ ∃ handle record, machine.fiber? handle = some record ∧ record.context = id

namespace Linked

variable {handle : Handle} {record : FiberRecord}

/-- The stack of a fiber that nobody waits in is not the running one. -/
theorem context_ne_of_chain (linked : machine.Linked tidy)
    (found : machine.fiber? handle = some record) {id : ContextId} {fiber? : Option Handle}
    (member : (id, fiber?) ∈ machine.chain) (isOther : fiber? ≠ some handle) :
    record.context ≠ id := by
  intro same
  cases fiber? with
  | none => exact (linked.fits handle record found).notRoot (same.trans (linked.chain_root id member))
  | some other =>
      obtain ⟨otherRecord, isFiber, isStack⟩ := linked.chain_fiber id other member
      have isHandle := linked.apart other handle otherRecord record isFiber found
        (.inl (isStack.trans same.symm))
      exact isOther (congrArg some isHandle)

theorem context_ne_current (linked : machine.Linked tidy)
    (found : machine.fiber? handle = some record) (notRunning : record.state ≠ .running) :
    record.context ≠ machine.current := by
  refine linked.context_ne_of_chain found (List.mem_append_right _ List.mem_cons_self) ?_
  exact fun isCurrent => notRunning ((linked.fits handle record found).running.mpr isCurrent)

theorem context_eq_current (linked : machine.Linked tidy)
    (found : machine.fiber? handle = some record) (running : machine.currentFiber = some handle) :
    record.context = machine.current := by
  have member : (machine.current, some handle) ∈ machine.chain :=
    List.mem_append_right _ (running ▸ List.mem_singleton_self _)
  obtain ⟨record', found', isStack⟩ := linked.chain_fiber _ _ member
  cases found.symm.trans found'
  exact isStack

theorem context_not_mem_resumers (linked : machine.Linked tidy)
    (found : machine.fiber? handle = some record) (notResumed : record.state ≠ .resumed) :
    record.context ∉ machine.resumers.map (·.1) := by
  intro member
  obtain ⟨⟨id, fiber?⟩, isResumer, same⟩ := List.mem_map.mp member
  refine linked.context_ne_of_chain found (List.mem_append_left _ isResumer) ?_ same.symm
  intro isHandle
  have isResumed : some handle ∈ machine.resumers.map (·.2) :=
    List.mem_map.mpr ⟨(id, fiber?), isResumer, isHandle⟩
  exact notResumed ((linked.fits handle record found).resumed.mpr isResumed)

theorem not_mem_chain (linked : machine.Linked tidy) (found : machine.fiber? handle = some record)
    (idle : record.state ≠ .running ∧ record.state ≠ .resumed) {id : ContextId} :
    (id, some handle) ∉ machine.chain := by
  have fits := linked.fits handle record found
  intro member
  rcases List.mem_append.mp member with isResumer | isCurrent
  · exact idle.2 (fits.resumed.mpr (List.mem_map.mpr ⟨_, isResumer, rfl⟩))
  · exact idle.1 (fits.running.mpr (congrArg Prod.snd (List.mem_singleton.mp isCurrent)).symm)

theorem current_not_mem_resumers (linked : machine.Linked tidy) :
    machine.current ∉ machine.resumers.map (·.1) := by
  have nodup := linked.chain_nodup
  rw [chain, List.map_append, List.nodup_append] at nodup
  intro member
  exact nodup.2.2 _ member _ List.mem_cons_self rfl

theorem live_of_chain (linked : machine.Linked tidy) {id : ContextId} {fiber? : Option Handle}
    (member : (id, fiber?) ∈ machine.chain) : (machine.context? id).isSome := by
  cases fiber? with
  | none =>
      rw [linked.chain_root id member]
      exact linked.root
  | some handle =>
      obtain ⟨record, found, rfl⟩ := linked.chain_fiber id handle member
      have fits := linked.fits handle record found
      rw [fits.live]
      rcases List.mem_append.mp member with isResumer | isCurrent
      · have isResumed : some handle ∈ machine.resumers.map (·.2) :=
          List.mem_map.mpr ⟨_, isResumer, rfl⟩
        rw [fits.resumed.mpr isResumed]
        rfl
      · have isRunning : machine.currentFiber = some handle :=
          (congrArg Prod.snd (List.mem_singleton.mp isCurrent)).symm
        rw [fits.running.mpr isRunning]
        rfl

theorem live_current (linked : machine.Linked tidy) :
    (machine.context? machine.current).isSome :=
  linked.live_of_chain (List.mem_append_right _ List.mem_cons_self)

end Linked

end Machine

namespace Machine

/-- Fibers stay who they are, and one that is suspended in the same cycle as before was
suspended and has the same stack. -/
structure KeepsParked (before after : Machine) : Prop where
  passed : ∀ handle, before.heap.Passed handle → after.heap.Passed handle
  captures : ∀ id index, after.heap.Captures id index → before.heap.Captures id index
  fibers : ∀ handle record, before.fiber? handle = some record →
    after.heap.Passed handle ∨
      ∃ record', after.fiber? handle = some record' ∧ record'.context = record.context ∧
        record'.signals = record.signals ∧
        before.cycles record.signals ≤ after.cycles record.signals ∧
        (record'.state = .suspended →
          after.cycles record.signals = before.cycles record.signals →
          record.state = .suspended ∧
            after.context? record.context = before.context? record.context)

namespace KeepsParked

variable {before machine after : Machine}

theorem of_keepsFibers (wellFormed : before.heap.WellFormed) (keeps : before.KeepsFibers after) :
    before.KeepsParked after where
  passed := (keeps.heap wellFormed).passed
  captures := (keeps.heap wellFormed).captures
  fibers handle record found := by
    have sameCycles : after.cycles record.signals = before.cycles record.signals := by
      rw [cycles, cycles, keeps.signals]
    exact .inr ⟨record, (keeps.fiber?_eq wellFormed handle).trans found, rfl, rfl,
      Nat.le_of_eq sameCycles.symm, fun suspended _ => ⟨suspended, keeps.context?_eq _⟩⟩

theorem refl (wellFormed : machine.heap.WellFormed) : machine.KeepsParked machine :=
  of_keepsFibers wellFormed (.refl machine)

theorem trans (first : before.KeepsParked machine) (second : machine.KeepsParked after) :
    before.KeepsParked after where
  passed handle passed := second.passed handle (first.passed handle passed)
  captures id index captured := first.captures id index (second.captures id index captured)
  fibers handle record found := by
    rcases first.fibers handle record found with passed |
      ⟨between, isBetween, sameContext, sameSignals, grows, kept⟩
    · exact .inl (second.passed handle passed)
    · rcases second.fibers handle between isBetween with passed |
        ⟨last, isLast, sameContext', sameSignals', grows', kept'⟩
      · exact .inl passed
      · rw [sameSignals] at grows' kept'
        rw [sameContext] at kept'
        refine .inr ⟨last, isLast, sameContext'.trans sameContext, sameSignals'.trans sameSignals,
          Nat.le_trans grows grows', fun suspended sameCycle => ?_⟩
        obtain ⟨wasSuspended, sameStack⟩ := kept' suspended (by omega)
        obtain ⟨wasSuspended', sameStack'⟩ := kept wasSuspended (by omega)
        exact ⟨wasSuspended', sameStack.trans sameStack'⟩

end KeepsParked

end Machine

/-! ### Watches -/

/-- What a fiber was left with when a cycle ended: its record, the number of its cycles, its
register stack, and the slots that closures had captured. -/
structure Watch where
  fiber : Handle
  record : FiberRecord
  cycles : Nat
  context : Context
  captured : Nat → Prop

namespace Watch

variable {before after : Machine} {watch : Watch}

/-- The watched stack is the one that was left, apart from captured variables. -/
structure Parked (watch : Watch) (machine : Machine) : Prop where
  stack : ∃ context, machine.context? watch.record.context = some context ∧
    context.frames = watch.context.frames ∧ context.pending = watch.context.pending ∧
    ∀ index, ¬ watch.captured index → context.slot index = watch.context.slot index
  captures : ∀ index, machine.heap.Captures watch.record.context index → watch.captured index

/-- As long as the watched fiber has completed no further cycle, it finds its stack as it
was left. -/
def Holds (watch : Watch) (machine : Machine) : Prop :=
  machine.heap.Passed watch.fiber ∨
    ∃ record, machine.fiber? watch.fiber = some record ∧
      record.context = watch.record.context ∧ record.signals = watch.record.signals ∧
      watch.cycles ≤ machine.cycles record.signals ∧
      (machine.cycles record.signals = watch.cycles → record.state = .suspended →
        watch.Parked machine)

/-- Only objects, register stacks and signals matter to a watch. -/
theorem Holds.congr (holds : watch.Holds before) (heap : after.heap = before.heap)
    (contexts : after.contexts = before.contexts) (signals : after.signals = before.signals) :
    watch.Holds after := by
  rcases holds with passed | ⟨record, found, sameContext, sameSignals, atLeast, parked⟩
  · exact .inl (heap ▸ passed)
  · refine .inr ⟨record, ?_, sameContext, sameSignals, ?_, fun sameCycle suspended => ?_⟩
    · rw [Machine.fiber?, heap]
      exact found
    · rw [Machine.cycles, signals]
      exact atLeast
    · rw [Machine.cycles, signals] at sameCycle
      obtain ⟨stack, captures⟩ := parked sameCycle suspended
      refine ⟨?_, ?_⟩
      · rw [Machine.context?, contexts]
        exact stack
      · rw [heap]
        exact captures

/-- A watch holds on if a fiber that is still suspended in the same cycle has the same
stack. -/
theorem Holds.step (holds : watch.Holds before) (keeps : before.KeepsParked after) :
    watch.Holds after := by
  rcases holds with wasPassed | ⟨record, found, sameContext, sameSignals, atLeast, parked⟩
  · exact .inl (keeps.passed _ wasPassed)
  · rcases keeps.fibers _ record found with isPassed |
      ⟨record', found', sameContext', sameSignals', grows, kept⟩
    · exact .inl isPassed
    · refine .inr ⟨record', found', sameContext'.trans sameContext, sameSignals'.trans sameSignals,
        ?_, fun sameCycle suspended => ?_⟩
      · rw [sameSignals']
        exact Nat.le_trans atLeast grows
      · rw [sameSignals'] at sameCycle
        -- the count lies between that of the watch and the later one, which are the same
        have wasCycle : before.cycles record.signals = watch.cycles := by omega
        obtain ⟨wasSuspended, sameStack⟩ := kept suspended (by omega)
        obtain ⟨stack, captured⟩ := parked wasCycle wasSuspended
        rw [sameContext] at sameStack
        refine ⟨?_, fun index isCaptured => captured index (keeps.captures _ index isCaptured)⟩
        rw [sameStack]
        exact stack

end Watch

namespace Machine

variable {tidy : Prop} {before machine after : Machine}

/-- The same frames, and other values only in captured slots. -/
structure SimilarStack (captured : Nat → Prop) (before after : Context) : Prop where
  frames : after.frames = before.frames
  pending : after.pending = before.pending
  slot : ∀ index, ¬ captured index → after.slot index = before.slot index

/-- At most the running stack is another one. What closures capture on other stacks may have
another value, but they capture no more of it. Signals are told nothing of cycles. -/
structure KeepsOthers (before after : Machine) : Prop where
  config : after.config = before.config
  current : after.current = before.current
  currentFiber : after.currentFiber = before.currentFiber
  resumers : after.resumers = before.resumers
  nativeDepth : after.nativeDepth = before.nativeDepth
  wellFormed : after.heap.WellFormed
  fibers : ∀ handle, after.fiber? handle = before.fiber? handle
  passed : ∀ handle, before.heap.Passed handle → after.heap.Passed handle
  live : ∀ id, (after.context? id).isSome = (before.context? id).isSome
  contextCount : after.contexts.size = before.contexts.size
  signalCount : after.signals.size = before.signals.size
  cycles : ∀ signals, after.cycles signals = before.cycles signals
  others : ∀ id, id ≠ before.current → ∀ context, before.context? id = some context →
    ∃ context', after.context? id = some context' ∧
      SimilarStack (before.heap.Captures id) context context'
  captures : ∀ id, id ≠ before.current → ∀ index,
    after.heap.Captures id index → before.heap.Captures id index
  informs : before.Informs after

namespace KeepsOthers

theorem of_keepsFibers (wellFormed : before.heap.WellFormed) (keeps : before.KeepsFibers after) :
    before.KeepsOthers after where
  config := keeps.config
  current := keeps.current
  currentFiber := keeps.currentFiber
  resumers := keeps.resumers
  nativeDepth := keeps.nativeDepth
  wellFormed := (keeps.heap wellFormed).wellFormed
  fibers := (keeps.heap wellFormed).fibers
  passed := (keeps.heap wellFormed).passed
  live id := by rw [keeps.context?_eq]
  contextCount := by rw [keeps.contexts]
  signalCount := by rw [keeps.signals]
  cycles _ := by simp only [Machine.cycles, keeps.signals]
  others id _ context found := ⟨context, (keeps.context?_eq id).trans found, rfl, rfl, fun _ _ => rfl⟩
  captures id _ := (keeps.heap wellFormed).captures id
  informs := .of_signals (keeps.heap wellFormed).fibers keeps.signals keeps.woken

theorem refl (wellFormed : machine.heap.WellFormed) : machine.KeepsOthers machine :=
  of_keepsFibers wellFormed (.refl machine)

theorem trans (first : before.KeepsOthers machine) (second : machine.KeepsOthers after) :
    before.KeepsOthers after where
  config := second.config.trans first.config
  current := second.current.trans first.current
  currentFiber := second.currentFiber.trans first.currentFiber
  resumers := second.resumers.trans first.resumers
  nativeDepth := second.nativeDepth.trans first.nativeDepth
  wellFormed := second.wellFormed
  fibers handle := (second.fibers handle).trans (first.fibers handle)
  passed handle passed := second.passed handle (first.passed handle passed)
  live id := (second.live id).trans (first.live id)
  contextCount := second.contextCount.trans first.contextCount
  signalCount := second.signalCount.trans first.signalCount
  cycles signals := (second.cycles signals).trans (first.cycles signals)
  others id isOther context found := by
    obtain ⟨between, isBetween, similar⟩ := first.others id isOther context found
    have isOther' : id ≠ machine.current := first.current ▸ isOther
    obtain ⟨last, isLast, similar'⟩ := second.others id isOther' between isBetween
    refine ⟨last, isLast, similar'.frames.trans similar.frames,
      similar'.pending.trans similar.pending, fun index uncaptured => ?_⟩
    have uncaptured' : ¬ machine.heap.Captures id index :=
      fun captured => uncaptured (first.captures id isOther index captured)
    exact (similar'.slot index uncaptured').trans (similar.slot index uncaptured)
  captures id isOther index captured :=
    first.captures id isOther index (second.captures id (first.current ▸ isOther) index captured)
  informs := first.informs.trans second.informs

theorem framesOf (keeps : before.KeepsOthers after) {id : ContextId} (isOther : id ≠ before.current) :
    after.framesOf id = before.framesOf id := by
  rw [Machine.framesOf, Machine.framesOf]
  cases found : before.context? id with
  | none =>
      have absent : after.context? id = none := by
        have live := keeps.live id
        rw [found] at live
        exact Option.isNone_iff_eq_none.mp (Option.isSome_eq_false_iff.mp live)
      rw [absent]
  | some context =>
      obtain ⟨context', found', similar⟩ := keeps.others id isOther context found
      simp only [found', Option.map_some, similar.frames]

theorem chain_eq (keeps : before.KeepsOthers after) : after.chain = before.chain := by
  rw [chain, chain, keeps.resumers, keeps.current, keeps.currentFiber]

theorem linked (keeps : before.KeepsOthers after) (linked : before.Linked tidy) :
    after.Linked tidy := by
  have sameChain := keeps.chain_eq
  refine
    { wellFormed := keeps.wellFormed
      root := by rw [keeps.live]; exact linked.root
      chain_nodup := by rw [sameChain]; exact linked.chain_nodup
      chain_root := by rw [sameChain]; exact linked.chain_root
      chain_fiber := by
        simp only [sameChain, keeps.fibers]
        exact linked.chain_fiber
      fits := ?_
      apart := by
        simp only [keeps.fibers]
        exact linked.apart
      owned := by
        simp only [keeps.live, keeps.fibers]
        exact linked.owned }
  intro handle record found
  rw [keeps.fibers] at found
  have fits := linked.fits handle record found
  refine
    { running := by rw [keeps.currentFiber]; exact fits.running
      resumed := by rw [keeps.resumers]; exact fits.resumed
      notRoot := fits.notRoot
      live := (keeps.live _).trans fits.live
      context_lt := by rw [keeps.contextCount]; exact fits.context_lt
      signals_lt := by rw [keeps.signalCount]; exact fits.signals_lt
      parked := ?_ }
  intro suspended context' found'
  have isOther : record.context ≠ before.current :=
    linked.context_ne_current found (by rw [suspended]; exact nofun)
  have wasLive : (before.context? record.context).isSome := by
    rw [fits.live, suspended]
    rfl
  obtain ⟨context, wasContext⟩ := Option.isSome_iff_exists.mp wasLive
  obtain ⟨same, isSame, similar⟩ := keeps.others _ isOther context wasContext
  obtain rfl : same = context' := Option.some.inj (isSame.symm.trans found')
  have parked := fits.parked suspended context wasContext
  rw [Context.EndsNative, similar.frames]
  exact parked

theorem watched (keeps : before.KeepsOthers after) (linked : before.Linked tidy) {watch : Watch}
    (holds : watch.Holds before) : watch.Holds after := by
  rcases holds with passed | ⟨record, found, sameContext, sameSignals, atLeast, parked⟩
  · exact .inl (keeps.passed _ passed)
  · refine .inr ⟨record, (keeps.fibers _).trans found, sameContext, sameSignals, ?_, ?_⟩
    · rw [keeps.cycles]
      exact atLeast
    · intro sameCycle suspended
      rw [keeps.cycles] at sameCycle
      have isOther : watch.record.context ≠ before.current := by
        rw [← sameContext]
        exact linked.context_ne_current found (by rw [suspended]; exact nofun)
      obtain ⟨⟨context, isContext, sameFrames, samePending, sameSlot⟩, captures⟩ :=
        parked sameCycle suspended
      obtain ⟨context', isContext', similar⟩ := keeps.others _ isOther context isContext
      refine ⟨⟨context', isContext', similar.frames.trans sameFrames,
        similar.pending.trans samePending, fun index uncaptured => ?_⟩,
        fun index captured => captures index (keeps.captures _ isOther index captured)⟩
      have uncaptured' : ¬ before.heap.Captures watch.record.context index :=
        fun captured => uncaptured (captures index captured)
      exact (similar.slot index uncaptured').trans (sameSlot index uncaptured)

end KeepsOthers

/-! ### What calls leave behind -/

/-- A fiber is running or waits in a resume. -/
def Busy (machine : Machine) (handle : Handle) : Prop := ∃ id, (id, some handle) ∈ machine.chain

/-- Fibers that run or wait do so still, and have completed no cycle meanwhile. -/
def KeepsBusy (before after : Machine) : Prop :=
  ∀ handle record, before.Busy handle → before.fiber? handle = some record →
    after.Busy handle ∧ (∃ record', after.fiber? handle = some record' ∧
      record'.signals = record.signals) ∧
      after.cycles record.signals = before.cycles record.signals

theorem KeepsBusy.trans (first : before.KeepsBusy machine) (second : machine.KeepsBusy after) :
    before.KeepsBusy after := by
  intro handle record busy found
  obtain ⟨busy', ⟨record', found', sameSignals⟩, sameCycles⟩ := first handle record busy found
  obtain ⟨busy'', ⟨last, isLast, sameSignals'⟩, sameCycles'⟩ := second handle record' busy' found'
  rw [sameSignals] at sameCycles'
  exact ⟨busy'', ⟨last, isLast, sameSignals'.trans sameSignals⟩, sameCycles'.trans sameCycles⟩

theorem KeepsBusy.of_chain (chain : after.chain = before.chain)
    (fibers : ∀ handle record, before.Busy handle → before.fiber? handle = some record →
      after.fiber? handle = some record)
    (cycles : ∀ signals, after.cycles signals = before.cycles signals) :
    before.KeepsBusy after := by
  intro handle record busy found
  refine ⟨?_, ⟨record, fibers handle record busy found, rfl⟩, cycles _⟩
  rw [Busy, chain]
  exact busy

/-- The same stack is running, for the same resumers, whose frames are untouched; every watch
that held holds on, and signals are told what they should be. -/
structure Beside (before after : Machine) : Prop where
  config : after.config = before.config
  current : after.current = before.current
  currentFiber : after.currentFiber = before.currentFiber
  resumers : after.resumers = before.resumers
  nativeDepth : after.nativeDepth = before.nativeDepth
  below : ∀ id ∈ before.resumers.map (·.1), after.framesOf id = before.framesOf id
  watched : ∀ watch : Watch, watch.Holds before → watch.Holds after
  informs : before.Informs after
  busy : before.KeepsBusy after

namespace Beside

theorem refl (machine : Machine) : machine.Beside machine :=
  ⟨rfl, rfl, rfl, rfl, rfl, fun _ _ => rfl, fun _ => id, .refl machine,
    .of_chain rfl (fun _ _ _ => id) fun _ => rfl⟩

theorem trans (first : before.Beside machine) (second : machine.Beside after) :
    before.Beside after where
  config := second.config.trans first.config
  current := second.current.trans first.current
  currentFiber := second.currentFiber.trans first.currentFiber
  resumers := second.resumers.trans first.resumers
  nativeDepth := second.nativeDepth.trans first.nativeDepth
  below id member := (second.below id (first.resumers.symm ▸ member)).trans (first.below id member)
  watched watch holds := second.watched watch (first.watched watch holds)
  informs := first.informs.trans second.informs
  busy := first.busy.trans second.busy

theorem of_keepsOthers (linked : before.Linked tidy) (keeps : before.KeepsOthers after) :
    before.Beside after where
  config := keeps.config
  current := keeps.current
  currentFiber := keeps.currentFiber
  resumers := keeps.resumers
  nativeDepth := keeps.nativeDepth
  below id member := by
    refine keeps.framesOf fun isCurrent => ?_
    exact linked.current_not_mem_resumers (isCurrent ▸ member)
  watched _ := keeps.watched linked
  informs := keeps.informs
  busy := .of_chain keeps.chain_eq (fun _ _ _ found => (keeps.fibers _).trans found) keeps.cycles

end Beside

end Machine

end RiteVm
