import RiteVm.Proofs.Fibers.HandingOver
import RiteVm.Proofs.Windows.Holdings

/-!
Contract: calls, cycles and resumes keep what register stacks hold.

Owns:
- what an action keeps on the way to the place at which it asks the engine, and behind it;
- one rule for all actions that rise and fall, and one for resumes, which change the stack;
- calls by code that is no bytecode, and actions of hosts.

Behind an answer only frames are left, so whatever the place did, nothing has to be known of the
level at which it began.
-/

namespace RiteVm

open RiteVm.Bytecode

namespace Machine

theorem Restates.started {before after : Machine} {id : ContextId}
    {state : Handle → FiberRecord → FiberState} (restates : before.Restates after state)
    (sameCount : after.contexts.size = before.contexts.size)
    (stays : ∀ handle record, record.state ≠ .created → state handle record ≠ .created)
    (started : before.Started id) : after.Started id := by
  refine ⟨sameCount ▸ started.1, fun handle record found isStack => ?_⟩
  rw [restates.fibers] at found
  obtain ⟨original, wasFound, rfl⟩ := Option.map_eq_some_iff.mp found
  exact stays handle original (started.2 handle original wasFound isStack)

end Machine

theorem Engine.ComesTo.congr {α : Type} {engine : Engine} {action action' : Engine → VM α}
    {machine start : Machine} {place : Place} (comes : engine.ComesTo action machine place start)
    (same : ∀ engine, action engine machine = action' engine machine) :
    engine.ComesTo action' machine place start := by
  obtain ⟨engine', isSame, differs⟩ := comes
  exact ⟨engine', isSame, by rwa [← same, ← same]⟩

namespace VM

variable {holding : Holding} {machine : Machine} {written : Set (ContextId × Nat)}
  {ready rests : Prop} {hosts : Array HostMethod} {engine : Engine} {stop : Nat} {α : Type}

/-! ### On the way and behind -/

/-- A method that is no bytecode is called by a machine that is ready, and no loop starts on a
whole stack. -/
def ReadyAt (holding : Holding) : Place → Machine → Prop
  | .native .., machine => holding.Ready machine
  | .loop _, machine | .host, machine => holding.Rests machine

/-- From one machine that is ready, an action keeps a holding up to the place at which it asks the
engine, and behind what breaks no invariant there. It may end on the stack that it began on. -/
structure CrossesFrom (holding : Holding) (ready rests : Prop) (written : Set (ContextId × Nat))
    (engine : Engine) (machine : Machine) (action : Engine → VM α) : Prop where
  idle : ready → IsIntact (action (.ofHosts #[] 0) machine) →
    holding.Keeps written machine ((action (.ofHosts #[] 0)).after machine) ∧
      (rests → holding.Rests ((action (.ofHosts #[] 0)).after machine))
  rises : ready → ∀ (place : Place) (start : Machine), engine.ComesTo action machine place start →
    holding.Keeps written machine start ∧ ReadyAt holding place start
  falls : ∀ (place : Place) (start : Machine), engine.ComesTo action machine place start →
    (engine.behind place start).Linked True → IsIntact (action engine machine) →
    holding.Rests (engine.behind place start) →
    holding.Keeps ∅ (engine.behind place start) ((action engine).after machine) ∧
      (rests → holding.Rests ((action engine).after machine))

theorem CrossesFrom.congr {action action' : Engine → VM α}
    (crosses : CrossesFrom holding ready rests written engine machine action')
    (same : ∀ engine, action engine machine = action' engine machine) :
    CrossesFrom holding ready rests written engine machine action := by
  refine ⟨fun isReady isIntact => ?_, fun isReady place start comes =>
    crosses.rises isReady place start (comes.congr same),
    fun place start comes linked isIntact => ?_⟩
  · rw [same] at isIntact
    rw [after_congr (same _)]
    exact crosses.idle isReady isIntact
  · rw [same] at isIntact
    rw [after_congr (same _)]
    exact crosses.falls place start (comes.congr same) linked isIntact

/-- What asks nothing comes to no place. -/
theorem CrossesFrom.of_alike {action : Engine → VM α}
    (alike : ∀ engine engine', action engine' machine = action engine machine)
    (idle : ready → IsIntact (action (.ofHosts #[] 0) machine) →
      holding.Keeps written machine ((action (.ofHosts #[] 0)).after machine) ∧
        (rests → holding.Rests ((action (.ofHosts #[] 0)).after machine))) :
    CrossesFrom holding ready rests written engine machine action := by
  have nowhere {place : Place} {start : Machine}
      (comes : engine.ComesTo action machine place start) : False := by
    obtain ⟨engine', -, differs⟩ := comes
    exact differs (alike _ _)
  exact ⟨idle, fun _ _ _ comes => (nowhere comes).elim, fun _ _ comes => (nowhere comes).elim⟩

/-- What rises above the level of a holding, and falls, keeps the holding. Behind an answer, any
level will do. -/
theorem CrossesFrom.of_lays {action : Engine → VM α} (agrees : engine.Agrees True engine)
    (onward : LaysFrom written 0 machine action)
    (lays : ready → ∃ level, LaysFrom written level machine action ∧
      holding.Below level machine ∧ holding.Stands machine) :
    CrossesFrom holding ready rests written engine machine action := by
  refine ⟨fun isReady _ => ?_, fun isReady place start comes => ?_,
    fun place start comes linked _ isOther => ?_⟩
  · obtain ⟨level, lays, below, stands⟩ := lays isReady
    obtain ⟨⟨between, rises, falls⟩, -⟩ := lays.idle
    have below' : holding.Below level between := below.congr rises.current
    exact ⟨(Holding.Keeps.of_rises rises below stands).trans_empty (.of_falls falls below'),
      fun _ => below'.rests.congr falls.current⟩
  · obtain ⟨level, lays, below, stands⟩ := lays isReady
    obtain ⟨rises, reaches, -⟩ := lays.comes engine place start agrees comes
    have goesOn : holding.Ready start := below.ready_of_rises stands rises reaches
    refine ⟨.of_rises rises below stands, ?_⟩
    cases place with
    | host | loop stop => exact goesOn.rests
    | native method self args => exact goesOn
  · obtain ⟨-, -, ends⟩ := onward.comes engine place start agrees comes
    obtain ⟨level, below⟩ := isOther.exists_below
    have falls := (ends linked).1 level
    exact ⟨.of_falls falls below, fun _ => isOther.congr falls.current⟩

theorem crossesFrom_cycle (agrees : engine.Agrees True engine) (linked : machine.Linked True)
    (runs : machine.RunsFrom stop) :
    CrossesFrom holding (holding.Cycles machine) rests
      (Event.cycle stop machine).written engine machine fun engine => cycle engine stop :=
  .of_lays agrees (laysFrom_cycle linked stop (.inl (Machine.runsAbove_zero runs)))
    fun isReady => (isReady.exists_below runs).imp fun _ =>
      And.imp_left (laysFrom_cycle linked stop)

theorem CrossesFrom.of_reaching {action : Engine → VM α}
    [lays : ∀ level, Lays (Machine.ReachesTo level) level action]
    (agrees : engine.Agrees True engine)
    (linked : machine.Linked True) (readies : ready → holding.Ready machine) :
    CrossesFrom holding ready rests ∅ engine machine action :=
  .of_lays agrees ((lays 0).laysFrom machine linked (.inl rfl)) fun isReady =>
    (readies isReady).exists_below.imp fun level =>
      And.imp_left ((lays level).laysFrom machine linked)

/-! ### Resumes -/

section Resuming

variable {handle : Handle} {record : FiberRecord} {switched next last : Machine} {args : List Value}

theorem SwitchesTo.keeps (switches : SwitchesTo machine handle record switched) :
    holding.Keeps ∅ machine switched := by
  refine .of_keepsStack (fun id => .of_context?_eq (switches.context?_eq id))
    switches.restates.captures fun id =>
      switches.restates.started (by rw [switches.contexts]) fun other otherRecord notCreated => ?_
  split
  · exact nofun
  · split
    · exact nofun
    · exact notCreated

theorem LeavesTo.keeps {state : FiberState} {after : Machine}
    (leaves : LeavesTo last handle record state after) (notCreated : state ≠ .created) :
    holding.Keeps ∅ last after := by
  refine .of_keepsStack (fun id => ?_) leaves.restates.captures fun id =>
    leaves.restates.started leaves.contextCount fun other otherRecord wasNotCreated => ?_
  · by_cases isGone : state.isAlive = false ∧ id = record.context
    · exact .of_context?_eq_none ((leaves.contexts id).trans (if_pos isGone))
    · exact .of_context?_eq ((leaves.contexts id).trans (if_neg isGone))
  · split
    · exact notCreated
    · split
      · exact nofun
      · exact wasNotCreated

instance Rising.enterFiberBody (body : Handle) (args : List Value) :
    Rising (fun _ => True) 0 (VM.enterFiberBody body args) := by
  have above (index : Nat) : Fact (0 ≤ index) := ⟨Nat.zero_le _⟩
  unfold VM.enterFiberBody
  refine behind fun object => ?_
  dsimp only
  split
  · refine behind fun captured => behind fun self => behind fun _ => ?_
    infer_instance
  · refine behind fun self => behind fun _ => ?_
    infer_instance

section Started

variable (linked : machine.Linked True) (resumable : Resumable machine handle record)
  (isSwitch : switchTo handle record.context machine = .ok () switched)
  (switches : SwitchesTo machine handle record switched)

include linked resumable switches

omit linked resumable switches in
theorem startFiber_current (linked : switched.Linked True) :
    ((startFiber record args).after switched).current = switched.current := by
  rw [startFiber]
  split
  · exact ((Rising.enterFiberBody record.body args).risesFrom switched linked trivial).current
  · have falls : Falling 0 (completeYield args) := inferInstance
    exact (falls.fallsFrom switched linked).current

/-- A fiber that is resumed first has no window yet, and another one leaves the call in which it
handed values over. -/
theorem Resumable.keeps_started (rests : holding.Rests switched) :
    holding.Keeps ∅ machine ((startFiber record args).after switched) := by
  have linked' := switches.linked_after linked resumable.found resumable.waiting
  have keeps : holding.Keeps ∅ machine switched := switches.keeps
  rw [startFiber]
  split
  · rename_i isNew
    have rises := (Rising.enterFiberBody record.body args).risesFrom switched linked' trivial
    cases holding with
    | lower window =>
        refine Window.Keeps.of_bounds fun bounds =>
          Window.Keeps.trans keeps (.of_rises rises fun isCurrent => ?_)
        exact absurd isNew (bounds.started.2 handle record resumable.found
          (switches.current.symm.trans isCurrent.symm))
    | whole id => exact keeps.trans (.of_rises rises rests trivial)
  · obtain ⟨level, below⟩ := rests.exists_below
    have falls : Falling level (completeYield args) := inferInstance
    exact keeps.trans (.of_falls (falls.fallsFrom switched linked') below)

include isSwitch

/-- How a fiber is left depends on the end of its cycle only. -/
theorem Resumable.leavesTo {result : Except Failure Exit} (agrees : engine.Agrees True engine)
    (ran : runFiber engine record args switched = ended result last)
    (isIntact : IsIntact (resumeFiber engine handle record args machine)) :
    ∃ record', record'.context = record.context ∧
      LeavesTo last handle record' (stateBehind result)
        ((resumeFiber engine handle record args).after machine) := by
  have resumed := resumeFiber_of_ended isSwitch ran
  rw [resumed] at isIntact
  have cycle : TracksFrom True (fun _ _ => True) (EndsCycle True) switched
      (runFiber engine record args) (runFiber engine record args) :=
    resumable.tracksFrom_runFiber linked switches args
  obtain ⟨leads, outcome, after, isLeft, -, returns⟩ :=
    resumable.returns linked switches cycle ran isIntact
  obtain ⟨record', -, isStack, leaves⟩ := returns.leaves
  rw [after_congr (resumed.trans isLeft), after_resolve]
  exact ⟨record', isStack.symm.trans (leads.beside.current.trans switches.current), leaves⟩

theorem Resumable.keeps_ended {result : Except Failure Exit} (agrees : engine.Agrees True engine)
    (ran : runFiber engine record args switched = ended result last)
    (isIntact : IsIntact (resumeFiber engine handle record args machine)) :
    holding.Keeps ∅ last ((resumeFiber engine handle record args).after machine) := by
  obtain ⟨record', -, leaves⟩ := resumable.leavesTo linked isSwitch switches agrees ran isIntact
  refine leaves.keeps ?_
  cases result with
  | ok exit => cases exit <;> exact nofun
  | error failure => exact nofun

/-- A fiber whose cycle failed is gone with its stack, whatever was done to it. -/
theorem Resumable.keeps_failed {failure : Failure} (agrees : engine.Agrees True engine)
    (ran : runFiber engine record args switched = ended (.error failure) last)
    (goesOn : holding.Rests switched → holding.Keeps ∅ machine last)
    (isIntact : IsIntact (resumeFiber engine handle record args machine)) :
    holding.Keeps ∅ machine ((resumeFiber engine handle record args).after machine) := by
  by_cases rests : holding.Rests switched
  · exact (goesOn rests).trans (resumable.keeps_ended linked isSwitch switches agrees ran isIntact)
  · cases holding with
    | lower window => exact absurd trivial rests
    | whole id =>
        obtain ⟨record', isStack, leaves⟩ :=
          resumable.leavesTo linked isSwitch switches agrees ran isIntact
        have isOwn : id = record'.context :=
          (Classical.not_not.mp rests).trans (switches.current.trans isStack.symm)
        refine .inl ?_
        rw [Machine.framesOf, leaves.contexts, if_pos ⟨rfl, isOwn⟩]
        rfl

omit linked resumable isSwitch switches in
theorem keeps_level (machine : Machine) (depth : Nat) :
    holding.Keeps ∅ machine { machine with nativeDepth := depth } :=
  .of_keepsStacks ⟨rfl, rfl, fun _ _ => .of_context?_eq rfl, fun _ _ => id, fun _ => id⟩

/-- Without an engine that goes on, a resume fails. -/
theorem Resumable.keeps_idle
    (isIntact : IsIntact (resumeFiber (.ofHosts #[] 0) handle record args machine)) :
    holding.Keeps ∅ machine ((resumeFiber (.ofHosts #[] 0) handle record args).after machine) := by
  have agrees : (Engine.ofHosts #[] 0).Agrees True (.ofHosts #[] 0) := Engine.agrees_idle True
  have starts (rests : holding.Rests switched) :
      holding.Keeps ∅ machine ((startFiber record args).after switched) :=
    resumable.keeps_started linked switches rests
  cases began : startFiber record args switched with
  | error failure next =>
      rw [after_of_error began] at starts
      have ran : runFiber (.ofHosts #[] 0) record args switched = ended (.error failure) next :=
        bind_of_error began
      exact resumable.keeps_failed linked isSwitch switches agrees ran starts isIntact
  | ok _ next =>
      rw [after_of_ok began] at starts
      have ran : runFiber (.ofHosts #[] 0) record args switched =
          ended (.error .outOfFuel) (shallower (deeper next)) :=
        @Resumable.runFiber_of_started _ _ _ _ _ _ linked resumable switches _ began _
          (.error .outOfFuel) _ rfl
      refine resumable.keeps_failed linked isSwitch switches agrees ran (fun rests => ?_) isIntact
      exact (starts rests).trans ((keeps_level next _).trans (keeps_level (deeper next) _))

/-- A resume keeps what all stacks hold but that of the fiber, up to the loop of the fiber and
behind it. -/
theorem Resumable.crossesFrom (agrees : engine.Agrees True engine)
    (spared : ready → ∀ place start,
      engine.ComesTo (fun engine => resumeFiber engine handle record args) machine place start →
      holding.Rests start) :
    CrossesFrom holding ready False ∅ engine machine fun engine =>
      resumeFiber engine handle record args := by
  have idles (isIntact : IsIntact (resumeFiber (.ofHosts #[] 0) handle record args machine)) :
      holding.Keeps ∅ machine ((resumeFiber (.ofHosts #[] 0) handle record args).after machine) :=
    resumable.keeps_idle linked isSwitch switches isIntact
  cases began : startFiber record args switched with
  | error failure next =>
      have same (engine engine' : Engine) : resumeFiber engine' handle record args machine =
          resumeFiber engine handle record args machine :=
        (resumeFiber_of_notStarted isSwitch began engine').trans
          (resumeFiber_of_notStarted isSwitch began engine).symm
      exact .of_alike same fun _ isIntact => ⟨idles isIntact, False.elim⟩
  | ok _ next =>
      have asks :
        AsksAt True ∅ machine (fun engine => resumeFiber engine handle record args) (.loop 0)
          (deeper next) := asksAt_of_started linked resumable isSwitch switches began
      refine ⟨fun _ isIntact => ⟨idles isIntact, False.elim⟩, fun isReady place start comes => ?_,
        fun place start comes _ isIntact _ => ⟨?_, False.elim⟩⟩
      · have rests := spared isReady place start comes
        obtain ⟨rfl, rfl⟩ := asks.eq_of_comesTo comes
        have isCurrent : next.current = switched.current := by
          rw [← after_of_ok began]
          exact startFiber_current (switches.linked_after linked resumable.found resumable.waiting)
        have starts : holding.Keeps ∅ machine ((startFiber record args).after switched) :=
          resumable.keeps_started linked switches (rests.congr isCurrent.symm)
        rw [after_of_ok began] at starts
        exact ⟨starts.trans (keeps_level next _), rests⟩
      · obtain ⟨rfl, rfl⟩ := asks.eq_of_comesTo comes
        obtain ⟨result, last, ran⟩ := exists_ended (engine.loop 0) (deeper next)
        have isLast : (engine.loop 0).after (deeper next) = last := by
          rw [after, ran]
          cases result <;> rfl
        rw [Engine.behind, isLast]
        have ends : holding.Keeps ∅ (shallower last)
            ((resumeFiber engine handle record args).after machine) :=
          resumable.keeps_ended linked isSwitch switches agrees
            (resumable.runFiber_of_started linked switches began ran) isIntact
        exact (keeps_level last _).trans ends

end Started

end Resuming

theorem keeps_resume_idle (linked : machine.Linked True) (fiber : Value) (args : List Value)
    (isIntact : IsIntact (resume (.ofHosts #[] 0) fiber args machine)) :
    holding.Keeps ∅ machine ((resume (.ofHosts #[] 0) fiber args).after machine) := by
  by_cases isReady : ∃ handle record, fiber = .object handle ∧ Resumable machine handle record
  · obtain ⟨handle, record, rfl, resumable⟩ := isReady
    obtain ⟨switched, isSwitch, switches⟩ := switchTo_of_linked linked resumable.found
    have same := resume_of_resumable resumable (.ofHosts #[] 0) args
    rw [same] at isIntact
    rw [after_congr same]
    exact resumable.keeps_idle linked isSwitch switches isIntact
  · have rejected (handle : Handle) (record : FiberRecord) (isFiber : fiber = .object handle) :
        ¬ Resumable machine handle record :=
      fun resumable => isReady ⟨handle, record, isFiber, resumable⟩
    obtain ⟨failure, next, keeps, failed⟩ := resume_of_not_resumable rejected args
    rw [after_of_error (failed _)]
    exact .of_keepsStacks (.of_keepsFibers linked.wellFormed keeps)

theorem crossesFrom_resume (agrees : engine.Agrees True engine) (linked : machine.Linked True)
    (fiber : Value) (args : List Value)
    (spared : ready → holding.Spared engine (fun engine => resume engine fiber args) machine) :
    CrossesFrom holding ready False ∅ engine machine fun engine => resume engine fiber args := by
  by_cases isReady : ∃ handle record, fiber = .object handle ∧ Resumable machine handle record
  · obtain ⟨handle, record, rfl, resumable⟩ := isReady
    obtain ⟨switched, isSwitch, switches⟩ := switchTo_of_linked linked resumable.found
    have same (engine : Engine) := resume_of_resumable resumable engine args
    have crosses : CrossesFrom holding ready False ∅ engine machine fun engine =>
        resumeFiber engine handle record args :=
      resumable.crossesFrom linked isSwitch switches agrees fun isReady place start comes =>
        Holding.Spared.rests (spared isReady) (comes.congr fun engine => (same engine).symm)
    exact crosses.congr same
  · have rejected (handle : Handle) (record : FiberRecord) (isFiber : fiber = .object handle) :
        ¬ Resumable machine handle record :=
      fun resumable => isReady ⟨handle, record, isFiber, resumable⟩
    obtain ⟨failure, next, -, failed⟩ := resume_of_not_resumable rejected args
    exact .of_alike (fun engine engine' => by rw [failed, failed]) fun _ isIntact =>
      ⟨keeps_resume_idle linked fiber args isIntact, False.elim⟩

/-! ### Calls -/

/-- A call that code makes which is no bytecode keeps what is held below the frames there are, and
what is held by stacks that it does not make run. -/
theorem crossesFrom_of_calls {call : Engine → VM Value} (agrees : engine.Agrees True engine)
    (calls : Calls call) (linked : machine.Linked True) :
    CrossesFrom holding (holding.Ready machine ∧ holding.Spared engine call machine) False ∅ engine
      machine call := by
  cases calls with
  | entry isEntry =>
      cases isEntry with
      | resume fiber args => exact crossesFrom_resume agrees linked fiber args And.right
      | _ => exact .of_reaching agrees linked And.left
  | send receiver name args => exact .of_reaching agrees linked And.left

theorem keeps_hostAction {action : VM α} (linked : machine.Linked True)
    (isReady : holding.Ready machine) (asked : ∀ engine, HostAction engine action)
    (isIntact : IsIntact (action machine)) : holding.Keeps ∅ machine (action.after machine) := by
  have agrees : (Engine.ofHosts #[] 0).Agrees True (.ofHosts #[] 0) := Engine.agrees_idle True
  have rises [rising : ∀ level, Rising (fun _ => True) level action] :
      holding.Keeps ∅ machine (action.after machine) := by
    obtain ⟨level, -, below, stands⟩ := isReady.exists_below
    exact .of_rises ((rising level).risesFrom machine linked trivial) below stands
  have idle (call : Engine → VM α) (isCall : action = call (.ofHosts #[] 0))
      (crosses : CrossesFrom holding True False ∅ (.ofHosts #[] 0) machine call) :
      holding.Keeps ∅ machine (action.after machine) := by
    subst isCall
    exact (crosses.idle trivial isIntact).1
  cases asked (.ofHosts #[] 0) with
  | funcall receiver name args block =>
      exact idle (fun engine => funcall engine receiver name args block) rfl
        (.of_reaching agrees linked fun _ => isReady)
  | callProc proc args =>
      exact idle (fun engine => callProc engine proc args) rfl
        (.of_reaching agrees linked fun _ => isReady)
  | run unit =>
      exact idle (fun engine => VM.run engine unit) rfl
        (.of_reaching agrees linked fun _ => isReady)
  | load binary =>
      exact idle (fun engine => load engine binary) rfl
        (.of_reaching agrees linked fun _ => isReady)
  | loadInto binary target =>
      exact idle (fun engine => loadInto engine binary target) rfl
        (.of_reaching agrees linked fun _ => isReady)
  | resume fiber args => exact keeps_resume_idle linked fiber args isIntact
  | getVariable value name => exact @rises fun _ => Rising.seq
  | setVariable value name content => exact @rises fun _ => Rising.seq
  | getGlobal name => exact @rises fun _ => Rising.seq
  | setGlobal name value => exact @rises fun _ => Rising.seq
  | respondsToText value name => exact @rises fun _ => Rising.seq
  | pollResume waiter waker => exact @rises fun _ => Rising.withSignals _ _
  | pollTermination waiter waker => exact @rises fun _ => Rising.withSignals _ _
  | unpin pin => exact @rises fun _ => @Rising.ofQuiet _ _ _ _ (Quiet.unpin pin)
  | protect value => exact @rises fun _ => @Rising.ofQuiet _ _ _ _ (Quiet.protectValue value)
  | restoreArena mark => exact @rises fun _ => @Rising.ofQuiet _ _ _ _ (Quiet.restoreArena mark)
  | _ => exact rises

end VM

end RiteVm
