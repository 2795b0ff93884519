import RiteVm.Proofs.Fibers.InStep
import RiteVm.Proofs.Wakeups.Histories

/-!
Contract: whatever a host does, those that wait for a fiber are woken when it is time, once.

Owns:
- the machines that a host comes to, with everything that was told to the signals of fibers;
- what new waiters, polls, resumes and all other code of a host add to that;
- the theorem that no wake-up is lost or repeated, and that rejected resumes wake nobody.

What happens inside of a run, however deep it is nested, is told to signals as well. So the
notices behind a run contain the polls and cycles in it, in order.
-/

namespace RiteVm

open FiberSignals

variable {tidy : Prop} {config : Config} {catches : Failure → Bool} {hosts : Array HostMethod}
  {machine : Machine} {past : List Notice} {handle : Handle} {record : FiberRecord}

namespace Machine

/-- The machines that a host comes to from a new one, as long as it breaks no invariant. -/
inductive Hosted (config : Config) (catches : Failure → Bool) (hosts : Array HostMethod) :
    Machine → Prop where
  | new : Hosted config catches hosts (.new config)
  | host {machine : Machine} {α : Type} {body : Engine → VM α} (fuel : Nat) :
      Hosted config catches hosts machine → HostCode catches body →
      IsIntact (body (.ofHosts hosts fuel) machine) →
      Hosted config catches hosts ((body (.ofHosts hosts fuel)).after machine)

/-- What a host can rely on that waits for fibers of a machine, whose signals were told what
they remember. -/
structure ServesWaiters (catches : Failure → Bool) (hosts : Array HostMethod) (machine : Machine)
    (past : List Notice) : Prop where
  waiters : ∀ number, NoLostWakeUps (heardBy number past)
  /-- a fiber has ended, and in the same state, if its signals were told so -/
  ends : ∀ handle record, machine.fiber? handle = some record →
    final? (heardBy record.signals past) = record.state.final?
  /-- a new waiter waits for more cycles than were completed so far -/
  resumeWaiter : ∀ handle record, machine.fiber? handle = some record →
    record.signals < machine.signals.size ∧
      VM.resumeWaiter (.object handle) machine =
        .ok { signals := record.signals, after := completed (heardBy record.signals past) } machine
  terminationWaiter : ∀ handle record, machine.fiber? handle = some record →
    VM.terminationWaiter (.object handle) machine = .ok { signals := record.signals } machine
  /-- polls answer as what was told so far has it, and are told to the signals -/
  pollResume : ∀ (waiter : ResumeWaiter) (waker : Waker),
    waiter.signals < machine.signals.size → ∃ next : Machine,
      VM.pollResume waiter waker machine =
        .ok ((behind (heardBy waiter.signals past)).pollResume waiter.after waker).2 next ∧
      next.Remembers (past ++ [(waiter.signals, .pollResume waiter.after waker)]) ∧
      next.woken = machine.woken
  pollTermination : ∀ (waiter : TerminationWaiter) (waker : Waker),
    waiter.signals < machine.signals.size → ∃ next : Machine,
      VM.pollTermination waiter waker machine =
        .ok ((behind (heardBy waiter.signals past)).pollTermination waker).2 next ∧
      next.Remembers (past ++ [(waiter.signals, .pollTermination waker)]) ∧
      next.woken = machine.woken
  /-- a resume that is not rejected completes one cycle of its fiber, as the last thing it does -/
  resume : ∀ handle record args fuel, machine.fiber? handle = some record →
    ¬ machine.Rejects (.object handle) →
    IsIntact (VM.resume (.ofHosts hosts fuel) (.object handle) args machine) →
    let next := (VM.resume (.ofHosts hosts fuel) (.object handle) args).after machine
    ∃ notices state, next.Remembers (past ++ (notices ++ [(record.signals, .cycle state)])) ∧
      next.woken.toList = machine.woken.toList ++
        wokenBy past (notices ++ [(record.signals, .cycle state)]) ∧
      completed (heardBy record.signals notices) = 0
  /-- whatever a host does, its notices are told behind the earlier ones, and no wakers are
  woken but by them -/
  code : ∀ {α : Type} (body : Engine → VM α) (fuel : Nat), HostCode catches body →
    IsIntact (body (.ofHosts hosts fuel) machine) →
    let next := (body (.ofHosts hosts fuel)).after machine
    machine.signals.size ≤ next.signals.size ∧
      ∃ notices, next.Remembers (past ++ notices) ∧
        next.woken.toList = machine.woken.toList ++ wokenBy past notices

/-! ### Waiters and polls -/

theorem resumeWaiter_of_found (found : machine.fiber? handle = some record) :
    VM.resumeWaiter (.object handle) machine =
      .ok { signals := record.signals, after := (machine.signalsOf record.signals).cycles }
        machine := by
  have read : Query.fiberRecord handle machine = .ok record :=
    Query.fiberRecord_eq_ok_iff.mpr found
  rw [VM.resumeWaiter, VM.bind_of_ok (VM.expectFiber_of_found found),
    VM.bind_of_ok (VM.liftM_of_ok read)]
  rfl

theorem terminationWaiter_of_found (found : machine.fiber? handle = some record) :
    VM.terminationWaiter (.object handle) machine = .ok { signals := record.signals } machine := by
  have read : Query.fiberRecord handle machine = .ok record :=
    Query.fiberRecord_eq_ok_iff.mpr found
  rw [VM.terminationWaiter, VM.bind_of_ok (VM.expectFiber_of_found found),
    VM.bind_of_ok (VM.liftM_of_ok read)]
  rfl

/-- A poll is told to the signals behind what they remember. -/
theorem Remembers.poll {number : Nat} {signal : Signal} {next : Machine}
    (remembers : machine.Remembers past) (notCycle : signal.isCycle = false)
    (inside : number < machine.signals.size)
    (signals : next.signals =
      machine.signals.setIfInBounds number ((machine.signalsOf number).told signal))
    (woken : next.woken = machine.woken) : next.Remembers (past ++ [(number, signal)]) :=
  (Tells.of_poll notCycle inside signals woken).remembers remembers

/-! ### Resumes -/

theorem resumable_of_not_rejects (found : machine.fiber? handle = some record)
    (accepted : ¬ machine.Rejects (.object handle)) : VM.Resumable machine handle record where
  found := found
  waiting := by
    by_contra notWaiting
    obtain ⟨notCreated, notSuspended⟩ := not_or.mp notWaiting
    exact accepted (.notWaiting found notCreated notSuspended)
  calls := by
    by_contra full
    exact accepted (.resumes (Nat.le_of_not_lt full))
  room := by
    by_contra full
    exact accepted (.loops (Nat.le_of_not_lt full))

theorem Remembers.cycles_eq (remembers : machine.Remembers past) (number : Nat) :
    machine.cycles number = completed (heardBy number past) := by
  have isCycles : machine.cycles number = (machine.signalsOf number).cycles := rfl
  rw [isCycles, remembers.signals, cycles_behind]

/-- A fiber that is resumed completes one cycle of its own, whatever is told to others on the
way. -/
theorem Linked.resume_remembers {engine : Engine} {args : List Value} (linked : machine.Linked tidy)
    (agrees : engine.Agrees tidy engine) (fit : machine.SignalsFit)
    (remembers : machine.Remembers past) (resumable : VM.Resumable machine handle record)
    (isIntact : IsIntact (VM.resume engine (.object handle) args machine)) :
    ∃ notices state,
      ((VM.resume engine (.object handle) args).after machine).Remembers
        (past ++ (notices ++ [(record.signals, .cycle state)])) ∧
      ((VM.resume engine (.object handle) args).after machine).woken.toList =
        machine.woken.toList ++ wokenBy past (notices ++ [(record.signals, .cycle state)]) ∧
      completed (heardBy record.signals notices) = 0 := by
  obtain ⟨switched, isSwitch, switches⟩ := VM.switchTo_of_linked linked resumable.found
  obtain ⟨result, last, ran⟩ := VM.exists_ended (VM.runFiber engine record args) switched
  have resumed := (VM.resume_of_resumable resumable engine args).trans
    (VM.resumeFiber_of_ended isSwitch ran)
  rw [resumed] at isIntact
  have runs : VM.TracksFrom tidy (fun _ _ => True) (VM.EndsCycle tidy) switched
      (VM.runFiber engine record args) (VM.runFiber engine record args) :=
    resumable.tracksFrom_runFiber linked switches args
  obtain ⟨leads, outcome, after, isLeft, -, returns⟩ :=
    resumable.returns linked switches runs ran isIntact
  rw [VM.after_congr (resumed.trans isLeft), VM.after_resolve]
  obtain ⟨record', isLast, -, leaves⟩ := returns.leaves
  have informs := (switches.informs linked resumable.found resumable.waiting).trans
    leads.beside.informs
  obtain ⟨notices, rememberedLast, wokenLast⟩ := informs.hears fit past remembers
  -- the fiber is running up to the end of its cycle, so it completes no other one
  have switchedFiber := switches.restates.fibers handle
  rw [resumable.found, Option.map_some] at switchedFiber
  obtain ⟨-, ⟨between, isBetween, sameSignals⟩, sameCycles⟩ :=
    leads.beside.busy handle _ switches.busy switchedFiber
  cases isLast.symm.trans isBetween
  have running : last.currentFiber = some handle :=
    leads.beside.currentFiber.trans switches.currentFiber
  have tells := leaves.tells leads.linked isLast running (informs.fit fit)
  rw [sameSignals] at tells
  refine ⟨notices, VM.stateBehind result, ?_, ?_, ?_⟩
  · rw [← List.append_assoc]
    exact tells.remembers rememberedLast
  · rw [tells.woken_eq rememberedLast, wokenLast, wokenBy_append, List.append_assoc]
  · have cyclesSwitched : switched.cycles record.signals = machine.cycles record.signals := by
      rw [cycles, cycles, switches.signals]
    have sameCompleted : last.cycles record.signals = machine.cycles record.signals :=
      sameCycles.trans cyclesSwitched
    rw [rememberedLast.cycles_eq, remembers.cycles_eq, heardBy_append, completed_append]
      at sameCompleted
    omega

/-! ### Hosts -/

theorem signalsFit_new (config : Config) : (new config).SignalsFit := by
  have wellFormed : (empty config).heap.WellFormed := Heap.wellFormed_new config.collector
  intro handle record found
  rw [(keepsFibers_new config).fiber?_eq wellFormed] at found
  obtain ⟨object, isObject, -⟩ := Option.bind_eq_some_iff.mp found
  cases (Heap.get?_new _ handle).symm.trans isObject

theorem remembers_new (config : Config) : (new config).Remembers [] where
  signals number := by
    rw [signalsOf, (keepsFibers_new config).signals]
    rfl
  endsOnce _ := List.Pairwise.nil

/-- Code of a host runs in a linked machine beside the fibers in use. -/
theorem Linked.leads_hostCode (most : CatchesAtMost tidy catches)
    (conform : HostsConform catches hosts) (linked : machine.Linked tidy) {α : Type}
    {body : Engine → VM α} (code : HostCode catches body) {fuel : Nat}
    (isIntact : IsIntact (body (.ofHosts hosts fuel) machine)) :
    ((body (.ofHosts hosts fuel)).after machine).Linked tidy ∧
      machine.Beside ((body (.ofHosts hosts fuel)).after machine) := by
  have agrees := Engine.agrees_ofHosts most conform fuel
  have balanced : VM.Balanced tidy tidy (body (.ofHosts hosts fuel))
      (body (.ofHosts hosts fuel)) := .of_hostCode most code
  have leads := (balanced.balancedFrom machine linked).leads isIntact
  exact ⟨leads.linked, leads.beside⟩

/-- A machine is linked, and its signals know of the ends of fibers. -/
theorem Hosted.linked (most : CatchesAtMost tidy catches) (conform : HostsConform catches hosts)
    (hosted : Hosted config catches hosts machine) :
    machine.Linked tidy ∧ machine.SignalsFit ∧ ∃ past, machine.Remembers past := by
  induction hosted with
  | new => exact ⟨linked_new config, signalsFit_new config, [], remembers_new config⟩
  | @host machine _ body fuel _ code isIntact inductionHypothesis =>
      obtain ⟨linked, fit, past, remembers⟩ := inductionHypothesis
      obtain ⟨linked', beside⟩ := linked.leads_hostCode most conform code isIntact
      obtain ⟨notices, remembers', -⟩ := beside.informs.hears fit past remembers
      exact ⟨linked', beside.informs.fit fit, _, remembers'⟩

/-- What holds of a machine whose fibers and signals are in step serves those that wait. -/
theorem Linked.servesWaiters (most : CatchesAtMost tidy catches)
    (conform : HostsConform catches hosts) (linked : machine.Linked tidy)
    (fit : machine.SignalsFit) (remembers : machine.Remembers past) :
    machine.ServesWaiters catches hosts past where
  waiters number := (remembers.endsOnce number).noLostWakeUps
  ends handle record found := by
    rw [← finished_behind (remembers.endsOnce _), ← remembers.signals]
    exact fit handle record found
  resumeWaiter handle record found := by
    refine ⟨(linked.fits handle record found).signals_lt, ?_⟩
    rw [resumeWaiter_of_found found, ← remembers.cycles_eq]
    rfl
  terminationWaiter handle record found := terminationWaiter_of_found found
  pollResume waiter waker inside := by
    rw [← remembers.signals]
    exact ⟨_, rfl, remembers.poll rfl inside rfl rfl, rfl⟩
  pollTermination waiter waker inside := by
    rw [← remembers.signals]
    exact ⟨_, rfl, remembers.poll rfl inside rfl rfl, rfl⟩
  resume handle record args fuel found accepted isIntact :=
    linked.resume_remembers (Engine.agrees_ofHosts most conform fuel) fit remembers
      (resumable_of_not_rejects found accepted) isIntact
  code body fuel code isIntact := by
    have informs := (linked.leads_hostCode most conform code isIntact).2.informs
    exact ⟨informs.size_le, informs.hears fit past remembers⟩

/-- No wake-up of a fiber is lost or repeated, whatever a host does and whatever runs for it;
and wherever a resume is rejected, nobody is woken. -/
theorem wakeUps_exact (most : CatchesAtMost tidy catches) (conform : HostsConform catches hosts) :
    (∀ machine, Hosted config catches hosts machine →
      (∃ past, machine.Remembers past) ∧
        ∀ past, machine.Remembers past → machine.ServesWaiters catches hosts past) ∧
    ∀ place machine, Visited config catches hosts place machine →
      ∀ value args engine, machine.Rejects value → ∃ failure next,
        VM.resume engine value args machine = .error failure next ∧
          next.signals = machine.signals ∧ next.woken = machine.woken := by
  constructor
  · intro machine hosted
    obtain ⟨linked, fit, remembers⟩ := hosted.linked most conform
    exact ⟨remembers, fun past remembers => linked.servesWaiters most conform fit remembers⟩
  · intro place machine visited value args engine rejects
    have linked := (visited.fitsAt most conform).1
    obtain ⟨failure, next, failed, same⟩ := rejects.resume linked.wellFormed args engine
    exact ⟨failure, next, failed, same.signals, same.woken⟩

/-- A new machine, whose host rescues exceptions, serves those that wait for fibers, and to
resume nil wakes nobody. -/
theorem wakeUps_exact_rescuing :
    ServesWaiters Failure.isMild #[rescuingMethod Failure.isMild] (new {}) [] ∧
      ∃ failure next,
        VM.resume (.ofHosts #[rescuingMethod Failure.isMild] 100) .nil [] (new {}) =
          .error failure next ∧
        next.signals = (new {}).signals ∧ next.woken = (new {}).woken :=
  have most : CatchesAtMost True Failure.isMild := ⟨fun _ => rfl, fun _ _ => id⟩
  have wakeUps := @wakeUps_exact True {} _ _ most (hostsConform_rescuing Failure.isMild)
  ⟨(wakeUps.1 _ .new).2 [] (remembers_new {}), wakeUps.2 .host _ .new .nil [] _ (.noFiber nofun)⟩

end Machine

end RiteVm
