import RiteVm.Proofs.Fibers.Asking

/-!
Contract: what happens in a run, in order.

Owns:
- the calls that are made by code which is no bytecode, and the cycles of all loops, as events
  in the order in which they begin and end;
- the events of a run, however deep it is nested;
- what is left of suspended fibers from one event to a later one.
-/

namespace RiteVm

/-! ### Events -/

/-- A call that code makes which is no bytecode. -/
inductive Calls : (Engine → VM Value) → Prop where
  | entry {call : Engine → VM Value} : EntryPoint call → Calls call
  | send (receiver : Value) (name : Symbol) (args : Args) :
      Calls fun engine => VM.callWithArgs engine receiver name args

/-- What happens in a run. -/
inductive Event where
  /-- a call is made -/
  | called (fuel : Nat) (call : Engine → VM Value) (machine : Machine)
  /-- a call that was made at a machine has ended -/
  | ended (fuel : Nat) (call : Engine → VM Value) (machine : Machine)
  /-- a loop begins a cycle -/
  | cycle (stop : Nat) (machine : Machine)

namespace Event

/-- The machine in which something happens. -/
def machine (hosts : Array HostMethod) : Event → Machine
  | called _ _ machine | cycle _ machine => machine
  | ended fuel call machine => (call (.ofHosts hosts fuel)).after machine

/-- The slots that are written on other stacks because a captured variable is set. -/
def written : Event → Set (ContextId × Nat)
  | cycle _ machine => {slot | machine.collectedIfDue.writtenSlot? = some slot}
  | called .. | ended .. => ∅

end Event

/-- What goes on for a while. -/
inductive Activity where
  /-- code that is no bytecode -/
  | code {α : Type} (action : Engine → VM α)
  /-- a call or a cycle, which starts one loop or method at most -/
  | part {α : Type} (action : Engine → VM α)
  /-- what the engine does at a place -/
  | answer (place : Place)

/-- From a machine, an activity has these events. -/
inductive Happens (catches : Failure → Bool) (hosts : Array HostMethod) :
    Nat → Activity → Machine → List Event → Prop where
  -- code
  | quiet {fuel : Nat} {machine : Machine} {α : Type} {action : VM α} :
      VM.Quiet action → Happens catches hosts fuel (.code fun _ => action) machine []
  | action {fuel : Nat} {machine : Machine} {α : Type} {action : VM α} :
      (∀ engine, HostAction engine action) →
      Happens catches hosts fuel (.code fun _ => action) machine []
  | call {fuel : Nat} {machine : Machine} {call : Engine → VM Value} {events : List Event} :
      Calls call → IsIntact (call (.ofHosts hosts fuel) machine) →
      Happens catches hosts fuel (.part call) machine events →
      Happens catches hosts fuel (.code call) machine
        (.called fuel call machine :: (events ++ [.ended fuel call machine]))
  | breaks {fuel : Nat} {machine : Machine} {call : Engine → VM Value} {events : List Event} :
      Calls call → ¬ IsIntact (call (.ofHosts hosts fuel) machine) →
      Happens catches hosts fuel (.part call) machine events →
      Happens catches hosts fuel (.code call) machine (.called fuel call machine :: events)
  | rescue {fuel : Nat} {machine : Machine} {α : Type} {body : Engine → VM α}
      {events : List Event} :
      Happens catches hosts fuel (.code body) machine events →
      Happens catches hosts fuel (.code fun engine => VM.rescue catches (body engine)) machine
        events
  | fails {fuel : Nat} {machine next : Machine} {α β : Type} {body : Engine → VM α}
      {rest : α → Engine → VM β} {failure : Failure} {events : List Event} :
      body (.ofHosts hosts fuel) machine = .error failure next →
      Happens catches hosts fuel (.code body) machine events →
      Happens catches hosts fuel (.code fun engine => body engine >>= fun value => rest value engine)
        machine events
  | next {fuel : Nat} {machine next : Machine} {α β : Type} {body : Engine → VM α}
      {rest : α → Engine → VM β} {value : α} {first second : List Event} :
      body (.ofHosts hosts fuel) machine = .ok value next →
      Happens catches hosts fuel (.code body) machine first →
      Happens catches hosts fuel (.code (rest value)) next second →
      Happens catches hosts fuel (.code fun engine => body engine >>= fun value => rest value engine)
        machine (first ++ second)
  | same {fuel : Nat} {machine : Machine} {α : Type} {body body' : Engine → VM α}
      {events : List Event} :
      (∀ engine, engine.rounds = fuel → body engine = body' engine) →
      Happens catches hosts fuel (.code body') machine events →
      Happens catches hosts fuel (.code body) machine events
  -- parts
  | nothing {fuel : Nat} {machine : Machine} {α : Type} {action : Engine → VM α} :
      (∀ engine engine', action engine' machine = action engine machine) →
      Happens catches hosts fuel (.part action) machine []
  | starts {fuel : Nat} {machine start : Machine} {α : Type} {action : Engine → VM α}
      {place : Place} {events : List Event} :
      (Engine.ofHosts hosts fuel).ComesTo action machine place start →
      Happens catches hosts fuel (.answer place) start events →
      Happens catches hosts fuel (.part action) machine events
  -- places
  | outOfFuel (place : Place) (machine : Machine) :
      Happens catches hosts 0 (.answer place) machine []
  | native {fuel : Nat} {machine : Machine} {method : NativeMethod} {self : Value} {args : Args}
      {events : List Event} :
      Happens catches hosts fuel (.code fun engine => VM.runMethod hosts engine method self args)
        machine events →
      Happens catches hosts (fuel + 1) (.answer (.native method self args)) machine events
  | last {fuel stop : Nat} {machine : Machine} {events : List Event} :
      (∀ next, VM.cycle (.ofHosts hosts fuel) stop machine ≠ .ok none next) →
      Happens catches hosts fuel (.part fun engine => VM.cycle engine stop) machine events →
      Happens catches hosts (fuel + 1) (.answer (.loop stop)) machine (.cycle stop machine :: events)
  | cycle {fuel stop : Nat} {machine next : Machine} {first second : List Event} :
      VM.cycle (.ofHosts hosts fuel) stop machine = .ok none next →
      Happens catches hosts fuel (.part fun engine => VM.cycle engine stop) machine first →
      Happens catches hosts fuel (.answer (.loop stop)) next second →
      Happens catches hosts (fuel + 1) (.answer (.loop stop)) machine
        (.cycle stop machine :: (first ++ second))

/-! ### From event to event -/

section Follows

variable {tidy : Prop} {hosts : Array HostMethod} {machine next after after' : Machine}
  {written : Set (ContextId × Nat)} {ends ends' : Prop} {events more : List Event}

/-- From a machine behind which slots are written, suspended fibers are kept up to the first
event, from each event to the next one, and up to the end, if there is one. -/
def Follows (tidy : Prop) (hosts : Array HostMethod) (ends : Prop) (after : Machine) :
    Machine → Set (ContextId × Nat) → List Event → Prop
  | machine, written, [] => ends → Machine.Moves tidy written machine after
  | machine, written, event :: rest =>
    Machine.Moves tidy written machine (event.machine hosts) ∧
      Follows tidy hosts ends after (event.machine hosts) event.written rest

theorem Follows.behind (moves : Machine.Moves tidy written machine next)
    (follows : Follows tidy hosts ends after next ∅ events) :
    Follows tidy hosts ends after machine written events := by
  cases events with
  | nil => exact fun isEnd => moves.trans_empty (follows isEnd)
  | cons event rest => exact ⟨moves.trans_empty follows.1, follows.2⟩

/-- A run that ends goes on with what comes behind its end. -/
theorem Follows.append (first : Follows tidy hosts ends next machine written events) (isEnd : ends)
    (second : next.Linked tidy → Follows tidy hosts ends' after next ∅ more) :
    Follows tidy hosts ends' after machine written (events ++ more) := by
  induction events generalizing machine written with
  | nil => exact .behind (first isEnd) (second (first isEnd).linked)
  | cons event rest inductionHypothesis => exact ⟨first.1, inductionHypothesis first.2⟩

theorem Follows.imp (follows : Follows tidy hosts ends next machine written events)
    (goesOn : ends' → ends ∧ (next.Linked tidy → Machine.Moves tidy ∅ next after)) :
    Follows tidy hosts ends' after machine written events := by
  induction events generalizing machine written with
  | nil =>
      intro isEnd
      obtain ⟨isEnd, moves⟩ := goesOn isEnd
      exact (follows isEnd).trans_empty (moves (follows isEnd).linked)
  | cons event rest inductionHypothesis => exact ⟨follows.1, inductionHypothesis follows.2⟩

/-- The slots that are written in a part of a run. -/
def writtenIn (events : List Event) : Set (ContextId × Nat) :=
  {slot | ∃ event ∈ events, slot ∈ event.written}

theorem Follows.drop {earlier : List Event} {event : Event}
    (follows : Follows tidy hosts ends after machine written (earlier ++ event :: more)) :
    (event.machine hosts).Linked tidy ∧
      Follows tidy hosts ends after (event.machine hosts) event.written more := by
  induction earlier generalizing machine written with
  | nil => exact ⟨follows.1.linked, follows.2⟩
  | cons _ rest inductionHypothesis => exact inductionHypothesis follows.2

theorem Follows.linked (follows : Follows tidy hosts ends after machine written events)
    (isEnd : ends) : after.Linked tidy := by
  induction events generalizing machine written with
  | nil => exact (follows isEnd).linked
  | cons event rest inductionHypothesis => exact inductionHypothesis follows.2

/-- Up to a later event, what the events in between have written. -/
theorem Follows.onward {between later : List Event} {event : Event}
    (follows : Follows tidy hosts ends after machine written (between ++ event :: later)) :
    machine.Onward (written ∪ writtenIn between) (event.machine hosts) := by
  induction between generalizing machine written with
  | nil => exact follows.1.onward.mono Set.subset_union_left
  | cons first rest inductionHypothesis =>
      refine (follows.1.onward.trans (inductionHypothesis follows.2)).mono ?_
      refine Set.union_subset Set.subset_union_left (Set.union_subset ?_ ?_)
      · exact fun slot isWritten => .inr ⟨first, List.mem_cons_self, isWritten⟩
      · rintro slot ⟨event, member, isWritten⟩
        exact .inr ⟨event, List.mem_cons_of_mem _ member, isWritten⟩

end Follows

/-! ### The events of a run -/

section Sound

variable {tidy : Prop} {catches : Failure → Bool} {hosts : Array HostMethod} {fuel stop : Nat}
  {machine next start : Machine} {events : List Event} {α : Type}

open VM

/-- Code that is no bytecode keeps suspended fibers unless it makes a call. -/
theorem VM.moves_hostAction {action : VM α} (linked : machine.Linked tidy)
    (asked : ∀ engine, HostAction engine action) (isIntact : IsIntact (action machine)) :
    Machine.Moves tidy ∅ machine (action.after machine) := by
  have carries [carries : Carries tidy action] : Machine.Moves tidy ∅ machine (action.after machine) :=
    carries.carriesFrom machine linked
  have idle (call : Engine → VM α) (isCall : action = call (.ofHosts #[] 0)) [asks : Asks tidy call] :
      Machine.Moves tidy ∅ machine (action.after machine) := by
    subst isCall
    exact (asks.asksFrom machine linked).moves_idle isIntact
  cases asked (.ofHosts #[] 0) with
  | funcall receiver name args block =>
      exact idle (fun engine => funcall engine receiver name args block) rfl
  | callProc proc args => exact idle (fun engine => callProc engine proc args) rfl
  | run unit => exact idle (fun engine => VM.run engine unit) rfl
  | load binary => exact idle (fun engine => load engine binary) rfl
  | loadInto binary target => exact idle (fun engine => loadInto engine binary target) rfl
  | resume fiber args => exact idle (fun engine => resume engine fiber args) rfl
  | getVariable value name => exact @carries Carries.seq
  | setVariable value name content => exact @carries Carries.seq
  | getGlobal name => exact @carries Carries.seq
  | setGlobal name value => exact @carries Carries.seq
  | respondsToText value name => exact @carries Carries.seq
  | unpin pin => exact @carries (@Carries.ofQuiet _ _ _ (Quiet.unpin pin))
  | protect value => exact @carries (@Carries.ofQuiet _ _ _ (Quiet.protectValue value))
  | restoreArena mark => exact @carries (@Carries.ofQuiet _ _ _ (Quiet.restoreArena mark))
  | _ => exact carries

/-- What is known of an activity in the machine that it begins in. Only a cycle writes slots of
other stacks before it starts anything. -/
def Activity.FitsIn (tidy : Prop) (machine : Machine) (written : Set (ContextId × Nat)) :
    Activity → Prop
  | .code _ => written = ∅ ∧ machine.Linked tidy
  | .part action =>
    AsksFrom tidy written machine action ∧
      ∀ engine engine', engine.Agrees tidy engine' → action engine' machine = action engine machine
  | .answer place => written = ∅ ∧ machine.FitsAt tidy place

/-- That an activity breaks no invariant. -/
def Activity.EndsIntact (engine : Engine) (machine : Machine) : Activity → Prop
  | .code action | .part action => IsIntact (action engine machine)
  | .answer place => engine.IntactAt place machine

/-- The machine behind an activity. -/
def Activity.behind (engine : Engine) (machine : Machine) : Activity → Machine
  | .code action | .part action => (action engine).after machine
  | .answer place => engine.behind place machine

theorem asksFrom_of_calls {call : Engine → VM Value} (calls : Calls call)
    (linked : machine.Linked tidy) : AsksFrom tidy ∅ machine call := by
  have asksFrom [asks : Asks tidy call] : AsksFrom tidy ∅ machine call :=
    asks.asksFrom machine linked
  cases calls with
  | entry isEntry => cases isEntry <;> exact asksFrom
  | send receiver name args => exact asksFrom

theorem alike_of_calls {call : Engine → VM Value} (calls : Calls call)
    (linked : machine.Linked tidy) (engine engine' : Engine) (agrees : engine.Agrees tidy engine') :
    call engine' machine = call engine machine := by
  have balanced : Balanced tidy tidy (call engine) (call engine') := by
    cases calls with
    | entry isEntry => exact .of_entryPoint isEntry
    | send receiver name args => infer_instance
  exact (balanced.balancedFrom machine linked).same

theorem Activity.fitsIn_call {call : Engine → VM Value} (calls : Calls call)
    (linked : machine.Linked tidy) : (Activity.part call).FitsIn tidy machine ∅ :=
  ⟨asksFrom_of_calls calls linked, alike_of_calls calls linked⟩

theorem Activity.fitsIn_cycle (linked : machine.Linked tidy) (runs : machine.RunsFrom stop) :
    (Activity.part fun engine => VM.cycle engine stop).FitsIn tidy machine
      (Event.cycle stop machine).written :=
  ⟨asksFrom_cycle linked stop, fun _ _ _ => (tracksFrom_cycle linked runs).same⟩

/-- An activity comes to machines only that fit their places. -/
theorem fitsAt_of_comesTo {action : Engine → VM α} {place : Place}
    (most : CatchesAtMost tidy catches) (conform : HostsConform catches hosts)
    (alike : ∀ engine engine', engine.Agrees tidy engine' →
      action engine' machine = action engine machine)
    (comes : (Engine.ofHosts hosts fuel).ComesTo action machine place start) :
    start.FitsAt tidy place := by
  obtain ⟨engine', same, differs⟩ := comes
  by_contra elsewhere
  exact differs (alike _ _ (same.agrees (Engine.agrees_ofHosts most conform fuel) elsewhere))

/-- What an engine does at a place keeps the machine linked. -/
theorem Engine.Agrees.linked_behind {engine : Engine} {place : Place}
    (agrees : engine.Agrees tidy engine) (fits : start.FitsAt tidy place)
    (isIntact : engine.IntactAt place start) : (engine.behind place start).Linked tidy := by
  obtain ⟨linked, runs⟩ := fits
  cases place with
  | host => exact linked
  | loop stop => exact ((agrees.loop stop start linked (runs stop rfl)).leads isIntact).linked
  | native method self args =>
      exact (((agrees.native method self args).balancedFrom start linked).leads isIntact).linked

theorem VM.after_rescue (catches : Failure → Bool) (action : VM α) (machine : Machine) :
    (rescue catches action).after machine = action.after machine := by
  rw [after, after, rescue]
  cases result : action machine with
  | ok value next => rw [bind_of_ok (attempt_of_ok result)]; rfl
  | error failure next =>
      rw [bind_of_ok (attempt_of_error result)]
      dsimp only
      by_cases caught : catches failure
      · rw [if_pos caught]; rfl
      · rw [if_neg caught]; rfl

theorem VM.isIntact_of_rescue (most : CatchesAtMost tidy catches) {action : VM α}
    (isIntact : IsIntact (rescue catches action machine)) : IsIntact (action machine) := by
  rw [rescue] at isIntact
  cases result : action machine with
  | ok value next => trivial
  | error failure next =>
      cases failure with
      | breach cause =>
          rw [bind_of_ok (attempt_of_error result)] at isIntact
          dsimp only at isIntact
          rw [most.notBreach, if_neg Bool.false_ne_true] at isIntact
          exact isIntact
      | _ => rfl

theorem runLoop_of_ok {exit? : Option Exit}
    (cycled : VM.cycle (.ofHosts hosts fuel) stop machine = .ok exit? next) :
    runLoop hosts (fuel + 1) stop machine =
      match exit? with
      | some exit => .ok exit next
      | none => runLoop hosts fuel stop next := by
  rw [runLoop]
  refine (bind_of_ok cycled).trans ?_
  cases exit? <;> rfl

theorem runLoop_of_error {failure : Failure}
    (cycled : VM.cycle (.ofHosts hosts fuel) stop machine = .error failure next) :
    runLoop hosts (fuel + 1) stop machine = .error failure next := by
  rw [runLoop]
  exact bind_of_error cycled

/-- A loop ends behind a cycle that it does not go on from. -/
theorem loop_of_last
    (isLast : ∀ next, VM.cycle (.ofHosts hosts fuel) stop machine ≠ .ok none next) :
    (IsIntact (runLoop hosts (fuel + 1) stop machine) →
      IsIntact (VM.cycle (.ofHosts hosts fuel) stop machine)) ∧
    (runLoop hosts (fuel + 1) stop).after machine =
      (VM.cycle (.ofHosts hosts fuel) stop).after machine := by
  cases cycled : VM.cycle (.ofHosts hosts fuel) stop machine with
  | ok exit? next =>
      cases exit? with
      | none => exact absurd cycled (isLast next)
      | some exit =>
          rw [after_of_ok cycled, after_of_ok (runLoop_of_ok cycled)]
          exact ⟨fun _ => trivial, rfl⟩
  | error failure next =>
      rw [after_of_error cycled, after_of_error (runLoop_of_error cycled), runLoop_of_error cycled]
      exact ⟨id, rfl⟩

/-- In a run, suspended fibers are kept from event to event, and up to its end. -/
theorem Happens.follows {activity : Activity} {written : Set (ContextId × Nat)}
    (most : CatchesAtMost tidy catches) (conform : HostsConform catches hosts)
    (happens : Happens catches hosts fuel activity machine events)
    (fits : activity.FitsIn tidy machine written) :
    Follows tidy hosts (activity.EndsIntact (.ofHosts hosts fuel) machine)
      (activity.behind (.ofHosts hosts fuel) machine) machine written events := by
  induction happens generalizing written with
  | quiet quiet =>
      obtain ⟨rfl, linked⟩ := fits
      exact fun _ => .of_keepsFibers linked (quiet.quietFrom _)
  | action asked =>
      obtain ⟨rfl, linked⟩ := fits
      exact fun isIntact => moves_hostAction linked asked isIntact
  | call calls isIntact _ inductionHypothesis =>
      obtain ⟨rfl, linked⟩ := fits
      have inside := inductionHypothesis (Activity.fitsIn_call calls linked)
      exact ⟨.refl linked, inside.append isIntact fun linked => ⟨.refl linked, fun _ => .refl linked⟩⟩
  | breaks calls isBroken _ inductionHypothesis =>
      obtain ⟨rfl, linked⟩ := fits
      have inside := inductionHypothesis (Activity.fitsIn_call calls linked)
      exact ⟨.refl linked, inside.imp fun isIntact => absurd isIntact isBroken⟩
  | @rescue fuel machine _ body _ _ inductionHypothesis =>
      have inside := inductionHypothesis fits
      dsimp only [Activity.behind, Activity.EndsIntact] at inside ⊢
      rw [after_rescue]
      exact inside.imp fun isIntact => ⟨isIntact_of_rescue most isIntact, .refl⟩
  | @fails fuel machine next _ _ body rest failure _ failed _ inductionHypothesis =>
      have inside := inductionHypothesis fits
      dsimp only [Activity.behind, Activity.EndsIntact] at inside ⊢
      rw [after_of_error failed, failed] at inside
      rw [after_of_error (bind_of_error failed), bind_of_error failed]
      exact inside
  | @next fuel machine next _ _ body rest value _ _ succeeded _ _ first second =>
      have inside := first fits
      dsimp only [Activity.behind, Activity.EndsIntact] at inside ⊢
      rw [after_of_ok succeeded, succeeded] at inside
      rw [after_bind_of_ok succeeded, bind_of_ok succeeded]
      exact inside.append trivial fun linked => second ⟨rfl, linked⟩
  | @same fuel machine _ body body' _ isSame _ inductionHypothesis =>
      have equal : body (.ofHosts hosts fuel) = body' (.ofHosts hosts fuel) := isSame _ rfl
      have inside := inductionHypothesis fits
      dsimp only [Activity.behind, Activity.EndsIntact] at inside ⊢
      rw [equal]
      exact inside
  | @nothing fuel machine _ action alike =>
      intro isIntact
      dsimp only [Activity.behind, Activity.EndsIntact] at isIntact ⊢
      rw [alike (.ofHosts #[] 0)] at isIntact
      rw [after_congr (alike (.ofHosts #[] 0) _)]
      exact fits.1.moves_idle isIntact
  | @starts fuel machine start _ action place _ comes _ inductionHypothesis =>
      obtain ⟨asks, alike⟩ := fits
      have fits := fitsAt_of_comesTo most conform alike comes
      have agrees : (Engine.ofHosts hosts fuel).Agrees tidy (.ofHosts hosts fuel) :=
        Engine.agrees_ofHosts most conform fuel
      rcases asks with ⟨alone, -⟩ | ⟨place', start', asksAt⟩
      · obtain ⟨engine', -, differs⟩ := comes
        exact absurd (alone _ _) differs
      · obtain ⟨rfl, rfl⟩ := asksAt.eq_of_comesTo comes
        refine .behind asksAt.moves ((inductionHypothesis ⟨rfl, fits⟩).imp fun isIntact => ?_)
        exact (asksAt.ends _ agrees (agrees.linked_behind fits) isIntact).imp_right
          fun goesOn _ => goesOn
  | outOfFuel place machine =>
      obtain ⟨rfl, fits⟩ := fits
      intro _
      cases place <;> exact .refl fits.1
  | native _ inductionHypothesis =>
      obtain ⟨rfl, fits⟩ := fits
      exact inductionHypothesis ⟨rfl, fits.1⟩
  | @last fuel stop machine _ isLast _ inductionHypothesis =>
      obtain ⟨rfl, linked, runs⟩ := fits
      have inside := inductionHypothesis (Activity.fitsIn_cycle linked (runs stop rfl))
      obtain ⟨isIntact, same⟩ := loop_of_last isLast
      refine ⟨.refl linked, inside.imp fun loops => ⟨isIntact loops, fun linked => ?_⟩⟩
      change Machine.Moves tidy ∅ _ ((runLoop hosts (fuel + 1) stop).after machine)
      rw [same]
      exact .refl linked
  | @cycle fuel stop machine next _ _ cycled _ _ first second =>
      obtain ⟨rfl, linked, runs⟩ := fits
      have inside := first (Activity.fitsIn_cycle linked (runs stop rfl))
      have fits := Machine.FitsAt.cycle most conform ⟨linked, runs⟩ cycled
      have goesOn : runLoop hosts (fuel + 1) stop machine = runLoop hosts fuel stop next :=
        runLoop_of_ok cycled
      dsimp only [Activity.behind, Activity.EndsIntact, Engine.behind, Engine.IntactAt] at inside ⊢
      rw [after_of_ok cycled, cycled] at inside
      have later := second ⟨rfl, fits⟩
      dsimp only [Activity.behind, Activity.EndsIntact, Engine.behind, Engine.IntactAt] at later
      refine ⟨.refl linked, inside.append trivial fun _ => ?_⟩
      change Follows tidy hosts (IsIntact (runLoop hosts (fuel + 1) stop machine))
        ((runLoop hosts (fuel + 1) stop).after machine) _ _ _
      rw [goesOn, after_congr goesOn]
      exact later

end Sound

end RiteVm
