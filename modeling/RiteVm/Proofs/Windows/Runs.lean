import RiteVm.Proofs.Fibers.EntryPoints
import RiteVm.Proofs.Windows.Crossings

/-!
Contract: in a run, what is held is kept from event to event.

Owns:
- runs that keep what is held as long as what begins in them leaves it alone;
- the theorem that every run does, by induction on its events;
- what is left of it behind a part of a run, apart from captured variables that were written.

Whether an event leaves alone what is held is not known of the run but asked at every event, so an
event that writes into a window, or at which its frames are gone, ends what is known of it.
-/

namespace RiteVm

open RiteVm.Bytecode VM

variable {holding : Holding} {catches : Failure → Bool} {hosts : Array HostMethod} {fuel : Nat}
  {machine next after after' : Machine} {written : Set (ContextId × Nat)}
  {ends ends' ready ready' rests level level' : Prop} {events more : List Event}

/-! ### From event to event -/

/-- From a machine that is ready, a window is kept up to the first event, from each event that is
ready to the next one, and up to the end, if there is one. Behind the end, the machine is on its
level. -/
def Spans (holding : Holding) (hosts : Array HostMethod) (ends : Prop) (after : Machine)
    (level : Prop) :
    Machine → Set (ContextId × Nat) → Prop → List Event → Prop
  | machine, written, ready, [] => ready → ends → holding.Keeps written machine after ∧ level
  | machine, written, ready, event :: rest =>
    (ready → holding.Keeps written machine (event.machine hosts)) ∧
      Spans holding hosts ends after level (event.machine hosts) event.written
        (holding.ReadyFor hosts event) rest

namespace Spans

theorem behind (keeps : ready → holding.Keeps written machine next ∧ ready')
    (spans : Spans holding hosts ends after level next ∅ ready' events) :
    Spans holding hosts ends after level machine written ready events := by
  cases events with
  | nil =>
      intro isReady isEnd
      obtain ⟨keeps, isReady⟩ := keeps isReady
      exact (spans isReady isEnd).imp_left keeps.trans_empty
  | cons event rest =>
      refine ⟨fun isReady => ?_, spans.2⟩
      obtain ⟨keeps, isReady⟩ := keeps isReady
      exact keeps.trans_empty (spans.1 isReady)

/-- A run that ends goes on with what comes behind its end. -/
theorem append (first : Spans holding hosts ends next level machine written ready events)
    (isEnd : ends) (second : Spans holding hosts ends' after level' next ∅ level more) :
    Spans holding hosts ends' after level' machine written ready (events ++ more) := by
  induction events generalizing machine written ready with
  | nil => exact .behind (fun isReady => first isReady isEnd) second
  | cons event rest inductionHypothesis => exact ⟨first.1, inductionHypothesis first.2⟩

theorem imp (spans : Spans holding hosts ends next level machine written ready events)
    (goesOn : ends' → ends ∧ (level → holding.Keeps ∅ next after ∧ level')) :
    Spans holding hosts ends' after level' machine written ready events := by
  induction events generalizing machine written ready with
  | nil =>
      intro isReady isEnd
      obtain ⟨isEnd, keeps⟩ := goesOn isEnd
      obtain ⟨first, isLevel⟩ := spans isReady isEnd
      exact (keeps isLevel).imp_left first.trans_empty
  | cons event rest inductionHypothesis => exact ⟨spans.1, inductionHypothesis spans.2⟩

theorem drop {earlier : List Event} {event : Event}
    (spans : Spans holding hosts ends after level machine written ready
      (earlier ++ event :: more)) :
    Spans holding hosts ends after level (event.machine hosts) event.written
      (holding.ReadyFor hosts event) more := by
  induction earlier generalizing machine written ready with
  | nil => exact spans.2
  | cons _ rest inductionHypothesis => exact inductionHypothesis spans.2

end Spans

/-! ### The events of a run -/

/-- An activity keeps a holding from the machine that it begins in, if this is ready. -/
def Activity.CrossesIn (holding : Holding) (ready rests : Prop) (written : Set (ContextId × Nat))
    (engine : Engine) (machine : Machine) : Activity → Prop
  | .code _ => ready → holding.Ready machine
  | .part action => CrossesFrom holding ready rests written engine machine action
  | .answer place => ready → ReadyAt holding place machine

/-- An activity ends on the stack that it began on, and code goes on unless it failed for good. -/
def Activity.OnLevel (holding : Holding) (rests : Prop) (engine : Engine) (machine : Machine) :
    Activity → Prop
  | .code action => holding.Rests ((action engine).after machine) ∧
    (IsMild (action engine machine) → holding.Ready ((action engine).after machine))
  | .part action => rests → holding.Rests ((action engine).after machine)
  | .answer place => holding.Rests (engine.behind place machine)

theorem VM.isMild_of_rescue {α : Type} (most : CatchesAtMost True catches) {action : VM α}
    (isMild : IsMild (rescue catches action machine)) : IsMild (action machine) := by
  rw [rescue] at isMild
  cases result : action machine with
  | ok value next => trivial
  | error failure next =>
      rw [bind_of_ok (attempt_of_error result)] at isMild
      dsimp only at isMild
      by_cases caught : catches failure
      · exact most.mild trivial failure caught
      · rw [if_neg caught] at isMild
        exact isMild

theorem VM.ready_hostAction {α : Type} {action : VM α} (linked : machine.Linked True)
    (isReady : holding.Ready machine) (asked : ∀ engine, HostAction engine action)
    (isIntact : IsIntact (action machine)) :
    holding.Rests (action.after machine) ∧
      (IsMild (action machine) → holding.Ready (action.after machine)) := by
  have agrees : (Engine.ofHosts #[] 0).Agrees True (.ofHosts #[] 0) := Engine.agrees_idle True
  have balanced : Balanced True True action action := .of_hostAction (asked (.ofHosts #[] 0))
  have balanced := balanced.balancedFrom machine linked
  refine ⟨isReady.rests.congr (balanced.leads isIntact).beside.current, fun isMild => ?_⟩
  have sameLevel := BalancedFrom.sameLevel balanced isMild
  exact isReady.congr sameLevel.current sameLevel.frames

/-- In a run, what is held is kept from event to event, and up to its end. -/
theorem Happens.spans {activity : Activity} (holding : Holding)
    (most : CatchesAtMost True catches) (conform : HostsConform catches hosts)
    (happens : Happens catches hosts fuel activity machine events)
    (fits : activity.FitsIn True machine written)
    (crosses : activity.CrossesIn holding ready rests written (.ofHosts hosts fuel) machine) :
    Spans holding hosts (activity.EndsIntact (.ofHosts hosts fuel) machine)
      (activity.behind (.ofHosts hosts fuel) machine)
      (activity.OnLevel holding rests (.ofHosts hosts fuel) machine)
      machine written ready events := by
  have agrees (fuel : Nat) : (Engine.ofHosts hosts fuel).Agrees True (.ofHosts hosts fuel) :=
    Engine.agrees_ofHosts most conform fuel
  -- whether the end is on the stack of the beginning is asked of each part anew, so `rests` varies
  induction happens generalizing written ready rests with
  | quiet quiet =>
      obtain ⟨rfl, linked⟩ := fits
      have keeps : Machine.KeepsStacks _ _ := .of_keepsFibers linked.wellFormed (quiet.quietFrom _)
      intro isReady _
      have isReady := (crosses isReady).congr keeps.current keeps.frames_eq
      exact ⟨.of_keepsStacks keeps, isReady.rests, fun _ => isReady⟩
  | action asked =>
      obtain ⟨rfl, linked⟩ := fits
      exact fun isReady isIntact => ⟨keeps_hostAction linked (crosses isReady) asked isIntact,
        ready_hostAction linked (crosses isReady) asked isIntact⟩
  | @call fuel _ _ _ calls isIntact _ inductionHypothesis =>
      obtain ⟨rfl, linked⟩ := fits
      have inside := inductionHypothesis (Activity.fitsIn_call calls linked)
        (crossesFrom_of_calls (agrees fuel) calls linked)
      exact ⟨fun _ => .refl, inside.append isIntact
        ⟨fun _ => .refl, fun isReady _ => ⟨.refl, Holding.Ready.rests isReady, fun _ => isReady⟩⟩⟩
  | @breaks fuel _ _ _ calls isBroken _ inductionHypothesis =>
      obtain ⟨rfl, linked⟩ := fits
      have inside := inductionHypothesis (Activity.fitsIn_call calls linked)
        (crossesFrom_of_calls (agrees fuel) calls linked)
      exact ⟨fun _ => .refl, inside.imp fun isIntact => absurd isIntact isBroken⟩
  | @rescue fuel machine _ body _ _ inductionHypothesis =>
      have inside := @inductionHypothesis _ _ True fits crosses
      dsimp only [Activity.behind, Activity.EndsIntact, Activity.OnLevel] at inside ⊢
      rw [after_rescue]
      exact inside.imp fun isIntact => ⟨isIntact_of_rescue most isIntact, fun ⟨rests, onLevel⟩ =>
        ⟨.refl, rests, fun isMild => onLevel (isMild_of_rescue most isMild)⟩⟩
  | @fails fuel machine next _ _ body rest failure _ failed _ inductionHypothesis =>
      have inside := @inductionHypothesis _ _ True fits crosses
      dsimp only [Activity.behind, Activity.EndsIntact, Activity.OnLevel] at inside ⊢
      rw [after_of_error failed, failed] at inside
      rw [after_of_error (bind_of_error failed), bind_of_error failed]
      exact inside
  | @next fuel machine next _ _ body rest value _ _ succeeded runs _ first second =>
      have linked : next.Linked True := by
        have follows := runs.follows most conform fits
        dsimp only [Activity.behind, Activity.EndsIntact] at follows
        rw [after_of_ok succeeded, succeeded] at follows
        exact follows.linked trivial
      have inside := @first _ _ True fits crosses
      dsimp only [Activity.behind, Activity.EndsIntact, Activity.OnLevel] at inside ⊢
      rw [after_of_ok succeeded, succeeded] at inside
      rw [after_bind_of_ok succeeded, bind_of_ok succeeded]
      exact inside.append trivial (@second _ _ True ⟨rfl, linked⟩ fun onLevel => onLevel.2 trivial)
  | @same fuel machine _ body body' _ isSame _ inductionHypothesis =>
      have equal : body (.ofHosts hosts fuel) = body' (.ofHosts hosts fuel) := isSame _ rfl
      have inside := @inductionHypothesis _ _ True fits crosses
      dsimp only [Activity.behind, Activity.EndsIntact, Activity.OnLevel] at inside ⊢
      rw [equal]
      exact inside
  | @nothing fuel machine _ action alike =>
      intro isReady isIntact
      dsimp only [Activity.behind, Activity.EndsIntact, Activity.OnLevel] at isIntact ⊢
      rw [alike (.ofHosts #[] 0)] at isIntact
      rw [after_congr (alike (.ofHosts #[] 0) _)]
      exact crosses.idle isReady isIntact
  | @starts fuel machine start _ action place _ comes _ inductionHypothesis =>
      obtain ⟨asks, alike⟩ := fits
      have fits := fitsAt_of_comesTo most conform alike comes
      rcases asks with ⟨alone, -⟩ | ⟨place', start', asksAt⟩
      · obtain ⟨engine', -, differs⟩ := comes
        exact absurd (alone _ _) differs
      · obtain ⟨rfl, rfl⟩ := asksAt.eq_of_comesTo comes
        -- up to the place, then what happens there, then behind it
        refine .behind (fun isReady => crosses.rises isReady _ _ comes)
          ((@inductionHypothesis _ _ True ⟨rfl, fits⟩ id).imp fun isIntact => ?_)
        obtain ⟨intactThere, -⟩ := asksAt.ends _ (agrees fuel) ((agrees fuel).linked_behind fits) isIntact
        exact ⟨intactThere,
          crosses.falls _ _ comes ((agrees fuel).linked_behind fits intactThere) isIntact⟩
  | outOfFuel place machine =>
      obtain ⟨rfl, fits⟩ := fits
      intro isReady _
      cases place with
      | host | loop stop => exact ⟨.refl, crosses isReady⟩
      | native method self args => exact ⟨.refl, Holding.Ready.rests (crosses isReady)⟩
  | native _ inductionHypothesis =>
      obtain ⟨rfl, fits⟩ := fits
      exact (@inductionHypothesis _ _ True ⟨rfl, fits.1⟩ crosses).imp fun isIntact =>
        ⟨isIntact, fun onLevel => ⟨.refl, onLevel.1⟩⟩
  | @last fuel stop machine _ isLast _ inductionHypothesis =>
      obtain ⟨rfl, linked, runs⟩ := fits
      have inside := @inductionHypothesis _ _ True (Activity.fitsIn_cycle linked (runs stop rfl))
        (crossesFrom_cycle (agrees fuel) linked (runs stop rfl))
      -- the loop ends where its last cycle does
      obtain ⟨isIntact, same⟩ := loop_of_last isLast
      refine ⟨fun _ => .refl, inside.imp fun loops => ⟨isIntact loops, fun rests => ?_⟩⟩
      change holding.Keeps ∅ _ ((runLoop hosts (fuel + 1) stop).after machine) ∧
        holding.Rests ((runLoop hosts (fuel + 1) stop).after machine)
      rw [same]
      exact ⟨.refl, rests trivial⟩
  | @cycle fuel stop machine next _ _ cycled _ _ first second =>
      obtain ⟨rfl, linked, runs⟩ := fits
      have inside := @first _ _ True (Activity.fitsIn_cycle linked (runs stop rfl))
        (crossesFrom_cycle (agrees fuel) linked (runs stop rfl))
      have fits := Machine.FitsAt.cycle most conform ⟨linked, runs⟩ cycled
      have goesOn : runLoop hosts (fuel + 1) stop machine = runLoop hosts fuel stop next :=
        runLoop_of_ok cycled
      dsimp only [Activity.behind, Activity.EndsIntact, Activity.OnLevel, Engine.behind,
        Engine.IntactAt] at inside ⊢
      rw [after_of_ok cycled, cycled] at inside
      have later :=
        @second _ _ True ⟨rfl, fits⟩ fun (rests : True → holding.Rests next) => rests trivial
      dsimp only [Activity.behind, Activity.EndsIntact, Activity.OnLevel, Engine.behind,
        Engine.IntactAt] at later
      refine ⟨fun _ => .refl, inside.append trivial ?_⟩
      change Spans holding hosts (IsIntact (runLoop hosts (fuel + 1) stop machine))
        ((runLoop hosts (fuel + 1) stop).after machine)
        (holding.Rests ((runLoop hosts (fuel + 1) stop).after machine)) _ _ _ _
      rw [goesOn, after_congr goesOn]
      exact later

/-! ### Captured variables -/

theorem Query.captures_of_capturedSlot? {env : Handle} {register : Nat} {slot : ContextId × Nat}
    (isSlot : Query.capturedSlot? env register machine = .ok (some slot)) :
    machine.heap.Captures slot.1 slot.2 := by
  obtain ⟨record, isRecord, isSlot⟩ := Query.bind_eq_ok_iff.mp isSlot
  obtain ⟨object, found, isEnv⟩ :=
    Option.bind_eq_some_iff.mp (Query.envRecord_eq_ok_iff.mp isRecord)
  replace isSlot : record.storage.slot? register = some slot := Except.ok.inj isSlot
  unfold EnvStorage.slot? at isSlot
  split at isSlot
  · rename_i id fiber base count onStack
    split at isSlot
    · rename_i inside
      cases isSlot
      exact ⟨env, object, found, record, fiber, base, count, isEnv, onStack, Nat.le_add_right _ _,
        Nat.add_lt_add_left inside base⟩
    · cases isSlot
  · cases isSlot

namespace Machine

/-- The slot that an instruction writes because it sets a captured variable is captured. -/
theorem captures_of_writtenSlot? {slot : ContextId × Nat}
    (isWritten : machine.writtenSlot? = some slot) :
    machine.heap.Captures slot.1 slot.2 := by
  have read : Query.writtenSlot? machine = .ok (some slot) := by
    rw [writtenSlot?] at isWritten
    cases read : Query.writtenSlot? machine with
    | error breach => rw [read] at isWritten; cases isWritten
    | ok slot? => rw [read] at isWritten; exact congrArg _ isWritten
  obtain ⟨frame, -, read⟩ := Query.bind_eq_ok_iff.mp read
  cases decoded : frame.unit.bind (instructionAt? ·.code frame.pc) with
  | none =>
      rw [decoded] at read
      cases read
  | some instruction =>
      rw [decoded] at read
      dsimp only at read
      split at read
      · obtain ⟨env?, -, read⟩ := Query.bind_eq_ok_iff.mp read
        cases env? with
        | none => cases read
        | some env => exact Query.captures_of_capturedSlot? read
      · cases read

/-- An instruction that calls a method sets no captured variable. -/
theorem CallsAt.writtenSlot?_eq_none {level : Nat} (calls : machine.CallsAt level) :
    machine.writtenSlot? = none := by
  obtain ⟨frame, unit, instruction, isFrame, isUnit, decoded, isCall, -⟩ := calls
  have noWrite : instruction.op ≠ .setCaptured := fun isWrite => nomatch isWrite ▸ isCall
  have read : Query.writtenSlot? machine = .ok none := by
    rw [Query.writtenSlot?, Query.bind_of_ok isFrame, isUnit]
    simp only [Option.bind_some, decoded, if_neg noWrite]
    rfl
  rw [writtenSlot?, read]

/-- Of some slots, those that closures have captured. -/
def captured (machine : Machine) (slots : Set (ContextId × Nat)) : Set (ContextId × Nat) :=
  {slot | slot ∈ slots ∧ machine.heap.Captures slot.1 slot.2}

end Machine

/-- What an event writes on other stacks is captured. -/
theorem Event.written_subset_captured (event : Event) (linked : (event.machine hosts).Linked True) :
    event.written ⊆ (event.machine hosts).captured event.written := by
  intro slot isWritten
  refine ⟨isWritten, ?_⟩
  cases event with
  | cycle stop machine =>
      exact (Machine.keepsStacks_collectedIfDue linked).captures _ _
        (Machine.captures_of_writtenSlot? isWritten)
  | called fuel call machine | ended fuel call machine => exact isWritten.elim

/-- A slot that is held and captured later on was captured before. -/
theorem Window.Keeps.trans_captured {window : Window} {written' : Set (ContextId × Nat)}
    (first : window.Keeps (machine.captured written) machine next)
    (second : window.Keeps (next.captured written') next after) :
    window.Keeps (machine.captured (written ∪ written')) machine after where
  bounds bounds := second.bounds (first.bounds bounds)
  kept bounds stands := by
    have later := second.kept (first.bounds bounds) stands
    have earlier := first.kept bounds later.stands
    refine
      { stands := earlier.stands
        bases := fun position inside =>
          (later.bases position inside).trans (earlier.bases position inside)
        slots := fun index below unwritten => ?_
        captures := fun index below captured =>
          earlier.captures index below (later.captures index below captured) }
    refine (later.slots index below fun isWritten => unwritten ?_).trans
      (earlier.slots index below fun isWritten => unwritten ?_)
    · exact ⟨.inr isWritten.1, earlier.captures index below isWritten.2⟩
    · exact ⟨.inl isWritten.1, isWritten.2⟩

theorem Holding.Keeps.trans_captured {written' : Set (ContextId × Nat)}
    (first : holding.Keeps (machine.captured written) machine next)
    (second : holding.Keeps (next.captured written') next after) :
    holding.Keeps (machine.captured (written ∪ written')) machine after := by
  cases holding with
  | lower window => exact Window.Keeps.trans_captured first second
  | whole id =>
      rcases second with gone | later
      · exact .inl gone
      · rcases first with gone | earlier
        · exact .inl (later.frames.trans gone)
        · refine .inr
            { frames := later.frames.trans earlier.frames
              slots := fun index unwritten => ?_
              captures :=
                fun index captured => earlier.captures index (later.captures index captured) }
          refine (later.slots index fun isWritten => unwritten ?_).trans
            (earlier.slots index fun isWritten => unwritten ?_)
          · exact ⟨.inr isWritten.1, earlier.captures index isWritten.2⟩
          · exact ⟨.inl isWritten.1, isWritten.2⟩

/-- As long as the events in between are ready, a later one finds what was held, apart from captured
variables that they have written. -/
theorem Spans.onward {between later : List Event} {event : Event}
    (spans : Spans holding hosts ends after level machine written ready (between ++ event :: later))
    (isReady : ready) (bounds : holding.Bounds machine)
    (captured : written ⊆ machine.captured written)
    (linked : ∀ other ∈ between, (other.machine hosts).Linked True)
    (readies : ∀ other ∈ between, holding.Bounds (other.machine hosts) →
      holding.ReadyFor hosts other) :
    holding.Keeps (machine.captured (written ∪ writtenIn between)) machine
      (event.machine hosts) := by
  induction between generalizing machine written ready with
  | nil =>
      refine (spans.1 isReady).mono fun slot isWritten => ?_
      exact ⟨.inl isWritten, (captured isWritten).2⟩
  | cons first rest inductionHypothesis =>
      have keeps := spans.1 isReady
      have bounds := keeps.bounds bounds
      have goesOn := inductionHypothesis spans.2 (readies first List.mem_cons_self bounds) bounds
        (first.written_subset_captured (linked first List.mem_cons_self))
        (fun other member => linked other (List.mem_cons_of_mem _ member))
        fun other member => readies other (List.mem_cons_of_mem _ member)
      refine ((keeps.mono captured).trans_captured goesOn).mono ?_
      rintro slot ⟨isWritten, isCaptured⟩
      refine ⟨isWritten.imp_right ?_, isCaptured⟩
      rintro (isWritten | ⟨other, member, isWritten⟩)
      · exact ⟨first, List.mem_cons_self, isWritten⟩
      · exact ⟨other, List.mem_cons_of_mem _ member, isWritten⟩

end RiteVm
