import RiteVm.Proofs.Fibers.Quiet
import RiteVm.Proofs.Wakeups.Histories

/-!
Contract: what a machine tells the signals of its fibers, and whom it wakes by that.

Owns:
- notices to the signals of all fibers, in order, and the wakers that are woken by them;
- machines whose signals remember notices;
- what is told on the way from one machine to a later one, if signals and fibers say the same
  about the end of a fiber, which they go on to do.

Who polls a fiber has its number, so signals outlive their fiber, and numbers are never given
twice. Signals that are not there yet remember nothing.
-/

namespace RiteVm

open FiberSignals

/-- What the signals with a number are told. -/
abbrev Notice := Nat × Signal

/-- What the signals with a number are told among other notices. -/
def heardBy (number : Nat) (notices : List Notice) : List Signal :=
  notices.filterMap fun notice => if notice.1 = number then some notice.2 else none

/-- The wakers that are woken by notices behind earlier ones. -/
def wokenBy (past : List Notice) : List Notice → List Waker
  | [] => []
  | notice :: rest =>
    (behind (heardBy notice.1 past)).wakes notice.2 ++ wokenBy (past ++ [notice]) rest

variable {number other : Nat} {signal : Signal} {past notices more : List Notice}

theorem heardBy_append :
    heardBy number (notices ++ more) = heardBy number notices ++ heardBy number more :=
  List.filterMap_append

theorem heardBy_concat (number other : Nat) (signal : Signal) (notices : List Notice) :
    heardBy other (notices ++ [(number, signal)]) =
      if number = other then heardBy other notices ++ [signal] else heardBy other notices := by
  have single : heardBy other [(number, signal)] = if number = other then [signal] else [] := by
    rw [heardBy, List.filterMap_cons]
    split <;> simp_all
  rw [heardBy_append, single]
  split
  · rfl
  · exact List.append_nil _

theorem wokenBy_append (past notices more : List Notice) :
    wokenBy past (notices ++ more) = wokenBy past notices ++ wokenBy (past ++ notices) more := by
  induction notices generalizing past with
  | nil => rw [List.append_nil]; rfl
  | cons notice rest inductionHypothesis =>
      rw [List.cons_append, wokenBy, wokenBy, inductionHypothesis, ← List.append_cons,
        List.append_assoc]

namespace Machine

variable {before machine after : Machine}

/-- The signals with a number. -/
def signalsOf (machine : Machine) (number : Nat) : FiberSignals := machine.signals.getD number {}

theorem signalsOf_of_set {signals : FiberSignals} (inside : number < before.signals.size)
    (isSet : after.signals = before.signals.setIfInBounds number signals) (other : Nat) :
    after.signalsOf other = if other = number then signals else before.signalsOf other := by
  rw [signalsOf, isSet, Array.getD_eq_getD_getElem?, Array.getElem?_setIfInBounds]
  by_cases same : other = number
  · rw [if_pos same, if_pos same.symm, if_pos inside, Option.getD_some]
  · rw [if_neg same, if_neg (Ne.symm same), signalsOf, Array.getD_eq_getD_getElem?]

theorem signalsOf_of_set_outside {signals : FiberSignals} (outside : ¬ number < before.signals.size)
    (isSet : after.signals = before.signals.setIfInBounds number signals) (other : Nat) :
    after.signalsOf other = before.signalsOf other := by
  rw [signalsOf, isSet, Array.setIfInBounds, dif_neg outside, signalsOf]

/-! ### What signals remember -/

/-- All that the signals of a machine remember is what they were told by notices. -/
structure Remembers (machine : Machine) (notices : List Notice) : Prop where
  signals : ∀ number, machine.signalsOf number = behind (heardBy number notices)
  endsOnce : ∀ number, EndsOnce (heardBy number notices)

/-- Signals of a machine are told something, and of everything else that concerns them nothing
changes. -/
structure Tells (before : Machine) (number : Nat) (signal : Signal) (after : Machine) : Prop where
  signals : ∀ other, after.signalsOf other =
    if other = number then (before.signalsOf number).told signal else before.signalsOf other
  woken : after.woken.toList =
    before.woken.toList ++ (before.signalsOf number).wakes signal
  allowed : signal.isCycle → (before.signalsOf number).finished = none

/-- Whatever is told to signals is remembered behind all that was told to them before. -/
theorem Tells.remembers (tells : before.Tells number signal after)
    (remembers : before.Remembers past) : after.Remembers (past ++ [(number, signal)]) where
  signals other := by
    rw [tells.signals, heardBy_concat]
    by_cases same : other = number
    · subst same
      rw [if_pos rfl, if_pos rfl, behind_concat, remembers.signals]
    · rw [if_neg same, if_neg (Ne.symm same), remembers.signals]
  endsOnce other := by
    rw [heardBy_concat]
    split
    · rename_i same
      subst same
      refine (remembers.endsOnce number).concat fun isCycle => ?_
      rw [← finished_behind (remembers.endsOnce number), ← remembers.signals]
      exact tells.allowed isCycle
    · exact remembers.endsOnce other

theorem Tells.woken_eq (tells : before.Tells number signal after)
    (remembers : before.Remembers past) :
    after.woken.toList = before.woken.toList ++ wokenBy past [(number, signal)] := by
  rw [tells.woken, remembers.signals, wokenBy, wokenBy, List.append_nil]

/-- What the signals of one machine remember is known to those of a later one, with what they
were told since, and by that and nothing else wakers were woken. -/
def Hears (before after : Machine) : Prop :=
  ∀ past, before.Remembers past → ∃ notices, after.Remembers (past ++ notices) ∧
    after.woken.toList = before.woken.toList ++ wokenBy past notices

namespace Hears

theorem of_same (signals : ∀ number, after.signalsOf number = before.signalsOf number)
    (woken : after.woken = before.woken) : before.Hears after := by
  intro past remembers
  refine ⟨[], ⟨fun number => ?_, fun number => ?_⟩, ?_⟩
  · rw [List.append_nil, signals, remembers.signals]
  · rw [List.append_nil]
    exact remembers.endsOnce number
  · rw [woken, wokenBy, List.append_nil]

theorem refl (machine : Machine) : machine.Hears machine := of_same (fun _ => rfl) rfl

theorem of_signals (signals : after.signals = before.signals) (woken : after.woken = before.woken) :
    before.Hears after :=
  of_same (fun number => by rw [signalsOf, signals, signalsOf]) woken

theorem of_tells (tells : before.Tells number signal after) : before.Hears after :=
  fun _ remembers => ⟨_, tells.remembers remembers, tells.woken_eq remembers⟩

theorem trans (first : before.Hears machine) (second : machine.Hears after) :
    before.Hears after := by
  intro past remembers
  obtain ⟨notices, remembers', woken⟩ := first past remembers
  obtain ⟨more, remembers'', woken'⟩ := second _ remembers'
  rw [List.append_assoc] at remembers''
  refine ⟨notices ++ more, remembers'', ?_⟩
  rw [woken', woken, wokenBy_append, List.append_assoc]

end Hears

/-- A poll completes no cycle and ends no fiber. -/
theorem same_of_poll (notCycle : signal.isCycle = false)
    (signals : after.signals =
      before.signals.setIfInBounds number ((before.signalsOf number).told signal)) (other : Nat) :
    (after.signalsOf other).cycles = (before.signalsOf other).cycles ∧
      (after.signalsOf other).finished = (before.signalsOf other).finished := by
  by_cases inside : number < before.signals.size
  · rw [signalsOf_of_set inside signals]
    split
    · rename_i same
      have notFinal : signal.final? = none := by
        cases signal with
        | cycle => cases notCycle
        | _ => rfl
      rw [cycles_told, notCycle, finished_told, notFinal, Option.none_or, same]
      exact ⟨rfl, rfl⟩
    · exact ⟨rfl, rfl⟩
  · rw [signalsOf_of_set_outside inside signals]
    exact ⟨rfl, rfl⟩

/-- A poll tells the signals that it is for, if they are there, and wakes nobody. -/
theorem Tells.of_poll (notCycle : signal.isCycle = false) (inside : number < before.signals.size)
    (signals : after.signals =
      before.signals.setIfInBounds number ((before.signalsOf number).told signal))
    (woken : after.woken = before.woken) : before.Tells number signal after where
  signals := signalsOf_of_set inside signals
  woken := by
    have nobody : (before.signalsOf number).wakes signal = [] := by
      cases signal with
      | cycle => cases notCycle
      | _ => rfl
    rw [woken, nobody, List.append_nil]
  allowed isCycle := absurd isCycle (ne_true_of_eq_false notCycle)

/-! ### Fibers and their signals -/

/-- The signals of every fiber have the state that it has ended in. -/
def SignalsFit (machine : Machine) : Prop :=
  ∀ handle record, machine.fiber? handle = some record →
    (machine.signalsOf record.signals).finished = record.state.final?

/-- On the way from one machine to another one, signals are told what they should be, and none
go away. -/
structure Informs (before after : Machine) : Prop where
  size_le : before.signals.size ≤ after.signals.size
  fit : before.SignalsFit → after.SignalsFit
  hears : before.SignalsFit → before.Hears after

namespace Informs

theorem trans (first : before.Informs machine) (second : machine.Informs after) :
    before.Informs after where
  size_le := Nat.le_trans first.size_le second.size_le
  fit fit := second.fit (first.fit fit)
  hears fit := (first.hears fit).trans (second.hears (first.fit fit))

/-- Fibers are who they were, and none of them ends. -/
theorem of_fibers (size_le : before.signals.size ≤ after.signals.size)
    (fibers : ∀ handle, after.fiber? handle = before.fiber? handle)
    (finished : ∀ number, (after.signalsOf number).finished = (before.signalsOf number).finished)
    (hears : before.Hears after) : before.Informs after where
  size_le := size_le
  fit fit handle record found := by
    rw [fibers] at found
    rw [finished]
    exact fit handle record found
  hears _ := hears

/-- Nothing is told. -/
theorem of_signals (fibers : ∀ handle, after.fiber? handle = before.fiber? handle)
    (signals : after.signals = before.signals) (woken : after.woken = before.woken) :
    before.Informs after :=
  of_fibers (Nat.le_of_eq (congrArg Array.size signals).symm) fibers
    (fun number => by rw [signalsOf, signals, signalsOf]) (.of_signals signals woken)

theorem refl (machine : Machine) : machine.Informs machine :=
  of_signals (fun _ => rfl) rfl rfl

theorem of_poll (fibers : ∀ handle, after.fiber? handle = before.fiber? handle)
    (notCycle : signal.isCycle = false)
    (signals : after.signals =
      before.signals.setIfInBounds number ((before.signalsOf number).told signal))
    (woken : after.woken = before.woken) : before.Informs after := by
  refine of_fibers ?_ fibers (fun other => (same_of_poll notCycle signals other).2) ?_
  · exact Nat.le_of_eq (by rw [signals, Array.size_setIfInBounds])
  · by_cases inside : number < before.signals.size
    · exact .of_tells (.of_poll notCycle inside signals woken)
    · exact .of_same (signalsOf_of_set_outside inside signals) woken

end Informs

end Machine

end RiteVm
