import Mathlib.Data.List.Induction
import Mathlib.Data.List.Nodup
import RiteVm.Fiber.Resume

/-!
Contract: what the signals of a fiber remember of everything that they were told, so that no waiter
misses the event that it waits for, and none is woken twice.

Owns:
- what the signals of a fiber are told, and histories of it from the start of the fiber on;
- the signals behind a history, read off the history;
- who waits for a cycle or for the end, as the history has it;
- what those rely on that wait for a cycle of a fiber or for its end;
- the theorem that every history keeps these promises in which no cycle follows the end.

A history is any interleaving of completed cycles with polls of any waiters and wakers. That a
machine tells its signals nothing else is not said here.
-/

namespace RiteVm

/-! ### Histories -/

/-- What the signals of a fiber are told. -/
inductive Signal where
  /-- a cycle is completed, and leaves the fiber in a state -/
  | cycle (state : FiberState)
  /-- a waiter for more cycles than a number is polled -/
  | pollResume (after : Nat) (waker : Waker)
  /-- a waiter for the end is polled -/
  | pollTermination (waker : Waker)
deriving DecidableEq, Repr

/-- The state that a fiber has ended in. -/
def FiberState.final? (state : FiberState) : Option FiberState :=
  if state.isAlive then none else some state

namespace Signal

/-- A cycle is completed. -/
def isCycle : Signal → Bool
  | cycle _ => true
  | _ => false

/-- The final state of a fiber, if its last cycle is completed. -/
def final? : Signal → Option FiberState
  | cycle state => state.final?
  | _ => none

end Signal

namespace FiberSignals

/-- The signals behind what they are told. -/
def told (signals : FiberSignals) : Signal → FiberSignals
  | .cycle state => (signals.completeCycle state).1
  | .pollResume after waker => (signals.pollResume after waker).1
  | .pollTermination waker => (signals.pollTermination waker).1

/-- The wakers that are woken by what the signals are told. -/
def wakes (signals : FiberSignals) : Signal → List Waker
  | .cycle state => (signals.completeCycle state).2
  | _ => []

/-- The signals of a fiber behind a history that began with the fiber. -/
def behind (history : List Signal) : FiberSignals := history.foldl told {}

end FiberSignals

/-- The number of completed cycles. -/
def completed (history : List Signal) : Nat := history.countP Signal.isCycle

/-- The state in which the fiber has ended. -/
def final? (history : List Signal) : Option FiberState := history.findSome? Signal.final?

/-- No cycle is completed behind the end of the fiber. -/
def EndsOnce (history : List Signal) : Prop :=
  history.Pairwise fun earlier later => earlier.final?.isSome → later.isCycle = false

instance (history : List Signal) : Decidable (EndsOnce history) :=
  inferInstanceAs (Decidable (List.Pairwise ..))

open FiberSignals

variable {history earlier later : List Signal} {signal : Signal} {state : FiberState}
  {signals : FiberSignals} {waker : Waker} {after : Nat}

theorem behind_concat : behind (history ++ [signal]) = (behind history).told signal := by
  rw [behind, List.foldl_append]
  rfl

theorem completed_append : completed (earlier ++ later) = completed earlier + completed later :=
  List.countP_append ..

theorem final?_append : final? (earlier ++ later) = (final? earlier).or (final? later) :=
  List.findSome?_append ..

theorem final?_of_append (isFinal : final? earlier = some state) :
    final? (earlier ++ later) = some state := by
  rw [final?_append, isFinal, Option.some_or]

theorem EndsOnce.of_prefix (endsOnce : EndsOnce later) (isPrefix : earlier <+: later) :
    EndsOnce earlier :=
  List.Pairwise.sublist isPrefix.sublist endsOnce

/-- As long as the fiber has not ended, it may complete another cycle. -/
theorem EndsOnce.concat (endsOnce : EndsOnce history)
    (alive : signal.isCycle → final? history = none) : EndsOnce (history ++ [signal]) := by
  refine List.pairwise_append.mpr ⟨endsOnce, List.pairwise_singleton _ _, ?_⟩
  intro first isFirst last isLast ended
  cases List.mem_singleton.mp isLast
  by_contra isCycle
  have noEnd := List.findSome?_eq_none_iff.mp (alive (eq_true_of_ne_false isCycle)) first isFirst
  rw [noEnd] at ended
  cases ended

/-- A fiber that completes a cycle has not ended before. -/
theorem EndsOnce.final?_eq_none (endsOnce : EndsOnce (history ++ [signal]))
    (isCycle : signal.isCycle) : final? history = none := by
  refine List.findSome?_eq_none_iff.mpr fun first isFirst => ?_
  have apart :=
    (List.pairwise_append.mp endsOnce).2.2 first isFirst signal (List.mem_singleton_self _)
  by_contra ended
  rw [apart (Option.isSome_iff_ne_none.mpr ended)] at isCycle
  cases isCycle

/-! ### The signals behind a history -/

theorem cycles_told : (signals.told signal).cycles =
    if signal.isCycle then signals.cycles + 1 else signals.cycles := by
  cases signal with
  | cycle state => rw [told, completeCycle]; split <;> rfl
  | pollResume after waker => rw [told, FiberSignals.pollResume]; split <;> rfl
  | pollTermination waker => rw [told, FiberSignals.pollTermination]; split <;> rfl

theorem finished_told : (signals.told signal).finished = signal.final?.or signals.finished := by
  cases signal with
  | cycle state =>
      rw [told, completeCycle, Signal.final?, FiberState.final?]
      cases state.isAlive <;> rfl
  | pollResume after waker => rw [told, FiberSignals.pollResume]; split <;> rfl
  | pollTermination waker => rw [told, FiberSignals.pollTermination]; split <;> rfl

theorem cycles_behind (history : List Signal) : (behind history).cycles = completed history := by
  induction history using List.reverseRecOn with
  | nil => rfl
  | append_singleton history signal inductionHypothesis =>
      rw [behind_concat, cycles_told, inductionHypothesis, completed_append, completed, completed,
        List.countP_singleton]
      split <;> rfl

/-- Only the last cycle leaves a final state behind. -/
theorem finished_behind (endsOnce : EndsOnce history) :
    (behind history).finished = final? history := by
  induction history using List.reverseRecOn with
  | nil => rfl
  | append_singleton history signal inductionHypothesis =>
      have single : final? [signal] = signal.final? := List.findSome?_singleton ..
      rw [behind_concat, finished_told, final?_append, single,
        inductionHypothesis (endsOnce.of_prefix (List.prefix_append ..))]
      cases isFinal : signal.final? with
      | none => rw [Option.none_or, Option.or_none]
      | some state =>
          have isCycle : signal.isCycle := by
            cases signal with
            | cycle => rfl
            | _ => cases isFinal
          rw [endsOnce.final?_eq_none isCycle, Option.some_or, Option.none_or]

/-! ### Readiness -/

/-- A waiter for more cycles than a number is ready. -/
def Resumed (history : List Signal) (after : Nat) : Prop :=
  after < completed history ∨ (final? history).isSome

/-- A waiter for the end is ready. -/
def Ended (history : List Signal) : Prop := (final? history).isSome

theorem Resumed.of_prefix (resumed : Resumed earlier after) (isPrefix : earlier <+: later) :
    Resumed later after := by
  obtain ⟨rest, rfl⟩ := isPrefix
  refine resumed.imp (fun more => ?_) fun ended => ?_
  · rw [completed_append]
    exact Nat.lt_add_right _ more
  · obtain ⟨state, isFinal⟩ := Option.isSome_iff_exists.mp ended
    exact Option.isSome_of_eq_some (final?_of_append isFinal)

/-- The poll of a waiter for cycles answers whether it is ready. -/
theorem pollResume_behind (endsOnce : EndsOnce history) (after : Nat) (waker : Waker) :
    ((behind history).pollResume after waker).2 = true ↔ Resumed history after := by
  have answer : ((behind history).pollResume after waker).2 = (behind history).isPast after := by
    rw [FiberSignals.pollResume]
    cases (behind history).isPast after <;> rfl
  rw [answer, isPast, cycles_behind, finished_behind endsOnce, Bool.or_eq_true, decide_eq_true_iff]
  exact .rfl

/-- The poll of a waiter for the end answers with the final state. -/
theorem pollTermination_behind (endsOnce : EndsOnce history) (waker : Waker) :
    ((behind history).pollTermination waker).2 = final? history := by
  rw [FiberSignals.pollTermination, finished_behind endsOnce]
  cases final? history <;> rfl

/-! ### Who waits -/

/-- A waiter for a cycle was polled with a waker while it was not ready, and no cycle was
completed since. -/
def AwaitsCycle (history : List Signal) (waker : Waker) : Prop :=
  ∃ earlier after later, history = earlier ++ .pollResume after waker :: later ∧
    ¬ Resumed earlier after ∧ completed later = 0

/-- A waiter for the end was polled with a waker, and the fiber has not ended. -/
def AwaitsEnd (history : List Signal) (waker : Waker) : Prop :=
  .pollTermination waker ∈ history ∧ ¬ Ended history

/-- Who waits for a cycle waits until the next one, or has just asked for it. -/
theorem awaitsCycle_concat :
    AwaitsCycle (history ++ [signal]) waker ↔ signal.isCycle = false ∧
      (AwaitsCycle history waker ∨
        ∃ after, signal = .pollResume after waker ∧ ¬ Resumed history after) := by
  constructor
  · rintro ⟨earlier, after, later, isHistory, pending, noCycle⟩
    rcases List.eq_nil_or_concat later with rfl | ⟨between, last, rfl⟩
    · obtain ⟨rfl, isSignal⟩ := List.append_inj' isHistory rfl
      cases List.singleton_inj.mp isSignal
      exact ⟨rfl, .inr ⟨after, rfl, pending⟩⟩
    · rw [List.concat_eq_append] at noCycle isHistory
      rw [← List.cons_append, ← List.append_assoc] at isHistory
      obtain ⟨rfl, isSignal⟩ := List.append_inj' isHistory rfl
      cases List.singleton_inj.mp isSignal
      rw [completed_append, Nat.add_eq_zero_iff] at noCycle
      refine ⟨?_, .inl ⟨earlier, after, between, rfl, pending, noCycle.1⟩⟩
      have notCycle := List.countP_eq_zero.mp noCycle.2 signal (List.mem_singleton_self _)
      exact eq_false_of_ne_true notCycle
  · rintro ⟨notCycle, ⟨earlier, after, later, rfl, pending, noCycle⟩ | ⟨after, rfl, pending⟩⟩
    · refine ⟨earlier, after, later ++ [signal], by simp, pending, ?_⟩
      rw [completed_append, noCycle, completed, List.countP_singleton, if_neg]
      rw [notCycle]
      exact Bool.false_ne_true
    · exact ⟨history, after, [], rfl, pending, rfl⟩

theorem mem_registerWaker {wakers : List Waker} {other : Waker} :
    other ∈ registerWaker wakers waker ↔ other ∈ wakers ∨ other = waker := by
  rw [registerWaker]
  split
  · rename_i known
    exact ⟨.inl, fun member => member.elim id fun same => same ▸ known⟩
  · rw [List.mem_append, List.mem_singleton]

theorem nodup_registerWaker {wakers : List Waker} (nodup : wakers.Nodup) :
    (registerWaker wakers waker).Nodup := by
  rw [registerWaker]
  split
  · exact nodup
  · rename_i unknown
    exact List.nodup_append.mpr ⟨nodup, List.nodup_singleton _, fun other member last isLast same =>
      unknown (List.mem_singleton.mp isLast ▸ same ▸ member)⟩

/-- However often a waker is registered, each list contains it once at most. -/
theorem nodup_behind (history : List Signal) :
    (behind history).resumeWakers.Nodup ∧ (behind history).terminationWakers.Nodup := by
  induction history using List.reverseRecOn with
  | nil => exact ⟨List.nodup_nil, List.nodup_nil⟩
  | append_singleton history signal inductionHypothesis =>
      obtain ⟨resumes, terminations⟩ := inductionHypothesis
      rw [behind_concat]
      cases signal with
      | cycle state =>
          rw [told, completeCycle]
          split
          · exact ⟨List.nodup_nil, terminations⟩
          · exact ⟨List.nodup_nil, List.nodup_nil⟩
      | pollResume after waker =>
          rw [told, FiberSignals.pollResume]
          split
          · exact ⟨resumes, terminations⟩
          · exact ⟨nodup_registerWaker resumes, terminations⟩
      | pollTermination waker =>
          rw [told, FiberSignals.pollTermination]
          split
          · exact ⟨resumes, terminations⟩
          · exact ⟨resumes, nodup_registerWaker terminations⟩

/-- The wakers in the list for a cycle are those that wait for one. -/
theorem mem_resumeWakers (endsOnce : EndsOnce history) :
    waker ∈ (behind history).resumeWakers ↔ AwaitsCycle history waker := by
  induction history using List.reverseRecOn with
  | nil =>
      refine ⟨fun member => (List.not_mem_nil member).elim, ?_⟩
      rintro ⟨earlier, after, later, isNil, -⟩
      exact absurd isNil.symm (List.append_ne_nil_of_right_ne_nil _ (List.cons_ne_nil _ _))
  | append_singleton history signal inductionHypothesis =>
      have endsOnce' := endsOnce.of_prefix (List.prefix_append history [signal])
      have inductionHypothesis := inductionHypothesis endsOnce'
      rw [behind_concat, awaitsCycle_concat, ← inductionHypothesis]
      cases signal with
      | cycle state =>
          have drained : ((behind history).told (.cycle state)).resumeWakers = [] := by
            rw [told, completeCycle]
            split <;> rfl
          rw [drained]
          exact ⟨fun member => (List.not_mem_nil member).elim, fun holds => by cases holds.1⟩
      | pollResume after other =>
          have answer := pollResume_behind endsOnce' after other
          rw [told]
          rw [FiberSignals.pollResume] at answer ⊢
          split at answer
          · rename_i isPast
            rw [if_pos isPast]
            refine ⟨fun member => ⟨rfl, .inl member⟩, fun ⟨_, waits⟩ => waits.elim id ?_⟩
            rintro ⟨_, isPoll, pending⟩
            cases isPoll
            exact absurd (answer.mp rfl) pending
          · rename_i notPast
            rw [if_neg notPast, mem_registerWaker]
            have pending : ¬ Resumed history after := fun resumed => by cases answer.mpr resumed
            refine ⟨fun member => ⟨rfl, member.imp_right ?_⟩, fun ⟨_, waits⟩ => waits.imp_right ?_⟩
            · rintro rfl
              exact ⟨after, rfl, pending⟩
            · rintro ⟨_, isPoll, _⟩
              cases isPoll
              rfl
      | pollTermination other =>
          have same : ((behind history).told (.pollTermination other)).resumeWakers =
              (behind history).resumeWakers := by
            rw [told, FiberSignals.pollTermination]
            split <;> rfl
          rw [same]
          refine ⟨fun member => ⟨rfl, .inl member⟩, fun ⟨_, waits⟩ => waits.elim id ?_⟩
          rintro ⟨_, isPoll, _⟩
          cases isPoll

/-- The wakers in the list for the end are those that wait for it. -/
theorem mem_terminationWakers (endsOnce : EndsOnce history) :
    waker ∈ (behind history).terminationWakers ↔ AwaitsEnd history waker := by
  induction history using List.reverseRecOn with
  | nil =>
      exact ⟨fun member => (List.not_mem_nil member).elim,
        fun waits => (List.not_mem_nil waits.1).elim⟩
  | append_singleton history signal inductionHypothesis =>
      have endsOnce' := endsOnce.of_prefix (List.prefix_append history [signal])
      have inductionHypothesis := inductionHypothesis endsOnce'
      have single : final? [signal] = signal.final? := List.findSome?_singleton ..
      rw [behind_concat, AwaitsEnd, Ended, final?_append, single, List.mem_append,
        List.mem_singleton]
      rw [AwaitsEnd, Ended] at inductionHypothesis
      cases signal with
      | cycle state =>
          rw [told, completeCycle, Signal.final?, FiberState.final?]
          cases isAlive : state.isAlive with
          | true => simpa using inductionHypothesis
          | false => simp
      | pollResume after other =>
          have same : ((behind history).told (.pollResume after other)).terminationWakers =
              (behind history).terminationWakers := by
            rw [told, FiberSignals.pollResume]
            split <;> rfl
          rw [same, inductionHypothesis]
          simp [Signal.final?]
      | pollTermination other =>
          have notFinal : (Signal.pollTermination other).final? = none := rfl
          rw [told, FiberSignals.pollTermination, finished_behind endsOnce', notFinal,
            Option.or_none]
          cases isFinal : final? history with
          | none =>
              rw [isFinal] at inductionHypothesis
              dsimp only
              rw [mem_registerWaker, inductionHypothesis]
              simp
          | some state =>
              rw [isFinal] at inductionHypothesis
              dsimp only
              rw [inductionHypothesis]
              simp

end RiteVm

namespace RiteVm

open FiberSignals

variable {history earlier later : List Signal} {signal : Signal} {waker : Waker} {after : Nat}

/-- What a waiter waits for happens in a part of a history, and wakes a waker there. -/
def WokenWhen (ready : List Signal → Prop) (earlier later : List Signal) (waker : Waker) : Prop :=
  ∃ between event rest, later = between ++ event :: rest ∧
    ¬ ready (earlier ++ between) ∧ ready (earlier ++ between ++ [event]) ∧
    waker ∈ (behind (earlier ++ between)).wakes event

/-- What those rely on that wait for a cycle of a fiber or for its end. -/
structure NoLostWakeUps (history : List Signal) : Prop where
  /-- a waiter from behind a number of cycles is ready iff more are completed, or the fiber has
  ended -/
  resume_ready : ∀ earlier, earlier <+: history → ∀ after waker,
    ((behind earlier).pollResume after waker).2 = true ↔
      after < completed earlier ∨ (final? earlier).isSome
  /-- a waiter for the end is ready iff the fiber has ended, and with the final state -/
  termination_ready : ∀ earlier, earlier <+: history → ∀ waker,
    ((behind earlier).pollTermination waker).2 = final? earlier
  /-- who is ready stays ready -/
  resume_stays : ∀ earlier later, earlier <+: later → later <+: history → ∀ after waker waker',
    ((behind earlier).pollResume after waker).2 = true →
      ((behind later).pollResume after waker').2 = true
  termination_stays : ∀ earlier later, earlier <+: later → later <+: history →
    ∀ waker waker' state, ((behind earlier).pollTermination waker).2 = some state →
      ((behind later).pollTermination waker').2 = some state
  /-- who was polled too early, with whatever waker, is woken when it gets ready -/
  resume_woken : ∀ earlier after waker later,
    earlier ++ .pollResume after waker :: later <+: history → after ≤ completed earlier →
    ((behind earlier).pollResume after waker).2 = false →
    Resumed (earlier ++ .pollResume after waker :: later) after →
      WokenWhen (Resumed · after) (earlier ++ [.pollResume after waker]) later waker
  termination_woken : ∀ earlier waker later,
    earlier ++ .pollTermination waker :: later <+: history →
    ((behind earlier).pollTermination waker).2 = none →
    Ended (earlier ++ .pollTermination waker :: later) →
      WokenWhen Ended (earlier ++ [.pollTermination waker]) later waker
  /-- a cycle wakes those that wait for it, and if it is the last one, those that wait for the
  end, each of both once -/
  cycle_wakes : ∀ earlier state, earlier ++ [.cycle state] <+: history →
    ∃ atEnd atCycle, (behind earlier).wakes (.cycle state) = atEnd ++ atCycle ∧
      atEnd.Nodup ∧ atCycle.Nodup ∧
      (∀ waker, waker ∈ atCycle ↔ AwaitsCycle earlier waker) ∧
      ∀ waker, waker ∈ atEnd ↔ state.isAlive = false ∧ AwaitsEnd earlier waker

/-- If something comes to hold in a part of a history, it does so with one event. -/
theorem exists_makesReady {ready : List Signal → Prop} (notYet : ¬ ready earlier)
    (isReady : ready (earlier ++ later)) :
    ∃ between event rest, later = between ++ event :: rest ∧
      ¬ ready (earlier ++ between) ∧ ready (earlier ++ between ++ [event]) := by
  induction later generalizing earlier with
  | nil => exact absurd (List.append_nil earlier ▸ isReady) notYet
  | cons event rest inductionHypothesis =>
      by_cases isNext : ready (earlier ++ [event])
      · exact ⟨[], event, rest, rfl, by rwa [List.append_nil], by rwa [List.append_nil]⟩
      · obtain ⟨between, last, more, rfl, before, behind⟩ :=
          inductionHypothesis isNext (List.append_cons .. ▸ isReady)
        rw [← List.append_cons] at before behind
        exact ⟨event :: between, last, more, rfl, before, behind⟩

/-- Only a cycle makes a waiter for cycles ready. -/
theorem isCycle_of_resumed (notYet : ¬ Resumed history after)
    (resumed : Resumed (history ++ [signal]) after) : signal.isCycle := by
  by_contra notCycle
  have single : final? [signal] = none := by
    cases signal with
    | cycle => exact absurd rfl notCycle
    | _ => rfl
  rw [Resumed, completed_append, completed, completed, List.countP_singleton, if_neg notCycle,
    final?_append, single, Option.or_none] at resumed
  exact notYet resumed

/-- Only a last cycle makes a waiter for the end ready. -/
theorem final?_of_ended (notYet : ¬ Ended history) (ended : Ended (history ++ [signal])) :
    ∃ state, signal = .cycle state ∧ state.isAlive = false := by
  have isNone : final? history = none := Option.not_isSome_iff_eq_none.mp notYet
  have single : final? [signal] = signal.final? := List.findSome?_singleton ..
  rw [Ended, final?_append, isNone, Option.none_or, single] at ended
  cases signal with
  | cycle state =>
      refine ⟨state, rfl, ?_⟩
      rw [Signal.final?, FiberState.final?] at ended
      by_contra isAlive
      rw [if_pos (eq_true_of_ne_false isAlive)] at ended
      cases ended
  | _ => cases ended

theorem wakes_cycle (signals : FiberSignals) (state : FiberState) :
    signals.wakes (.cycle state) =
      (if state.isAlive then [] else signals.terminationWakers) ++ signals.resumeWakers := by
  rw [wakes, completeCycle]
  cases state.isAlive <;> rfl

/-- Who waits for a cycle is woken when a waiter from no later than the poll gets ready. -/
theorem EndsOnce.resume_woken (endsOnce : EndsOnce history)
    (isPrefix : earlier ++ .pollResume after waker :: later <+: history)
    (inTime : after ≤ completed earlier) (pending : ¬ Resumed earlier after)
    (resumed : Resumed (earlier ++ .pollResume after waker :: later) after) :
    WokenWhen (Resumed · after) (earlier ++ [.pollResume after waker]) later waker := by
  have notYet : ¬ Resumed (earlier ++ [.pollResume after waker]) after := fun resumed => by
    cases isCycle_of_resumed pending resumed
  obtain ⟨between, event, rest, rfl, before, behind⟩ :=
    @exists_makesReady _ _ (Resumed · after) notYet (List.append_cons .. ▸ resumed)
  refine ⟨between, event, rest, rfl, before, behind, ?_⟩
  have isCycle := isCycle_of_resumed before behind
  rw [← List.append_cons] at before ⊢
  have awaits : AwaitsCycle (earlier ++ .pollResume after waker :: between) waker := by
    refine ⟨earlier, after, between, rfl, pending, ?_⟩
    have few : completed (earlier ++ .pollResume after waker :: between) ≤ after :=
      Nat.le_of_not_lt fun more => before (.inl more)
    rw [List.append_cons, completed_append, completed_append] at few
    omega
  have endsOnce' : EndsOnce (earlier ++ .pollResume after waker :: between) := by
    refine endsOnce.of_prefix (.trans ?_ isPrefix)
    rw [List.prefix_append_right_inj, List.cons_prefix_cons]
    exact ⟨rfl, List.prefix_append ..⟩
  cases event with
  | cycle state =>
      rw [wakes_cycle]
      exact List.mem_append_right _ ((mem_resumeWakers endsOnce').mpr awaits)
  | _ => cases isCycle

/-- Who waits for the end is woken by the last cycle. -/
theorem EndsOnce.termination_woken (endsOnce : EndsOnce history)
    (isPrefix : earlier ++ .pollTermination waker :: later <+: history)
    (pending : ¬ Ended earlier) (ended : Ended (earlier ++ .pollTermination waker :: later)) :
    WokenWhen Ended (earlier ++ [.pollTermination waker]) later waker := by
  have notYet : ¬ Ended (earlier ++ [.pollTermination waker]) := fun ended => by
    obtain ⟨_, isCycle, -⟩ := final?_of_ended pending ended
    cases isCycle
  obtain ⟨between, event, rest, rfl, before, behind⟩ :=
    exists_makesReady notYet (List.append_cons .. ▸ ended)
  refine ⟨between, event, rest, rfl, before, behind, ?_⟩
  obtain ⟨state, rfl, isEnd⟩ := final?_of_ended before behind
  rw [← List.append_cons] at before ⊢
  have endsOnce' : EndsOnce (earlier ++ .pollTermination waker :: between) := by
    refine endsOnce.of_prefix (.trans ?_ isPrefix)
    rw [List.prefix_append_right_inj, List.cons_prefix_cons]
    exact ⟨rfl, List.prefix_append ..⟩
  have awaits : AwaitsEnd (earlier ++ .pollTermination waker :: between) waker :=
    ⟨List.mem_append_right _ List.mem_cons_self, before⟩
  rw [wakes_cycle, isEnd]
  exact List.mem_append_left _ ((mem_terminationWakers endsOnce').mpr awaits)

/-- Whatever polls and cycles are interleaved, no wake-up is lost or repeated, as long as no
cycle follows the end of the fiber. -/
theorem EndsOnce.noLostWakeUps (endsOnce : EndsOnce history) : NoLostWakeUps history where
  resume_ready earlier isPrefix := pollResume_behind (endsOnce.of_prefix isPrefix)
  termination_ready earlier isPrefix := pollTermination_behind (endsOnce.of_prefix isPrefix)
  resume_stays earlier later isEarlier isLater after waker waker' ready := by
    have endsOnce' := endsOnce.of_prefix isLater
    have resumed := (pollResume_behind (endsOnce'.of_prefix isEarlier) after waker).mp ready
    exact (pollResume_behind endsOnce' after waker').mpr (resumed.of_prefix isEarlier)
  termination_stays earlier later isEarlier isLater waker waker' state ready := by
    have endsOnce' := endsOnce.of_prefix isLater
    rw [pollTermination_behind (endsOnce'.of_prefix isEarlier)] at ready
    rw [pollTermination_behind endsOnce']
    obtain ⟨rest, rfl⟩ := isEarlier
    exact final?_of_append ready
  resume_woken earlier after waker later isPrefix inTime pending resumed := by
    have endsOnce' := endsOnce.of_prefix ((List.prefix_append earlier _).trans isPrefix)
    refine endsOnce.resume_woken isPrefix inTime (fun isReady => ?_) resumed
    rw [(pollResume_behind endsOnce' after waker).mpr isReady] at pending
    cases pending
  termination_woken earlier waker later isPrefix pending ended := by
    have endsOnce' := endsOnce.of_prefix ((List.prefix_append earlier _).trans isPrefix)
    refine endsOnce.termination_woken isPrefix (fun isEnded => ?_) ended
    rw [pollTermination_behind endsOnce'] at pending
    rw [Ended, pending] at isEnded
    cases isEnded
  cycle_wakes earlier state isPrefix := by
    have endsOnce' := endsOnce.of_prefix ((List.prefix_append earlier _).trans isPrefix)
    obtain ⟨resumes, terminations⟩ := nodup_behind earlier
    refine ⟨_, _, wakes_cycle _ _, ?_, resumes, fun waker => mem_resumeWakers endsOnce', ?_⟩
    · split
      · exact List.nodup_nil
      · exact terminations
    · intro waker
      rw [← mem_terminationWakers endsOnce']
      cases state.isAlive <;> simp

/-- A waker that two waiters for cycles and one for the end share is woken once for a cycle,
and once for the end. -/
example :
    let history : List Signal :=
      [.pollResume 0 ⟨"loop"⟩, .pollResume 0 ⟨"loop"⟩, .pollTermination ⟨"loop"⟩, .cycle .suspended]
    (behind history.dropLast).wakes (.cycle .suspended) = [⟨"loop"⟩] ∧
      (behind history).wakes (.cycle .dead) = [⟨"loop"⟩] := by
  decide

end RiteVm
