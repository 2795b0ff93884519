import RiteVm.Proofs.Windows.Cycles

/-!
Contract: what register stacks hold while calls are made above it or elsewhere.

Owns:
- the windows that the first frames of a stack own below a level, and what is kept of them;
- holdings, which are such windows or whole stacks that do not run;
- machines and events that are ready: what comes next goes on above a window, or on another
  stack than a whole one.

A window is kept only as long as its frames are there, so nothing is claimed of it behind an exit
that takes them off.
-/

namespace RiteVm

open RiteVm.Bytecode

/-- What the first frames of a register stack own below a level. -/
structure Window where
  stack : ContextId
  count : Nat
  level : Nat
  positive : 0 < count

namespace Window

variable {window : Window} {before machine after : Machine}
  {written written' : Set (ContextId × Nat)}
  {level : Nat}

/-! ### What is kept of a window -/

/-- All other frames of the stack are above the window, and its fiber was resumed. -/
structure Bounds (window : Window) (machine : Machine) : Prop where
  started : machine.Started window.stack
  above : Above window.level window.count (machine.framesOf window.stack)

/-- The frames of a window begin where they did, and their slots hold what they held, apart from
slots that were written. -/
structure Kept (window : Window) (written : Set (ContextId × Nat)) (before after : Machine) :
    Prop where
  stands : window.count ≤ (before.framesOf window.stack).length
  bases : ∀ position < window.count,
    ((after.framesOf window.stack)[position]?).map (·.base) =
      ((before.framesOf window.stack)[position]?).map (·.base)
  slots : ∀ index < window.level, (window.stack, index) ∉ written →
    after.slotOf window.stack index = before.slotOf window.stack index
  captures : ∀ index < window.level, after.heap.Captures window.stack index →
    before.heap.Captures window.stack index

/-- Other frames stay above a window, and it is kept if its frames are still there. -/
structure Keeps (window : Window) (written : Set (ContextId × Nat)) (before after : Machine) :
    Prop where
  bounds : window.Bounds before → window.Bounds after
  kept : window.Bounds before → window.count ≤ (after.framesOf window.stack).length →
    window.Kept written before after

theorem Kept.mono (kept : window.Kept written before after) (more : written ⊆ written') :
    window.Kept written' before after :=
  { kept with
    slots := fun index below unwritten =>
      kept.slots index below fun isWritten => unwritten (more isWritten) }

theorem Kept.trans (first : window.Kept written before machine)
    (second : window.Kept written machine after) : window.Kept written before after where
  stands := first.stands
  bases position inside := (second.bases position inside).trans (first.bases position inside)
  slots index below unwritten :=
    (second.slots index below unwritten).trans (first.slots index below unwritten)
  captures index below captured :=
    first.captures index below (second.captures index below captured)

namespace Keeps

theorem mono (keeps : window.Keeps written before after) (more : written ⊆ written') :
    window.Keeps written' before after :=
  ⟨keeps.bounds, fun bounds stands => (keeps.kept bounds stands).mono more⟩

theorem trans (first : window.Keeps written before machine)
    (second : window.Keeps written machine after) : window.Keeps written before after where
  bounds bounds := second.bounds (first.bounds bounds)
  kept bounds stands := by
    have kept := second.kept (first.bounds bounds) stands
    exact (first.kept bounds kept.stands).trans kept

/-- What a window is bounded by may be of use to keep it. -/
theorem of_bounds (keeps : window.Bounds before → window.Keeps written before after) :
    window.Keeps written before after :=
  ⟨fun bounds => (keeps bounds).bounds bounds, fun bounds => (keeps bounds).kept bounds⟩

/-- The stack of the window is left alone or vanishes. -/
theorem of_keepsStack (keeps : Machine.KeepsStack written window.stack before after)
    (captures : ∀ index, after.heap.Captures window.stack index →
      before.heap.Captures window.stack index)
    (started : before.Started window.stack → after.Started window.stack) :
    window.Keeps written before after where
  bounds bounds := by
    refine ⟨started bounds.started, ?_⟩
    rcases keeps with gone | ⟨sameFrames, -⟩
    · rw [gone]
      exact .of_length_le (Nat.zero_le _)
    · rw [sameFrames]
      exact bounds.above
  kept _ stands := by
    rcases keeps with gone | ⟨sameFrames, sameSlots⟩
    · rw [gone] at stands
      exact absurd stands (Nat.not_le.mpr window.positive)
    · exact
        { stands := sameFrames ▸ stands
          bases := fun position _ => by rw [sameFrames]
          slots := fun index _ => sameSlots index
          captures := fun index _ => captures index }

theorem of_rises (rises : before.Rises written level after)
    (ready : window.stack = before.current →
      window.level ≤ level ∧ window.count ≤ before.frames.length) :
    window.Keeps written before after := by
  by_cases isCurrent : window.stack = before.current
  · obtain ⟨lower, stands⟩ := ready isCurrent
    have sameFrames : after.framesOf window.stack = after.frames := by
      rw [Machine.frames, rises.current, isCurrent]
    have fresh : Above window.level before.frames.length after.frames :=
      fun index frame inside located =>
      (rises.fresh index frame inside located).imp (Nat.le_trans lower) (Nat.le_trans lower)
    refine ⟨fun bounds => ⟨rises.started _ bounds.started, ?_⟩, fun _ _ => ?_⟩
    · have above := bounds.above
      rw [isCurrent] at above
      rw [sameFrames]
      exact above.widen rises.widen fresh
    · refine
        { stands := isCurrent ▸ stands
          bases := fun position inside => ?_
          slots := fun index below unwritten => ?_
          captures :=
            fun index below => rises.captures _ _ fun _ => Nat.lt_of_lt_of_le below lower }
      · have located := List.getElem?_eq_getElem (Nat.lt_of_lt_of_le inside stands)
        obtain ⟨frame', located', widens⟩ := rises.widen position _ located
        rw [sameFrames, isCurrent]
        change _ = (before.frames[position]?).map (·.base)
        rw [located, located']
        exact congrArg some widens.base
      · rw [isCurrent] at unwritten ⊢
        exact rises.slots index (Nat.lt_of_lt_of_le below lower) unwritten
  · exact .of_keepsStack (rises.others _ isCurrent)
      (fun index => rises.captures _ index fun isSame => absurd isSame isCurrent) (rises.started _)

/-- The frames that are left are above the window, as long as its own are there. -/
theorem of_falls (falls : before.Falls level after)
    (lower : window.stack = before.current → window.level ≤ level) :
    window.Keeps ∅ before after := by
  by_cases isCurrent : window.stack = before.current
  · have sameFrames : after.framesOf window.stack = after.frames := by
      rw [Machine.frames, falls.current, isCurrent]
    refine ⟨fun bounds => ⟨falls.started _ bounds.started, ?_⟩, fun bounds stands => ?_⟩
    · have above := bounds.above
      rw [isCurrent] at above
      rw [sameFrames]
      exact above.remain falls.remain
    · have above := bounds.above
      rw [isCurrent] at above
      rw [sameFrames] at stands
      refine
        { stands := by
            rw [isCurrent]
            exact Nat.le_trans stands falls.remain.length_le
          bases := fun position inside => ?_
          slots := fun index below _ => ?_
          captures := fun index _ => falls.captures _ index }
      · have located' := List.getElem?_eq_getElem (Nat.lt_of_lt_of_le inside stands)
        obtain ⟨frame, located, widens⟩ := falls.remain position _ located'
        rw [sameFrames, isCurrent]
        change _ = (before.frames[position]?).map (·.base)
        rw [located, located']
        exact congrArg some widens.base
      · rw [isCurrent]
        refine falls.slots index (Nat.lt_of_lt_of_le below (lower isCurrent)) ?_
        intro position frame gone located
        have isAbove := above position frame (Nat.le_trans stands gone) located
        exact Nat.lt_of_lt_of_le below isAbove.1
  · exact .of_keepsStack (falls.others _ isCurrent) (falls.captures _) (falls.started _)

end Keeps

/-- A stack that has more frames than a window runs above it. -/
theorem Bounds.runsAbove (bounds : window.Bounds machine)
    (isCurrent : window.stack = machine.current)
    (deeper : window.count < machine.frames.length) : machine.RunsAbove window.level := by
  have above := bounds.above
  rw [isCurrent] at above
  have inside : machine.frames.length - 1 < machine.frames.length := by omega
  have located := List.getElem?_eq_getElem inside
  exact ⟨_, List.getLast?_eq_getElem?.trans located, above _ _ (by omega) located⟩

end Window

namespace Machine

theorem ReachesTo.mono {machine : Machine} {level lower : Nat} (reaches : machine.ReachesTo level)
    (isLower : lower ≤ level) : machine.ReachesTo lower := by
  rcases reaches with rfl | ⟨frame, member, isTop⟩
  · exact .inl (Nat.le_zero.mp isLower)
  · exact .inr ⟨frame, member, Nat.le_trans isLower isTop⟩

theorem runsAbove_zero {machine : Machine} {stop : Nat} (runs : machine.RunsFrom stop) :
    machine.RunsAbove 0 := by
  have nonempty : machine.frames ≠ [] := List.length_pos_iff.mp (Nat.zero_lt_of_lt runs.lt)
  exact ⟨_, List.getLast?_eq_some_getLast nonempty, Nat.zero_le _, Nat.zero_le _⟩

end Machine

/-! ### Holdings -/

/-- What is to be kept in a run. -/
inductive Holding where
  /-- what the first frames of a stack own below a level -/
  | lower (window : Window)
  /-- a whole stack, which does not run meanwhile -/
  | whole (id : ContextId)

namespace Holding

variable {holding : Holding} {before machine after : Machine}
  {written written' : Set (ContextId × Nat)}
  {hosts : Array HostMethod} {event : Event} {level : Nat}

/-- What is known of a stack when it is left to itself. -/
def Bounds (machine : Machine) : Holding → Prop
  | .lower window => window.Bounds machine
  | .whole _ => True

/-- A whole stack is as it was, apart from slots that were written. -/
structure SameStack (written : Set (ContextId × Nat)) (id : ContextId) (before after : Machine) :
    Prop where
  frames : after.framesOf id = before.framesOf id
  slots : ∀ index, (id, index) ∉ written → after.slotOf id index = before.slotOf id index
  captures : ∀ index, after.heap.Captures id index → before.heap.Captures id index

/-- What is kept, apart from slots that were written. A stack vanishes with its fiber. -/
def Keeps (written : Set (ContextId × Nat)) (before after : Machine) : Holding → Prop
  | .lower window => window.Keeps written before after
  | .whole id => after.framesOf id = [] ∨ SameStack written id before after

/-- What is held ends below a level of the running stack. -/
def Below (level : Nat) (machine : Machine) : Holding → Prop
  | .lower window => window.stack = machine.current → window.level ≤ level
  | .whole id => id ≠ machine.current

/-- The frames of a window are there, if its stack runs. -/
def Stands (machine : Machine) : Holding → Prop
  | .lower window => window.stack = machine.current → window.count ≤ machine.frames.length
  | .whole _ => True

/-- If the stack of a window runs, its frames are there, and the stack reaches up to its level. A
whole stack does not run. -/
def Ready (machine : Machine) : Holding → Prop
  | .lower window => window.stack = machine.current →
    window.count ≤ machine.frames.length ∧ machine.ReachesTo window.level
  | .whole id => id ≠ machine.current

/-- A whole stack does not run. -/
def Rests (machine : Machine) : Holding → Prop
  | .lower _ => True
  | .whole id => id ≠ machine.current

/-- The next cycle goes on above a window, or on another stack than a whole one. -/
def Cycles (machine : Machine) : Holding → Prop
  | .lower window => window.stack = machine.current →
    window.count ≤ machine.frames.length ∧ machine.CyclesAbove window.level
  | .whole id => id ≠ machine.current

/-- A call does not make a whole stack run. -/
def Spared (engine : Engine) (call : Engine → VM Value) (machine : Machine) : Holding → Prop
  | .lower _ => True
  | .whole id => ∀ place start, engine.ComesTo call machine place start → start.current ≠ id

/-- What begins or ends on the stack of a window does so above it, and nothing does on a whole
stack. -/
def ReadyFor (hosts : Array HostMethod) (holding : Holding) : Event → Prop
  | .cycle _ machine => holding.Cycles machine
  | .called fuel call machine =>
    holding.Ready machine ∧ holding.Spared (.ofHosts hosts fuel) call machine
  | .ended fuel call machine => holding.Ready ((Event.ended fuel call machine).machine hosts)

theorem Ready.rests (ready : holding.Ready machine) : holding.Rests machine := by
  cases holding with
  | lower window => trivial
  | whole id => exact ready

theorem Ready.congr (ready : holding.Ready before) (sameCurrent : after.current = before.current)
    (sameFrames : after.frames = before.frames) : holding.Ready after := by
  cases holding with
  | lower window =>
      intro isCurrent
      rw [Machine.ReachesTo, sameFrames]
      exact ready (isCurrent.trans sameCurrent)
  | whole id => exact fun isCurrent => ready (isCurrent.trans sameCurrent)

theorem Rests.congr (rests : holding.Rests before) (sameCurrent : after.current = before.current) :
    holding.Rests after := by
  cases holding with
  | lower window => trivial
  | whole id => exact fun isCurrent => rests (isCurrent.trans sameCurrent)

theorem Ready.exists_below (ready : holding.Ready machine) :
    ∃ level, machine.ReachesTo level ∧ holding.Below level machine ∧ holding.Stands machine := by
  cases holding with
  | lower window =>
      by_cases isCurrent : window.stack = machine.current
      · exact ⟨_, (ready isCurrent).2, fun _ => Nat.le_refl _, fun _ => (ready isCurrent).1⟩
      · exact ⟨0, .inl rfl, fun isSame => absurd isSame isCurrent,
          fun isSame => absurd isSame isCurrent⟩
  | whole id => exact ⟨0, .inl rfl, ready, trivial⟩

theorem Cycles.exists_below {stop : Nat} (runs : machine.RunsFrom stop)
    (ready : holding.Cycles machine) :
    ∃ level, machine.CyclesAbove level ∧ holding.Below level machine ∧ holding.Stands machine := by
  have onward : machine.CyclesAbove 0 := .inl (Machine.runsAbove_zero runs)
  cases holding with
  | lower window =>
      by_cases isCurrent : window.stack = machine.current
      · exact ⟨_, (ready isCurrent).2, fun _ => Nat.le_refl _, fun _ => (ready isCurrent).1⟩
      · exact ⟨0, onward, fun isSame => absurd isSame isCurrent,
          fun isSame => absurd isSame isCurrent⟩
  | whole id => exact ⟨0, onward, ready, trivial⟩

theorem Rests.exists_below (rests : holding.Rests machine) :
    ∃ level, holding.Below level machine := by
  cases holding with
  | lower window => exact ⟨_, fun _ => Nat.le_refl _⟩
  | whole id => exact ⟨0, rests⟩

theorem Below.rests (below : holding.Below level machine) : holding.Rests machine := by
  cases holding with
  | lower window => trivial
  | whole id => exact below

theorem Spared.rests {engine : Engine} {call : Engine → VM Value} {place : Place}
    (spared : holding.Spared engine call before) (comes : engine.ComesTo call before place after) :
    holding.Rests after := by
  cases holding with
  | lower window => trivial
  | whole id => exact (spared place after comes).symm

theorem Below.congr (below : holding.Below level before)
    (sameCurrent : after.current = before.current) :
    holding.Below level after := by
  cases holding <;> exact fun isCurrent => below (isCurrent.trans sameCurrent)

/-- Behind a rise, the running stack is ready as it reaches up to the level. -/
theorem Below.ready_of_rises (below : holding.Below level before) (stands : holding.Stands before)
    (rises : before.Rises written level after) (reaches : after.ReachesTo level) :
    holding.Ready after := by
  cases holding with
  | lower window =>
      intro isCurrent
      replace isCurrent := isCurrent.trans rises.current
      exact ⟨Nat.le_trans (stands isCurrent) rises.widen.length_le, reaches.mono (below isCurrent)⟩
  | whole id => exact fun isCurrent => below (isCurrent.trans rises.current)

namespace Keeps

theorem of_rises (rises : before.Rises written level after) (below : holding.Below level before)
    (stands : holding.Stands before) : holding.Keeps written before after := by
  cases holding with
  | lower window => exact .of_rises rises fun isCurrent => ⟨below isCurrent, stands isCurrent⟩
  | whole id => exact (rises.others id below).imp_right fun ⟨sameFrames, sameSlots⟩ =>
      ⟨sameFrames, sameSlots, fun index =>
        rises.captures id index fun isCurrent => absurd isCurrent below⟩

theorem of_falls (falls : before.Falls level after) (below : holding.Below level before) :
    holding.Keeps ∅ before after := by
  cases holding with
  | lower window => exact .of_falls falls below
  | whole id => exact (falls.others id below).imp_right fun ⟨sameFrames, sameSlots⟩ =>
      ⟨sameFrames, sameSlots, falls.captures id⟩

theorem bounds (keeps : holding.Keeps written before after) (bounds : holding.Bounds before) :
    holding.Bounds after := by
  cases holding with
  | lower window => exact Window.Keeps.bounds keeps bounds
  | whole id => trivial

theorem mono (keeps : holding.Keeps written before after) (more : written ⊆ written') :
    holding.Keeps written' before after := by
  cases holding with
  | lower window => exact Window.Keeps.mono keeps more
  | whole id => exact keeps.imp_right fun same => { same with
      slots := fun index unwritten => same.slots index fun isWritten => unwritten (more isWritten) }

theorem trans (first : holding.Keeps written before machine)
    (second : holding.Keeps written machine after) : holding.Keeps written before after := by
  cases holding with
  | lower window => exact Window.Keeps.trans first second
  | whole id =>
      rcases second with gone | same'
      · exact .inl gone
      · rcases first with gone | same
        · exact .inl (same'.frames.trans gone)
        · exact .inr
            { frames := same'.frames.trans same.frames
              slots := fun index unwritten =>
                (same'.slots index unwritten).trans (same.slots index unwritten)
              captures :=
                fun index captured => same.captures index (same'.captures index captured) }

theorem trans_empty (first : holding.Keeps written before machine)
    (second : holding.Keeps ∅ machine after) : holding.Keeps written before after :=
  first.trans (second.mono (Set.empty_subset _))

/-- All stacks are left alone or vanish. -/
theorem of_keepsStack (keeps : ∀ id, Machine.KeepsStack written id before after)
    (captures : ∀ id index, after.heap.Captures id index → before.heap.Captures id index)
    (started : ∀ id, before.Started id → after.Started id) :
      holding.Keeps written before after := by
  cases holding with
  | lower window => exact .of_keepsStack (keeps _) (captures _) (started _)
  | whole id => exact (keeps id).imp_right fun ⟨sameFrames, sameSlots⟩ =>
      ⟨sameFrames, sameSlots, captures id⟩

theorem of_keepsStacks (keeps : before.KeepsStacks after) : holding.Keeps ∅ before after := by
  refine of_keepsStack (fun id => ?_) keeps.captures keeps.started
  by_cases isCurrent : id = before.current
  · exact .of_context?_eq (isCurrent ▸ keeps.running)
  · exact keeps.others id isCurrent

theorem refl : holding.Keeps written machine machine :=
  (of_keepsStacks (.refl machine)).mono (Set.empty_subset _)

end Keeps

/-- A stack that has more frames than a window is ready for any event. -/
theorem readyFor_lower {window : Window} (bounds : window.Bounds (event.machine hosts))
    (deeper : window.stack = (event.machine hosts).current →
      window.count < (event.machine hosts).frames.length) :
    (Holding.lower window).ReadyFor hosts event := by
  have runs (isCurrent : window.stack = (event.machine hosts).current) :=
    bounds.runsAbove isCurrent (deeper isCurrent)
  have isReady : (Holding.lower window).Ready (event.machine hosts) := fun isCurrent =>
    ⟨Nat.le_of_lt (deeper isCurrent), (runs isCurrent).reachesTo⟩
  cases event with
  | cycle stop machine =>
      exact fun isCurrent => ⟨Nat.le_of_lt (deeper isCurrent), .inl (runs isCurrent)⟩
  | called fuel call machine => exact ⟨isReady, trivial⟩
  | ended fuel call machine => exact isReady

theorem readyFor_whole {id : ContextId} (isOther : (event.machine hosts).current ≠ id)
    (spared : ∀ fuel call machine, event = .called fuel call machine →
      (Holding.whole id).Spared (.ofHosts hosts fuel) call machine) :
    (Holding.whole id).ReadyFor hosts event := by
  cases event with
  | cycle stop machine => exact isOther.symm
  | called fuel call machine => exact ⟨isOther.symm, spared fuel call machine rfl⟩
  | ended fuel call machine => exact isOther.symm

end Holding

end RiteVm
