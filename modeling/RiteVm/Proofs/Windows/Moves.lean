import RiteVm.Proofs.Arguments.Reception

/-!
Contract: what is done above a level of the running stack, and what takes frames off it.

Owns:
- the slots of register stacks, and stacks whose fiber was started;
- rises, which write slots and push frames above a level, and nothing below it;
- falls, which take frames off, and write at most slots of the frames that are taken off;
- how each of them is put together.

The window of a frame begins at its base, so a frame that is pushed above a level has no
register below it. Other stacks are left alone or vanish with their fibers.
-/

namespace RiteVm

/-! ### Windows -/

/-- A frame begins where another one does, and ends no earlier. -/
structure Frame.Widens (before after : Frame) : Prop where
  base : after.base = before.base
  top : before.top ≤ after.top

namespace Frame.Widens

variable {before frame after : Frame}

theorem refl (frame : Frame) : frame.Widens frame := ⟨rfl, Nat.le_refl _⟩

theorem trans (first : before.Widens frame) (second : frame.Widens after) : before.Widens after :=
  ⟨second.base.trans first.base, Nat.le_trans first.top second.top⟩

end Frame.Widens

/-- Each frame is still there. -/
def Widen (before after : List Frame) : Prop :=
  ∀ (index : Nat) (frame : Frame), before[index]? = some frame →
    ∃ frame', after[index]? = some frame' ∧ frame.Widens frame'

/-- Each frame was there before. -/
def Remain (before after : List Frame) : Prop :=
  ∀ (index : Nat) (frame' : Frame), after[index]? = some frame' →
    ∃ frame, before[index]? = some frame ∧ frame.Widens frame'

/-- Each frame behind the first ones begins and ends above a level. -/
def Above (level count : Nat) (frames : List Frame) : Prop :=
  ∀ (index : Nat) (frame : Frame), count ≤ index → frames[index]? = some frame →
    level ≤ frame.base ∧ level ≤ frame.top

section Frames

variable {before frames after : List Frame} {level count : Nat}

theorem Widen.refl (frames : List Frame) : Widen frames frames :=
  fun _ frame located => ⟨frame, located, .refl frame⟩

theorem Widen.trans (first : Widen before frames) (second : Widen frames after) :
    Widen before after := by
  intro index frame located
  obtain ⟨between, isBetween, widens⟩ := first index frame located
  obtain ⟨last, isLast, widens'⟩ := second index between isBetween
  exact ⟨last, isLast, widens.trans widens'⟩

theorem Widen.length_le (widen : Widen before after) : before.length ≤ after.length := by
  by_contra shorter
  have inside : after.length < before.length := Nat.lt_of_not_le shorter
  obtain ⟨frame, located, -⟩ := widen _ _ (List.getElem?_eq_getElem inside)
  exact absurd (List.getElem?_eq_some_iff.mp located).1 (Nat.lt_irrefl _)

theorem Remain.refl (frames : List Frame) : Remain frames frames :=
  fun _ frame located => ⟨frame, located, .refl frame⟩

theorem Remain.trans (first : Remain before frames) (second : Remain frames after) :
    Remain before after := by
  intro index last isLast
  obtain ⟨between, isBetween, widens'⟩ := second index last isLast
  obtain ⟨frame, located, widens⟩ := first index between isBetween
  exact ⟨frame, located, widens.trans widens'⟩

theorem Remain.length_le (remain : Remain before after) : after.length ≤ before.length := by
  by_contra longer
  have inside : before.length < after.length := Nat.lt_of_not_le longer
  obtain ⟨frame, located, -⟩ := remain _ _ (List.getElem?_eq_getElem inside)
  exact absurd (List.getElem?_eq_some_iff.mp located).1 (Nat.lt_irrefl _)

theorem Above.remain (above : Above level count before) (remain : Remain before after) :
    Above level count after := by
  intro index frame' inside located'
  obtain ⟨frame, located, widens⟩ := remain index frame' located'
  obtain ⟨isBase, isTop⟩ := above index frame inside located
  exact ⟨widens.base ▸ isBase, Nat.le_trans isTop widens.top⟩

/-- Frames that are still there, and new ones behind them, are above a level as all were. -/
theorem Above.widen (above : Above level count before) (widen : Widen before after)
    (fresh : Above level before.length after) : Above level count after := by
  intro index frame' inside located'
  by_cases isOld : index < before.length
  · obtain ⟨same, isSame, widens⟩ := widen index _ (List.getElem?_eq_getElem isOld)
    obtain rfl := Option.some.inj (isSame.symm.trans located')
    obtain ⟨isBase, isTop⟩ := above index _ inside (List.getElem?_eq_getElem isOld)
    exact ⟨widens.base ▸ isBase, Nat.le_trans isTop widens.top⟩
  · exact fresh index frame' (Nat.le_of_not_lt isOld) located'

theorem Above.append {frame : Frame} (above : Above level count frames)
    (isBase : level ≤ frame.base) (isTop : level ≤ frame.top) :
    Above level count (frames ++ [frame]) := by
  intro index other inside located
  rw [List.getElem?_append] at located
  split at located
  · exact above index other inside located
  · rw [List.getElem?_singleton] at located
    split at located
    · obtain rfl := Option.some.inj located
      exact ⟨isBase, isTop⟩
    · exact nomatch located

theorem Widen.of_isPrefix (isPrefix : before <+: after) : Widen before after := by
  obtain ⟨more, rfl⟩ := isPrefix
  intro index frame located
  refine ⟨frame, ?_, .refl frame⟩
  rw [List.getElem?_append_left (List.getElem?_eq_some_iff.mp located).1]
  exact located

theorem Remain.of_isPrefix (isPrefix : after <+: before) : Remain before after := by
  obtain ⟨more, rfl⟩ := isPrefix
  intro index frame located
  refine ⟨frame, ?_, .refl frame⟩
  rw [List.getElem?_append_left (List.getElem?_eq_some_iff.mp located).1]
  exact located

/-- The innermost frame changes and stays where it is. -/
theorem widen_modifyLast {change : Frame → Frame}
    (widens : ∀ frame, frames.getLast? = some frame → frame.Widens (change frame)) :
    Widen frames (frames.modify (frames.length - 1) change) := by
  intro index frame located
  rw [List.getElem?_modify, located]
  split
  · rename_i isLast
    refine ⟨change frame, rfl, widens frame ?_⟩
    rw [List.getLast?_eq_getElem?, isLast]
    exact located
  · exact ⟨frame, rfl, .refl frame⟩

theorem Remain.of_widen (widen : Widen before after) (shorter : after.length ≤ before.length) :
    Remain before after := by
  intro index frame' located'
  have inside := (List.getElem?_eq_some_iff.mp located').1
  have located := List.getElem?_eq_getElem (Nat.lt_of_lt_of_le inside shorter)
  obtain ⟨same, isSame, widens⟩ := widen index _ located
  obtain rfl := Option.some.inj (isSame.symm.trans located')
  exact ⟨_, located, widens⟩

/-- Nothing is above frames that are no more than before. -/
theorem Above.of_length_le (shorter : frames.length ≤ count) : Above level count frames :=
  fun _ _ outside located => absurd (List.getElem?_eq_some_iff.mp located).1
    (Nat.not_lt.mpr (Nat.le_trans shorter outside))

end Frames

/-- A change of a frame leaves it where it is. -/
class KeepsWindow (change : Frame → Frame) : Prop where
  widens : ∀ frame : Frame, frame.Widens (change frame)

namespace KeepsWindow

instance setPc (pc : Nat) : KeepsWindow ({ · with pc }) := ⟨fun _ => ⟨rfl, Nat.le_refl _⟩⟩

instance setEnv (env : Option Handle) :
    KeepsWindow ({ · with env }) := ⟨fun _ => ⟨rfl, Nat.le_refl _⟩⟩

instance setEnsuring (ensuring : Option Handle) :
    KeepsWindow ({ · with ensuring }) := ⟨fun _ => ⟨rfl, Nat.le_refl _⟩⟩

instance jump (ensuring : Option Handle) (pc : Nat) : KeepsWindow ({ · with ensuring, pc }) :=
  ⟨fun _ => ⟨rfl, Nat.le_refl _⟩⟩

instance setKeywords (keywordRegister : Option Nat) : KeepsWindow ({ · with keywordRegister }) :=
  ⟨fun _ => ⟨rfl, Nat.le_refl _⟩⟩

instance setMethod (method : Option Symbol) (owner : Option Handle) :
    KeepsWindow ({ · with method, owner }) :=
  ⟨fun _ => ⟨rfl, Nat.le_refl _⟩⟩

instance widenTop (top count : Nat) :
    KeepsWindow fun frame => { frame with top := max frame.top top, pc := frame.pc + count } :=
  ⟨fun _ => ⟨rfl, Nat.le_max_left _ _⟩⟩

end KeepsWindow

namespace Machine

/-! ### Stacks -/

/-- The value at an index of a register stack. -/
def slotOf (machine : Machine) (id : ContextId) (index : Nat) : Value :=
  ((machine.context? id).map (·.slot index)).getD .nil

/-- A register stack exists, and its fiber was resumed at least once. -/
def Started (machine : Machine) (id : ContextId) : Prop :=
  id.index < machine.contexts.size ∧
    ∀ handle record, machine.fiber? handle = some record → record.context = id →
      record.state ≠ .created

/-- A register stack vanished, or it is as it was, apart from slots that were written. -/
def KeepsStack (written : Set (ContextId × Nat)) (id : ContextId) (before after : Machine) : Prop :=
  after.framesOf id = [] ∨
    (after.framesOf id = before.framesOf id ∧
      ∀ index, (id, index) ∉ written → after.slotOf id index = before.slotOf id index)

section Stacks

variable {before machine after : Machine} {written written' : Set (ContextId × Nat)}
  {id : ContextId}

theorem framesOf_congr (same : after.context? id = before.context? id) :
    after.framesOf id = before.framesOf id := by
  rw [framesOf, framesOf, same]

theorem slotOf_congr (same : after.context? id = before.context? id) (index : Nat) :
    after.slotOf id index = before.slotOf id index := by
  rw [slotOf, slotOf, same]

theorem slotOf_of_context? {context : Context} (found : machine.context? id = some context)
    (index : Nat) : machine.slotOf id index = context.slot index := by
  rw [slotOf, found]
  rfl

theorem KeepsStack.of_context?_eq (same : after.context? id = before.context? id) :
    KeepsStack written id before after :=
  .inr ⟨framesOf_congr same, fun index _ => slotOf_congr same index⟩

theorem KeepsStack.of_context?_eq_none (gone : after.context? id = none) :
    KeepsStack written id before after := by
  refine .inl ?_
  rw [framesOf, gone]
  rfl

theorem KeepsStack.mono (keeps : KeepsStack written id before after) (more : written ⊆ written') :
    KeepsStack written' id before after :=
  keeps.imp_right fun ⟨sameFrames, sameSlots⟩ =>
    ⟨sameFrames, fun index unwritten => sameSlots index fun isWritten => unwritten (more isWritten)⟩

theorem KeepsStack.trans (first : KeepsStack written id before machine)
    (second : KeepsStack written id machine after) : KeepsStack written id before after := by
  rcases second with gone | ⟨sameFrames', sameSlots'⟩
  · exact .inl gone
  · rcases first with gone | ⟨sameFrames, sameSlots⟩
    · exact .inl (sameFrames'.trans gone)
    · exact .inr ⟨sameFrames'.trans sameFrames, fun index unwritten =>
        (sameSlots' index unwritten).trans (sameSlots index unwritten)⟩

theorem Started.of_fibers (started : before.Started id)
    (grown : before.contexts.size ≤ after.contexts.size)
    (fibers : ∀ handle record, after.fiber? handle = some record →
      before.fiber? handle = some record) : after.Started id :=
  ⟨Nat.lt_of_lt_of_le started.1 grown, fun handle record found =>
    started.2 handle record (fibers handle record found)⟩

end Stacks

/-! ### Rises and falls -/

/-- Slots above a level of the running stack were written, and frames pushed above it. -/
structure Rises (written : Set (ContextId × Nat)) (level : Nat) (before after : Machine) :
    Prop where
  current : after.current = before.current
  slots : ∀ index < level, (before.current, index) ∉ written →
    after.slotOf before.current index = before.slotOf before.current index
  widen : Widen before.frames after.frames
  fresh : Above level before.frames.length after.frames
  others : ∀ id, id ≠ before.current → KeepsStack written id before after
  captures : ∀ id index, (id = before.current → index < level) → after.heap.Captures id index →
    before.heap.Captures id index
  started : ∀ id, before.Started id → after.Started id

/-- Frames of the running stack were taken off, and slots written of them or above a level. -/
structure Falls (level : Nat) (before after : Machine) : Prop where
  current : after.current = before.current
  remain : Remain before.frames after.frames
  slots : ∀ index < level, (∀ (position : Nat) (frame : Frame), after.frames.length ≤ position →
      before.frames[position]? = some frame → index < frame.base) →
    after.slotOf before.current index = before.slotOf before.current index
  others : ∀ id, id ≠ before.current → KeepsStack ∅ id before after
  captures : ∀ id index, after.heap.Captures id index → before.heap.Captures id index
  started : ∀ id, before.Started id → after.Started id

section Laws

variable {before machine after : Machine} {written written' : Set (ContextId × Nat)} {level : Nat}
  {tidy : Prop}

theorem Rises.trans (first : before.Rises written level machine)
    (second : machine.Rises written level after) : before.Rises written level after where
  current := second.current.trans first.current
  slots index below unwritten := by
    have same := second.slots index below
    rw [first.current] at same
    exact (same unwritten).trans (first.slots index below unwritten)
  widen := first.widen.trans second.widen
  fresh := first.fresh.widen second.widen second.fresh
  others id isOther := (first.others id isOther).trans (second.others id (first.current ▸ isOther))
  captures id index below captured :=
    first.captures id index below (second.captures id index (first.current ▸ below) captured)
  started id isStarted := second.started id (first.started id isStarted)

/-- The running frame begins and ends above a level. -/
def RunsAbove (level : Nat) (machine : Machine) : Prop :=
  ∃ frame, machine.frames.getLast? = some frame ∧ level ≤ frame.base ∧ level ≤ frame.top

theorem RunsAbove.rises (runs : before.RunsAbove level) (rises : before.Rises written level after) :
    after.RunsAbove level := by
  obtain ⟨frame, isLast, isBase, isTop⟩ := runs
  rw [List.getLast?_eq_getElem?] at isLast
  have nonempty := (List.getElem?_eq_some_iff.mp isLast).1
  have grown := rises.widen.length_le
  have inside : after.frames.length - 1 < after.frames.length := by omega
  refine ⟨_, List.getLast?_eq_getElem?.trans (List.getElem?_eq_getElem inside), ?_⟩
  by_cases isOld : after.frames.length = before.frames.length
  · obtain ⟨frame', located', widens⟩ := rises.widen _ frame isLast
    rw [← isOld, List.getElem?_eq_getElem inside] at located'
    obtain rfl := Option.some.inj located'
    exact ⟨widens.base ▸ isBase, Nat.le_trans isTop widens.top⟩
  · exact rises.fresh _ _ (by omega) (List.getElem?_eq_getElem inside)

/-- The running stack reaches up to a level. -/
def ReachesTo (level : Nat) (machine : Machine) : Prop :=
  level = 0 ∨ ∃ frame ∈ machine.frames, level ≤ frame.top

theorem ReachesTo.rises (reaches : before.ReachesTo level)
    (rises : before.Rises written level after) : after.ReachesTo level := by
  rcases reaches with isZero | ⟨frame, member, isTop⟩
  · exact .inl isZero
  · obtain ⟨index, located⟩ := List.mem_iff_getElem?.mp member
    obtain ⟨frame', located', widens⟩ := rises.widen index frame located
    exact .inr ⟨frame', List.mem_of_getElem? located', Nat.le_trans isTop widens.top⟩

/-- A frame that was pushed reaches up to the level above which it was. -/
theorem Rises.reachesTo (rises : before.Rises written level after)
    (pushed : before.frames.length < after.frames.length) : after.ReachesTo level :=
  .inr ⟨_, List.getElem_mem pushed,
    (rises.fresh _ _ (Nat.le_refl _) (List.getElem?_eq_getElem pushed)).2⟩

theorem RunsAbove.reachesTo (runs : machine.RunsAbove level) : machine.ReachesTo level := by
  obtain ⟨frame, isLast, -, isTop⟩ := runs
  exact .inr ⟨frame, List.mem_of_getLast? isLast, isTop⟩

theorem ReachesTo.le_stackTop {context : Context} (reaches : machine.ReachesTo level)
    (running : machine.context? machine.current = some context) : level ≤ context.stackTop := by
  rcases reaches with rfl | ⟨frame, member, isTop⟩
  · exact Nat.zero_le _
  · rw [frames_of_context? running, Array.mem_toList_iff] at member
    by_contra outside
    have inside : context.stackTop < context.stackTop :=
      Context.lt_stackTop.mpr ⟨frame, member, by omega⟩
    exact Nat.lt_irrefl _ inside

theorem reachesTo_stackTop {context : Context}
    (running : machine.context? machine.current = some context) :
    machine.ReachesTo context.stackTop := by
  by_cases isZero : context.stackTop = 0
  · exact .inl isZero
  · obtain ⟨frame, member, isTop⟩ := Context.lt_stackTop.mp
      (Nat.sub_lt (Nat.pos_of_ne_zero isZero) Nat.one_pos)
    refine .inr ⟨frame, ?_, by omega⟩
    rw [frames_of_context? running, Array.mem_toList_iff]
    exact member

theorem Rises.mono (rises : before.Rises written level after) (more : written ⊆ written') :
    before.Rises written' level after :=
  { rises with
    slots := fun index below unwritten =>
      rises.slots index below fun isWritten => unwritten (more isWritten)
    others := fun id isOther => (rises.others id isOther).mono more }

/-- What comes behind a fall may write as low as the fall did. -/
theorem Falls.andThen {lower : Nat} (first : before.Falls level machine)
    (second : machine.Falls lower after)
    (inside : ∀ index < level, (∀ (position : Nat) (frame : Frame),
      machine.frames.length ≤ position → before.frames[position]? = some frame →
        index < frame.base) → index < lower) : before.Falls level after where
  current := second.current.trans first.current
  remain := first.remain.trans second.remain
  slots index below outside := by
    have outside' (position : Nat) (frame : Frame) (gone : machine.frames.length ≤ position)
        (located : before.frames[position]? = some frame) : index < frame.base :=
      outside position frame (Nat.le_trans second.remain.length_le gone) located
    have same := second.slots index (inside index below outside')
    rw [first.current] at same
    refine (same fun position frame' gone located' => ?_).trans (first.slots index below outside')
    obtain ⟨frame, located, widens⟩ := first.remain position frame' located'
    exact widens.base ▸ outside position frame gone located
  others id isOther := (first.others id isOther).trans (second.others id (first.current ▸ isOther))
  captures id index captured := first.captures id index (second.captures id index captured)
  started id isStarted := second.started id (first.started id isStarted)

theorem Falls.trans (first : before.Falls level machine) (second : machine.Falls level after) :
    before.Falls level after :=
  first.andThen second fun _ below _ => below

/-- What writes above a level, pushes no frame and lets closures capture no more. -/
theorem Rises.falls (rises : before.Rises ∅ level after)
    (shorter : after.frames.length ≤ before.frames.length)
    (captures : ∀ id index, after.heap.Captures id index → before.heap.Captures id index) :
    before.Falls level after :=
  { rises with
    captures
    remain := .of_widen rises.widen shorter
    slots := fun index below _ => rises.slots index below id }

theorem Falls.refl (machine : Machine) : machine.Falls level machine where
  current := rfl
  remain := .refl _
  slots _ _ _ := rfl
  others _ _ := .of_context?_eq rfl
  captures _ _ := id
  started _ := id

/-- A rise is followed by a fall. -/
def Passes (written : Set (ContextId × Nat)) (level : Nat) (before after : Machine) : Prop :=
  ∃ machine, before.Rises written level machine ∧ machine.Falls level after

theorem Rises.passes (rises : before.Rises written level after) :
    before.Passes written level after :=
  ⟨after, rises, .refl after⟩

theorem Passes.trans_falls (passes : before.Passes written level machine)
    (falls : machine.Falls level after) : before.Passes written level after := by
  obtain ⟨between, rises, falls'⟩ := passes
  exact ⟨between, rises, falls'.trans falls⟩

/-- What leaves all stacks alone, and lets closures capture no more. -/
structure KeepsStacks (before after : Machine) : Prop where
  current : after.current = before.current
  running : after.context? before.current = before.context? before.current
  others : ∀ id, id ≠ before.current → KeepsStack ∅ id before after
  captures : ∀ id index, after.heap.Captures id index → before.heap.Captures id index
  started : ∀ id, before.Started id → after.Started id

theorem KeepsStacks.frames_eq (keeps : before.KeepsStacks after) :
    after.frames = before.frames := by
  rw [frames, frames, keeps.current, framesOf_congr keeps.running]

theorem KeepsStacks.rises (keeps : before.KeepsStacks after) : before.Rises ∅ level after where
  current := keeps.current
  slots index _ _ := slotOf_congr keeps.running index
  widen := keeps.frames_eq ▸ .refl _
  fresh := by
    intro index frame outside located
    rw [keeps.frames_eq, List.getElem?_eq_none outside] at located
    exact nomatch located
  others := keeps.others
  captures id index _ := keeps.captures id index
  started := keeps.started

theorem KeepsStacks.falls (keeps : before.KeepsStacks after) : before.Falls level after :=
  keeps.rises.falls (Nat.le_of_eq (congrArg _ keeps.frames_eq)) keeps.captures

theorem KeepsStacks.trans (first : before.KeepsStacks machine)
    (second : machine.KeepsStacks after) :
    before.KeepsStacks after where
  current := second.current.trans first.current
  running := (first.current ▸ second.running).trans first.running
  others id isOther := (first.others id isOther).trans (second.others id (first.current ▸ isOther))
  captures id index captured := first.captures id index (second.captures id index captured)
  started id isStarted := second.started id (first.started id isStarted)

theorem KeepsStacks.of_keepsFibers (wellFormed : before.heap.WellFormed)
    (keeps : before.KeepsFibers after) : before.KeepsStacks after where
  current := keeps.current
  running := keeps.context?_eq _
  others id _ := .of_context?_eq (keeps.context?_eq id)
  captures := (keeps.heap wellFormed).captures
  started id isStarted := isStarted.of_fibers (by rw [keeps.contexts]) fun handle record found =>
    (keeps.fiber?_eq wellFormed handle).symm.trans found

theorem KeepsStacks.refl (machine : Machine) : machine.KeepsStacks machine :=
  ⟨rfl, rfl, fun _ _ => .of_context?_eq rfl, fun _ _ => id, fun _ => id⟩

/-- A change of the running stack that puts frames on it and writes slots above a level. -/
theorem Rises.of_modifyContext {context : Context} {change : Context → Context}
    (running : machine.context? machine.current = some context)
    (slots : ∀ index < level, (change context).slot index = context.slot index)
    (widen : Widen context.frames.toList (change context).frames.toList)
    (fresh : Above level context.frames.toList.length (change context).frames.toList) :
    machine.Rises ∅ level (machine.modifyContext machine.current change) := by
  have running' : (machine.modifyContext machine.current change).context? machine.current =
      some (change context) := by
    rw [context?_of_modifyContext, if_pos rfl, running]
    rfl
  refine
    { current := rfl
      slots := fun index below _ => ?_
      widen := ?_
      fresh := ?_
      others := fun id isOther => .of_context?_eq ?_
      captures := fun _ _ _ => id
      started := fun _ isStarted => isStarted.of_fibers (Nat.le_of_eq Array.size_modify.symm)
        fun _ _ found => found }
  · rw [slotOf_of_context? running', slotOf_of_context? running, slots index below]
  · rw [frames_of_context? running, frames_modifyContext running]
    exact widen
  · rw [frames_of_context? running, frames_modifyContext running]
    exact fresh
  · rw [context?_of_modifyContext, if_neg isOther.symm]

/-- Frames are taken off the running stack, and nothing else happens to it. -/
theorem Falls.of_modifyContext {context : Context} {change : Context → Context}
    (running : machine.context? machine.current = some context)
    (stack : (change context).stack = context.stack)
    (isPrefix : (change context).frames.toList <+: context.frames.toList) :
    machine.Falls level (machine.modifyContext machine.current change) := by
  have running' : (machine.modifyContext machine.current change).context? machine.current =
      some (change context) := by
    rw [context?_of_modifyContext, if_pos rfl, running]
    rfl
  refine
    { current := rfl
      remain := ?_
      slots := fun index _ _ => ?_
      others := fun id isOther => .of_context?_eq ?_
      captures := fun _ _ => id
      started := fun _ isStarted => isStarted.of_fibers (Nat.le_of_eq Array.size_modify.symm)
        fun _ _ found => found }
  · rw [frames_of_context? running, frames_modifyContext running]
    exact .of_isPrefix isPrefix
  · rw [slotOf_of_context? running', slotOf_of_context? running, Context.slot, Context.slot, stack]
  · rw [context?_of_modifyContext, if_neg isOther.symm]

end Laws

end Machine

end RiteVm
