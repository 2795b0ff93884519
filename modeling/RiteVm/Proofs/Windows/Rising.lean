import RiteVm.Proofs.Fibers.Asking
import RiteVm.Proofs.Soundness.Execution
import RiteVm.Proofs.Windows.Moves

/-!
Contract: actions that write slots and push frames above a level.

Owns:
- rising actions and the rules for the ways in which they are put together;
- one instance for each action that lays out arguments, binds parameters or pushes a frame;
- collections and new fibers, which leave the stacks in use alone.

What an action writes depends on the indices that it is given. That these are above a level is
a fact that the instances derive from one about the base of a frame or the receiver of a call.
-/

namespace RiteVm

open RiteVm.Bytecode

/-! ### Indices above a level -/

section Indices

variable {level base register offset : Nat} {site : CallSite}

instance Fact.le_add [above : Fact (level ≤ base)] : Fact (level ≤ base + offset) :=
  ⟨Nat.le_add_right_of_le above.out⟩

instance Fact.le_add_add [above : Fact (level ≤ base + register)] :
    Fact (level ≤ base + (register + offset)) :=
  ⟨Nat.add_assoc base register offset ▸ Nat.le_add_right_of_le above.out⟩

instance Fact.le_keywordsAt [above : Fact (level ≤ site.receiverAt)] :
    Fact (level ≤ site.keywordsAt) :=
  ⟨by
    have := above.out
    rw [CallSite.keywordsAt]
    omega⟩

instance Fact.le_blockAt [above : Fact (level ≤ site.receiverAt)] : Fact (level ≤ site.blockAt) :=
  have above : Fact (level ≤ site.keywordsAt) := inferInstance
  ⟨Nat.le_trans above.out (Nat.le_add_right _ _)⟩

end Indices

namespace VM

-- long actions consist of many parts
set_option synthInstance.maxSize 3000

variable {tidy : Prop} {level : Nat} {stands : Machine → Prop} {machine : Machine} {α β : Type}

/-! ### Rising actions -/

/-- From one machine, an action writes slots and pushes frames above a level. -/
abbrev RisesFrom (level : Nat) (machine : Machine) (action : VM α) : Prop :=
  machine.Rises ∅ level (action.after machine)

/-- Where something stands, it stands after a rise. -/
class Lasting (level : Nat) (stands : Machine → Prop) : Prop where
  lasts : ∀ before after, before.Rises ∅ level after → stands before → stands after

namespace Lasting

instance anywhere : Lasting level fun _ => True := ⟨fun _ _ _ => id⟩

instance runsAbove : Lasting level (Machine.RunsAbove level) :=
  ⟨fun _ _ rises runs => runs.rises rises⟩

instance reachesTo : Lasting level (Machine.ReachesTo level) :=
  ⟨fun _ _ rises reaches => reaches.rises rises⟩

end Lasting

/-- Where something stands, an action writes slots and pushes frames above a level. -/
class Rising (stands : Machine → Prop) (level : Nat) (action : VM α) : Prop where
  risesFrom : ∀ machine, machine.Linked True → stands machine → RisesFrom level machine action


section Composition

variable {action : VM α} {rest : α → VM β}

theorem linked_after [carries : Carries True action] (linked : machine.Linked True) :
    (action.after machine).Linked True :=
  (carries.carriesFrom machine linked).linked

theorem RisesFrom.bind (linked : (action.after machine).Linked True)
    (first : RisesFrom level machine action)
    (second : ∀ value next, action machine = .ok value next → next.Linked True →
      machine.Rises ∅ level next → RisesFrom level next (rest value)) :
    RisesFrom level machine (action >>= rest) := by
  cases result : action machine with
  | ok value next =>
      rw [RisesFrom, after_of_ok result] at first
      rw [after_of_ok result] at linked
      rw [RisesFrom, after_bind_of_ok result]
      exact first.trans (second value next result linked first)
  | error failure next =>
      rw [RisesFrom, after_of_error result] at first
      rw [RisesFrom, after_of_error (bind_of_error result)]
      exact first

theorem RisesFrom.of_quiet [quiet : Quiet action] (linked : machine.Linked True) :
    RisesFrom level machine action :=
  (Machine.KeepsStacks.of_keepsFibers linked.wellFormed (quiet.quietFrom machine)).rises

theorem RisesFrom.query_bind {query : Query α} (linked : machine.Linked True)
    (second : ∀ value, query machine = .ok value → RisesFrom level machine (rest value)) :
    RisesFrom level machine (liftM query >>= rest) := by
  refine .bind (linked_after linked) (.of_quiet linked) fun value next read _ _ => ?_
  obtain ⟨isValue, rfl⟩ := liftM_eq_ok_iff.mp read
  exact second value isValue

variable [lasting : Lasting level stands]

namespace Rising

instance ofQuiet [Quiet action] : Rising stands level action :=
  ⟨fun _ linked _ => .of_quiet linked⟩

instance seq [Carries True action] [first : Rising stands level action]
    [second : ∀ value, Rising stands level (rest value)] :
    Rising stands level (action >>= rest) where
  risesFrom machine linked holds :=
    .bind (linked_after linked) (first.risesFrom machine linked holds)
    fun value next _ linked rises =>
      (second value).risesFrom next linked (lasting.lasts machine next rises holds)

/-- The action behind a part of it whose value it depends on. -/
theorem behind [Carries True action] [Rising stands level action]
    (others : ∀ value, Rising stands level (rest value)) : Rising stands level (action >>= rest) :=
  seq

instance branch (condition : Prop) [Decidable condition] {yes no : VM α}
    [Rising stands level yes] [Rising stands level no] :
    Rising stands level (if condition then yes else no) := by
  split <;> infer_instance

instance listForIn {action : α → β → VM (ForInStep β)}
    [∀ value state, Carries True (action value state)]
    [∀ value state, Rising stands level (action value state)] (list : List α) (initial : β) :
    Rising stands level (forIn list initial action) := by
  induction list generalizing initial with
  | nil => exact inferInstanceAs (Rising stands level (pure _))
  | cons first rest inductionHypothesis =>
      rw [List.forIn_cons]
      refine behind fun step => ?_
      cases step <;> infer_instance

end Rising

end Composition

/-! ### Registers -/

theorem context_of_linked (linked : machine.Linked True) :
    ∃ context, machine.context? machine.current = some context :=
  Option.isSome_iff_exists.mp linked.live_current

/-- The running frame changes and stays where it is. -/
theorem RisesFrom.of_modifyFrame {change : Frame → Frame} (linked : machine.Linked True)
    (widens : ∀ frame, machine.frames.getLast? = some frame → frame.Widens (change frame)) :
    RisesFrom level machine (VM.modifyFrame change) := by
  obtain ⟨context, running⟩ := context_of_linked linked
  rw [Machine.frames_of_context? running] at widens
  refine .of_modifyContext running (fun _ _ => rfl) ?_ (.of_length_le ?_)
  · rw [Array.toList_modify, ← Array.length_toList]
    exact widen_modifyLast widens
  · rw [Array.toList_modify, List.length_modify]

namespace Rising

instance modifyFrame (change : Frame → Frame) [keeps : KeepsWindow change] :
    Rising stands level (VM.modifyFrame change) :=
  ⟨fun _ linked _ => .of_modifyFrame linked fun frame _ => keeps.widens frame⟩

/-- A change of slots above a level. -/
theorem of_slots {change : Context → Context}
    (frames : ∀ context, (change context).frames = context.frames)
    (slots : ∀ context, ∀ index < level, (change context).slot index = context.slot index) :
    Rising stands level (VM.modifyContext change) where
  risesFrom machine linked _ := by
    obtain ⟨context, running⟩ := context_of_linked linked
    exact .of_modifyContext running (slots context) (frames context ▸ .refl _)
      (.of_length_le (Nat.le_of_eq (by rw [frames])))

instance setSlot (index : Nat) (value : Value) [above : Fact (level ≤ index)] :
    Rising stands level (VM.setSlot index value) :=
  of_slots (fun context => ensureSize_frames context _) fun context _ below =>
    Context.slot_setSlot_of_ne context value (Nat.ne_of_lt (Nat.lt_of_lt_of_le below above.out))

instance setRegister (base register : Nat) (value : Value) [Fact (level ≤ base + register)] :
    Rising stands level (VM.setRegister base register value) :=
  setSlot _ _

instance clear (first last : Nat) [above : Fact (level ≤ first)] :
    Rising stands level (VM.modifyContext (·.clear first last)) :=
  of_slots (fun context => ensureSize_frames context _) fun context _ below =>
    context.slot_clear_of_lt (Nat.lt_of_lt_of_le below above.out) last

instance setPending (pending : Option Pending) :
    Rising stands level (VM.modifyContext ({ · with pending })) :=
  of_slots (fun _ => rfl) fun _ _ _ => rfl

instance setSlots [Lasting level stands] (first : Nat) (values : List Value)
    [Fact (level ≤ first)] :
    Rising stands level (VM.setSlots first values) := by
  induction values generalizing first with
  | nil => exact inferInstanceAs (Rising stands level (pure _))
  | cons value rest inductionHypothesis =>
      unfold VM.setSlots
      infer_instance

end Rising

/-! ### Arguments -/

namespace Carries

instance collectKeywords (site : CallSite) (operand : Nat) :
    Carries tidy (VM.collectKeywords site operand) := by
  unfold VM.collectKeywords
  infer_instance

end Carries

variable [lasting : Lasting level stands]

namespace Rising

instance storeBlock (site : CallSite) (block : Value) [Fact (level ≤ site.receiverAt)] :
    Rising stands level (VM.storeBlock site block) := by
  unfold VM.storeBlock
  infer_instance

instance collectKeywords (site : CallSite) (operand : Nat) [Fact (level ≤ site.receiverAt)] :
    Rising stands level (VM.collectKeywords site operand) := by
  unfold VM.collectKeywords
  infer_instance

instance normalizeArgs (receiverAt operand : Nat) (withBlock : Bool)
    [Fact (level ≤ receiverAt)] :
    Rising stands level (VM.normalizeArgs receiverAt operand withBlock) := by
  rw [normalizeArgs_eq]
  dsimp only
  infer_instance

instance packForMissing (site : CallSite) (name : Symbol) [Fact (level ≤ site.receiverAt)] :
    Rising stands level (VM.packForMissing site name) := by
  unfold VM.packForMissing
  dsimp only
  infer_instance

instance layOutArgs (receiverAt : Nat) (receiver : Value) (args : Args)
    [Fact (level ≤ receiverAt)] : Rising stands level (VM.layOutArgs receiverAt receiver args) := by
  unfold VM.layOutArgs
  dsimp only
  infer_instance

instance argArray (base register operand : Nat) [Fact (level ≤ base + register)] :
    Rising stands level (VM.argArray base register operand) := by
  unfold VM.argArray
  dsimp only
  refine behind fun frame => ?_
  split <;> infer_instance

instance pushBlock (base register operand : Nat) [Fact (level ≤ base + register)] :
    Rising stands level (VM.pushBlock base register operand) := by
  unfold VM.pushBlock
  dsimp only
  infer_instance

instance placeArgs (base : Nat) (frame : Frame) (spec : ArgSpec) (bound : BoundArgs)
    (keywords? : Option Value) (block : Value) [Fact (level ≤ base)] :
    Rising stands level (VM.placeArgs base frame spec bound keywords? block) := by
  unfold VM.placeArgs
  dsimp only
  simp only [pure_bind]
  refine behind fun rest => behind fun _ => ?_
  split <;> infer_instance

instance enter (base : Nat) (spec : ArgSpec) [Fact (level ≤ base)] :
    Rising stands level (VM.enter base spec) := by
  unfold VM.enter
  dsimp only
  infer_instance

instance executeDestructure (base register before after : Nat) [Fact (level ≤ base + register)] :
    Rising stands level (VM.executeDestructure base register before after) := by
  unfold VM.executeDestructure
  infer_instance

instance addPairs (base register count : Nat) :
    Rising stands level (VM.addPairs base register count) := by
  unfold VM.addPairs
  infer_instance

instance concatenate (base register : Nat) [Fact (level ≤ base + register)] :
    Rising stands level (VM.concatenate base register) := by
  unfold VM.concatenate
  infer_instance

instance loadPending : Rising stands level VM.loadPending := by
  unfold VM.loadPending
  refine behind fun context => ?_
  split <;> infer_instance

/-! ### Frames -/

instance pushFrame (frame : Frame) [isBase : Fact (level ≤ frame.base)]
    [isTop : Fact (level ≤ frame.top)] :
    Rising stands level (VM.pushFrame frame) where
  risesFrom machine linked _ := by
    obtain ⟨context, running⟩ := context_of_linked linked
    refine .of_modifyContext running (fun _ _ => rfl) ?_ ?_ <;> rw [Array.toList_push]
    · exact .of_isPrefix (List.prefix_append _ _)
    · exact .append (.of_length_le (Nat.le_refl _)) isBase.out isTop.out

instance pushProcFrame (site : CallSite) (proc : Handle) (owner : Option Handle)
    (method : Option Symbol) (block : Value) (boundary : Bool)
    [above : Fact (level ≤ site.receiverAt)] :
    Rising stands level (VM.pushProcFrame site proc owner method block boundary) := by
  have isTop (count : Nat) : Fact (level ≤ max (site.receiverAt + count) (site.blockAt + 1)) :=
    ⟨Nat.le_trans (Nat.le_add_right_of_le above.out) (Nat.le_max_left _ _)⟩
  unfold VM.pushProcFrame
  dsimp only
  infer_instance

instance pushNativeFrame (site : CallSite) (owner : Handle) (method : Symbol) (block : Value)
    [Fact (level ≤ site.receiverAt)] :
    Rising stands level (VM.pushNativeFrame site owner method block) := by
  have above : Fact (level ≤ site.blockAt + 1) := inferInstance
  have isTop (top : Nat) : Fact (level ≤ max (site.blockAt + 1) top) :=
    ⟨Nat.le_trans above.out (Nat.le_max_left _ _)⟩
  unfold VM.pushNativeFrame
  dsimp only
  infer_instance

instance executeBody (base register : Nat) (unit : CodeUnit) (index : Nat)
    [Fact (level ≤ base + register)] :
    Rising stands level (VM.executeBody base register unit index) := by
  unfold VM.executeBody
  infer_instance

instance pushProgramFrame (unit : CodeUnit) (self : Value) (target : Handle) :
    Rising (Machine.ReachesTo level) level (VM.pushProgramFrame unit self target) := by
  have push (base : Nat) [above : Fact (level ≤ base)] (proc : Handle) :
      Rising (Machine.ReachesTo level) level (do
        VM.checkDepth
        VM.checkNativeDepth
        let top := base + max unit.registerCount.toNat 1
        VM.modifyContext (·.clear base top)
        VM.setSlot base self
        VM.pushFrame
          { base, top, proc := some proc, unit := some unit, argCount := 0, hasKeywords := false
            method := none, owner := none, targetClass := target, boundary := true
            block := .nil } : VM Unit) := by
    dsimp only
    infer_instance
  unfold VM.pushProgramFrame
  refine behind fun proc => ⟨fun machine linked reaches => ?_⟩
  refine .query_bind linked fun context read => ?_
  have above : Fact (level ≤ context.stackTop) :=
    ⟨reaches.le_stackTop (context_eq_ok_iff.mp read)⟩
  exact (push context.stackTop proc).risesFrom machine linked reaches

/-- The environment of a frame captures variables of its window. -/
instance frameEnv : Rising (Machine.RunsAbove level) level VM.frameEnv where
  risesFrom machine linked runs := by
    unfold VM.frameEnv
    refine .query_bind linked fun frame read => ?_
    obtain ⟨_, isLast, isBase, -⟩ := runs
    obtain rfl := Option.some.inj ((getLast?_of_frame read).symm.trans isLast)
    split
    · exact .of_quiet linked
    · refine .bind (linked_after linked) (.of_quiet linked) fun start next got _ _ => ?_
      obtain ⟨rfl, rfl⟩ : machine = start ∧ machine = next := by
        cases got
        exact ⟨rfl, rfl⟩
      refine .query_bind linked fun classHandle _ => ?_
      let count := (frame.unit.map (·.localCount.toNat)).getD 1
      let object : Object :=
        { classHandle
          content := .env
            { storage := .onStack machine.current machine.currentFiber frame.base count
              method := frame.method, owner := frame.owner } }
      have onWindow (id : ContextId) (index : Nat) (captured : object.Captures id index) :
          id = machine.current ∧ frame.base ≤ index := by
        obtain ⟨record, fiber, base, count, isEnv, onStack, atLeast, -⟩ := captured
        cases isEnv
        cases onStack
        exact ⟨rfl, atLeast⟩
      have keeps := keepsOthers_allocateEnv linked.wellFormed rfl
        fun id index captured => (onWindow id index captured).1
      have finish (env : Handle) : Rising (fun _ => True) level (do
          VM.modifyFrame ({ · with env := some env })
          return env : VM Handle) := inferInstance
      have allocates : RisesFrom level machine (allocate object) := ?_
      · exact .bind (keeps.linked linked) allocates fun env next _ linked _ =>
          (finish env).risesFrom next linked trivial
      refine
        { current := rfl
          slots := fun _ _ _ => rfl
          widen := .refl _
          fresh := .of_length_le (Nat.le_refl _)
          others := fun id _ => .of_context?_eq rfl
          captures := fun id index below captured => ?_
          started := fun id isStarted => isStarted.of_fibers (Nat.le_refl _)
            fun handle record found => (keeps.fibers handle).symm.trans found }
      refine (linked.wellFormed.captures_allocate captured).resolve_left fun isNew => ?_
      obtain ⟨isCurrent, atLeast⟩ := onWindow id index isNew
      exact absurd (below isCurrent) (Nat.not_lt.mpr (Nat.le_trans isBase atLeast))

instance newClosure (unit : CodeUnit) (targetClass : Handle) (strict : Bool) :
    Rising (Machine.RunsAbove level) level (VM.newClosure unit targetClass strict) := by
  unfold VM.newClosure
  infer_instance

end Rising

theorem RisesFrom.of_inPlace {action : VM α} {rest : α → VM β} [Carries True action]
    [inPlace : InPlace action] [rising : Rising (fun _ => True) level action]
    (linked : machine.Linked True)
    (second : ∀ value next, next.Linked True → next.frames = machine.frames →
      RisesFrom level next (rest value)) :
    RisesFrom level machine (action >>= rest) := by
  refine .bind (linked_after linked) (rising.risesFrom machine linked trivial)
    fun value next succeeded linkedNext _ => second value next linkedNext ?_
  rw [← (inPlace.inPlaceFrom machine linked.wellFormed).frames, after_of_ok succeeded]

/-- The frame of a proc's call keeps its window when it becomes a frame of the proc. -/
instance Rising.becomeProc : Rising (Machine.RunsAbove level) level VM.becomeProc where
  risesFrom machine linked runs := by
    unfold VM.becomeProc
    refine .query_bind linked fun frame read => ?_
    obtain ⟨_, isLast, isBase, isTop⟩ := runs
    obtain rfl := Option.some.inj ((getLast?_of_frame read).symm.trans isLast)
    have become (proc : Handle) (record : ProcRecord) (self : Value) (method : Option Symbol)
        (owner : Option Handle) {next : Machine} (linked : next.Linked True)
        (same : next.frames = machine.frames) : RisesFrom level next (do
          VM.setSlot frame.base self
          let top := max frame.top (frame.base + record.unit.registerCount.toNat)
          VM.modifyContext (·.clear frame.top top)
          VM.modifyFrame fun frame =>
            { frame with
              proc := some proc, unit := some record.unit, pc := 0, env := none, top
              targetClass := record.targetClass, method, owner }) := by
      have above : Fact (level ≤ frame.base) := ⟨isBase⟩
      have above' : Fact (level ≤ frame.top) := ⟨isTop⟩
      refine .of_inPlace linked fun _ cleared linked same' => ?_
      refine .of_inPlace linked fun _ last linked same'' => ?_
      refine .of_modifyFrame linked fun frame' isLast' => ?_
      rw [same'', same', same, isLast] at isLast'
      cases isLast'
      exact ⟨rfl, Nat.le_max_left _ _⟩
    refine .of_inPlace linked fun receiver next linked same => ?_
    refine .of_inPlace linked fun proc next linked same' => ?_
    refine .of_inPlace linked fun record next linked same'' => ?_
    replace same := same''.trans (same'.trans same)
    dsimp only
    split
    · refine .of_inPlace linked fun captured next linked same' => ?_
      refine .of_inPlace linked fun self next linked same'' => ?_
      exact become proc record self _ _ linked (same''.trans (same'.trans same))
    · exact become proc record _ _ _ linked same

end VM

/-! ### Collections and new fibers -/

namespace Machine

variable {machine after : Machine} {handle : Handle} {record : FiberRecord}

theorem Drops.keepsStacks (drops : machine.Drops handle record after) (linked : machine.Linked True)
    (found : machine.fiber? handle = some record) (notRunning : record.state ≠ .running) :
    machine.KeepsStacks after where
  current := drops.current
  running := by
    rw [drops.contexts, if_neg (linked.context_ne_current found notRunning).symm]
  others id _ := by
    by_cases isDropped : id = record.context
    · exact .of_context?_eq_none (by rw [drops.contexts, if_pos isDropped])
    · exact .of_context?_eq (by rw [drops.contexts, if_neg isDropped])
  captures := drops.captures
  started id isStarted := by
    refine isStarted.of_fibers (Nat.le_of_eq drops.contextCount.symm)
      fun other otherRecord isFiber => ?_
    rw [drops.fibers] at isFiber
    split at isFiber
    · cases isFiber
    · exact isFiber

theorem keepsStacks_foldl_reclaim (linked : machine.Linked True) (dead : List Handle)
    (idle : ∀ handle ∈ dead, machine.currentFiber ≠ some handle ∧
      some handle ∉ machine.resumers.map (·.2)) :
    machine.KeepsStacks (dead.foldl reclaim machine) := by
  induction dead generalizing machine with
  | nil => exact .refl machine
  | cons first rest inductionHypothesis =>
      have isIdle := idle first List.mem_cons_self
      have leads : VM.Leads True Eq machine (machine.reclaim first) :=
        (leads_foldl_reclaim linked [first] fun handle member => by
          rw [List.mem_singleton.mp member]
          exact isIdle).1
      have keeps : machine.KeepsStacks (machine.reclaim first) := by
        rcases reclaim_cases linked.wellFormed first with ⟨record, found, drops⟩ | keeps
        · exact drops.keepsStacks linked found fun isRunning =>
            isIdle.1 ((linked.fits first record found).running.mp isRunning)
        · exact .of_keepsFibers linked.wellFormed keeps
      refine keeps.trans (inductionHypothesis leads.linked fun handle member => ?_)
      rw [leads.beside.currentFiber, leads.beside.resumers]
      exact idle handle (List.mem_cons_of_mem _ member)

/-- A collection takes stacks away that are not in use. -/
theorem keepsStacks_collect (linked : machine.Linked True) :
    machine.KeepsStacks machine.collect := by
  have reclaims := keepsStacks_foldl_reclaim linked machine.unreachable fun handle isDead => by
    have unreachable := (mem_unreachable.mp isDead).2
    refine ⟨fun isCurrent => unreachable (.root (.currentFiber isCurrent)), fun waits => ?_⟩
    obtain ⟨⟨id, fiber?⟩, isResumer, rfl⟩ := List.mem_map.mp waits
    exact unreachable (.root (.resumingFiber isResumer))
  refine reclaims.trans ⟨rfl, rfl, fun _ _ => .of_context?_eq rfl, ?_, fun _ => id⟩
  rintro id index ⟨handle, object, found, captured⟩
  exact ⟨handle, object, found, captured⟩

theorem Linked.keepsStacks_withFiber (linked : machine.Linked True) (body : Handle) :
    machine.KeepsStacks (machine.withFiber body) where
  current := rfl
  running := by
    rw [context?_withFiber, if_neg (Nat.ne_of_lt (index_lt_of_live linked.live_current))]
  others id _ := by
    by_cases isNew : id.index = machine.contexts.size
    · exact .inl (framesOf_of_context? ((context?_withFiber body id).trans (if_pos isNew)))
    · exact .of_context?_eq ((context?_withFiber body id).trans (if_neg isNew))
  captures id index captured := (linked.wellFormed.captures_allocate captured).resolve_left
    (Object.not_captures rfl id index)
  started id isStarted := by
    refine ⟨?_, fun handle record found isStack => ?_⟩
    · rw [size_contexts_withFiber]
      exact Nat.lt_succ_of_lt isStarted.1
    · rcases linked.found_withFiber body found with ⟨-, rfl⟩ | found
      · exact absurd isStarted.1 (by rw [← isStack]; exact Nat.lt_irrefl _)
      · exact isStarted.2 handle record found isStack

end Machine

namespace VM

variable {level : Nat} {stands : Machine → Prop} [lasting : Lasting level stands] {α : Type}

namespace Rising

instance collect : Rising stands level collect :=
  ⟨fun _ linked _ => (Machine.keepsStacks_collect linked).rises⟩

instance collectIfDue : Rising stands level collectIfDue := by
  unfold VM.collectIfDue
  infer_instance

instance newFiber (block : Value) : Rising stands level (VM.newFiber block) where
  risesFrom _ linked _ := .bind (linked_after linked) (.of_quiet linked)
    fun body _ _ linked _ => (linked.keepsStacks_withFiber body).rises

instance withSignals (number : Nat) (change : FiberSignals → FiberSignals × α) :
    Rising stands level (VM.withSignals number change) where
  risesFrom _ _ _ := Machine.KeepsStacks.rises
    ⟨rfl, rfl, fun _ _ => .of_context?_eq rfl, fun _ _ => id, fun _ => id⟩

end Rising

end VM

end RiteVm
