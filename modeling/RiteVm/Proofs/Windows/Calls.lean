import RiteVm.Proofs.Windows.Falling

/-!
Contract: a call rises up to the loop or method that it starts, and falls behind it.

Owns:
- what an action does around the place at which it asks the engine, and how this is put
  together;
- one instance for each way to call, and for the operators.
-/

namespace RiteVm

open RiteVm.Bytecode

theorem Engine.ComesTo.loop {engine : Engine} {stop : Nat} {place : Place} {machine start : Machine}
    (comes : engine.ComesTo (fun engine => engine.loop stop) machine place start) :
    place = .loop stop ∧ start = machine := by
  obtain ⟨engine', same, differs⟩ := comes
  by_contra elsewhere
  exact differs (same.loop stop machine elsewhere)

namespace VM

set_option synthInstance.maxSize 3000

variable {level : Nat} {machine : Machine} {written : Set (ContextId × Nat)} {α β : Type}
  {stands : Machine → Prop}

/-- From one machine, an action rises up to the place at which it asks the engine, and falls
behind the answer. -/
structure LaysFrom (written : Set (ContextId × Nat)) (level : Nat) (machine : Machine)
    (action : Engine → VM α) : Prop where
  idle : machine.Passes written level ((action (.ofHosts #[] 0)).after machine) ∧
    ((action (.ofHosts #[] 0)).after machine).Linked True
  comes : ∀ (engine : Engine) (place : Place) (start : Machine), engine.Agrees True engine →
    engine.ComesTo action machine place start →
    machine.Rises written level start ∧ start.ReachesTo level ∧
      ((engine.behind place start).Linked True →
        (∀ lower, (engine.behind place start).Falls lower ((action engine).after machine)) ∧
          ((action engine).after machine).Linked True)

/-- Where something stands, an action rises, asks the engine at one place at most, and falls. -/
class Lays (stands : Machine → Prop) (level : Nat) (action : Engine → VM α) : Prop where
  laysFrom : ∀ machine, machine.Linked True → stands machine → LaysFrom ∅ level machine action

/-! ### Composition -/

section Composition

variable {action : Engine → VM α}

theorem LaysFrom.of_passes {action : VM α}
    (passes : machine.Passes written level (action.after machine))
    (linked : (action.after machine).Linked True) :
    LaysFrom written level machine fun _ => action :=
  ⟨⟨passes, linked⟩, fun _ _ _ _ comes => absurd comes Engine.not_comesTo⟩

theorem LaysFrom.mono {written' : Set (ContextId × Nat)}
    (lays : LaysFrom written level machine action) (more : written ⊆ written') :
    LaysFrom written' level machine action where
  idle := by
    obtain ⟨⟨between, rises, falls⟩, linked⟩ := lays.idle
    exact ⟨⟨between, rises.mono more, falls⟩, linked⟩
  comes engine place start agrees comes := by
    obtain ⟨rises, reaches, falls⟩ := lays.comes engine place start agrees comes
    exact ⟨rises.mono more, reaches, falls⟩

/-- What rises may come in front of what asks. -/
theorem LaysFrom.behind {first : VM α} {rest : α → Engine → VM β}
    (linked : (first.after machine).Linked True) (rises : RisesFrom level machine first)
    (go : ∀ value next, first machine = .ok value next → next.Linked True →
      machine.Rises ∅ level next → LaysFrom written level next (rest value)) :
    LaysFrom written level machine fun engine => first >>= fun value => rest value engine where
  idle := by
    cases result : first machine with
    | ok value next =>
        rw [RisesFrom, after_of_ok result] at rises
        rw [after_of_ok result] at linked
        rw [after_bind_of_ok result]
        obtain ⟨⟨between, rises', falls⟩, linked⟩ := (go value next result linked rises).idle
        exact ⟨⟨between, (rises.mono (Set.empty_subset _)).trans rises', falls⟩, linked⟩
    | error failure next =>
        rw [RisesFrom, after_of_error result] at rises
        rw [after_of_error result] at linked
        rw [after_of_error (bind_of_error result)]
        exact ⟨(rises.mono (Set.empty_subset _)).passes, linked⟩
  comes engine place start agrees comes := by
    obtain ⟨value, next, result, comes⟩ := comes.behind
    rw [RisesFrom, after_of_ok result] at rises
    rw [after_of_ok result] at linked
    rw [after_bind_of_ok result]
    obtain ⟨rises', reaches, falls⟩ :=
      (go value next result linked rises).comes engine place start agrees comes
    exact ⟨(rises.mono (Set.empty_subset _)).trans rises', reaches, falls⟩

theorem LaysFrom.query_bind {query : Query α} {rest : α → Engine → VM β}
    (linked : machine.Linked True)
    (go : ∀ value, query machine = .ok value → LaysFrom written level machine (rest value)) :
    LaysFrom written level machine fun engine =>
      liftM query >>= fun value => rest value engine := by
  refine .behind (linked_after linked) (.of_quiet linked) fun value next read _ _ => ?_
  obtain ⟨isValue, rfl⟩ := liftM_eq_ok_iff.mp read
  exact go value isValue

/-- What falls may come behind an answer, whatever becomes of it. -/
theorem LaysFrom.andThen {whole : Engine → VM β} (lays : LaysFrom written level machine action)
    (comes : ∀ (engine : Engine) (place : Place) (start : Machine),
      engine.ComesTo whole machine place start → engine.ComesTo action machine place start)
    (falls : ∀ engine, ((action engine).after machine).Linked True →
      (∀ lower, ((action engine).after machine).Falls lower ((whole engine).after machine)) ∧
        ((whole engine).after machine).Linked True) :
    LaysFrom written level machine whole where
  idle := by
    obtain ⟨passes, linked⟩ := lays.idle
    obtain ⟨falls, linked⟩ := falls _ linked
    exact ⟨passes.trans_falls (falls level), linked⟩
  comes engine place start agrees isPlace := by
    obtain ⟨rises, reaches, ends⟩ :=
      lays.comes engine place start agrees (comes engine place start isPlace)
    refine ⟨rises, reaches, fun linked => ?_⟩
    obtain ⟨falls', linked'⟩ := ends linked
    obtain ⟨falls, linked⟩ := falls engine linked'
    exact ⟨fun lower => (falls' lower).trans (falls lower), linked⟩

theorem LaysFrom.before {rest : α → VM β} [carries : ∀ value, Carries True (rest value)]
    [falling : ∀ lower value, Falling lower (rest value)]
    (lays : LaysFrom written level machine action) :
    LaysFrom written level machine fun engine => action engine >>= rest := by
  refine lays.andThen (fun _ _ _ comes => comes.before) fun engine linked => ?_
  cases result : action engine machine with
  | ok value next =>
      rw [after_of_ok result] at linked ⊢
      rw [after_bind_of_ok result]
      exact ⟨fun lower => (falling lower value).fallsFrom next linked, linked_after linked⟩
  | error failure next =>
      rw [after_of_error result] at linked ⊢
      rw [after_of_error (bind_of_error result)]
      exact ⟨fun _ => .refl next, linked⟩

theorem LaysFrom.attempt_bind {finish : Except Failure α → VM β}
    [carries : ∀ result, Carries True (finish result)]
    [falling : ∀ lower result, Falling lower (finish result)]
    (lays : LaysFrom written level machine action) :
    LaysFrom written level machine fun engine => attempt (action engine) >>= finish := by
  refine lays.andThen (fun _ _ _ comes => comes.attempted) fun engine linked => ?_
  have isAfter : ∃ result, (attempt (action engine) >>= finish).after machine =
      (finish result).after ((action engine).after machine) := by
    cases ran : action engine machine with
    | ok value next =>
        rw [after_of_ok ran]
        exact ⟨.ok value, after_bind_of_ok (attempt_of_ok ran)⟩
    | error failure next =>
        rw [after_of_error ran]
        exact ⟨.error failure, after_bind_of_ok (attempt_of_error ran)⟩
  obtain ⟨result, isAfter⟩ := isAfter
  rw [isAfter]
  exact ⟨fun lower => (falling lower result).fallsFrom _ linked, linked_after linked⟩

namespace Lays

theorem imp {stands' : Machine → Prop} [lays : Lays stands level action]
    (implies : ∀ machine, stands' machine → stands machine) : Lays stands' level action :=
  ⟨fun machine linked holds => lays.laysFrom machine linked (implies machine holds)⟩

variable [lasting : Lasting level stands]

instance ofRising {action : VM α} [Carries True action] [rising : Rising stands level action] :
    Lays stands level fun _ => action :=
  ⟨fun machine linked holds =>
    .of_passes (rising.risesFrom machine linked holds).passes (linked_after linked)⟩

instance ofFalling {action : VM α} [Carries True action] [falling : Falling level action] :
    Lays stands level fun _ => action :=
  ⟨fun machine linked _ => .of_passes
    ⟨machine, Machine.KeepsStacks.rises (.refl machine), falling.fallsFrom machine linked⟩
    (linked_after linked)⟩

instance behind {first : VM α} {rest : α → Engine → VM β} [Carries True first]
    [rising : Rising stands level first] [lays : ∀ value, Lays stands level (rest value)] :
    Lays stands level fun engine => first >>= fun value => rest value engine where
  laysFrom machine linked holds :=
    .behind (linked_after linked) (rising.risesFrom machine linked holds)
      fun value next _ linked rises =>
        (lays value).laysFrom next linked (lasting.lasts machine next rises holds)

/-- The action behind a part of it whose value it depends on. -/
theorem andThen {first : VM α} {rest : α → Engine → VM β} [Carries True first]
    [Rising stands level first] (others : ∀ value, Lays stands level (rest value)) :
    Lays stands level fun engine => first >>= fun value => rest value engine :=
  behind

instance before {rest : α → VM β} [lays : Lays stands level action]
    [∀ value, Carries True (rest value)] [∀ lower value, Falling lower (rest value)] :
    Lays stands level fun engine => action engine >>= rest :=
  ⟨fun machine linked holds => (lays.laysFrom machine linked holds).before⟩

omit lasting in
/-- What leaves all stacks alone may come behind what asks. -/
theorem before_quiet {rest : α → VM β} [Lays stands level action]
    (quiet : ∀ value, Quiet (rest value)) :
    Lays stands level fun engine => action engine >>= rest :=
  before

instance attempt_bind {finish : Except Failure α → VM β} [lays : Lays stands level action]
    [∀ result, Carries True (finish result)] [∀ lower result, Falling lower (finish result)] :
    Lays stands level fun engine => attempt (action engine) >>= finish :=
  ⟨fun machine linked holds => (lays.laysFrom machine linked holds).attempt_bind⟩

instance branch (condition : Prop) [Decidable condition] {yes no : Engine → VM α}
    [Lays stands level yes] [Lays stands level no] :
    Lays stands level fun engine => if condition then yes engine else no engine := by
  split <;> infer_instance

end Lays

end Composition

/-! ### Questions -/

namespace Lays

instance loop (stop : Nat) :
    Lays (Machine.ReachesTo level) level fun engine => engine.loop stop where
  laysFrom machine linked reaches :=
    { idle := ⟨Machine.Rises.passes (Machine.KeepsStacks.rises (.refl machine)), linked⟩
      comes := fun engine place start _ comes => by
        obtain ⟨rfl, rfl⟩ := comes.loop
        exact ⟨Machine.KeepsStacks.rises (.refl _), reaches, fun linked =>
          ⟨fun _ => .refl _, linked⟩⟩ }

instance native (method : NativeMethod) (self : Value) (args : Args) :
    Lays (Machine.ReachesTo level) level fun engine => engine.native method self args where
  laysFrom machine linked reaches :=
    { idle := ⟨Machine.Rises.passes (Machine.KeepsStacks.rises (.refl machine)), linked⟩
      comes := fun engine place start _ comes => by
        obtain ⟨rfl, rfl⟩ := comes.native
        exact ⟨Machine.KeepsStacks.rises (.refl _), reaches, fun linked =>
          ⟨fun _ => .refl _, linked⟩⟩ }

instance nested {action : Engine → VM α} [Lasting level stands] [Lays stands level action] :
    Lays stands level fun engine => nested (action engine) := by
  have keeps (machine : Machine) (depth : Nat) :
      machine.KeepsStacks { machine with nativeDepth := depth } :=
    ⟨rfl, rfl, fun _ _ => .of_context?_eq rfl, fun _ _ => id, fun _ => id⟩
  have enter : Rising stands level (modify fun machine : Machine =>
      { machine with nativeDepth := machine.nativeDepth + 1 } : VM PUnit) :=
    ⟨fun machine _ _ => (keeps machine _).rises⟩
  have leave (lower : Nat) : Falling lower (modify fun machine : Machine =>
      { machine with nativeDepth := machine.nativeDepth - 1 } : VM PUnit) :=
    ⟨fun machine _ => (keeps machine _).falls⟩
  have entered : Carries True (modify fun machine : Machine =>
      { machine with nativeDepth := machine.nativeDepth + 1 } : VM PUnit) :=
    ⟨fun machine linked => ⟨linked_deeper linked, .deeper machine⟩⟩
  have left : Carries True (modify fun machine : Machine =>
      { machine with nativeDepth := machine.nativeDepth - 1 } : VM PUnit) :=
    ⟨fun machine linked => ⟨linked_shallower linked, .shallower machine⟩⟩
  unfold VM.nested
  infer_instance

end Lays

/-! ### Calls by name -/

/-- An action returns a call site with a receiver at a stack index. -/
class SitsAt (receiverAt : Nat) (action : VM CallSite) : Prop where
  receiverAt_eq : ∀ machine site next, action machine = .ok site next → site.receiverAt = receiverAt

namespace SitsAt

variable {receiverAt : Nat}

theorem stays {site : CallSite} (isSite : site.receiverAt = receiverAt) :
    SitsAt receiverAt (pure site) where
  receiverAt_eq _ _ _ returned := by
    rw [← (pure_eq_ok_iff.mp returned).1]
    exact isSite

instance seq {first : VM α} {rest : α → VM CallSite}
    [sits : ∀ value, SitsAt receiverAt (rest value)] :
    SitsAt receiverAt (first >>= rest) where
  receiverAt_eq _ site last succeeded := by
    obtain ⟨value, next, -, succeeded⟩ := bind_eq_ok_iff.mp succeeded
    exact (sits value).receiverAt_eq next site last succeeded

instance branch (condition : Prop) [Decidable condition] {yes no : VM CallSite}
    [SitsAt receiverAt yes] [SitsAt receiverAt no] :
    SitsAt receiverAt (if condition then yes else no) := by
  split <;> infer_instance

instance storeBlock (site : CallSite) (block : Value) :
    SitsAt site.receiverAt (VM.storeBlock site block) := by
  have returns : SitsAt site.receiverAt (pure site) := stays rfl
  unfold VM.storeBlock
  infer_instance

instance normalizeArgs (operand : Nat) (withBlock : Bool) :
    SitsAt receiverAt (VM.normalizeArgs receiverAt operand withBlock) := by
  have stores (argCount : Nat) (hasKeywords : Bool) (block : Value) :
      SitsAt receiverAt (VM.storeBlock { receiverAt, argCount, hasKeywords } block) :=
    storeBlock { receiverAt, argCount, hasKeywords } block
  rw [normalizeArgs_eq]
  dsimp only
  infer_instance

instance packForMissing (site : CallSite) (name : Symbol) :
    SitsAt site.receiverAt (VM.packForMissing site name) := by
  have returns : SitsAt site.receiverAt (pure { site with argCount := packedCount }) := stays rfl
  unfold VM.packForMissing
  dsimp only
  infer_instance

instance layOutArgs (receiver : Value) (args : Args) :
    SitsAt receiverAt (VM.layOutArgs receiverAt receiver args) := by
  have returns (argCount : Nat) (hasKeywords : Bool) :
      SitsAt receiverAt (pure { receiverAt, argCount, hasKeywords }) := stays rfl
  unfold VM.layOutArgs
  dsimp only
  infer_instance

end SitsAt

/-- What goes on at a call site goes on above a level below its receiver. -/
theorem LaysFrom.site_bind {receiverAt : Nat} {first : VM CallSite}
    {rest : CallSite → Engine → VM β} [Carries True first] [rising : Rising stands level first]
    [sits : SitsAt receiverAt first] [lasting : Lasting level stands]
    (above : level ≤ receiverAt) (linked : machine.Linked True) (holds : stands machine)
    (go : ∀ site, Fact (level ≤ site.receiverAt) → Lays stands level (rest site)) :
    LaysFrom ∅ level machine fun engine => first >>= fun site => rest site engine :=
  .behind (linked_after linked) (rising.risesFrom machine linked holds)
    fun site next succeeded linked rises =>
      (go site ⟨sits.receiverAt_eq machine site next succeeded ▸ above⟩).laysFrom next linked
        (lasting.lasts machine next rises holds)

namespace Lays

instance callNativeBody (receiver : Value) (body : NativeMethod) (owner : Handle) (name : Symbol)
    (args : Args) :
    Lays (Machine.ReachesTo level) level fun engine =>
      callNativeBody engine receiver body owner name args := by
  have finish (height lower : Nat) (result : Except Failure Value) : Falling lower (do
      VM.truncateFrames height
      match result with
      | .ok value => return value
      | .error (.unwinding target value) =>
        if target = height then return value
        else VM.finishCall (.error (.unwinding target value))
      | .error failure => throw failure : VM Value) := by
    split <;> infer_instance
  have finish' (height : Nat) (result : Except Failure Value) : Carries True (do
      VM.truncateFrames height
      match result with
      | .ok value => return value
      | .error (.unwinding target value) =>
        if target = height then return value
        else VM.finishCall (.error (.unwinding target value))
      | .error failure => throw failure : VM Value) := by
    split <;> infer_instance
  unfold VM.callNativeBody
  refine ⟨fun machine linked reaches => .query_bind linked fun context read => ?_⟩
  have above : Fact (level ≤ context.stackTop) :=
    ⟨reaches.le_stackTop (context_eq_ok_iff.mp read)⟩
  refine (?_ : Lays (Machine.ReachesTo level) level _).laysFrom machine linked reaches
  infer_instance

instance callProcBody (receiver : Value) (proc owner : Handle) (name : Symbol) (args : Args) :
    Lays (Machine.ReachesTo level) level fun engine =>
      callProcBody engine receiver proc owner name args := by
  unfold VM.callProcBody
  refine ⟨fun machine linked reaches => .query_bind linked fun context read => ?_⟩
  have above := reaches.le_stackTop (context_eq_ok_iff.mp read)
  have above' : Fact (level ≤ context.stackTop) := ⟨above⟩
  exact .site_bind above linked reaches fun site _ => inferInstance

instance callWithArgs (receiver : Value) (name : Symbol) (args : Args) :
    Lays (Machine.ReachesTo level) level fun engine => callWithArgs engine receiver name args := by
  unfold VM.callWithArgs
  refine andThen fun _ => andThen fun resolved => ?_
  obtain ⟨found, name, args⟩ := resolved
  dsimp only
  split <;> infer_instance

instance callWith (receiver : Value) (name : Symbol) (args : List Value) :
    Lays (Machine.ReachesTo level) level fun engine => callWith engine receiver name args :=
  callWithArgs _ _ _

instance callProc (proc : Value) (args : List Value) :
    Lays (Machine.ReachesTo level) level fun engine => callProc engine proc args :=
  callWith _ _ _

instance funcall (receiver : Value) (name : String) (args : List Value) (block : Value) :
    Lays (Machine.ReachesTo level) level fun engine => funcall engine receiver name args block := by
  unfold VM.funcall
  infer_instance

instance runUnit (unit : CodeUnit) (self : Value) (target : Handle) :
    Lays (Machine.ReachesTo level) level fun engine => runUnit engine unit self target := by
  unfold VM.runUnit
  infer_instance

instance run (unit : CodeUnit) :
    Lays (Machine.ReachesTo level) level fun engine => run engine unit := by
  unfold VM.run
  split <;> infer_instance

instance load (binary : Bytes) :
    Lays (Machine.ReachesTo level) level fun engine => load engine binary := by
  unfold VM.load
  infer_instance

instance loadInto (binary : Bytes) (target : Handle) :
    Lays (Machine.ReachesTo level) level fun engine => loadInto engine binary target := by
  unfold VM.loadInto
  infer_instance

end Lays

/-! ### Calls by instructions -/

instance Pushes.nativeFrameAt (site : CallSite) (owner : Handle) (method : Symbol) (block : Value) :
    Pushes (fun frame => frame.base = site.receiverAt)
      (pushNativeFrame site owner method block) := by
  unfold VM.pushNativeFrame
  exact behind fun _ => frame rfl

instance Carries.leaveNative (receiverAt : Nat) (value : Value) :
    Carries True (leaveNative receiverAt value) := by
  unfold VM.leaveNative
  refine @seq _ _ _ _ _ _ fun yielded? => ?_
  split <;> infer_instance

/-- A method that is no bytecode returns its value in the slot that its frame began with. -/
theorem fallsFrom_leaveNative {before : List Frame} {frame : Frame} (linked : machine.Linked True)
    (isFrames : machine.frames = before ++ [frame]) (value : Value) :
    FallsFrom level machine (leaveNative frame.base value) := by
  have takes : InPlaceFrom machine takeYielded := .of_inPlace linked.wellFormed
  unfold leaveNative
  refine .bind linked (Falling.ofQuiet.fallsFrom machine linked)
    fun yielded? next taken linked => ?_
  have same : next.frames = machine.frames := by
    rw [← takes.frames, after_of_ok taken]
  cases yielded? with
  | some yielded => exact .refl next
  | none =>
      refine .pop_bind linked fun frame? last isLast linked => ?_
      rw [same, isFrames, List.getLast?_concat] at isLast
      subst isLast
      have above : Fact (min level frame.base ≤ frame.base) := ⟨Nat.min_le_right _ _⟩
      have writes : Falling (min level frame.base) (do
          setSlot frame.base value
          return none : VM (Option Exit)) := inferInstance
      exact writes.fallsFrom last linked

theorem laysFrom_nativeCall {before : List Frame} {frame : Frame} (linked : machine.Linked True)
    (isFrames : machine.frames = before ++ [frame]) (reaches : machine.ReachesTo level)
    (body : NativeMethod) (receiver : Value) (args : Args) :
    LaysFrom ∅ level machine fun engine => (do
      let value ← engine.native body receiver args
      leaveNative frame.base value : VM (Option Exit)) where
  idle := ⟨Machine.Rises.passes (Machine.KeepsStacks.rises (.refl machine)), linked⟩
  comes engine place start agrees comes := by
    obtain ⟨rfl, rfl⟩ := comes.before.native
    refine ⟨Machine.KeepsStacks.rises (.refl _), reaches, fun linked' => ?_⟩
    have ends := ((agrees.native body receiver args).balancedFrom start linked).ends
    rw [Engine.behind] at linked' ⊢
    cases result : engine.native body receiver args start with
    | ok value next =>
        rw [result] at ends
        rw [after_of_ok result] at linked' ⊢
        rw [after_bind_of_ok result]
        exact ⟨fun lower => fallsFrom_leaveNative linked' ((ends trivial).trans isFrames) value,
          linked_after linked'⟩
    | error failure next =>
        rw [after_of_error result] at linked' ⊢
        rw [after_of_error (bind_of_error result)]
        exact ⟨fun _ => .refl next, linked'⟩

namespace Lays

section Instructions

variable [lasting : Lasting level stands]

instance callNative (site : CallSite) (body : NativeMethod) (owner : Handle) (name : Symbol)
    [Fact (level ≤ site.receiverAt)] :
    Lays stands level fun engine => callNative engine site body owner name := by
  have called (args : Args) (receiver : Value) : Lays stands level fun engine => (do
      VM.pushNativeFrame site owner name args.block
      let value ← engine.native body receiver args
      leaveNative site.receiverAt value : VM (Option Exit)) := by
    refine ⟨fun machine linked holds => ?_⟩
    obtain ⟨-, -, pushed⟩ :=
      (Pushes.nativeFrameAt site owner name args.block).pushesFrom True machine linked
    have rising : Rising stands level (VM.pushNativeFrame site owner name args.block) :=
      inferInstance
    refine .behind (linked_after linked) (rising.risesFrom machine linked holds)
      fun _ next succeeded linked rises => ?_
    rw [succeeded] at pushed
    obtain ⟨frame, isBase, isFrames⟩ := pushed
    refine isBase ▸ laysFrom_nativeCall linked isFrames (rises.reachesTo ?_) body receiver args
    rw [isFrames, List.length_append]
    exact Nat.lt_succ_self _
  unfold leaveNative at called
  unfold VM.callNative
  infer_instance

instance callMethod (site : CallSite) (found : FoundMethod) (name : Symbol)
    [Fact (level ≤ site.receiverAt)] :
    Lays stands level fun engine => callMethod engine site found name := by
  unfold VM.callMethod
  split <;> infer_instance

instance dispatch (site : CallSite) (name : Symbol) [above : Fact (level ≤ site.receiverAt)] :
    Lays stands level fun engine => dispatch engine site name := by
  have packs (found : FoundMethod) : Lays stands level fun engine => (do
      let site ← VM.packForMissing site name
      VM.callMethod engine site found .methodMissing : VM (Option Exit)) :=
    ⟨fun machine linked holds => .site_bind above.out linked holds fun _ _ => inferInstance⟩
  unfold VM.dispatch
  refine andThen fun receiver => andThen fun handle => andThen fun found? => ?_
  split
  · infer_instance
  · refine andThen fun missing? => ?_
    split <;> infer_instance

instance send (base register : Nat) (name : Symbol) (operand : Nat) (withBlock : Bool)
    [above : Fact (level ≤ base + register)] :
    Lays stands level fun engine => send engine base register name operand withBlock := by
  unfold VM.send
  exact ⟨fun machine linked holds => .site_bind above.out linked holds fun _ _ => inferInstance⟩

instance sendSelf (base register : Nat) (name : Symbol) (operand : Nat) (withBlock : Bool)
    [Fact (level ≤ base + register)] :
    Lays stands level fun engine => sendSelf engine base register name operand withBlock := by
  unfold VM.sendSelf
  infer_instance

instance callSuper (base register operand : Nat) [above : Fact (level ≤ base + register)] :
    Lays stands level fun engine => callSuper engine base register operand := by
  have calls (found : FoundMethod) (name : Symbol) : Lays stands level fun engine => (do
      let site ← VM.normalizeArgs (base + register) operand true
      VM.callMethod engine site found name : VM (Option Exit)) :=
    ⟨fun machine linked holds => .site_bind above.out linked holds fun _ _ => inferInstance⟩
  unfold VM.callSuper
  refine andThen fun frame => ?_
  split
  · refine andThen fun receiver => andThen fun handle => andThen fun found => ?_
    split <;> infer_instance
  · infer_instance

/-! ### Operators -/

instance executeArithmetic (base register : Nat) (op : ArithOp) (method : Symbol)
    [Fact (level ≤ base + register)] :
    Lays stands level fun engine => executeArithmetic engine base register op method := by
  unfold VM.executeArithmetic
  refine andThen fun left => andThen fun right => andThen fun result? => ?_
  split <;> infer_instance

instance executeImmediate (base register number : Nat) (op : ArithOp) (method : Symbol)
    [Fact (level ≤ base + register)] :
    Lays stands level fun engine => executeImmediate engine base register number op method := by
  unfold VM.executeImmediate
  refine andThen fun left => andThen fun result? => ?_
  split <;> infer_instance

instance executeComparison (base register : Nat) (op : CompareOp) [Fact (level ≤ base + register)] :
    Lays stands level fun engine => executeComparison engine base register op := by
  unfold VM.executeComparison
  refine andThen fun left => andThen fun right => ?_
  split <;> infer_instance

instance executeEquality (base register : Nat) [Fact (level ≤ base + register)] :
    Lays stands level fun engine => executeEquality engine base register := by
  unfold VM.executeEquality
  refine andThen fun left => andThen fun right => ?_
  split <;> infer_instance

instance executeGetIndex (base register : Nat) [Fact (level ≤ base + register)] :
    Lays stands level fun engine => executeGetIndex engine base register := by
  unfold VM.executeGetIndex
  refine andThen fun receiver => andThen fun index => andThen fun content? => ?_
  split <;> infer_instance

instance executeSetIndex (base register : Nat) [Fact (level ≤ base + register)] :
    Lays stands level fun engine => executeSetIndex engine base register := by
  unfold VM.executeSetIndex
  refine andThen fun receiver => andThen fun index => andThen fun value => ?_
  refine andThen fun content? => ?_
  split <;> infer_instance

end Instructions

instance textBytes (value : Value) :
    Lays (Machine.ReachesTo level) level fun engine => textBytes engine value := by
  unfold VM.textBytes
  split
  · infer_instance
  · infer_instance
  · refine andThen fun bytes? => ?_
    split
    · infer_instance
    · refine before_quiet fun text => @Quiet.seq _ _ _ _ _ fun bytes? => ?_
      split <;> infer_instance
  · infer_instance

instance appendText (target value : Value) :
    Lays (Machine.ReachesTo level) level fun engine => appendText engine target value := by
  have append (handle : Handle) (tail : Bytes) := Asks.quiet_appendBytes handle tail
  unfold VM.appendText
  refine before_quiet fun tail => @Quiet.seq _ _ _ _ _ fun _ => ?_
  dsimp only
  split <;> infer_instance

instance appendTextInside (target value : Value) :
    Lays (Machine.RunsAbove level) level fun engine => VM.appendText engine target value :=
  imp fun _ => Machine.RunsAbove.reachesTo

end Lays

end VM

end RiteVm
