import RiteVm.Proofs.Fibers.Lifetimes
import RiteVm.Proofs.Soundness.Frames

/-!
Contract: fibers that come, are switched and go sustain a sound machine.

Owns:
- new fibers, whose stacks are empty;
- switching to a fiber and back, with what is left to do behind a cycle;
- collections: a stack that is left belongs to a fiber that is left, so that everything it
  refers to is left as well.
-/

namespace RiteVm

open RiteVm.Machine (rootContext)

namespace Machine

variable {limits : Config} {strict : Prop} {level : Nat} {machine next : Machine}

/-! ### Stacks that come and go -/

theorem SoundAt.withFiber (sound : machine.SoundAt limits strict level) (body : Handle) :
    (machine.withFiber body).SoundAt limits strict level := by
  have keeps : machine.KeepsRoles (machine.withFiber body) :=
    keepsRoles_allocate sound.wellFormed (machine.fiberObject body)
  refine
    { config := sound.config
      nativeDepth := sound.nativeDepth
      level_le := sound.level_le
      wellFormed := sound.wellFormed.allocate _
      owned := fun id context found => ?_
      contexts := fun id context found => ?_ }
  · rw [context?_withFiber] at found
    split at found
    · rename_i isNew
      cases found
      have allocated : VM.allocate (machine.fiberObject body) machine =
          .ok (machine.newHandle body) (machine.allocate (machine.fiberObject body)) := rfl
      have isStack : (⟨machine.contexts.size⟩ : ContextId) = id := congrArg ContextId.mk isNew.symm
      exact .inr ⟨machine.newHandle body, rfl,
        isStack ▸ VM.role?_of_allocate sound.wellFormed allocated⟩
    · exact (sound.owned id context found).imp_right
        fun ⟨handle, isOwner, known⟩ => ⟨handle, isOwner, keeps _ _ known⟩
  · rw [context?_withFiber] at found
    split at found
    · cases found
      exact Context.soundAt_new.congr rfl rfl
    · exact (sound.contexts id context found).mono keeps

theorem SoundAt.removeContext (sound : machine.SoundAt limits strict level) (id : ContextId) :
    (machine.removeContext id).SoundAt limits strict level where
  config := sound.config
  nativeDepth := sound.nativeDepth
  level_le := sound.level_le
  wellFormed := sound.wellFormed
  owned other context found := by
    rw [VM.context?_removeContext] at found
    split at found
    · cases found
    · exact sound.owned other context found
  contexts other context found := by
    rw [VM.context?_removeContext] at found
    split at found
    · cases found
    · exact sound.contexts other context found

/-! ### Collections -/

/-- What reclaiming objects leaves of limits and register stacks: the stack of a reclaimed fiber
goes, and the others stay. -/
structure Sheds (before : Machine) (dead : List Handle) (after : Machine) : Prop where
  config : after.config = before.config
  nativeDepth : after.nativeDepth = before.nativeDepth
  stays : ∀ id context, after.context? id = some context → before.context? id = some context
  goes : ∀ handle ∈ dead, ∀ id, before.role? handle = some (.fiber id) → after.context? id = none

theorem sheds_reclaim (handle : Handle) : machine.Sheds [handle] (machine.reclaim handle) := by
  rw [reclaim]
  cases found : machine.heap.get? handle with
  | none =>
      refine ⟨rfl, rfl, fun _ _ => id, fun other isOther id isFiber => ?_⟩
      rw [List.mem_singleton.mp isOther, role?, Heap.role?, found] at isFiber
      cases isFiber
  | some object =>
      have isRole : machine.role? handle = some object.content.role := by
        rw [role?, Heap.role?, found]
        rfl
      have isDead {other : Handle} {id : ContextId} (isOther : other ∈ [handle])
          (isFiber : machine.role? other = some (.fiber id)) : object.content.role = .fiber id := by
        rw [List.mem_singleton.mp isOther, isRole] at isFiber
        exact Option.some.inj isFiber
      dsimp only
      cases isContent : object.content with
      | fiber record =>
          refine ⟨rfl, rfl, fun id context isContext => ?_, fun other isOther id isFiber => ?_⟩
          · have removed := VM.context?_removeContext { machine with heap := machine.heap.remove handle }
              record.context id
            rw [release, removed] at isContext
            split at isContext
            · cases isContext
            · exact isContext
          · have isStack := isDead isOther isFiber
            rw [isContent] at isStack
            cases isStack
            exact (VM.context?_removeContext _ _ _).trans (if_pos rfl)
      | _ =>
          refine ⟨rfl, rfl, fun _ _ => id, fun other isOther id isFiber => ?_⟩
          have isStack := isDead isOther isFiber
          rw [isContent] at isStack
          cases isStack

theorem sheds_foldl_reclaim (dead : List Handle) :
    machine.Sheds dead (dead.foldl reclaim machine) := by
  induction dead generalizing machine with
  | nil => exact ⟨rfl, rfl, fun _ _ => id, fun _ isDead => absurd isDead List.not_mem_nil⟩
  | cons first rest inductionHypothesis =>
      have step : machine.Sheds [first] (machine.reclaim first) := sheds_reclaim first
      have steps : (machine.reclaim first).Sheds rest ((first :: rest).foldl reclaim machine) :=
        inductionHypothesis
      refine
        { config := steps.config.trans step.config
          nativeDepth := steps.nativeDepth.trans step.nativeDepth
          stays := fun id context found => step.stays id context (steps.stays id context found)
          goes := fun handle isDead id isFiber => ?_ }
      by_cases isFirst : handle = first
      · have gone := step.goes handle (List.mem_singleton.mpr isFirst) id isFiber
        refine Option.eq_none_iff_forall_ne_some.mpr fun context found => ?_
        exact nomatch gone.symm.trans (steps.stays id context found)
      · refine steps.goes handle ((List.mem_cons.mp isDead).resolve_left isFirst) id ?_
        rw [role?, Heap.role?, get?_reclaim, if_neg isFirst]
        exact isFiber

theorem role?_collect_of_reachable {handle : Handle}
    (reachable : machine.Reachable (.object handle)) :
    machine.collect.role? handle = machine.role? handle := by
  rw [role?, role?, Heap.role?, Heap.role?, get?_collect_of_reachable reachable]

/-- What is left of a sound machine by a collection is sound. -/
theorem SoundAt.collect (sound : machine.SoundAt limits strict level) :
    machine.collect.SoundAt limits strict level := by
  have sheds : machine.Sheds machine.unreachable machine.collect :=
    have folded : machine.Sheds machine.unreachable (machine.unreachable.foldl reclaim machine) :=
      sheds_foldl_reclaim machine.unreachable
    ⟨folded.config, folded.nativeDepth, folded.stays, folded.goes⟩
  have owner {id : ContextId} {context : Context} (found : machine.collect.context? id = some context) :
      id = rootContext ∨
        ∃ handle, context.owner = some handle ∧ machine.role? handle = some (.fiber id) ∧
          machine.Reachable (.object handle) := by
    refine (sound.owned id context (sheds.stays id context found)).imp_right ?_
    rintro ⟨handle, isOwner, isFiber⟩
    refine ⟨handle, isOwner, isFiber, ?_⟩
    by_contra unreachable
    have isObject : (machine.heap.get? handle).isSome := by
      cases isObject : machine.heap.get? handle with
      | none =>
          rw [role?, Heap.role?, isObject] at isFiber
          cases isFiber
      | some object => rfl
    have isDead : handle ∈ machine.unreachable :=
      mem_unreachable.mpr ⟨Heap.mem_handles.mpr (Option.isSome_iff_exists.mp isObject), unreachable⟩
    exact nomatch (sheds.goes handle isDead id isFiber).symm.trans found
  have stackReachable {id : ContextId} {context : Context}
      (found : machine.collect.context? id = some context) : machine.Reachable (.context id) := by
    rcases owner found with rfl | ⟨handle, -, isFiber, reachable⟩
    · exact .root .rootContext
    · obtain ⟨object, isObject, isRole⟩ := Option.map_eq_some_iff.mp isFiber
      cases isContent : object.content with
      | fiber record =>
          rw [isContent] at isRole
          cases isRole
          exact .step reachable (.object isObject (.content (isContent ▸ .fiberContext record)))
      | _ =>
          rw [isContent] at isRole
          cases isRole
  refine
    { config := sheds.config.trans sound.config
      nativeDepth := sheds.nativeDepth.trans sound.nativeDepth
      level_le := sound.level_le
      wellFormed := wellFormed_collect sound.wellFormed
      owned := fun id context found => ?_
      contexts := fun id context found => ?_ }
  · refine (owner found).imp_right fun ⟨handle, isOwner, isFiber, reachable⟩ => ⟨handle, isOwner, ?_⟩
    rw [role?_collect_of_reachable reachable, isFiber]
  · have wasFound := sheds.stays id context found
    have isSound := sound.contexts id context wasFound
    have kept {handle : Handle} (refers : context.RefersTo (.object handle)) :
        machine.collect.role? handle = machine.role? handle :=
      role?_collect_of_reachable (.step (stackReachable found) (.context wasFound refers))
    refine ⟨isSound.frames_le, fun frame isFrame handle holds => ?_, fun isStrict pending isPending => ?_⟩
    · have refers : frame.RefersTo (.object handle) := by
        rcases holds with isProc | isEnv
        · exact .proc isProc
        · exact .scope isEnv
      rw [kept (.frame isFrame refers)]
      exact isSound.held frame isFrame handle holds
    · have fits := isSound.pending isStrict pending isPending
      rw [Pending.Fits] at fits ⊢
      rw [kept (.pending isPending)]
      exact fits

end Machine

namespace VM

set_option synthInstance.maxSize 3000

variable {limits : Config} {strict : Prop} {level : Nat} {machine : Machine} {α : Type}

instance Sustains.collect : Sustains limits strict level collect collect :=
  ⟨fun _ sound => .of_ok rfl sound.collect⟩

instance Sustains.collectIfDue : Sustains limits strict level collectIfDue collectIfDue := by
  unfold VM.collectIfDue
  infer_instance

instance Sustains.newFiber (block : Value) :
    Sustains limits strict level (newFiber block) (newFiber block) := by
  unfold VM.newFiber
  exact behind fun body => ⟨fun machine sound => .of_ok rfl (sound.withFiber body)⟩

/-! ### Handing values over -/

instance Sustains.takeYielded : Sustains limits strict level takeYielded takeYielded := by
  have clear : Sustains limits strict level
      (modify fun machine : Machine => { machine with yielded := none } : VM PUnit)
      (modify fun machine : Machine => { machine with yielded := none } : VM PUnit) :=
    ⟨fun _ sound => .of_ok rfl (sound.congr rfl rfl rfl rfl)⟩
  unfold VM.takeYielded
  dsimp only
  infer_instance

instance Sustains.yieldFiber (args : List Value) :
    Sustains limits strict level (yieldFiber args) (yieldFiber args) := by
  have hand (value : Value) : Sustains limits strict level
      (modify fun machine : Machine => { machine with yielded := some value } : VM PUnit)
      (modify fun machine : Machine => { machine with yielded := some value } : VM PUnit) :=
    ⟨fun _ sound => .of_ok rfl (sound.congr rfl rfl rfl rfl)⟩
  unfold VM.yieldFiber
  dsimp only
  infer_instance

instance Sustains.completeYield (args : List Value) :
    Sustains limits strict level (completeYield args) (completeYield args) := by
  unfold VM.completeYield
  refine behind fun frame? => ?_
  split <;> infer_instance

instance Sustains.enterFiberBody (body : Handle) (args : List Value) :
    Sustains limits strict level (enterFiberBody body args) (enterFiberBody body args) := by
  have adopt (method : Option Symbol) (owner : Option Handle) :
      Edits (modifyFrame ({ · with method, owner })) :=
    .of_frame fun _ => ⟨rfl, rfl, rfl, rfl, rfl⟩
  have finish (place : Value × Option Symbol × Option Handle) : Sustains limits strict level (do
      let (self, method, owner) := place
      let site ← layOutArgs 0 self (.ofList args)
      VM.pushProcFrame site body none none .nil true
      modifyFrame ({ · with method, owner }) : VM Unit) (do
      let (self, method, owner) := place
      let site ← layOutArgs 0 self (.ofList args)
      VM.pushProcFrame site body none none .nil true
      modifyFrame ({ · with method, owner }) : VM Unit) := by
    infer_instance
  unfold VM.enterFiberBody
  refine behind fun object => ?_
  cases (object.proc?.bind (·.env)) with
  | some env =>
      exact behind fun captured => behind fun self => @seq _ _ _ _ _ _ _ _ _ ofEdits finish
  | none => exact behind fun self => @seq _ _ _ _ _ _ _ _ _ ofEdits finish

/-! ### Switching -/

instance Sustains.switchTo (handle : Handle) (context : ContextId) :
    Sustains limits strict level (switchTo handle context) (switchTo handle context) := by
  have enter : Sustains limits strict level (modify fun machine : Machine =>
      { machine with
        resumers := machine.resumers ++ [(machine.current, machine.currentFiber)]
        current := context
        currentFiber := some handle } : VM PUnit) (modify fun machine : Machine =>
      { machine with
        resumers := machine.resumers ++ [(machine.current, machine.currentFiber)]
        current := context
        currentFiber := some handle } : VM PUnit) :=
    ⟨fun _ sound => .of_ok rfl (sound.congr rfl rfl rfl rfl)⟩
  unfold VM.switchTo
  infer_instance

/-- Another stack goes on to run, and objects keep their roles. -/
theorem switchBack_bind {rest : Unit → VM α} (sound : machine.SoundAt limits strict level)
    (second : ∀ next, next.SoundAt limits strict level → machine.KeepsRoles next →
      SustainsFrom limits strict level next (rest ()) (rest ())) :
    SustainsFrom limits strict level machine (switchBack >>= rest) (switchBack >>= rest) := by
  unfold switchBack
  rw [bind_assoc]
  refine .bind (.of_edits sound) fun _ _ read _ => ?_
  cases read
  cases machine.resumers.getLast? with
  | none => exact .of_editsFrom sound (.of_failed rfl fun _ => nofun)
  | some resumer =>
      dsimp only
      rw [bind_assoc]
      refine .bind (.of_ok rfl (sound.congr rfl rfl rfl rfl)) fun _ next switched sound' => ?_
      cases switched
      refine .edits_bind sound' (.of_edits sound'.wellFormed) fun _ last _ sound'' edited => ?_
      exact second last sound'' (edited.keepsRoles sound'.wellFormed).2

end VM

end RiteVm
