import RiteVm.Proofs.Edits.Classes
import RiteVm.Proofs.Fibers.Registers

/-!
Contract: machines whose stacks keep to their limits and refer to what they rely on.

Owns:
- what a handler may find pending, and sound register stacks;
- sound machines on a level of nesting;
- edits and changes of one stack keep a machine sound, and a new machine is sound.

What is pending is judged only if `strict` holds, since a host may raise what is no exception.
Nothing is assumed of the way in which a machine is reached: a broken invariant of another
kind leaves it sound as well.
-/

namespace RiteVm

open RiteVm.Bytecode

/-! ### Register stacks -/

/-- A rescue clause loads an exception, an ensure clause also the record of an exit. -/
def Pending.Fits (roles : Handle → Option Role) (pending : Pending) : Prop :=
  match pending.kind with
  | .rescue => roles pending.record = some .exception
  | .ensure => roles pending.record = some .exception ∨ roles pending.record = some .exit

theorem Pending.Fits.mono {roles roles' : Handle → Option Role} {pending : Pending}
    (fits : pending.Fits roles)
    (keeps : ∀ handle role, roles handle = some role → roles' handle = some role) :
    pending.Fits roles' := by
  rw [Pending.Fits] at fits ⊢
  split at fits
  · exact keeps _ _ fits
  · exact fits.imp (keeps _ _) (keeps _ _)

/-- An exception may be pending for either kind of handler. -/
theorem Pending.fits_of_isException {roles : Handle → Option Role} {record : Handle}
    (isException : roles record = some .exception) (kind : CatchKind) :
    Fits roles { record, kind } := by
  cases kind
  · exact isException
  · exact .inl isException

/-- A register stack keeps to the limit of frames, holds procs and environments that are there
and, if asked for, has nothing pending but what its handler may load. -/
structure Context.SoundAt (limits : Config) (strict : Prop) (roles : Handle → Option Role)
    (context : Context) : Prop where
  frames_le : context.frames.size ≤ limits.maxCallDepth
  held : ∀ frame ∈ context.frames, ∀ handle, frame.Holds handle → (roles handle).isSome
  pending : strict → ∀ pending, context.pending = some pending → pending.Fits roles

namespace Context

variable {limits : Config} {strict : Prop} {roles roles' : Handle → Option Role}
  {context : Context}

theorem soundAt_new : SoundAt limits strict roles {} where
  frames_le := Nat.zero_le _
  held frame isFrame := absurd isFrame (Array.not_mem_empty frame)
  pending _ _ := nofun

namespace SoundAt

/-- Only frames and what is pending matter. -/
theorem congr (sound : SoundAt limits strict roles context) {other : Context}
    (frames : other.frames = context.frames) (pending : other.pending = context.pending) :
    SoundAt limits strict roles other where
  frames_le := frames ▸ sound.frames_le
  held := by
    rw [frames]
    exact sound.held
  pending := by
    rw [pending]
    exact sound.pending

theorem mono (sound : SoundAt limits strict roles context)
    (keeps : ∀ handle role, roles handle = some role → roles' handle = some role) :
    SoundAt limits strict roles' context where
  frames_le := sound.frames_le
  held frame isFrame handle holds := by
    obtain ⟨role, known⟩ := Option.isSome_iff_exists.mp (sound.held frame isFrame handle holds)
    rw [keeps handle role known]
    rfl
  pending isStrict pending isPending := (sound.pending isStrict pending isPending).mono keeps

/-- The innermost frame may move on and change its code, as long as what it holds is there. -/
theorem modifyTop (sound : SoundAt limits strict roles context) {change : Frame → Frame}
    (live : ∀ frame handle, (change frame).Holds handle →
      frame.Holds handle ∨ (roles handle).isSome) :
    SoundAt limits strict roles (context.modifyTop change) where
  frames_le := by
    rw [Context.modifyTop, Array.size_modify]
    exact sound.frames_le
  held frame isFrame handle holds := by
    obtain ⟨index, inside, rfl⟩ := Array.getElem_of_mem isFrame
    simp only [Context.modifyTop, Array.getElem_modify] at holds
    rw [Context.modifyTop, Array.size_modify] at inside
    have wasFrame : context.frames[index] ∈ context.frames := Array.getElem_mem inside
    split at holds
    · rcases live _ handle holds with held | isLive
      · exact sound.held _ wasFrame handle held
      · exact isLive
    · exact sound.held _ wasFrame handle holds
  pending := sound.pending

/-- Frames that go were there before. -/
theorem of_frames (sound : SoundAt limits strict roles context) {frames : Array Frame}
    (size_le : frames.size ≤ context.frames.size)
    (isPart : ∀ frame ∈ frames, frame ∈ context.frames) :
    SoundAt limits strict roles { context with frames } where
  frames_le := Nat.le_trans size_le sound.frames_le
  held frame isFrame := sound.held frame (isPart frame isFrame)
  pending := sound.pending

/-- One more frame fits if there is room for it. -/
theorem push (sound : SoundAt limits strict roles context) {frame : Frame}
    (room : context.frames.size < limits.maxCallDepth)
    (live : ∀ handle, frame.Holds handle → (roles handle).isSome) :
    SoundAt limits strict roles { context with frames := context.frames.push frame } where
  frames_le := by
    rw [Array.size_push]
    exact room
  held other isFrame handle holds := by
    rcases Array.mem_push.mp isFrame with wasFrame | rfl
    · exact sound.held other wasFrame handle holds
    · exact live handle holds
  pending := sound.pending

theorem setPending (sound : SoundAt limits strict roles context) {pending? : Option Pending}
    (fits : strict → ∀ pending, pending? = some pending → pending.Fits roles) :
    SoundAt limits strict roles { context with pending := pending? } where
  frames_le := sound.frames_le
  held := sound.held
  pending := fits

end SoundAt

end Context

/-! ### Machines -/

/-- A machine with given limits, on a level of nesting, whose stacks are sound. Each stack
belongs to the main program or knows its fiber, so that the collector finds what it refers to. -/
structure Machine.SoundAt (limits : Config) (strict : Prop) (level : Nat) (machine : Machine) :
    Prop where
  config : machine.config = limits
  nativeDepth : machine.nativeDepth = level
  level_le : level ≤ limits.maxNativeDepth
  wellFormed : machine.heap.WellFormed
  owned : ∀ id context, machine.context? id = some context → id = rootContext ∨
    ∃ handle, context.owner = some handle ∧ machine.role? handle = some (.fiber id)
  contexts : ∀ id context, machine.context? id = some context →
    context.SoundAt limits strict machine.role?

namespace Machine

variable {limits : Config} {strict : Prop} {level : Nat} {machine next : Machine}

namespace SoundAt

/-- Objects and register stacks are all that matters beside the limits. -/
theorem congr (sound : machine.SoundAt limits strict level) (sameConfig : next.config = machine.config)
    (sameDepth : next.nativeDepth = machine.nativeDepth) (heap : next.heap = machine.heap)
    (contexts : next.contexts = machine.contexts) : next.SoundAt limits strict level := by
  have sameStack (id : ContextId) : next.context? id = machine.context? id := by
    rw [context?, context?, contexts]
  have sameRole : next.role? = machine.role? := by
    funext handle
    rw [role?, role?, heap]
  exact
    { config := sameConfig.trans sound.config
      nativeDepth := sameDepth.trans sound.nativeDepth
      level_le := sound.level_le
      wellFormed := heap ▸ sound.wellFormed
      owned := by
        simp only [sameStack, sameRole]
        exact sound.owned
      contexts := by
        simp only [sameStack, sameRole]
        exact sound.contexts }

/-- A change of the heap that keeps the roles of objects. -/
theorem of_heap (sound : machine.SoundAt limits strict level) {heap : Heap}
    (wellFormed : heap.WellFormed) (keeps : machine.KeepsRoles { machine with heap }) :
    SoundAt limits strict level { machine with heap } where
  config := sound.config
  nativeDepth := sound.nativeDepth
  level_le := sound.level_le
  wellFormed := wellFormed
  owned id context found := (sound.owned id context found).imp_right
    fun ⟨handle, isOwner, known⟩ => ⟨handle, isOwner, keeps _ _ known⟩
  contexts id context found := (sound.contexts id context found).mono keeps

/-- A change of one register stack that keeps the stack sound. -/
theorem modifyContext (sound : machine.SoundAt limits strict level) {id : ContextId}
    {change : Context → Context} (sameOwner : ∀ context, (change context).owner = context.owner)
    (sustains : ∀ context, machine.context? id = some context →
      context.SoundAt limits strict machine.role? → (change context).SoundAt limits strict machine.role?) :
    (machine.modifyContext id change).SoundAt limits strict level where
  config := sound.config
  nativeDepth := sound.nativeDepth
  level_le := sound.level_le
  wellFormed := sound.wellFormed
  owned other context found := by
    rw [context?_of_modifyContext] at found
    split at found
    · obtain ⟨original, wasFound, rfl⟩ := Option.map_eq_some_iff.mp found
      rw [sameOwner]
      exact sound.owned other original wasFound
    · exact sound.owned other context found
  contexts other context found := by
    rw [context?_of_modifyContext] at found
    split at found
    · rename_i same
      subst same
      obtain ⟨original, wasFound, rfl⟩ := Option.map_eq_some_iff.mp found
      exact sustains original wasFound (sound.contexts _ original wasFound)
    · exact sound.contexts other context found

theorem of_edit (sound : machine.SoundAt limits strict level) (edit : machine.Edit next) :
    next.SoundAt limits strict level := by
  obtain ⟨wellFormed, keeps⟩ := edit.keepsRoles sound.wellFormed
  cases edit with
  | aside => exact sound.congr rfl rfl rfl rfl
  | accounts => exact sound.of_heap wellFormed keeps
  | allocate => exact sound.of_heap wellFormed keeps
  | rewrite => exact sound.of_heap wellFormed keeps
  | slots same =>
      exact sound.modifyContext (fun context => (same context).owner) fun context _ isSound =>
        isSound.congr (same context).frames (same context).pending
  | frame same =>
      refine sound.modifyContext (fun _ => rfl) fun context _ isSound => isSound.modifyTop ?_
      intro frame handle holds
      rw [Frame.Holds, (same frame).proc, (same frame).env] at holds
      exact .inl holds
  | scope live =>
      refine sound.modifyContext (fun _ => rfl) fun context _ isSound => isSound.modifyTop ?_
      rintro frame handle (isProc | isEnv)
      · exact .inl (.inl isProc)
      · cases isEnv
        exact .inr live

theorem of_edited (sound : machine.SoundAt limits strict level) (edited : machine.Edited next) :
    next.SoundAt limits strict level := by
  induction edited with
  | refl => exact sound
  | tail _ edit inductionHypothesis => exact inductionHypothesis.of_edit edit

end SoundAt

/-- A machine without classes runs on the stack of the main program. -/
theorem sound_empty (config : Config) : (empty config).SoundAt config strict 0 where
  config := rfl
  nativeDepth := rfl
  level_le := Nat.zero_le _
  wellFormed := Heap.wellFormed_new config.collector
  owned id context found := by
    obtain ⟨index⟩ := id
    cases index with
    | zero => exact .inl rfl
    | succ index => exact nomatch found
  contexts id context found := by
    obtain ⟨index⟩ := id
    cases index with
    | zero =>
        cases found
        exact Context.soundAt_new
    | succ index => exact nomatch found

/-- A new machine is sound, on the outermost level. -/
theorem soundAt_new (config : Config) : (new config).SoundAt config strict 0 :=
  (sound_empty config).of_edited (edited_new config)

end Machine

end RiteVm
