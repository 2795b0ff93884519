import RiteVm.Call.Engine
import RiteVm.Proofs.Edits.Values
import RiteVm.Proofs.Fibers.Frames
import RiteVm.Proofs.Soundness.Machines

/-!
Contract: actions that sustain sound machines, for two engines at once.

Owns:
- sustaining from one machine, and from every sound machine of a level, however the action
  ends;
- the rules for the ways in which actions are put together;
- running an action one level deeper.

Two actions are compared, since the machines inside a run are told by engines that differ
there. Most actions do not use an engine and are compared with themselves.
-/

namespace RiteVm

namespace VM

variable {limits : Config} {strict : Prop} {level : Nat}

/-- From one machine, two actions do the same and leave a sound machine. What they raise is an
exception, if that is asked for. -/
structure SustainsFrom {α : Type} (limits : Config) (strict : Prop) (level : Nat) (machine : Machine)
    (action action' : VM α) : Prop where
  same : action' machine = action machine
  sound : (action.after machine).SoundAt limits strict level
  raises : strict → ∀ exception next, action machine = .error (.raised exception) next →
    next.IsException exception

/-- From every sound machine of a level, two actions do the same and leave a sound machine. -/
class Sustains {α : Type} (limits : Config) (strict : Prop) (level : Nat) (action action' : VM α) :
    Prop where
  sustainsFrom : ∀ machine, machine.SoundAt limits strict level →
    SustainsFrom limits strict level machine action action'

/-! ### Composition -/

section Composition

variable {α β : Type} {machine next : Machine} {action action' : VM α} {rest rest' : α → VM β}

namespace SustainsFrom

theorem of_sustains [sustains : Sustains limits strict level action action']
    (sound : machine.SoundAt limits strict level) :
    SustainsFrom limits strict level machine action action' :=
  sustains.sustainsFrom machine sound

theorem of_editsFrom (sound : machine.SoundAt limits strict level) (edits : EditsFrom machine action) :
    SustainsFrom limits strict level machine action action where
  same := rfl
  sound := sound.of_edited edits.edited
  raises _ := edits.raises

theorem of_edits [Edits action] (sound : machine.SoundAt limits strict level) :
    SustainsFrom limits strict level machine action action :=
  of_editsFrom sound (.of_edits sound.wellFormed)

/-- A change that is no edit. -/
theorem of_ok {value : α} (succeeded : action machine = .ok value next)
    (sound : next.SoundAt limits strict level) :
    SustainsFrom limits strict level machine action action where
  same := rfl
  sound := by
    rw [after_of_ok succeeded]
    exact sound
  raises _ _ _ raised := nomatch succeeded.symm.trans raised

/-- A failure that changes nothing. -/
theorem of_failed {failure : Failure} (failed : action machine = .error failure machine)
    (sound : machine.SoundAt limits strict level)
    (isException : strict → ∀ exception, failure = .raised exception → machine.IsException exception) :
    SustainsFrom limits strict level machine action action where
  same := rfl
  sound := by
    rw [after_of_error failed]
    exact sound
  raises isStrict exception next raised := by
    cases failed.symm.trans raised
    exact isException isStrict exception rfl

theorem sound_of_ok (sustains : SustainsFrom limits strict level machine action action')
    {value : α} (succeeded : action machine = .ok value next) : next.SoundAt limits strict level := by
  have sound := sustains.sound
  rw [after_of_ok succeeded] at sound
  exact sound

theorem sound_of_error (sustains : SustainsFrom limits strict level machine action action')
    {failure : Failure} (failed : action machine = .error failure next) :
    next.SoundAt limits strict level := by
  have sound := sustains.sound
  rw [after_of_error failed] at sound
  exact sound

/-- Actions that do the same as others from a machine. -/
theorem congr {other other' : VM α} (sustains : SustainsFrom limits strict level next action action')
    (same : other machine = action next) (same' : other' machine = action' next) :
    SustainsFrom limits strict level machine other other' where
  same := by rw [same, same', sustains.same]
  sound := by
    rw [after_congr same]
    exact sustains.sound
  raises isStrict exception last raised := sustains.raises isStrict exception last (same ▸ raised)

/-- A successful first part hands its value and its machine to the second one. -/
theorem bind (first : SustainsFrom limits strict level machine action action')
    (second : ∀ value next, action machine = .ok value next → next.SoundAt limits strict level →
      SustainsFrom limits strict level next (rest value) (rest' value)) :
    SustainsFrom limits strict level machine (action >>= rest) (action' >>= rest') := by
  cases result : action machine with
  | ok value next =>
      exact (second value next result (first.sound_of_ok result)).congr (bind_of_ok result)
        (bind_of_ok (first.same.trans result))
  | error failure next =>
      have failed : (action >>= rest) machine = .error failure next := bind_of_error result
      have failed' : (action' >>= rest') machine = .error failure next :=
        bind_of_error (first.same.trans result)
      refine ⟨failed'.trans failed.symm, ?_, fun isStrict exception last raised => ?_⟩
      · rw [after_of_error failed]
        exact first.sound_of_error result
      · cases failed.symm.trans raised
        exact first.raises isStrict exception next result

/-- What is known of objects and frames holds behind edits as well. -/
theorem edits_bind (sound : machine.SoundAt limits strict level) (first : EditsFrom machine action)
    (second : ∀ value next, action machine = .ok value next → next.SoundAt limits strict level →
      machine.Edited next → SustainsFrom limits strict level next (rest value) (rest' value)) :
    SustainsFrom limits strict level machine (action >>= rest) (action >>= rest') := by
  refine (of_editsFrom sound first).bind fun value next succeeded sound' => ?_
  have edited := first.edited
  rw [after_of_ok succeeded] at edited
  exact second value next succeeded sound' edited

/-- What was read holds of the machine in which the actions go on. -/
theorem query_bind (sound : machine.SoundAt limits strict level) {query : Query α}
    (second : ∀ value, query machine = .ok value →
      SustainsFrom limits strict level machine (rest value) (rest' value)) :
    SustainsFrom limits strict level machine (liftM query >>= rest) (liftM query >>= rest') := by
  refine (of_edits sound).bind fun value next read _ => ?_
  obtain ⟨isValue, rfl⟩ := liftM_eq_ok_iff.mp read
  exact second value isValue

/-- A failure is handed to the second part, which may raise what it received. -/
theorem attempt_bind {level' : Nat} {finish finish' : Except Failure α → VM β}
    (first : SustainsFrom limits strict level' machine action action')
    (second : ∀ result next, next.SoundAt limits strict level' →
      (strict → ∀ exception, result = .error (.raised exception) → next.IsException exception) →
      SustainsFrom limits strict level next (finish result) (finish' result)) :
    SustainsFrom limits strict level machine (attempt action >>= finish)
      (attempt action' >>= finish') := by
  cases result : action machine with
  | ok value next =>
      exact (second (.ok value) next (first.sound_of_ok result) fun _ _ => nofun).congr
        (bind_of_ok (attempt_of_ok result)) (bind_of_ok (attempt_of_ok (first.same.trans result)))
  | error failure next =>
      refine (second (.error failure) next (first.sound_of_error result) ?_).congr
        (bind_of_ok (attempt_of_error result))
        (bind_of_ok (attempt_of_error (first.same.trans result)))
      intro isStrict exception isRaised
      cases isRaised
      exact first.raises isStrict exception next result

end SustainsFrom

namespace Sustains

instance ofEdits [Edits action] : Sustains limits strict level action action :=
  ⟨fun _ sound => .of_edits sound⟩

instance seq [first : Sustains limits strict level action action']
    [second : ∀ value, Sustains limits strict level (rest value) (rest' value)] :
    Sustains limits strict level (action >>= rest) (action' >>= rest') where
  sustainsFrom machine sound := (first.sustainsFrom machine sound).bind
    fun value next _ sound => (second value).sustainsFrom next sound

/-- Nothing goes on behind a failure. -/
theorem of_fails [Edits action] [fails : Fails action] :
    Sustains limits strict level (action >>= rest) (action >>= rest') where
  sustainsFrom machine sound := (SustainsFrom.of_edits sound).bind
    fun value next succeeded _ => absurd succeeded (fails.ne_ok machine value next)

/-- The action behind a part of it whose value it depends on. -/
theorem behind [Sustains limits strict level action action']
    (others : ∀ value, Sustains limits strict level (rest value) (rest' value)) :
    Sustains limits strict level (action >>= rest) (action' >>= rest') :=
  seq

instance mapped (change : α → β) [Sustains limits strict level action action'] :
    Sustains limits strict level (change <$> action) (change <$> action') := by
  rw [map_eq_pure_bind, map_eq_pure_bind]
  infer_instance

instance branch (condition : Prop) [Decidable condition] {yes no yes' no' : VM α}
    [Sustains limits strict level yes yes'] [Sustains limits strict level no no'] :
    Sustains limits strict level (if condition then yes else no)
      (if condition then yes' else no') := by
  split <;> infer_instance

instance optionForM {step step' : α → VM PUnit}
    [sustains : ∀ value, Sustains limits strict level (step value) (step' value)]
    (option : Option α) : Sustains limits strict level (option.forM step) (option.forM step') := by
  cases option
  · exact inferInstanceAs (Sustains limits strict level (pure _) (pure _))
  · exact sustains _

instance optionMapM [sustains : ∀ value, Sustains limits strict level (rest value) (rest' value)]
    (option : Option α) : Sustains limits strict level (option.mapM rest) (option.mapM rest') := by
  cases option
  · exact inferInstanceAs (Sustains limits strict level (pure _) (pure _))
  · exact mapped _

instance listMapM [sustains : ∀ value, Sustains limits strict level (rest value) (rest' value)]
    (list : List α) : Sustains limits strict level (list.mapM rest) (list.mapM rest') := by
  induction list with
  | nil =>
      rw [List.mapM_nil, List.mapM_nil]
      infer_instance
  | cons first more inductionHypothesis =>
      rw [List.mapM_cons, List.mapM_cons]
      infer_instance

end Sustains

end Composition

/-! ### One level deeper -/

section Nesting

variable {α : Type} {machine : Machine} {action action' : VM α}

theorem sound_deeper (sound : machine.SoundAt limits strict level) (room : HasRoom machine) :
    (deeper machine).SoundAt limits strict (level + 1) where
  config := sound.config
  nativeDepth := congrArg Nat.succ sound.nativeDepth
  level_le := by
    have enough : machine.nativeDepth < machine.config.maxNativeDepth := room
    rw [sound.nativeDepth, sound.config] at enough
    exact enough
  wellFormed := sound.wellFormed
  owned := sound.owned
  contexts := sound.contexts

theorem sound_shallower (sound : machine.SoundAt limits strict (level + 1)) :
    (shallower machine).SoundAt limits strict level where
  config := sound.config
  nativeDepth := congrArg Nat.pred sound.nativeDepth
  level_le := Nat.le_of_succ_le sound.level_le
  wellFormed := sound.wellFormed
  owned := sound.owned
  contexts := sound.contexts

instance Sustains.nested [sustains : Sustains limits strict (level + 1) action action'] :
    Sustains limits strict level (nested action) (nested action') where
  sustainsFrom machine sound := by
    cases checked : checkNativeDepth machine with
    | ok _ next =>
        have room := room_of_checkNativeDepth checked
        obtain ⟨same, sound', raises⟩ := sustains.sustainsFrom _ (sound_deeper sound room)
        refine ⟨?_, ?_, fun isStrict exception last raised => ?_⟩
        · rw [nested_of_room room, nested_of_room room, same]
        · rw [after_nested_of_room room]
          exact sound_shallower sound'
        · rw [nested_of_room room] at raised
          cases ran : action (deeper machine) with
          | ok value next => exact nomatch ran ▸ raised
          | error failure next =>
              rw [ran] at raised
              cases raised
              exact raises isStrict exception next ran
    | error failure next =>
        have failed (action : VM α) : VM.nested action machine = .error failure next :=
          bind_of_error checked
        have checks : EditsFrom machine checkNativeDepth := .of_edits sound.wellFormed
        have edited := checks.edited
        rw [after_of_error checked] at edited
        refine ⟨by rw [failed, failed], ?_, fun _ exception last raised => ?_⟩
        · rw [after_of_error (failed action)]
          exact sound.of_edited edited
        · cases (failed action).symm.trans raised
          exact checks.raises exception next checked

end Nesting

end VM

end RiteVm
