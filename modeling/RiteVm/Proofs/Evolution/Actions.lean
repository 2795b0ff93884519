import RiteVm.Core.Boot
import RiteVm.Proofs.Evolution.Changes

/-!
Contract: actions that only evolve the machine.

Owns:
- evolving from one machine, and from every machine, whether the action succeeds or fails;
- the machine behind a composed action, and a new machine as the one behind its start;
- the rules for the ways in which actions are put together;
- the actions that allocate or change an object, and those that change nothing of the heap.

`Evolves` is a class, so that the instances for the parts of an action give the instance
for the action. An action that relies on what it has read is shown to evolve from the
machine in which it read it.
-/

namespace RiteVm

/-! ### What a query has read -/

namespace Query

variable {α β : Type} {machine : Machine} {handle : Handle}

theorem bind_eq_ok_iff {query : Query α} {rest : α → Query β} {result : β} :
    (query >>= rest) machine = .ok result ↔
      ∃ value, query machine = .ok value ∧ rest value machine = .ok result := by
  change (query machine >>= fun value => rest value machine) = _ ↔ _
  cases query machine with
  | error breach => exact ⟨nofun, nofun⟩
  | ok value => exact ⟨fun done => ⟨value, rfl, done⟩, fun ⟨_, read, done⟩ => by cases read; exact done⟩

theorem object_eq_ok_iff {object : Object} :
    Query.object handle machine = .ok object ↔ machine.heap.get? handle = some object := by
  rw [Query.object]
  cases machine.heap.get? handle with
  | none => exact ⟨nofun, nofun⟩
  | some found => exact ⟨fun read => by cases read; rfl, fun read => by cases read; rfl⟩

theorem classRecord_eq_ok_iff {record : ClassRecord} :
    classRecord handle machine = .ok record ↔ machine.class? handle = some record := by
  rw [classRecord, bind_eq_ok_iff, Machine.class?, Option.bind_eq_some_iff]
  refine exists_congr fun object => and_congr object_eq_ok_iff ?_
  cases object.class? <;> simp [Query.breach, Pure.pure, ReaderT.pure, Except.pure]

theorem envRecord_eq_ok_iff {record : EnvRecord} :
    envRecord handle machine = .ok record ↔ (machine.heap.get? handle).bind Object.env? = some record := by
  rw [envRecord, bind_eq_ok_iff, Option.bind_eq_some_iff]
  refine exists_congr fun object => and_congr object_eq_ok_iff ?_
  cases object.env? <;> simp [Query.breach, Pure.pure, ReaderT.pure, Except.pure]

theorem fiberRecord_eq_ok_iff {record : FiberRecord} :
    fiberRecord handle machine = .ok record ↔ (machine.heap.get? handle).bind Object.fiber? = some record := by
  rw [fiberRecord, bind_eq_ok_iff, Option.bind_eq_some_iff]
  refine exists_congr fun object => and_congr object_eq_ok_iff ?_
  cases object.fiber? <;> simp [Query.breach, Pure.pure, ReaderT.pure, Except.pure]

end Query

namespace VM

/-- Whatever an action does to a machine, it does by changes in a row. -/
def EvolvesFrom {α : Type} (machine : Machine) (action : VM α) : Prop :=
  Machine.Evolution machine (action.after machine)

/-- An action that evolves every machine. -/
class Evolves {α : Type} (action : VM α) : Prop where
  evolvesFrom : ∀ machine, EvolvesFrom machine action

/-! ### The machine behind a composed action -/

section After

variable {α β : Type} {machine next : Machine} {action : VM α} {rest : α → VM β}

theorem after_of_ok {value : α} (succeeded : action machine = .ok value next) :
    action.after machine = next := by
  rw [after, succeeded]

theorem after_of_error {failure : Failure} (failed : action machine = .error failure next) :
    action.after machine = next := by
  rw [after, failed]

theorem bind_of_ok {value : α} (succeeded : action machine = .ok value next) :
    (action >>= rest) machine = rest value next := by
  change EStateM.bind action rest machine = _
  rw [EStateM.bind, succeeded]

theorem bind_of_error {failure : Failure} (failed : action machine = .error failure next) :
    (action >>= rest) machine = .error failure next := by
  change EStateM.bind action rest machine = _
  rw [EStateM.bind, failed]

theorem after_bind_of_ok {value : α} (succeeded : action machine = .ok value next) :
    (action >>= rest).after machine = (rest value).after next := by
  rw [after, after, bind_of_ok succeeded]

theorem liftM_of_ok {query : Query α} {value : α} (succeeded : query machine = .ok value) :
    (liftM query : VM α) machine = .ok value machine := by
  simp only [liftM, monadLift, MonadLift.monadLift, succeeded]

theorem liftM_of_error {query : Query α} {breach : Breach}
    (failed : query machine = .error breach) :
    (liftM query : VM α) machine = .error (.breach breach) machine := by
  simp only [liftM, monadLift, MonadLift.monadLift, failed]

/-- A new machine is what its start makes of one without classes. -/
theorem new_eq_after_boot (config : Config) : Machine.new config = boot.after (.empty config) := by
  unfold Machine.new after
  generalize boot (.empty config) = result
  cases result <;> rfl

end After

/-! ### Composition -/

section Composition

variable {α β : Type} {machine : Machine} {action : VM α} {rest : α → VM β}

theorem EvolvesFrom.of_evolves [evolves : Evolves action] : EvolvesFrom machine action :=
  evolves.evolvesFrom machine

/-- A successful first part hands its value and its machine to the second one. -/
theorem EvolvesFrom.bind (first : EvolvesFrom machine action)
    (second : ∀ value next, action machine = .ok value next → EvolvesFrom next (rest value)) :
    EvolvesFrom machine (action >>= rest) := by
  rw [EvolvesFrom, after]
  rw [EvolvesFrom, after] at first
  cases result : action machine with
  | ok value next =>
      rw [result] at first
      rw [bind_of_ok result]
      exact first.trans (second value next result)
  | error failure next =>
      rw [result] at first
      rw [bind_of_error result]
      exact first

/-- What was read holds of the machine in which the action goes on. -/
theorem EvolvesFrom.query_bind {query : Query α}
    (second : ∀ value, query machine = .ok value → EvolvesFrom machine (rest value)) :
    EvolvesFrom machine (liftM query >>= rest) := by
  rw [EvolvesFrom, after]
  cases result : query machine with
  | ok value =>
      rw [bind_of_ok (liftM_of_ok result)]
      exact second value result
  | error breach =>
      rw [bind_of_error (liftM_of_error result)]

/-- An attempt leaves the machine that the action leaves. -/
theorem EvolvesFrom.attempt (first : EvolvesFrom machine action) :
    EvolvesFrom machine (VM.attempt action) := by
  rw [EvolvesFrom, after] at first ⊢
  rw [VM.attempt]
  cases result : action machine <;> rw [result] at first <;> exact first

theorem EvolvesFrom.of_change {next : Machine} {value : α}
    (succeeded : action machine = .ok value next) (change : machine.Change next) :
    EvolvesFrom machine action := by
  rw [EvolvesFrom, after_of_ok succeeded]
  exact change.evolution

namespace Evolves

instance ofValue (value : α) : Evolves (pure value : VM α) := ⟨fun _ => .refl⟩

instance ofFailure (failure : Failure) : Evolves (throw failure : VM α) := ⟨fun _ => .refl⟩

instance ofMachine : Evolves (MonadState.get : VM Machine) := ⟨fun _ => .refl⟩

instance ofQuery (query : Query α) : Evolves (liftM query : VM α) where
  evolvesFrom machine := by
    rw [EvolvesFrom, after]
    cases result : query machine with
    | ok value => rw [liftM_of_ok result]
    | error breach => rw [liftM_of_error result]

instance seq [first : Evolves action] [second : ∀ value, Evolves (rest value)] :
    Evolves (action >>= rest) where
  evolvesFrom machine :=
    (first.evolvesFrom machine).bind fun value next _ => (second value).evolvesFrom next

instance mapped (change : α → β) [Evolves action] : Evolves (change <$> action) := by
  rw [map_eq_pure_bind]
  infer_instance

instance branch (condition : Prop) [Decidable condition] {yes no : VM α} [Evolves yes]
    [Evolves no] : Evolves (if condition then yes else no) := by
  split <;> infer_instance

instance attempted [evolves : Evolves action] : Evolves (VM.attempt action) :=
  ⟨fun machine => (evolves.evolvesFrom machine).attempt⟩

instance ofBreach (cause : Breach) : Evolves (VM.breach cause : VM α) :=
  inferInstanceAs (Evolves (throw _ : VM α))

instance ofFatal (cause : FatalCause) : Evolves (VM.fatal cause : VM α) :=
  inferInstanceAs (Evolves (throw _ : VM α))

end Evolves

end Composition

/-! ### Repetition -/

section Repetition

variable {α β : Type}

namespace Evolves

instance listForM {action : α → VM PUnit} [evolves : ∀ value, Evolves (action value)]
    (list : List α) : Evolves (list.forM action) := by
  induction list with
  | nil => exact ofValue _
  | cons first rest inductionHypothesis => exact seq

instance listMapM {action : α → VM β} [evolves : ∀ value, Evolves (action value)]
    (list : List α) : Evolves (list.mapM action) := by
  induction list with
  | nil =>
      rw [List.mapM_nil]
      infer_instance
  | cons first rest inductionHypothesis =>
      rw [List.mapM_cons]
      infer_instance

instance listFoldlM {action : β → α → VM β} [evolves : ∀ state value, Evolves (action state value)]
    (initial : β) (list : List α) : Evolves (list.foldlM action initial) := by
  induction list generalizing initial with
  | nil => exact ofValue _
  | cons first rest inductionHypothesis => exact seq

instance listForIn {action : α → β → VM (ForInStep β)}
    [evolves : ∀ value state, Evolves (action value state)] (list : List α) (initial : β) :
    Evolves (forIn list initial action) := by
  induction list generalizing initial with
  | nil => exact ofValue _
  | cons first rest inductionHypothesis =>
      rw [List.forIn_cons]
      refine @seq _ _ _ _ _ fun step => ?_
      cases step <;> infer_instance

instance listFilterM {action : α → VM Bool} [evolves : ∀ value, Evolves (action value)]
    (list : List α) : Evolves (list.filterM action) := by
  have filterAux (kept : List α) : Evolves (list.filterAuxM action kept) := by
    induction list generalizing kept with
    | nil => exact ofValue _
    | cons first rest inductionHypothesis => exact seq
  unfold List.filterM
  infer_instance

instance optionForM {action : α → VM PUnit} [evolves : ∀ value, Evolves (action value)]
    (option : Option α) : Evolves (option.forM action) := by
  cases option
  · exact ofValue _
  · exact evolves _

instance optionMapM {action : α → VM β} [evolves : ∀ value, Evolves (action value)]
    (option : Option α) : Evolves (option.mapM action) := by
  cases option
  · exact ofValue _
  · exact mapped _

end Evolves

end Repetition

/-! ### Changes outside the heap -/

section Outside

namespace Evolves

/-- A change of anything but the heap, the core classes and the method cache. -/
theorem of_outside {change : Machine → Machine}
    (heap : ∀ machine, (change machine).heap = machine.heap)
    (coreClasses : ∀ machine, (change machine).coreClasses = machine.coreClasses)
    (methodCache : ∀ machine, (change machine).methodCache = machine.methodCache) :
    Evolves (modify change : VM PUnit) where
  evolvesFrom machine := by
    refine .of_change rfl (.outside ?_ ?_ (coreClasses _) (methodCache _))
    · rw [heap]
    · rw [heap]

/-- A change of what the heap keeps beside its cells. -/
theorem of_heap {change : Heap → Heap} (cells : ∀ heap, (change heap).cells = heap.cells)
    (free : ∀ heap, (change heap).free = heap.free) : Evolves (modifyHeap change) where
  evolvesFrom _ := .of_change rfl (.outside (cells _) (free _) rfl rfl)

instance modifyContext (change : Context → Context) : Evolves (VM.modifyContext change) :=
  of_outside (fun _ => rfl) (fun _ => rfl) (fun _ => rfl)

instance modifyFrame (change : Frame → Frame) : Evolves (VM.modifyFrame change) :=
  inferInstanceAs (Evolves (VM.modifyContext _))

instance setSlot (index : Nat) (value : Value) : Evolves (VM.setSlot index value) :=
  inferInstanceAs (Evolves (VM.modifyContext _))

instance setRegister (base register : Nat) (value : Value) :
    Evolves (VM.setRegister base register value) :=
  inferInstanceAs (Evolves (VM.setSlot _ _))

instance intern (name : Bytes) : Evolves (VM.intern name) where
  evolvesFrom _ := .of_change rfl (.outside rfl rfl rfl rfl)

instance internText (name : String) : Evolves (VM.internText name) :=
  inferInstanceAs (Evolves (VM.intern _))

instance growHeap (bytes : Nat) : Evolves (modifyHeap (·.grow bytes)) :=
  of_heap (fun _ => rfl) (fun _ => rfl)

instance protectValue (value : Value) : Evolves (modifyHeap (·.protect value)) := by
  refine of_heap (fun heap => ?_) (fun heap => ?_) <;> cases value <;> rfl

instance restoreArena (mark : Nat) : Evolves (modifyHeap (·.restoreArena mark)) :=
  of_heap (fun _ => rfl) (fun _ => rfl)

instance unpin (pin : Pin) : Evolves (modifyHeap (·.unpin pin)) := by
  refine of_heap (fun heap => ?_) (fun heap => ?_) <;> rw [Heap.unpin] <;> split <;> rfl

end Evolves

end Outside

/-! ### Objects -/

section Objects

variable {machine : Machine}

theorem EvolvesFrom.allocate {object : Object} (plain : object.class? = none)
    (given : machine.GivesClass object.classHandle) :
    EvolvesFrom machine (VM.allocate object) :=
  .of_change rfl (.allocate plain given)

theorem EvolvesFrom.modifyObject {handle : Handle} {change : Object → Object}
    (similar : ∀ object, machine.heap.get? handle = some object →
      (change object).classHandle = object.classHandle ∧
        (change object).class? = object.class?) :
    EvolvesFrom machine (VM.modifyObject handle change) :=
  .of_change rfl (.rewrite similar)

/-- Another content of an object that is no class. -/
theorem EvolvesFrom.setContent {handle : Handle} {object : Object} {content : Content}
    (found : machine.heap.get? handle = some object) (wasPlain : object.class? = none)
    (isPlain : ({ object with content } : Object).class? = none) :
    EvolvesFrom machine (VM.setContent handle content) := by
  refine .modifyObject fun other isOther => ?_
  obtain rfl := Option.some.inj (found.symm.trans isOther)
  exact ⟨rfl, isPlain.trans wasPlain.symm⟩

theorem Evolves.of_modifyObject {handle : Handle} {change : Object → Object}
    (similar : ∀ object, (change object).classHandle = object.classHandle ∧
      (change object).class? = object.class?) :
    Evolves (VM.modifyObject handle change) where
  evolvesFrom _ := .modifyObject fun object _ => similar object

instance Evolves.modifyItems (handle : Handle) (change : Array Value → Array Value) :
    Evolves (VM.modifyItems handle change) :=
  .of_modifyObject fun object => by
    obtain ⟨classHandle, content, frozen, fields⟩ := object
    cases content <;> exact ⟨rfl, rfl⟩

end Objects

end VM

end RiteVm
