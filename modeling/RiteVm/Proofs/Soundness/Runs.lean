import RiteVm.Proofs.Fibers.Runs
import RiteVm.Proofs.Soundness.Execution

/-!
Contract: whatever a host does, and whatever runs for it, sustains a sound machine, and every machine
that a run comes to is sound, on the level that its nesting says.

Owns:
- one instance for each entry point and for what a host asks for at any time;
- the code of a host, which leaves a sound machine whatever it raises;
- hosts that raise nothing but exceptions, and the engine that they take part in;
- how much deeper a run is nested than the place that started it;
- the machines that a host and its runs come to, with the level of nesting that they are at, and the
  invariant of these machines.

A level counts the loops and the calls by name of methods that are no bytecode. A method that
an instruction calls runs on the level of its loop. Only a string concatenation calls by name.
-/

namespace RiteVm

/-- From every sound machine of a level, two actions do the same and leave a sound machine,
whatever they raise. -/
structure VM.Conducts {α : Type} (limits : Config) (strict : Prop) (level : Nat)
    (action action' : VM α) : Prop where
  same : ∀ machine, machine.SoundAt limits strict level → action' machine = action machine
  sound : ∀ machine, machine.SoundAt limits strict level →
    (action.after machine).SoundAt limits strict level

/-- With a bound on the length of runs, the methods of a host raise nothing but exceptions,
wherever the machine is sound. -/
def RaiseExceptionsWithin (limits : Config) (hosts : Array HostMethod) (fuel : Nat) : Prop :=
  ∀ body ∈ hosts, ∀ self args level machine, machine.SoundAt limits True level →
    ∀ exception next, body (.ofHosts hosts fuel) self args machine = .error (.raised exception) next →
      next.IsException exception

/-- The methods of a host raise nothing but exceptions, wherever the machine is sound. -/
def RaiseExceptions (limits : Config) (hosts : Array HostMethod) : Prop :=
  ∀ fuel, RaiseExceptionsWithin limits hosts fuel

variable {limits : Config} {strict : Prop} {level : Nat} {catches : Failure → Bool}
  {hosts : Array HostMethod} {engine engine' : Engine}

/-- An engine that is compared with another one may be compared with itself. -/
theorem Engine.Sustained.left (sustained : engine.Sustained limits strict level engine') :
    engine.Sustained limits strict level engine where
  rounds := rfl
  loop stop := ⟨fun machine sound =>
    { (sustained.loop stop).sustainsFrom machine sound with same := rfl }⟩
  native method self args := ⟨fun machine sound =>
    { (sustained.native method self args).sustainsFrom machine sound with same := rfl }⟩

theorem Engine.Sustained.answers (sustained : engine.Sustained limits strict level engine') :
    engine.Answers limits strict level engine' :=
  ⟨sustained.native⟩

/-! ### Hosts -/

namespace VM

set_option synthInstance.maxSize 3000

variable {α β : Type} {action action' : VM α}

namespace Edits

instance newPayload (classHandle : Handle) (typeName : String) (payload : Int) :
    Edits (VM.newData classHandle typeName payload) := by
  have create : Edits (VM.allocate { classHandle, content := .data { typeName, payload } }) :=
    of_allocate rfl
  unfold VM.newData
  infer_instance

instance pollResume (waiter : ResumeWaiter) (waker : Waker) : Edits (pollResume waiter waker) :=
  withSignals _ _

instance pollTermination (waiter : TerminationWaiter) (waker : Waker) :
    Edits (pollTermination waiter waker) :=
  withSignals _ _

end Edits

theorem Sustains.of_entryPoint {call : Engine → VM Value} (entry : EntryPoint call)
    [engine.Sustained limits strict (level + 1) engine'] :
    Sustains limits strict level (call engine) (call engine') := by
  cases entry <;> infer_instance

theorem Sustains.of_hostAction {action : VM α} [engine.Sustained limits strict (level + 1) engine]
    (asked : HostAction engine action) : Sustains limits strict level action action := by
  cases asked with
  | getVariable value name => exact seq
  | setVariable value name content => exact seq
  | getGlobal name => exact seq
  | setGlobal name value => exact seq
  | respondsToText value name => exact seq
  | unpin pin => exact @ofEdits _ _ _ _ _ (Edits.unpin pin)
  | protect value => exact @ofEdits _ _ _ _ _ (Edits.protectValue value)
  | restoreArena mark => exact @ofEdits _ _ _ _ _ (Edits.restoreArena mark)
  | _ => infer_instance

namespace Conducts

theorem of_sustains [sustains : Sustains limits strict level action action'] :
    Conducts limits strict level action action' where
  same machine sound := (sustains.sustainsFrom machine sound).same
  sound machine sound := (sustains.sustainsFrom machine sound).sound

theorem fail (failure : Failure) :
    Conducts limits strict level (throw failure : VM α) (throw failure) where
  same _ _ := rfl
  sound _ sound := sound

theorem rescue (conducts : Conducts limits strict level action action') :
    Conducts limits strict level (rescue catches action) (rescue catches action') where
  same machine sound := by
    have attempted : attempt action' machine = attempt action machine := by
      rw [attempt, attempt, conducts.same machine sound]
    show EStateM.bind _ _ _ = EStateM.bind _ _ _
    rw [EStateM.bind, EStateM.bind, attempted]
  sound machine sound := by
    have after := conducts.sound machine sound
    unfold VM.rescue
    cases result : action machine with
    | ok value next =>
        rw [after_bind_of_ok (attempt_of_ok result)]
        rw [after_of_ok result] at after
        exact after
    | error failure next =>
        rw [after_bind_of_ok (attempt_of_error result)]
        rw [after_of_error result] at after
        dsimp only
        split <;> exact after

theorem bind {rest rest' : α → VM β} (first : Conducts limits strict level action action')
    (second : ∀ value, Conducts limits strict level (rest value) (rest' value)) :
    Conducts limits strict level (action >>= rest) (action' >>= rest') where
  same machine sound := by
    have between := first.sound machine sound
    have same := first.same machine sound
    cases result : action machine with
    | ok value next =>
        rw [after_of_ok result] at between
        rw [bind_of_ok result, bind_of_ok (same.trans result), (second value).same next between]
    | error failure next => rw [bind_of_error result, bind_of_error (same.trans result)]
  sound machine sound := by
    have between := first.sound machine sound
    cases result : action machine with
    | ok value next =>
        rw [after_of_ok result] at between
        rw [after_bind_of_ok result]
        exact (second value).sound next between
    | error failure next =>
        rw [after_of_error result] at between
        rw [after_of_error (bind_of_error result)]
        exact between

/-- The code of a host leaves a sound machine. -/
theorem of_hostCode {body : Engine → VM α} (code : HostCode catches body)
    [sustained : engine.Sustained limits strict (level + 1) engine'] :
    Conducts limits strict level (body engine) (body engine') := by
  have self : engine.Sustained limits strict (level + 1) engine := sustained.left
  induction code with
  | entry isEntry => exact @of_sustains _ _ _ _ _ _ (.of_entryPoint isEntry)
  | action asked => exact @of_sustains _ _ _ _ _ _ (.of_hostAction (asked engine))
  | newObject classHandle => exact of_sustains
  | newData classHandle typeName payload => exact of_sustains
  | newException classHandle message => exact of_sustains
  | finish value => exact of_sustains
  | fail failure => exact .fail failure
  | rescue _ inductionHypothesis => exact inductionHypothesis.rescue
  | next _ _ first second => exact first.bind second

end Conducts

/-- The code of a host sustains a sound machine, if it raises nothing but exceptions. -/
theorem Sustains.of_conducts (conducts : Conducts limits strict level action action')
    (raises : strict → ∀ machine, machine.SoundAt limits strict level → ∀ exception next,
      action machine = .error (.raised exception) next → next.IsException exception) :
    Sustains limits strict level action action' where
  sustainsFrom machine sound :=
    ⟨conducts.same machine sound, conducts.sound machine sound,
      fun isStrict => raises isStrict machine sound⟩

end VM

/-! ### The engine -/

namespace Engine

/-- The methods of a host and of the core classes sustain sound machines of a level, if what
they start one level deeper does. -/
theorem sustains_runMethod {fuel : Nat} (conform : HostsConform catches hosts)
    (raising : strict → RaiseExceptionsWithin limits hosts fuel)
    (sustained : (ofHosts hosts fuel).Sustained limits strict (level + 1) engine')
    (method : NativeMethod) (self : Value) (args : Args) :
    VM.Sustains limits strict level (VM.runMethod hosts (ofHosts hosts fuel) method self args)
      (VM.runMethod hosts engine' method self args) := by
  refine VM.Sustains.runMethod (fun body isHost self args => ?_) method self args
  refine .of_conducts (.of_hostCode (conform body isHost self args)) fun isStrict machine sound => ?_
  have isTrue : strict = True := eq_true isStrict
  exact raising isStrict body isHost self args level machine (isTrue ▸ sound)

/-- Loops and methods sustain sound machines of every level. -/
theorem sustained_ofHosts (conform : HostsConform catches hosts) (fuel level : Nat)
    (raising : strict → ∀ fewer < fuel, RaiseExceptionsWithin limits hosts fewer) :
    (ofHosts hosts fuel).Sustained limits strict level (ofHosts hosts fuel) := by
  induction fuel generalizing level with
  | zero =>
      have stops {α : Type} :
          VM.Sustains limits strict level (throw .outOfFuel : VM α) (throw .outOfFuel) :=
        inferInstance
      exact ⟨rfl, fun _ => stops, fun _ _ _ => stops⟩
  | succ fuel inductionHypothesis =>
      have sustained (level : Nat) :
          (ofHosts hosts fuel).Sustained limits strict level (ofHosts hosts fuel) :=
        inductionHypothesis level fun isStrict fewer isFewer =>
          raising isStrict fewer (Nat.lt_succ_of_lt isFewer)
      have cycles (stop : Nat) : VM.Sustains limits strict level
          (VM.cycle (ofHosts hosts fuel) stop) (VM.cycle (ofHosts hosts fuel) stop) :=
        ⟨fun machine sound => VM.sustainsFrom_cycle sound fun _ _ =>
          ⟨fun _ => (sustained level).answers, fun _ => sustained (level + 1)⟩⟩
      refine ⟨rfl, fun stop => ?_, fun method self args => ?_⟩
      · have goOn := (sustained level).loop stop
        refine @VM.Sustains.seq _ _ _ _ _ _ _ _ _ (cycles stop) fun exit? => ?_
        cases exit? with
        | some exit => exact inferInstanceAs (VM.Sustains limits strict level (pure exit) (pure exit))
        | none => exact goOn
      · have raisingLast (isStrict : strict) := raising isStrict fuel (Nat.lt_succ_self fuel)
        exact sustains_runMethod conform raisingLast (sustained (level + 1)) method self args

end Engine

/-- A method of a host that hands on what its block raised raises exceptions only. -/
theorem raiseExceptions_rescuing (limits : Config) (catches : Failure → Bool) :
    RaiseExceptions limits #[rescuingMethod catches] := by
  intro fuel
  induction fuel using Nat.strongRecOn with
  | ind fuel inductionHypothesis =>
      intro body isHost self args level machine sound exception next raised
      obtain rfl : body = rescuingMethod catches := by simpa using isHost
      have sustained : (Engine.ofHosts #[rescuingMethod catches] fuel).Sustained limits True (level + 1)
          (Engine.ofHosts #[rescuingMethod catches] fuel) :=
        Engine.sustained_ofHosts (hostsConform_rescuing catches) fuel (level + 1)
          fun _ fewer isFewer => inductionHypothesis fewer isFewer
      have calls : VM.SustainsFrom limits True level machine
          (VM.callProc (.ofHosts #[rescuingMethod catches] fuel) args.block args.positional)
          (VM.callProc (.ofHosts #[rescuingMethod catches] fuel) args.block args.positional) :=
        .of_sustains sound
      have rescues : VM.SustainsFrom limits True level machine
          (rescuingMethod catches (.ofHosts #[rescuingMethod catches] fuel) self args)
          (rescuingMethod catches (.ofHosts #[rescuingMethod catches] fuel) self args) := by
        unfold rescuingMethod VM.rescue
        rw [bind_assoc]
        refine calls.attempt_bind fun result next sound isException => ?_
        cases result with
        | ok value => exact .of_ok rfl sound
        | error failure =>
            dsimp only
            split
            · cases failure with
              | raised exception => exact .of_ok rfl sound
              | _ => exact VM.sustainsFrom_throw sound fun _ _ isRaised => by cases isRaised
            · exact VM.sustainsFrom_throw sound fun isStrict exception isRaised =>
                isException isStrict exception (congrArg Except.error isRaised)
      exact rescues.raises trivial exception next raised

end RiteVm

namespace RiteVm

/-! ### Nesting -/

/-- How many levels deeper a run is than the place and the machine that started it. -/
def Place.descent (place : Place) (machine : Machine) : Place → Nat
  | .native _ _ _ =>
    match place with
    | .loop _ => if machine.nextOp? = some .stringConcat then 1 else 0
    | _ => 1
  | _ => 1

/-- The machines that a host comes to from a new one, with everything that runs for it, and the
number of loops and of calls by name that are in progress. -/
inductive Machine.VisitedAt (config : Config) (catches : Failure → Bool) (hosts : Array HostMethod) :
    Nat → Place → Machine → Prop where
  | new : VisitedAt config catches hosts 0 .host (.new config)
  | host {level : Nat} {machine : Machine} {α : Type} {body : Engine → VM α} (fuel : Nat) :
      VisitedAt config catches hosts level .host machine → HostCode catches body →
      IsIntact (body (.ofHosts hosts fuel) machine) →
      VisitedAt config catches hosts level .host ((body (.ofHosts hosts fuel)).after machine)
  | cycle {level : Nat} {machine next : Machine} {stop : Nat} (fuel : Nat) :
      VisitedAt config catches hosts level (.loop stop) machine →
      VM.cycle (.ofHosts hosts fuel) stop machine = .ok none next →
      VisitedAt config catches hosts level (.loop stop) next
  | start {level : Nat} {place place' : Place} {machine start : Machine} {α : Type}
      {action : Engine → VM α} (fuel : Nat) :
      VisitedAt config catches hosts level place machine → Performs catches hosts place action →
      (Engine.ofHosts hosts fuel).ComesTo action machine place' start →
      VisitedAt config catches hosts (level + place.descent machine place') place' start
  | inside {level : Nat} {machine : Machine} {method : NativeMethod} {self : Value} {args : Args} :
      VisitedAt config catches hosts level (.native method self args) machine →
      VisitedAt config catches hosts level .host machine

variable {config : Config} {strict tidy : Prop} {level : Nat} {catches : Failure → Bool}
  {hosts : Array HostMethod} {place place' : Place} {machine start : Machine}

theorem Machine.VisitedAt.visited (visited : machine.VisitedAt config catches hosts level place) :
    machine.Visited config catches hosts place := by
  induction visited with
  | new => exact .new
  | host fuel _ code isIntact inductionHypothesis => exact .host fuel inductionHypothesis code isIntact
  | cycle fuel _ cycled inductionHypothesis => exact .cycle fuel inductionHypothesis cycled
  | start fuel _ performs comes inductionHypothesis =>
      exact .start fuel inductionHypothesis performs comes
  | inside _ inductionHypothesis => exact .inside inductionHypothesis

/-- Every machine that a host comes to is on some level. -/
theorem Machine.Visited.exists_visitedAt (visited : machine.Visited config catches hosts place) :
    ∃ level, machine.VisitedAt config catches hosts level place := by
  induction visited with
  | new => exact ⟨0, .new⟩
  | host fuel _ code isIntact inductionHypothesis =>
      obtain ⟨level, visited⟩ := inductionHypothesis
      exact ⟨level, .host fuel visited code isIntact⟩
  | cycle fuel _ cycled inductionHypothesis =>
      obtain ⟨level, visited⟩ := inductionHypothesis
      exact ⟨level, .cycle fuel visited cycled⟩
  | start fuel _ performs comes inductionHypothesis =>
      obtain ⟨level, visited⟩ := inductionHypothesis
      exact ⟨_, .start fuel visited performs comes⟩
  | inside _ inductionHypothesis =>
      obtain ⟨level, visited⟩ := inductionHypothesis
      exact ⟨level, .inside visited⟩

/-! ### The invariant -/

namespace Engine.SameBut

variable {engine engine' : Engine}

/-- No sound machine of a level can tell engines apart that differ elsewhere. -/
theorem sustained (same : engine.SameBut place start engine')
    (self : engine.Sustained config strict level engine)
    (elsewhere : ¬ start.SoundAt config strict level) :
    engine.Sustained config strict level engine' where
  rounds := same.rounds
  loop stop := ⟨fun machine sound => by
    refine ((self.loop stop).sustainsFrom machine sound).congr rfl (same.loop stop machine ?_)
    rintro ⟨rfl, rfl⟩
    exact elsewhere sound⟩
  native method self' args := ⟨fun machine sound => by
    refine ((self.native method self' args).sustainsFrom machine sound).congr rfl
      (same.native method self' args machine ?_)
    rintro ⟨rfl, rfl⟩
    exact elsewhere sound⟩

/-- Methods cannot tell engines apart either that differ in a loop. -/
theorem answers (same : engine.SameBut place start engine')
    (self : engine.Answers config strict level engine)
    (elsewhere : ∀ method self args, place = .native method self args →
      ¬ start.SoundAt config strict level) :
    engine.Answers config strict level engine' where
  native method self' args := ⟨fun machine sound => by
    refine ((self.native method self' args).sustainsFrom machine sound).congr rfl
      (same.native method self' args machine ?_)
    rintro ⟨isPlace, rfl⟩
    exact elsewhere method self' args isPlace sound⟩

end Engine.SameBut

/-- A collection leaves the next instruction as it is. -/
theorem Machine.Linked.nextOp?_of_collectIfDue (linked : machine.Linked tidy) {next : Machine}
    (collected : VM.collectIfDue machine = .ok () next) : next.nextOp? = machine.nextOp? := by
  have balanced : VM.Balanced tidy True VM.collectIfDue VM.collectIfDue := inferInstance
  have level := (balanced.balancedFrom machine linked).ends
  rw [collected] at level
  rw [nextOp?, nextOp?, level trivial]

/-- Whatever an action is started from a place, it only comes to machines that are sound on
their level. -/
theorem Performs.sound {α : Type} {action : Engine → VM α} {fuel : Nat}
    (conform : HostsConform catches hosts) (raising : strict → RaiseExceptions config hosts)
    (performs : Performs catches hosts place action) (linked : machine.Linked tidy)
    (sound : machine.SoundAt config strict level)
    (comes : (Engine.ofHosts hosts fuel).ComesTo action machine place' start) :
    start.SoundAt config strict (level + place.descent machine place') := by
  obtain ⟨engine', same, differs⟩ := comes
  by_contra unsound
  have self (level : Nat) :
      (Engine.ofHosts hosts fuel).Sustained config strict level (Engine.ofHosts hosts fuel) :=
    Engine.sustained_ofHosts conform fuel level fun isStrict fewer _ => raising isStrict fewer
  refine differs ?_
  cases performs with
  | host code =>
      have isDeeper : Place.host.descent machine place' = 1 := by cases place' <;> rfl
      rw [isDeeper] at unsound
      have sustained := same.sustained (self (level + 1)) unsound
      exact (VM.Conducts.of_hostCode code).same machine sound
  | loop stop =>
      refine (VM.sustainsFrom_cycle sound fun next collected => ⟨fun notConcat => ?_, fun isConcat => ?_⟩).same
      · rw [linked.nextOp?_of_collectIfDue collected] at notConcat
        refine same.answers (self level).answers ?_
        rintro method self args rfl
        rw [Place.descent, if_neg notConcat] at unsound
        exact unsound
      · rw [linked.nextOp?_of_collectIfDue collected] at isConcat
        have isDeeper : (Place.loop stop).descent machine place' = 1 := by
          cases place' with
          | native => exact if_pos isConcat
          | _ => rfl
        rw [isDeeper] at unsound
        exact same.sustained (self (level + 1)) unsound
  | native method self' args =>
      have isDeeper : (Place.native method self' args).descent machine place' = 1 := by
        cases place' <;> rfl
      rw [isDeeper] at unsound
      have sustained := same.sustained (self (level + 1)) unsound
      have runs := Engine.sustains_runMethod conform (fun isStrict => raising isStrict fuel) sustained
        method self' args
      exact (runs.sustainsFrom machine sound).same

/-- Every machine that a host comes to is sound on its level. -/
theorem Machine.VisitedAt.sound (most : CatchesAtMost False catches)
    (conform : HostsConform catches hosts) (raising : strict → RaiseExceptions config hosts)
    (visited : machine.VisitedAt config catches hosts level place) :
    machine.SoundAt config strict level := by
  have self (fuel level : Nat) :
      (Engine.ofHosts hosts fuel).Sustained config strict level (Engine.ofHosts hosts fuel) :=
    Engine.sustained_ofHosts conform fuel level fun isStrict fewer _ => raising isStrict fewer
  induction visited with
  | new => exact soundAt_new config
  | @host level machine _ body fuel _ code _ inductionHypothesis =>
      have sustained := self fuel (level + 1)
      have conducts : VM.Conducts config strict level (body (.ofHosts hosts fuel))
          (body (.ofHosts hosts fuel)) := .of_hostCode code
      exact conducts.sound machine inductionHypothesis
  | @cycle level machine next stop fuel _ cycled inductionHypothesis =>
      have serves (next : Machine) : (Engine.ofHosts hosts fuel).Serves config strict level next
          (Engine.ofHosts hosts fuel) :=
        ⟨fun _ => (self fuel level).answers, fun _ => self fuel (level + 1)⟩
      exact (VM.sustainsFrom_cycle inductionHypothesis fun next _ => serves next).sound_of_ok cycled
  | start fuel visited performs comes inductionHypothesis =>
      have linked := (visited.visited.fitsAt most conform).1
      exact performs.sound conform raising linked inductionHypothesis comes
  | inside _ inductionHypothesis => exact inductionHypothesis

end RiteVm
