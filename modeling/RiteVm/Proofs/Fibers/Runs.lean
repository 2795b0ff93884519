import RiteVm.Proofs.Evolution.Runs
import RiteVm.Proofs.Fibers.Execution

/-!
Contract: whatever a host does, and whatever runs for it, leaves the frames of its caller as
they were, and every machine that a run comes to is linked.

Owns:
- entry points, which run bytecode for a host, and the code of a host;
- hosts that catch only some failures, and never a broken invariant;
- the engine that such hosts take part in;
- the places at which a machine can be looked at, and the runs that are started from there;
- the machines that a host and its runs come to from a new one, and the invariant of these machines.

The code of a host is about any engine, so that the runs of two engines can be compared. A run is
started somewhere if it makes a difference what the engine does there. So the machines inside a run
are those that the engine is asked about, however deep it is nested.
-/

namespace RiteVm

/-! ### Hosts -/

/-- A call by which a host runs bytecode or resumes a fiber. -/
inductive EntryPoint : (Engine → VM Value) → Prop where
  | run (unit : Bytecode.CodeUnit) : EntryPoint fun engine => VM.run engine unit
  | load (binary : Bytes) : EntryPoint fun engine => VM.load engine binary
  | loadInto (binary : Bytes) (target : Handle) :
      EntryPoint fun engine => VM.loadInto engine binary target
  | funcall (receiver : Value) (name : String) (args : List Value) (block : Value) :
      EntryPoint fun engine => VM.funcall engine receiver name args block
  | callProc (proc : Value) (args : List Value) :
      EntryPoint fun engine => VM.callProc engine proc args
  | resume (fiber : Value) (args : List Value) :
      EntryPoint fun engine => VM.resume engine fiber args

/-- Runs an action and hands a failure that is caught to the host. -/
def VM.rescue {α : Type} (catches : Failure → Bool) (action : VM α) : VM (Except Failure α) := do
  match ← VM.attempt action with
  | .ok value => return .ok value
  | .error failure => if catches failure then return .error failure else throw failure

/-- What a host does with a machine, for any engine: one action after the other, each of
which may depend on what the earlier ones returned. -/
inductive HostCode (catches : Failure → Bool) : {α : Type} → (Engine → VM α) → Prop where
  | entry {call : Engine → VM Value} : EntryPoint call → HostCode catches call
  | action {α : Type} {action : VM α} :
      (∀ engine, HostAction engine action) → HostCode catches fun _ => action
  | newObject (classHandle : Handle) : HostCode catches fun _ => VM.newObject classHandle
  | newData (classHandle : Handle) (typeName : String) (payload : Int) :
      HostCode catches fun _ => VM.newData classHandle typeName payload
  | newException (classHandle : Handle) (message : Value) :
      HostCode catches fun _ => VM.newException classHandle message
  | finish {α : Type} (value : α) : HostCode catches fun _ => (pure value : VM α)
  | fail {α : Type} (failure : Failure) : HostCode catches fun _ => (throw failure : VM α)
  | rescue {α : Type} {body : Engine → VM α} :
      HostCode catches body → HostCode catches fun engine => VM.rescue catches (body engine)
  | next {α β : Type} {body : Engine → VM α} {rest : α → Engine → VM β} :
      HostCode catches body → (∀ value, HostCode catches (rest value)) →
      HostCode catches fun engine => body engine >>= fun value => rest value engine

/-- The methods of a host are code of the host. -/
def HostsConform (catches : Failure → Bool) (hosts : Array HostMethod) : Prop :=
  ∀ body ∈ hosts, ∀ self args, HostCode catches fun engine => body engine self args

/-- A method of a host that calls its block, and returns an exception instead of raising it. -/
def rescuingMethod (catches : Failure → Bool) : HostMethod := fun engine _ args => do
  match ← VM.rescue catches (VM.callProc engine args.block args.positional) with
  | .ok value => return value
  | .error (.raised exception) => return .object exception
  | .error failure => throw failure

theorem hostsConform_rescuing (catches : Failure → Bool) :
    HostsConform catches #[rescuingMethod catches] := by
  intro body isHost self args
  obtain rfl : body = rescuingMethod catches := by simpa using isHost
  refine .next (.rescue (.entry (.callProc args.block args.positional))) fun result => ?_
  split
  · exact .finish _
  · exact .finish _
  · exact .fail _

/-- What a host catches is no broken invariant. A tidy host catches nothing after which the
machine cannot go on. -/
structure CatchesAtMost (tidy : Prop) (catches : Failure → Bool) : Prop where
  notBreach : ∀ breach, catches (.breach breach) = false
  mild : tidy → ∀ failure, catches failure → failure.isMild

theorem catchesAtMost_nothing (tidy : Prop) : CatchesAtMost tidy fun _ => false :=
  ⟨fun _ => rfl, fun _ _ => nofun⟩

theorem hostsConform_empty (catches : Failure → Bool) : HostsConform catches #[] :=
  fun _ isHost => absurd isHost (Array.not_mem_empty _)

/-- An engine that agrees with another one agrees with itself. -/
theorem Engine.Agrees.left {tidy : Prop} {engine engine' : Engine}
    (agrees : engine.Agrees tidy engine') : engine.Agrees tidy engine where
  rounds := rfl
  loop stop machine linked runs := { agrees.loop stop machine linked runs with same := rfl }
  native method self args :=
    ⟨fun machine linked =>
      { (agrees.native method self args).balancedFrom machine linked with same := rfl }⟩

namespace VM

set_option synthInstance.maxSize 3000

variable {tidy firm : Prop} {α : Type} {catches : Failure → Bool} {engine engine' : Engine}

instance Quiet.newPayload (classHandle : Handle) (typeName : String) (payload : Int) :
    Quiet (VM.newData classHandle typeName payload) := by
  unfold VM.newData
  infer_instance

instance Quiet.modifyPayload (value : Value) (change : Int → Int) :
    Quiet (modifyPayload value change) := by
  have modify (handle : Handle) : Quiet (modifyObject handle fun object =>
      match object.content with
      | .data record =>
        { object with content := .data { record with payload := change record.payload } }
      | _ => object) :=
    .of_modifyObject fun object => by
      obtain ⟨classHandle, content, frozen, fields⟩ := object
      cases content <;> exact ⟨rfl, rfl⟩
  exact optionForM _

instance Quiet.pin (value : Value) : Quiet (pin value) where
  quietFrom machine := by
    cases value <;> exact .of_heap fun wellFormed => .of_cells wellFormed rfl rfl

theorem Balanced.of_entryPoint {call : Engine → VM Value} (entry : EntryPoint call)
    [engine.Agrees tidy engine'] : Balanced tidy firm (call engine) (call engine') := by
  cases entry <;> infer_instance

theorem Balanced.of_hostAction {action : VM α} [agrees : engine.Agrees tidy engine]
    (asked : HostAction engine action) : Balanced tidy firm action action := by
  cases asked with
  | getVariable value name => exact seq
  | setVariable value name content => exact seq
  | getGlobal name => exact seq
  | setGlobal name value => exact seq
  | respondsToText value name => exact seq
  | unpin pin => exact @ofInPlace _ _ _ _ (@InPlace.ofQuiet _ _ (Quiet.unpin pin))
  | protect value => exact @ofInPlace _ _ _ _ (@InPlace.ofQuiet _ _ (Quiet.protectValue value))
  | restoreArena mark => exact @ofInPlace _ _ _ _ (@InPlace.ofQuiet _ _ (Quiet.restoreArena mark))
  | _ => infer_instance

/-- A failure that is caught leaves the frames as they were, if the host is tidy. -/
theorem Balanced.rescue {action action' : VM α} (most : CatchesAtMost tidy catches)
    [balanced : Balanced tidy tidy action action'] :
    Balanced tidy tidy (rescue catches action) (rescue catches action') where
  balancedFrom machine linked := by
    refine TracksFrom.attempt_bind (balanced.balancedFrom machine linked) (fun breach next => ?_)
      (fun _ => .of_not_isIntact) .trans fun result next _ leads ends => ?_
    · dsimp only
      rw [most.notBreach, if_neg Bool.false_ne_true]
      exact Bool.noConfusion
    · have stays {outcome : VM (Except Failure α)} [InPlace outcome]
          (level : EndsLevel tidy machine.frames (outcome next)) :
          TracksFrom tidy (· <+: ·) (EndsLevel tidy machine.frames) next outcome outcome :=
        ⟨rfl, fun _ => (InPlaceFrom.of_inPlace leads.linked.wellFormed).leads leads.linked
          (List.prefix_refl _), level⟩
      cases result with
      | ok value => exact stays ends
      | error failure =>
          dsimp only
          split
          · rename_i caught
            exact stays fun isTidy => ends isTidy (most.mild isTidy failure caught)
          · exact stays ends

/-- Whatever a host does, it takes no frame off the stack. -/
theorem Balanced.of_hostCode {body : Engine → VM α} (most : CatchesAtMost tidy catches)
    (code : HostCode catches body) [agrees : engine.Agrees tidy engine'] :
    Balanced tidy tidy (body engine) (body engine') := by
  have self : engine.Agrees tidy engine := agrees.left
  induction code with
  | entry isEntry => exact .of_entryPoint isEntry
  | action asked => exact .of_hostAction (asked engine)
  | newObject classHandle => infer_instance
  | newData classHandle typeName payload => infer_instance
  | newException classHandle message => infer_instance
  | finish value => infer_instance
  | fail failure => infer_instance
  | rescue _ inductionHypothesis => exact .rescue most
  | next _ _ first second => exact seq

end VM

/-! ### The engine -/

namespace Engine

variable {tidy : Prop} {catches : Failure → Bool} {hosts : Array HostMethod}

/-- Loops and methods do in every machine what they may do. -/
theorem agrees_ofHosts (most : CatchesAtMost tidy catches) (conform : HostsConform catches hosts)
    (fuel : Nat) : (ofHosts hosts fuel).Agrees tidy (ofHosts hosts fuel) := by
  induction fuel with
  | zero =>
      refine ⟨rfl, fun stop machine linked runs => ?_, fun method self args => ?_⟩
      · change VM.TracksFrom _ _ _ _ (throw .outOfFuel : VM Exit) _
        exact .stays linked (by rintro ⟨⟩)
      · change VM.Balanced tidy tidy (throw .outOfFuel : VM Value) (throw .outOfFuel : VM Value)
        infer_instance
  | succ fuel inductionHypothesis =>
      refine ⟨rfl, fun stop machine linked runs => ?_, fun method self args => ?_⟩
      · change VM.TracksFrom _ _ _ _ (VM.cycle (ofHosts hosts fuel) stop >>= _) _
        have cycles : VM.TracksFrom tidy (Descends stop) (VM.EndsSettled tidy stop) machine
            (VM.cycle (ofHosts hosts fuel) stop) (VM.cycle (ofHosts hosts fuel) stop) :=
          VM.tracksFrom_cycle linked runs
        refine cycles.andThen (fun exit? next cycled leads => ?_) fun _ _ => id
        have settled := cycles.ends
        rw [cycled] at settled
        cases exit? with
        | some exit => exact .stays leads.linked settled
        | none =>
            exact inductionHypothesis.loop stop next leads.linked (runs.descends leads.frames settled)
      · change VM.Balanced tidy tidy (VM.runMethod hosts (ofHosts hosts fuel) method self args)
          (VM.runMethod hosts (ofHosts hosts fuel) method self args)
        exact .runMethod (fun body isHost self args =>
          .of_hostCode most (conform body isHost self args)) method self args

end Engine

/-- A call of a host that returns ends with the same stacks and fibers in use. -/
theorem EntryPoint.leads {tidy : Prop} {catches : Failure → Bool} {hosts : Array HostMethod}
    {call : Engine → VM Value} {fuel : Nat} {machine last : Machine} {value : Value}
    (entry : EntryPoint call) (most : CatchesAtMost tidy catches)
    (conform : HostsConform catches hosts) (linked : machine.Linked tidy)
    (returned : call (.ofHosts hosts fuel) machine = .ok value last) :
    last.Linked tidy ∧ machine.Beside last := by
  have agrees := Engine.agrees_ofHosts most conform fuel
  have balanced : VM.Balanced tidy tidy (call (.ofHosts hosts fuel)) (call (.ofHosts hosts fuel)) :=
    .of_entryPoint entry
  have leads := (balanced.balancedFrom machine linked).leads (by rw [returned]; trivial)
  rw [VM.after_of_ok returned] at leads
  exact ⟨leads.linked, leads.beside⟩

end RiteVm

namespace RiteVm

/-! ### Places -/

/-- Where a machine is looked at. -/
inductive Place where
  /-- between what a host does -/
  | host
  /-- between the instructions of a loop -/
  | loop (stop : Nat)
  /-- at the start of a method that is no bytecode -/
  | native (method : NativeMethod) (self : Value) (args : Args)

/-- At most what an engine does at one place, from one machine, is different. -/
structure Engine.SameBut (place : Place) (start : Machine) (engine engine' : Engine) : Prop where
  rounds : engine'.rounds = engine.rounds
  loop : ∀ stop machine, ¬ (place = .loop stop ∧ start = machine) →
    engine'.loop stop machine = engine.loop stop machine
  native : ∀ method self args machine, ¬ (place = .native method self args ∧ start = machine) →
    engine'.native method self args machine = engine.native method self args machine

/-- From a machine, an action comes to a place: it makes a difference what the engine does
there. -/
def Engine.ComesTo {α : Type} (engine : Engine) (action : Engine → VM α) (machine : Machine)
    (place : Place) (start : Machine) : Prop :=
  ∃ engine', engine.SameBut place start engine' ∧ action engine' machine ≠ action engine machine

namespace Engine.ComesTo

variable {α β : Type} {engine : Engine} {machine start : Machine} {place : Place}

/-- What starts nothing comes to no place, so the place is behind it. -/
theorem behind {first : VM α} {rest : α → Engine → VM β}
    (comes : engine.ComesTo (fun engine => first >>= fun value => rest value engine) machine place
      start) :
    ∃ value next, first machine = .ok value next ∧ engine.ComesTo (rest value) next place start := by
  obtain ⟨engine', same, differs⟩ := comes
  cases result : first machine with
  | ok value next =>
      have goesOn (engine : Engine) : (first >>= fun value => rest value engine) machine =
          rest value engine next := VM.bind_of_ok result
      exact ⟨value, next, rfl, engine', same, fun equal =>
        differs ((goesOn engine').trans (equal.trans (goesOn engine).symm))⟩
  | error failure next =>
      exact absurd ((VM.bind_of_error result).trans (VM.bind_of_error result).symm) differs

/-- So it is in front of what starts nothing. -/
theorem before {action : Engine → VM α} {rest : α → VM β}
    (comes : engine.ComesTo (fun engine => action engine >>= rest) machine place start) :
    engine.ComesTo action machine place start := by
  obtain ⟨engine', same, differs⟩ := comes
  refine ⟨engine', same, fun equal => differs ?_⟩
  show EStateM.bind _ _ _ = EStateM.bind _ _ _
  rw [EStateM.bind, EStateM.bind, equal]

theorem attempted {action : Engine → VM α} {rest : Except Failure α → VM β}
    (comes : engine.ComesTo (fun engine => VM.attempt (action engine) >>= rest) machine place
      start) :
    engine.ComesTo action machine place start := by
  obtain ⟨engine', same, differs⟩ := comes.before
  refine ⟨engine', same, fun equal => differs ?_⟩
  show VM.attempt _ _ = VM.attempt _ _
  rw [VM.attempt, VM.attempt, equal]

theorem native {method : NativeMethod} {self : Value} {args : Args}
    (comes : engine.ComesTo (fun engine => engine.native method self args) machine place start) :
    place = .native method self args ∧ start = machine := by
  obtain ⟨engine', same, differs⟩ := comes
  by_contra elsewhere
  exact differs (same.native method self args machine elsewhere)

end Engine.ComesTo

/-- What starts nothing comes to no place. -/
theorem Engine.not_comesTo {α : Type} {engine : Engine} {action : VM α} {machine start : Machine}
    {place : Place} : ¬ engine.ComesTo (fun _ => action) machine place start :=
  fun ⟨_, _, differs⟩ => differs rfl

/-- What goes on at a place. -/
inductive Performs (catches : Failure → Bool) (hosts : Array HostMethod) :
    Place → {α : Type} → (Engine → VM α) → Prop where
  | host {α : Type} {body : Engine → VM α} :
      HostCode catches body → Performs catches hosts .host body
  | loop (stop : Nat) : Performs catches hosts (.loop stop) fun engine => VM.cycle engine stop
  | native (method : NativeMethod) (self : Value) (args : Args) :
      Performs catches hosts (.native method self args) fun engine =>
        VM.runMethod hosts engine method self args

/-- The machines that a host comes to from a new one, with everything that runs for it. A
method that is no bytecode may do at any time what a host does. -/
inductive Machine.Visited (config : Config) (catches : Failure → Bool) (hosts : Array HostMethod) :
    Place → Machine → Prop where
  | new : Visited config catches hosts .host (.new config)
  | host {machine : Machine} {α : Type} {body : Engine → VM α} (fuel : Nat) :
      Visited config catches hosts .host machine → HostCode catches body →
      IsIntact (body (.ofHosts hosts fuel) machine) →
      Visited config catches hosts .host ((body (.ofHosts hosts fuel)).after machine)
  | cycle {machine next : Machine} {stop : Nat} (fuel : Nat) :
      Visited config catches hosts (.loop stop) machine →
      VM.cycle (.ofHosts hosts fuel) stop machine = .ok none next →
      Visited config catches hosts (.loop stop) next
  | start {place place' : Place} {machine start : Machine} {α : Type} {action : Engine → VM α}
      (fuel : Nat) :
      Visited config catches hosts place machine → Performs catches hosts place action →
      (Engine.ofHosts hosts fuel).ComesTo action machine place' start →
      Visited config catches hosts place' start
  | inside {machine : Machine} {method : NativeMethod} {self : Value} {args : Args} :
      Visited config catches hosts (.native method self args) machine →
      Visited config catches hosts .host machine

/-! ### The invariant -/

namespace Machine

variable {tidy : Prop} {machine : Machine}

/-- A machine without classes has no fibers, and runs on the stack of the main program. -/
theorem linked_empty (config : Config) : (empty config).Linked tidy := by
  have noFiber (handle : Handle) : (empty config).fiber? handle = none :=
    Option.bind_eq_none_iff.mpr fun _ found => nomatch (Heap.get?_new _ handle).symm.trans found
  have isRoot (id : ContextId) (isLive : ((empty config).context? id).isSome) :
      id = rootContext := by
    obtain ⟨index⟩ := id
    cases index with
    | zero => rfl
    | succ index => exact nomatch isLive
  refine
    { wellFormed := Heap.wellFormed_new config.collector
      root := rfl
      chain_nodup := List.nodup_cons.mpr ⟨List.not_mem_nil, List.nodup_nil⟩
      chain_root := fun id member => (Prod.mk.inj (List.mem_singleton.mp member)).1
      chain_fiber := fun id handle member => nomatch List.mem_singleton.mp member
      fits := fun handle record found => nomatch (noFiber handle).symm.trans found
      apart := fun first _ _ _ found => nomatch (noFiber first).symm.trans found
      owned := fun id isLive => .inl (isRoot id isLive) }

theorem linked_new (config : Config) : (new config).Linked tidy :=
  have wellFormed : (empty config).heap.WellFormed := Heap.wellFormed_new config.collector
  (KeepsOthers.of_keepsFibers wellFormed (keepsFibers_new config)).linked (linked_empty config)

/-- A machine is linked, and a loop has a frame to run from. -/
def FitsAt (tidy : Prop) (place : Place) (machine : Machine) : Prop :=
  machine.Linked tidy ∧ ∀ stop, place = .loop stop → machine.RunsFrom stop

end Machine

variable {tidy : Prop} {catches : Failure → Bool} {hosts : Array HostMethod}

/-- No linked machine can tell engines apart that differ elsewhere. -/
theorem Engine.SameBut.agrees {engine engine' : Engine} {place : Place} {start : Machine}
    (same : engine.SameBut place start engine') (self : engine.Agrees tidy engine)
    (elsewhere : ¬ start.FitsAt tidy place) : engine.Agrees tidy engine' where
  rounds := same.rounds
  loop stop machine linked runs := by
    refine (self.loop stop machine linked runs).congr rfl (same.loop stop machine ?_)
    rintro ⟨rfl, rfl⟩
    exact elsewhere ⟨linked, fun _ isStop => by cases isStop; exact runs⟩
  native method self args := by
    refine ⟨fun machine linked => ?_⟩
    refine ((Engine.Agrees.native method self args).balancedFrom machine linked).congr rfl
      (same.native method self args machine ?_)
    rintro ⟨rfl, rfl⟩
    exact elsewhere ⟨linked, fun _ isLoop => nomatch isLoop⟩

/-- Whatever an action is started from a place, it only comes to machines that fit theirs. -/
theorem Performs.fitsAt {place place' : Place} {machine start : Machine} {α : Type}
    {action : Engine → VM α} {fuel : Nat} (most : CatchesAtMost tidy catches)
    (conform : HostsConform catches hosts) (performs : Performs catches hosts place action)
    (fits : machine.FitsAt tidy place)
    (comes : (Engine.ofHosts hosts fuel).ComesTo action machine place' start) :
    start.FitsAt tidy place' := by
  obtain ⟨engine', same, differs⟩ := comes
  by_contra elsewhere
  have agrees := same.agrees (Engine.agrees_ofHosts most conform fuel) elsewhere
  obtain ⟨linked, runs⟩ := fits
  refine differs ?_
  cases performs with
  | host code =>
      have balanced : VM.Balanced tidy tidy (action (.ofHosts hosts fuel)) (action engine') :=
        .of_hostCode most code
      exact (balanced.balancedFrom machine linked).same
  | loop stop => exact (VM.tracksFrom_cycle linked (runs stop rfl)).same
  | native method self args =>
      have balanced : VM.Balanced tidy tidy
          (VM.runMethod hosts (.ofHosts hosts fuel) method self args)
          (VM.runMethod hosts engine' method self args) :=
        .runMethod (fun body isHost self args =>
          .of_hostCode most (conform body isHost self args)) method self args
      exact (balanced.balancedFrom machine linked).same

/-- A loop goes on in a machine that fits. -/
theorem Machine.FitsAt.cycle {machine next : Machine} {stop fuel : Nat}
    (most : CatchesAtMost tidy catches) (conform : HostsConform catches hosts)
    (fits : machine.FitsAt tidy (.loop stop))
    (cycled : VM.cycle (.ofHosts hosts fuel) stop machine = .ok none next) :
    next.FitsAt tidy (.loop stop) := by
  have agrees := Engine.agrees_ofHosts most conform fuel
  obtain ⟨linked, runs⟩ := fits
  have tracks : VM.TracksFrom tidy (Descends stop) (VM.EndsSettled tidy stop) machine
      (VM.cycle (.ofHosts hosts fuel) stop) (VM.cycle (.ofHosts hosts fuel) stop) :=
    VM.tracksFrom_cycle linked (runs stop rfl)
  obtain ⟨-, leads, inside⟩ := tracks
  rw [cycled, VM.after_of_ok cycled] at leads
  rw [cycled] at inside
  have leads := leads trivial
  refine ⟨leads.linked, fun _ isStop => ?_⟩
  cases isStop
  exact (runs stop rfl).descends leads.frames inside

/-- Every machine that a host comes to is linked. -/
theorem Machine.Visited.fitsAt {config : Config} {place : Place} {machine : Machine}
    (most : CatchesAtMost tidy catches) (conform : HostsConform catches hosts)
    (visited : Visited config catches hosts place machine) : machine.FitsAt tidy place := by
  induction visited with
  | new => exact ⟨linked_new config, nofun⟩
  | @host machine _ body fuel _ code isIntact inductionHypothesis =>
      have agrees := Engine.agrees_ofHosts most conform fuel
      have balanced : VM.Balanced tidy tidy (body (.ofHosts hosts fuel)) (body (.ofHosts hosts fuel)) :=
        .of_hostCode most code
      have leads := (balanced.balancedFrom machine inductionHypothesis.1).leads isIntact
      exact ⟨leads.linked, nofun⟩
  | cycle fuel _ cycled inductionHypothesis => exact inductionHypothesis.cycle most conform cycled
  | start fuel _ performs comes inductionHypothesis =>
      exact performs.fitsAt most conform inductionHypothesis comes
  | inside _ inductionHypothesis => exact ⟨inductionHypothesis.1, nofun⟩

end RiteVm
