import RiteVm.Core.Boot
import RiteVm.Host.Storage
import RiteVm.Proofs.Fibers.Runs
import RiteVm.Proofs.MethodCache.Freshness
import RiteVm.Proofs.Provenance.Natives

/-!
Contract: a host that passes on only what it was given never makes a machine mention an object
before it is there.

Owns:
- that a new machine is told;
- what a host may ask for about data that are seen, and tasks of a host;
- hosts whose methods are tasks, and their engine;
- the machines that such a host and its runs attain from a new one, and the invariant of these
  machines.

A task hands what an action returned to the next one. It may use whatever the machine has given out
by then. For a method that includes what it captures and what it is called with.
-/

namespace RiteVm

/-! ### New machines -/

namespace VM.Tells

-- the start consists of many parts
set_option synthInstance.maxSize 3000

variable {captures : Nat → Set Handle} {seen : Set Mention} {handle : Handle} {core : CoreClass}
  {methods : List NamedMethod}

instance setCoreClass [Within seen handle] : Tells captures seen (VM.setCoreClass core handle) := by
  refine of_outside (fun _ => rfl) fun machine within => ?_
  have isHandle : Within (seen ∪ Mentions.of machine) handle := inferInstance
  obtain ⟨heap, contexts, fiber, resumers, yielded, globals, classes, others⟩ := Within.machine_iff.mp within
  refine Within.machine_iff.mpr ⟨heap, contexts, fiber, resumers, yielded, globals, fun other => ?_, others⟩
  rw [Machine.coreClass, Table.get?_insert]
  split
  · exact isHandle
  · exact classes other

instance setInstances {instances : InstanceKind} :
    Tells captures seen (VM.modifyClass handle fun record => { record with instances }) :=
  modifyClass fun _ => ⟨rfl, rfl, rfl⟩

instance bootClass {definition : CoreDefinition} : Tells captures seen (VM.bootClass definition) := by
  unfold VM.bootClass
  infer_instance

instance bootHierarchy : Tells captures seen VM.bootHierarchy := by
  have root {seen : Set Mention} : Tells captures seen (VM.allocateClass .ordinary none .plain) := allocateClass nofun
  have reclass {seen : Set Mention} {handle classHandle : Handle} [Within seen classHandle] : Tells captures seen
      (VM.modifyObject handle fun object => { object with classHandle }) :=
    modifyObject fun _ => ⟨fun _ => id, id⟩
  unfold VM.bootHierarchy
  infer_instance

instance bootRoots : Tells captures seen VM.bootRoots := by
  unfold VM.bootRoots
  infer_instance

/-- Methods that are not the host's. -/
def coreOnly (methods : List NamedMethod) : Bool :=
  methods.all fun method => match method.2 with
    | .host _ => false
    | _ => true

theorem within_of_coreOnly (isCore : coreOnly methods = true) : Within seen methods := by
  refine Within.list_iff.mpr fun method member => ⟨?_⟩
  obtain ⟨name, body⟩ := method
  have notHost := List.all_eq_true.mp isCore _ member
  cases body with
  | host index => cases notHost
  | _ => simp [Mentions.of]

instance {method : ObjectMethod} : Within seen (NativeMethod.object method) := .of_core nofun

instance bootMain : Tells captures seen VM.bootMain := by
  have setMain {seen : Set Mention} {mainObject : Handle} [Within seen mainObject] : Tells captures seen
      (modify fun machine : Machine => { machine with mainObject } : VM PUnit) := by
    refine of_outside (fun _ => rfl) fun machine within => ?_
    have isMain : Within (seen ∪ Mentions.of machine) mainObject := inferInstance
    obtain ⟨heap, contexts, fiber, resumers, yielded, globals, classes, -, methodCache⟩ := Within.machine_iff.mp within
    exact Within.machine_iff.mpr ⟨heap, contexts, fiber, resumers, yielded, globals, classes, isMain, methodCache⟩
  unfold VM.bootMain
  refine behind fun object => behind fun main => ?_
  dsimp only
  split
  · rename_i mainObject found
    have : Within (seen ∪ Mentions.of object ∪ Mentions.of main) mainObject := .of_handle? found
    infer_instance
  · infer_instance

instance bootMethods [Within seen methods] : Tells captures seen (VM.bootMethods handle methods) := by
  unfold VM.bootMethods
  infer_instance

instance bootCoreMethods [Within seen methods] : Tells captures seen (VM.bootCoreMethods core methods) := by
  unfold VM.bootCoreMethods
  infer_instance

instance bootClassMethods [Within seen methods] : Tells captures seen (VM.bootClassMethods core methods) := by
  unfold VM.bootClassMethods
  infer_instance

instance bootExceptions : Tells captures seen VM.bootExceptions := by
  have forClass {seen : Set Mention} : Within seen [("exception", NativeMethod.exception .create)] :=
    within_of_coreOnly (by decide)
  have forAll {seen : Set Mention} : Within seen exceptionMethods := within_of_coreOnly (by decide)
  have forNames {seen : Set Mention} : Within seen [("name", NativeMethod.exception .name)] :=
    within_of_coreOnly (by decide)
  have forMethods {seen : Set Mention} : Within seen [("receiver", NativeMethod.exception .receiver)] :=
    within_of_coreOnly (by decide)
  unfold VM.bootExceptions
  infer_instance

instance bootClosures : Tells captures seen VM.bootClosures := by
  have forProcs {seen : Set Mention} : Within seen procMethods := within_of_coreOnly (by decide)
  have forFiberClass {seen : Set Mention} : Within seen fiberClassMethods := within_of_coreOnly (by decide)
  have forFibers {seen : Set Mention} : Within seen fiberMethods := within_of_coreOnly (by decide)
  unfold VM.bootClosures
  infer_instance

instance bootAllMethods :
    Tells captures seen (VM.coreMethods.forM fun (core, methods) => VM.bootCoreMethods core methods) :=
  listForM_of _ fun entry member => by
    have allCore : VM.coreMethods.all (fun entry => coreOnly entry.2) = true := by decide
    have : Within seen entry.2 := within_of_coreOnly (List.all_eq_true.mp allCore entry member)
    exact bootCoreMethods

instance bootCore : Tells captures seen VM.bootCore := by
  unfold VM.bootCore
  infer_instance

instance boot : Tells captures seen VM.boot := by
  unfold VM.boot
  infer_instance

end VM.Tells

theorem Machine.told_new {captures : Nat → Set Handle} (config : Config) : (new config).Told captures := by
  have boots : VM.Tells captures ∅ VM.boot := inferInstance
  rw [VM.new_eq_after_boot]
  exact (boots.tellsFrom (empty config) (told_empty captures config) (Set.empty_subset _)).told

/-! ### Hosts -/

/-- An engine that runs nothing, for what needs none. -/
theorem Engine.evolves_idle : (Engine.ofHosts #[] 0).Evolves :=
  evolves_ofHosts (fun _ isHost => absurd isHost (Array.not_mem_empty _)) 0

/-- An action that a host may ask for about data that are seen. -/
inductive HostRequest (seen : Set Mention) : {α : Type} → [Mentions α] → (Engine → VM α) → Prop where
  | query {α : Type} [Mentions α] (query : Query α) [Query.Reads seen query] :
      HostRequest seen fun _ => (liftM query : VM α)
  | intern (name : Bytes) : HostRequest seen fun _ => VM.intern name
  -- values
  | newString (bytes : Bytes) : HostRequest seen fun _ => VM.newString bytes
  | newArray (items : Array Value) [Within seen items] : HostRequest seen fun _ => VM.newArray items
  | newHash : HostRequest seen fun _ => VM.newHash
  | newRange (first last : Value) (exclusive : Bool) [Within seen first] [Within seen last] :
      HostRequest seen fun _ => VM.newRange first last exclusive
  | raise {α : Type} [Mentions α] (core : CoreClass) (message : String) :
      HostRequest seen fun _ => (VM.raise core message : VM α)
  | arrayPush (array item : Value) [Within seen array] [Within seen item] :
      HostRequest seen fun _ => VM.arrayPush array item
  | hashSet (hash key value : Value) [Within seen hash] [Within seen key] [Within seen value] :
      HostRequest seen fun _ => VM.hashSet hash key value
  | hashDelete (hash key : Value) [Within seen hash] : HostRequest seen fun _ => VM.hashDelete hash key
  | modifyPayload (value : Value) (change : Int → Int) : HostRequest seen fun _ => VM.modifyPayload value change
  | freeze (value : Value) : HostRequest seen fun _ => VM.freeze value
  | getVariable (value : Value) (name : String) : HostRequest seen fun _ => VM.getVariable value name
  | setVariable (value : Value) (name : String) (content : Value) [Within seen value] [Within seen content] :
      HostRequest seen fun _ => VM.setVariable value name content
  | getGlobal (name : String) : HostRequest seen fun _ => VM.getGlobal name
  | setGlobal (name : String) (value : Value) [Within seen value] : HostRequest seen fun _ => VM.setGlobal name value
  -- classes
  | defineClassUnder (outer : Handle) (name : String) (superclass? : Option Handle) [Within seen outer]
      [Within seen superclass?] : HostRequest seen fun _ => VM.defineClassUnder outer name superclass?
  | defineModuleUnder (outer : Handle) (name : String) [Within seen outer] :
      HostRequest seen fun _ => VM.defineModuleUnder outer name
  | defineMethod (handle : Handle) (name : String) (body : NativeMethod) [Within seen body] :
      HostRequest seen fun _ => VM.defineMethod handle name body
  | defineSingletonMethod (value : Value) (name : String) (body : NativeMethod) [Within seen value] [Within seen body] :
      HostRequest seen fun _ => VM.defineSingletonMethod value name body
  | removeMethod (handle : Handle) (name : Symbol) : HostRequest seen fun _ => VM.removeMethod handle name
  | undefMethod (handle : Handle) (name : Symbol) [Within seen handle] :
      HostRequest seen fun _ => VM.undefMethod handle name
  | aliasMethod (handle : Handle) (new old : Symbol) [Within seen handle] :
      HostRequest seen fun _ => VM.aliasMethod handle new old
  | includeModule (handle module : Handle) [Within seen handle] [Within seen module] :
      HostRequest seen fun _ => VM.includeModule handle module
  | singletonClass (value : Value) [Within seen value] : HostRequest seen fun _ => VM.singletonClass value
  | ancestors (handle : Handle) [Within seen handle] : HostRequest seen fun _ => VM.ancestors handle
  | respondsToText (value : Value) (name : String) : HostRequest seen fun _ => VM.respondsToText value name
  | isKindOf (value : Value) (handle : Handle) : HostRequest seen fun _ => VM.isKindOf value handle
  | defineConst (handle : Handle) (name : String) (value : Value) [Within seen handle] [Within seen value] :
      HostRequest seen fun _ => VM.defineConst handle name value
  | getConst? (handle : Handle) (name : String) [Within seen handle] :
      HostRequest seen fun _ => VM.getConst? handle name
  -- arguments
  | checkArity (args : Args) (fewest : Nat) (most? : Option Nat) :
      HostRequest seen fun _ => VM.checkArity args fewest most?
  | intArg (args : Args) (index : Nat) : HostRequest seen fun _ => VM.intArg args index
  | symbolArg (args : Args) (index : Nat) : HostRequest seen fun _ => VM.symbolArg args index
  -- calls
  | funcall (receiver : Value) (name : String) (args : List Value) (block : Value) [Within seen receiver]
      [Within seen args] [Within seen block] : HostRequest seen fun engine => VM.funcall engine receiver name args block
  | callProc (proc : Value) (args : List Value) [Within seen proc] [Within seen args] :
      HostRequest seen fun engine => VM.callProc engine proc args
  | run (unit : Bytecode.CodeUnit) : HostRequest seen fun engine => VM.run engine unit
  | load (binary : Bytes) : HostRequest seen fun engine => VM.load engine binary
  | loadInto (binary : Bytes) (target : Handle) [Within seen target] :
      HostRequest seen fun engine => VM.loadInto engine binary target
  -- fibers
  | newFiber (block : Value) [Within seen block] : HostRequest seen fun _ => VM.newFiber block
  | resume (fiber : Value) (args : List Value) [Within seen fiber] [Within seen args] :
      HostRequest seen fun engine => VM.resume engine fiber args
  | yieldFiber (args : List Value) [Within seen args] : HostRequest seen fun _ => VM.yieldFiber args
  | resumeWaiter (fiber : Value) [Within seen fiber] : HostRequest seen fun _ => VM.resumeWaiter fiber
  | terminationWaiter (fiber : Value) [Within seen fiber] : HostRequest seen fun _ => VM.terminationWaiter fiber
  | pollResume (waiter : ResumeWaiter) (waker : Waker) : HostRequest seen fun _ => VM.pollResume waiter waker
  | pollTermination (waiter : TerminationWaiter) (waker : Waker) :
      HostRequest seen fun _ => VM.pollTermination waiter waker
  -- what is kept in use
  | pin (value : Value) [Within seen value] : HostRequest seen fun _ => VM.pin value
  | unpin (pin : Pin) : HostRequest seen fun _ => VM.unpin pin
  | protect (value : Value) : HostRequest seen fun _ => VM.protect value
  | restoreArena (mark : Nat) : HostRequest seen fun _ => VM.restoreArena mark
  | collect : HostRequest seen fun _ => VM.collect

/-- What a host does from a machine with what that has given out: one action after the other, each
of which may depend on what the earlier ones returned. -/
inductive HostTask (captures : Nat → Set Handle) (engine : Engine) :
    Machine → {α : Type} → [Mentions α] → (Engine → VM α) → Prop where
  | request {machine : Machine} {α : Type} [Mentions α] {action : Engine → VM α} :
      HostRequest (machine.heap.issued captures) action → HostTask captures engine machine action
  | newObject {machine : Machine} {classHandle : Handle} {record : ClassRecord} :
      machine.class? classHandle = some record →
      HostTask captures engine machine fun _ => VM.newObject classHandle
  | newData {machine : Machine} {classHandle : Handle} {record : ClassRecord} (typeName : String) (payload : Int) :
      machine.class? classHandle = some record →
      HostTask captures engine machine fun _ => VM.newData classHandle typeName payload
  | newException {machine : Machine} {classHandle : Handle} {record : ClassRecord} (message : Value) :
      machine.class? classHandle = some record → Within (machine.heap.issued captures) message →
      HostTask captures engine machine fun _ => VM.newException classHandle message
  | finish {machine : Machine} {α : Type} [Mentions α] (value : α) :
      Within (machine.heap.issued captures) value →
      HostTask captures engine machine fun _ => (pure value : VM α)
  | fail {machine : Machine} {α : Type} [Mentions α] (failure : Failure) :
      Within (machine.heap.issued captures) failure →
      HostTask captures engine machine fun _ => (throw failure : VM α)
  | attempt {machine : Machine} {α : Type} [Mentions α] {body : Engine → VM α} :
      HostTask captures engine machine body →
      HostTask captures engine machine fun engine => VM.attempt (body engine)
  | next {machine : Machine} {α β : Type} [Mentions α] [Mentions β] {body : Engine → VM α}
      {rest : α → Engine → VM β} :
      HostTask captures engine machine body →
      (∀ value next, body engine machine = .ok value next → machine.heap.Advances next.heap →
        Within (next.heap.issued captures) value → HostTask captures engine next (rest value)) →
      HostTask captures engine machine fun engine => body engine >>= fun value => rest value engine

/-- Methods of a host that are tasks wherever the machine has given out what they capture and what
they are called with. -/
def HostsKeepWithin (captures : Nat → Set Handle) (hosts : Array HostMethod) : Prop :=
  ∀ (index : Nat) (body : HostMethod), hosts[index]? = some body → ∀ engine self args (machine : Machine),
    Within (machine.heap.issued captures) (NativeMethod.host index) → Within (machine.heap.issued captures) self →
    Within (machine.heap.issued captures) args → HostTask captures engine machine fun engine => body engine self args

namespace VM

set_option synthInstance.maxSize 3000

variable {α : Type} [Mentions α] {captures : Nat → Set Handle} {seen : Set Mention} {engine engine' : Engine}

namespace Tells

variable {value item : Value} {text : String}

instance getVariable : Tells captures seen (VM.getVariable value text) := seq

instance setVariable [Within seen value] [Within seen item] : Tells captures seen (VM.setVariable value text item) :=
  seq

instance getGlobal : Tells captures seen (VM.getGlobal text) := seq

instance setGlobal [Within seen value] : Tells captures seen (VM.setGlobal text value) := seq

instance respondsToText : Tells captures seen (VM.respondsToText value text) := seq

instance protectGiven : Tells captures seen (VM.protect value) := protectValue

instance restoreMark {mark : Nat} : Tells captures seen (VM.restoreArena mark) := restoreArena

instance unpinGiven {pin : Pin} : Tells captures seen (VM.unpin pin) := unpin

instance pinGiven [isValue : Within seen value] : Tells captures seen (VM.pin value) where
  tellsFrom machine told isSeen := by
    have cells : (machine.heap.pin value).1.cells = machine.heap.cells := by cases value <;> rfl
    have free : (machine.heap.pin value).1.free = machine.heap.free := by cases value <;> rfl
    have advances : machine.heap.Advances (machine.heap.pin value).1 := .of_cells cells
    have parts := Within.machine_iff.mp (told.within.mono advances.issued_subset)
    have : Within ((machine.heap.pin value).1.issued captures) value :=
      isValue.mono (isSeen.trans advances.issued_subset)
    refine .of_ok rfl ⟨told.founded.of_cells cells free, ?_⟩ advances ⟨?_⟩
    · exact Within.machine_iff.mpr ⟨@Within.of_cells _ machine.heap _ cells parts.1, parts.2⟩
    · cases value <;> exact this.subset

instance modifyPayload {change : Int → Int} : Tells captures seen (VM.modifyPayload value change) := by
  have modify (handle : Handle) : Tells captures seen (VM.modifyObject handle fun object =>
      match object.content with
      | .data record => { object with content := .data { record with payload := change record.payload } }
      | _ => object) := by
    refine modifyObject_of_refilled fun object => ?_
    obtain ⟨classHandle, content, frozen, fields⟩ := object
    cases content with
    | data record => exact .contents (.data { record with payload := change record.payload }) inferInstance
    | _ => exact .same
  unfold VM.modifyPayload
  cases value.handle? with
  | none => exact ofValue _
  | some handle => exact modify handle

instance newData {classHandle : Handle} {payload : Int} [Within seen classHandle] :
    Tells captures seen (VM.newData classHandle text payload) := by
  unfold VM.newData
  infer_instance

end Tells

namespace SharesRun

/-- An action that is no call is the same for all engines. -/
theorem of_hostAction {action : VM α} (asked : ∀ engine, HostAction engine action) [Tells captures seen action] :
    SharesRun captures seen action action :=
  have := Engine.evolves_idle
  have := Evolves.of_hostAction (asked (.ofHosts #[] 0))
  ofTells

/-- What a host asks for is shared by engines that share their runs. -/
theorem of_request {action : Engine → VM α} [engine.SharesRuns captures engine']
    (request : HostRequest seen action) : SharesRun captures seen (action engine) (action engine') := by
  cases request with
  | modifyPayload value change => exact of_hostAction fun _ => .modifyPayload value change
  | getVariable value name => exact of_hostAction fun _ => .getVariable value name
  | setVariable value name content => exact of_hostAction fun _ => .setVariable value name content
  | getGlobal name => exact of_hostAction fun _ => .getGlobal name
  | setGlobal name value => exact of_hostAction fun _ => .setGlobal name value
  | respondsToText value name => exact of_hostAction fun _ => .respondsToText value name
  | pin value => exact of_hostAction fun _ => .pin value
  | unpin pin => exact of_hostAction fun _ => .unpin pin
  | protect value => exact of_hostAction fun _ => .protect value
  | restoreArena mark => exact of_hostAction fun _ => .restoreArena mark
  | _ => infer_instance

end SharesRun

/-- Whatever a host does is shared by engines that share their runs. -/
theorem SharesRunFrom.of_hostTask {machine : Machine} {body : Engine → VM α}
    [engine.SharesRuns captures engine'] (task : HostTask captures engine machine body)
    (told : machine.Told captures) (sound : machine.Sound) :
    SharesRunFrom captures machine (body engine) (body engine') := by
  have isClass {machine : Machine} {classHandle : Handle} {record : ClassRecord} (told : machine.Told captures)
      (known : machine.class? classHandle = some record) : Within (machine.heap.issued captures) classHandle := by
    obtain ⟨object, found, -⟩ := Option.bind_eq_some_iff.mp known
    refine ⟨?_⟩
    rintro mention rfl
    exact Heap.issued_of_get? found
  have shared {machine : Machine} {α : Type} [Mentions α] {action : VM α} (told : machine.Told captures)
      (tells : Tells captures (machine.heap.issued captures) action) (run : ∀ engine, HostRun engine machine action) :
      SharesRunFrom captures machine action action :=
    have := Engine.evolves_idle
    ⟨rfl, tells.tellsFrom machine told subset_rfl, .of_hostRun (run (.ofHosts #[] 0))⟩
  induction task with
  | request asked => exact (SharesRun.of_request asked).sharesFrom _ told sound subset_rfl
  | newObject known =>
      have := isClass told known
      exact shared told inferInstance fun _ => .newObject known
  | newData typeName payload known =>
      have := isClass told known
      exact shared told inferInstance fun _ => .newData typeName payload known
  | newException message known isMessage =>
      have := isClass told known
      exact shared told inferInstance fun _ => .newException message known
  | finish value isValue => exact shared told inferInstance fun _ => .finish value
  | fail failure isFailure => exact shared told inferInstance fun _ => .fail failure
  | attempt _ inductionHypothesis => exact (inductionHypothesis told sound).attempt
  | next _ _ first second =>
      exact (first told sound).bind sound fun value next done toldOn soundOn advances within =>
        second value next done advances within toldOn soundOn

/-- Methods run alike with engines that share their runs. -/
theorem SharesRun.runMethod {hosts : Array HostMethod} (keep : HostsKeepWithin captures hosts)
    [engine.SharesRuns captures engine'] (method : NativeMethod) (self : Value) (args : Args) :
    SharesRun captures (Mentions.of method ∪ Mentions.of self ∪ Mentions.of args)
      (VM.runMethod hosts engine method self args) (VM.runMethod hosts engine' method self args) := by
  have isSelf : Within (Mentions.of method ∪ Mentions.of self ∪ Mentions.of args) self :=
    ⟨Set.subset_union_right.trans Set.subset_union_left⟩
  have isArgs : Within (Mentions.of method ∪ Mentions.of self ∪ Mentions.of args) args := ⟨Set.subset_union_right⟩
  unfold VM.runMethod
  cases method with
  | host index =>
      dsimp only
      cases found : hosts[index]? with
      | none => exact @ofTells _ _ _ _ _ (Tells.ofBreach _) (Evolves.ofBreach _)
      | some body =>
          refine ⟨fun machine told sound isSeen => ?_⟩
          have isMethod : Within (machine.heap.issued captures) (NativeMethod.host index) :=
            ⟨(Set.subset_union_left.trans Set.subset_union_left).trans isSeen⟩
          exact .of_hostTask
            (keep index body found engine self args machine isMethod (isSelf.mono isSeen)
              (isArgs.mono isSeen)) told sound
  | _ => infer_instance

end VM

/-! ### The engine -/

namespace Engine

variable {captures : Nat → Set Handle} {hosts : Array HostMethod}

/-- Loops and methods do in told machines only what told machines let them do. -/
theorem shares_ofHosts (keep : HostsKeepWithin captures hosts) (fuel : Nat) :
    (ofHosts hosts fuel).SharesRuns captures (ofHosts hosts fuel) := by
  induction fuel with
  | zero =>
      exact ⟨rfl, fun stop => @VM.SharesRun.ofTells _ _ _ _ _ (VM.Tells.ofFailure _) (VM.Evolves.ofFailure _),
        fun method self args => @VM.SharesRun.ofTells _ _ _ _ _ (VM.Tells.ofFailure _) (VM.Evolves.ofFailure _)⟩
  | succ fuel inductionHypothesis =>
      refine ⟨rfl, fun stop => ?_, fun method self args => ?_⟩
      · change VM.SharesRun captures ∅ (VM.cycle (ofHosts hosts fuel) stop >>= _)
          (VM.cycle (ofHosts hosts fuel) stop >>= _)
        refine .behind fun exit? => ?_
        split
        · infer_instance
        · exact (inductionHypothesis.loop stop).mono (Set.empty_subset _)
      · change VM.SharesRun captures _ (VM.runMethod hosts (ofHosts hosts fuel) method self args)
          (VM.runMethod hosts (ofHosts hosts fuel) method self args)
        exact .runMethod keep method self args

end Engine

/-! ### Attained machines -/

section Attained

variable {config : Config} {captures : Nat → Set Handle} {hosts : Array HostMethod} {fuel : Nat} {place place' : Place}
  {machine start : Machine}

/-- What goes on at a place, for an engine. -/
inductive Pursues (captures : Nat → Set Handle) (hosts : Array HostMethod) (engine : Engine) (machine : Machine) :
    Place → {α : Type} → [Mentions α] → (Engine → VM α) → Prop where
  | host {α : Type} [Mentions α] {body : Engine → VM α} :
      HostTask captures engine machine body → Pursues captures hosts engine machine .host body
  | loop (stop : Nat) : Pursues captures hosts engine machine (.loop stop) fun engine => VM.cycle engine stop
  | native (method : NativeMethod) (self : Value) (args : Args) :
      Pursues captures hosts engine machine (.native method self args) fun engine =>
        VM.runMethod hosts engine method self args

/-- The machines that a host attains from a new one, and everything that runs for it. The host
passes on what the machine has given out, and may do so at any time inside of a method that is no
bytecode. -/
inductive Machine.Attained (config : Config) (captures : Nat → Set Handle) (hosts : Array HostMethod) :
    Place → Machine → Prop where
  | new : Attained config captures hosts .host (.new config)
  | host {machine : Machine} {α : Type} [Mentions α] {body : Engine → VM α} (fuel : Nat) :
      Attained config captures hosts .host machine → HostTask captures (.ofHosts hosts fuel) machine body →
      Attained config captures hosts .host ((body (.ofHosts hosts fuel)).after machine)
  | cycle {machine next : Machine} {stop : Nat} (fuel : Nat) :
      Attained config captures hosts (.loop stop) machine →
      VM.cycle (.ofHosts hosts fuel) stop machine = .ok none next →
      Attained config captures hosts (.loop stop) next
  | start {place place' : Place} {machine start : Machine} {α : Type} [Mentions α] {action : Engine → VM α}
      (fuel : Nat) :
      Attained config captures hosts place machine → Pursues captures hosts (.ofHosts hosts fuel) machine place action →
      (Engine.ofHosts hosts fuel).ComesTo action machine place' start →
      Attained config captures hosts place' start
  | inside {machine : Machine} {method : NativeMethod} {self : Value} {args : Args} :
      Attained config captures hosts (.native method self args) machine →
      Attained config captures hosts .host machine

/-- What a method that is no bytecode is called with. -/
def Place.calledWith : Place → Set Mention
  | .native method self args => Mentions.of method ∪ Mentions.of self ∪ Mentions.of args
  | _ => ∅

/-- A machine is told and sound, and has given out what a method is called with. -/
structure Machine.ToldAt (captures : Nat → Set Handle) (place : Place) (machine : Machine) : Prop where
  told : machine.Told captures
  sound : machine.Sound
  called : place.calledWith ⊆ machine.heap.issued captures

/-- No told machine can tell engines apart that differ elsewhere. -/
theorem Engine.SameBut.shares {engine engine' : Engine} (same : engine.SameBut place start engine')
    (alike : engine.SharesRuns captures engine) (elsewhere : ¬ start.ToldAt captures place) :
    engine.SharesRuns captures engine' where
  rounds := same.rounds
  loop stop := by
    refine ⟨fun machine told sound isSeen => ?_⟩
    have shared := (alike.loop stop).sharesFrom machine told sound isSeen
    refine { shared with same := same.loop stop machine ?_ }
    rintro ⟨rfl, rfl⟩
    exact elsewhere ⟨told, sound, isSeen⟩
  native method self args := by
    refine ⟨fun machine told sound isSeen => ?_⟩
    have shared := (alike.native method self args).sharesFrom machine told sound isSeen
    refine { shared with same := same.native method self args machine ?_ }
    rintro ⟨rfl, rfl⟩
    exact elsewhere ⟨told, sound, isSeen⟩

/-- What goes on at a place is shared by engines that share their runs. -/
theorem Pursues.sharesFrom {α : Type} [Mentions α] {action : Engine → VM α} {engine engine' : Engine}
    (keep : HostsKeepWithin captures hosts) (pursues : Pursues captures hosts engine machine place action)
    (toldAt : machine.ToldAt captures place) [engine.SharesRuns captures engine'] :
    VM.SharesRunFrom captures machine (action engine) (action engine') := by
  obtain ⟨told, sound, called⟩ := toldAt
  cases pursues with
  | host task => exact .of_hostTask task told sound
  | loop stop =>
      have shares : VM.SharesRun captures ∅ (VM.cycle engine stop) (VM.cycle engine' stop) := inferInstance
      exact shares.sharesFrom machine told sound (Set.empty_subset _)
  | native method self args =>
      exact (VM.SharesRun.runMethod keep method self args).sharesFrom machine told sound called

/-- What goes on at a place leads on from told machines to told ones. -/
theorem Pursues.toldAt_after {α : Type} [Mentions α] {action : Engine → VM α}
    (keep : HostsKeepWithin captures hosts)
    (pursues : Pursues captures hosts (.ofHosts hosts fuel) machine place action)
    (toldAt : machine.ToldAt captures place) :
    ((action (.ofHosts hosts fuel)).after machine).ToldAt captures place := by
  have := Engine.shares_ofHosts keep fuel
  have shared : VM.SharesRunFrom captures machine (action (.ofHosts hosts fuel)) (action (.ofHosts hosts fuel)) :=
    pursues.sharesFrom keep toldAt
  exact ⟨shared.tells.told, toldAt.sound.of_evolution shared.evolves,
    toldAt.called.trans shared.tells.advances.issued_subset⟩

/-- Whatever is started from a place, it only comes to told machines. -/
theorem Pursues.toldAt_start {α : Type} [Mentions α] {action : Engine → VM α}
    (keep : HostsKeepWithin captures hosts)
    (pursues : Pursues captures hosts (.ofHosts hosts fuel) machine place action)
    (toldAt : machine.ToldAt captures place)
    (comes : (Engine.ofHosts hosts fuel).ComesTo action machine place' start) : start.ToldAt captures place' := by
  obtain ⟨engine', same, differs⟩ := comes
  by_contra elsewhere
  have := same.shares (Engine.shares_ofHosts keep fuel) elsewhere
  exact differs (pursues.sharesFrom keep toldAt).same

/-- Every machine that a host attains is told. -/
theorem Machine.Attained.toldAt (keep : HostsKeepWithin captures hosts)
    (attained : Attained config captures hosts place machine) : machine.ToldAt captures place := by
  induction attained with
  | new => exact ⟨told_new config, sound_new config, Set.empty_subset _⟩
  | host fuel _ task inductionHypothesis => exact (Pursues.host task).toldAt_after keep inductionHypothesis
  | @cycle machine _ stop fuel _ cycled inductionHypothesis =>
      have pursues : Pursues captures hosts (.ofHosts hosts fuel) machine (.loop stop) fun engine =>
          VM.cycle engine stop := .loop stop
      have toldAt := pursues.toldAt_after keep inductionHypothesis
      rwa [VM.after_of_ok cycled] at toldAt
  | start fuel _ pursues comes inductionHypothesis => exact pursues.toldAt_start keep inductionHypothesis comes
  | inside _ inductionHypothesis => exact ⟨inductionHypothesis.told, inductionHypothesis.sound, Set.empty_subset _⟩

end Attained

end RiteVm
