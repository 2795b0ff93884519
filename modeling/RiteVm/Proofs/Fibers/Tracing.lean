import RiteVm.Proofs.Fibers.Traces

/-!
Contract: every run has events.

Owns:
- code that is no bytecode and has events, with one instance for each method of the core
  classes;
- the events of calls, methods and loops, by induction on the fuel.
-/

namespace RiteVm

set_option synthInstance.maxSize 3000

variable {tidy : Prop} {catches : Failure → Bool} {hosts : Array HostMethod} {fuel : Nat}
  {machine : Machine} {α β : Type}

/-- Whatever an engine does at a place that fits has events. -/
def AnswersTraced (tidy : Prop) (catches : Failure → Bool) (hosts : Array HostMethod) (fuel : Nat) :
    Prop :=
  ∀ place start, place ≠ .host → start.FitsAt tidy place →
    ∃ events, Happens catches hosts fuel (.answer place) start events

/-- A part that starts one loop or method at most has events. -/
theorem exists_happens_part {action : Engine → VM α} {written : Set (ContextId × Nat)}
    (most : CatchesAtMost tidy catches) (conform : HostsConform catches hosts)
    (answers : AnswersTraced tidy catches hosts fuel)
    (fits : (Activity.part action).FitsIn tidy machine written) :
    ∃ events, Happens catches hosts fuel (.part action) machine events := by
  obtain ⟨asks, alike⟩ := fits
  by_cases isConstant : ∀ engine engine', action engine' machine = action engine machine
  · exact ⟨[], .nothing isConstant⟩
  · rcases asks with ⟨alone, -⟩ | ⟨place, start, asksAt⟩
    · exact absurd alone isConstant
    · obtain ⟨engine, differs⟩ : ∃ engine, action engine machine ≠ action (.ofHosts hosts fuel) machine := by
        by_contra same
        simp only [not_exists, ne_eq, not_not] at same
        exact isConstant fun engine engine' => (same engine').trans (same engine).symm
      have comes : (Engine.ofHosts hosts fuel).ComesTo action machine place start :=
        asksAt.comesTo differs
      have notHost : place ≠ .host := by
        rintro rfl
        exact differs (asksAt.same _ _ trivial)
      obtain ⟨events, happens⟩ := answers place start notHost (fitsAt_of_comesTo most conform alike comes)
      exact ⟨events, .starts comes happens⟩

/-- A call has events, of which the first is the call itself. -/
theorem exists_happens_call {call : Engine → VM Value} (most : CatchesAtMost tidy catches)
    (conform : HostsConform catches hosts) (answers : AnswersTraced tidy catches hosts fuel)
    (calls : Calls call) (linked : machine.Linked tidy) :
    ∃ events, Happens catches hosts fuel (.code call) machine
      (.called fuel call machine :: events) := by
  obtain ⟨events, happens⟩ :=
    exists_happens_part most conform answers (Activity.fitsIn_call calls linked)
  by_cases isIntact : IsIntact (call (.ofHosts hosts fuel) machine)
  · exact ⟨_, .call calls isIntact happens⟩
  · exact ⟨_, .breaks calls isIntact happens⟩

/-- Code has events whatever machine it begins in. -/
class Traced (tidy : Prop) (catches : Failure → Bool) (hosts : Array HostMethod)
    (action : Engine → VM α) : Prop where
  exists_happens : ∀ fuel machine, CatchesAtMost tidy catches → HostsConform catches hosts →
    AnswersTraced tidy catches hosts fuel → machine.Linked tidy →
    ∃ events, Happens catches hosts fuel (.code action) machine events

namespace Traced

open VM

instance quiet {action : VM α} [quiet : Quiet action] : Traced tidy catches hosts fun _ => action :=
  ⟨fun _ _ _ _ _ _ => ⟨[], .quiet quiet⟩⟩

theorem of_hostAction {action : VM α} (asked : ∀ engine, HostAction engine action) :
    Traced tidy catches hosts fun _ => action :=
  ⟨fun _ _ _ _ _ _ => ⟨[], .action asked⟩⟩

theorem of_calls {call : Engine → VM Value} (calls : Calls call) : Traced tidy catches hosts call :=
  ⟨fun _ _ most conform answers linked =>
    (exists_happens_call most conform answers calls linked).imp' _ fun _ => id⟩

instance seq {body : Engine → VM α} {rest : α → Engine → VM β} [first : Traced tidy catches hosts body]
    [second : ∀ value, Traced tidy catches hosts (rest value)] :
    Traced tidy catches hosts fun engine => body engine >>= fun value => rest value engine where
  exists_happens fuel machine most conform answers linked := by
    obtain ⟨events, happens⟩ := first.exists_happens fuel machine most conform answers linked
    cases result : body (.ofHosts hosts fuel) machine with
    | error failure next => exact ⟨events, .fails result happens⟩
    | ok value next =>
        have linked' : next.Linked tidy := by
          have follows := happens.follows most conform ⟨rfl, linked⟩
          simp only [Activity.EndsIntact, Activity.behind, result, after_of_ok result] at follows
          exact follows.linked trivial
        obtain ⟨more, goesOn⟩ := (second value).exists_happens fuel next most conform answers linked'
        exact ⟨events ++ more, .next result happens goesOn⟩

/-- What has events may come in front of what starts nothing. -/
instance before {body : Engine → VM α} {rest : α → VM β} [Traced tidy catches hosts body]
    [∀ value, Traced tidy catches hosts fun _ => rest value] :
    Traced tidy catches hosts fun engine => body engine >>= rest :=
  seq

instance behind {first : VM α} {rest : α → Engine → VM β} [Traced tidy catches hosts fun _ => first]
    [∀ value, Traced tidy catches hosts (rest value)] :
    Traced tidy catches hosts fun engine => first >>= fun value => rest value engine :=
  seq

instance branch (condition : Prop) [Decidable condition] {yes no : Engine → VM α}
    [Traced tidy catches hosts yes] [Traced tidy catches hosts no] :
    Traced tidy catches hosts fun engine => if condition then yes engine else no engine := by
  split <;> infer_instance

instance callWithArgs (receiver : Value) (name : Symbol) (args : Args) :
    Traced tidy catches hosts fun engine => callWithArgs engine receiver name args :=
  of_calls (.send receiver name args)

instance callWith (receiver : Value) (name : Symbol) (args : List Value) :
    Traced tidy catches hosts fun engine => callWith engine receiver name args :=
  callWithArgs _ _ _

instance callProc (proc : Value) (args : List Value) :
    Traced tidy catches hosts fun engine => callProc engine proc args :=
  of_calls (.entry (.callProc proc args))

instance resume (fiber : Value) (args : List Value) :
    Traced tidy catches hosts fun engine => resume engine fiber args :=
  of_calls (.entry (.resume fiber args))

instance newFiber (block : Value) : Traced tidy catches hosts fun _ => newFiber block :=
  of_hostAction fun _ => .newFiber block

instance textBytes (value : Value) : Traced tidy catches hosts fun engine => textBytes engine value := by
  unfold VM.textBytes
  split
  · infer_instance
  · infer_instance
  · refine @behind _ _ _ _ _ _ _ _ fun bytes? => ?_
    split
    · infer_instance
    · refine @before _ _ _ _ _ _ _ _ fun text => @seq _ _ _ _ _ _ _ _ fun textBytes? => ?_
      split <;> infer_instance
  · infer_instance

/-! ### Methods of the core classes -/

instance answersEqual (self other : Value) :
    Traced tidy catches hosts fun engine => answersEqual engine self other := by
  unfold VM.answersEqual
  infer_instance

instance forward (self : Value) (args : Args) :
    Traced tidy catches hosts fun engine => forward engine self args := by
  unfold VM.forward
  infer_instance

instance exceptionFor (args : Args) :
    Traced tidy catches hosts fun engine => exceptionFor engine args := by
  unfold VM.exceptionFor
  refine @behind _ _ _ _ _ _ _ _ fun content? => ?_
  split <;> infer_instance

instance raiseArgs (args : Args) : Traced tidy catches hosts fun engine => raiseArgs engine args := by
  have finish (exception : Value) : Quiet (do
      match exception with
      | .object handle =>
        if (← Query.object handle).exception?.isSome then VM.raiseObject handle
      | _ => pure ()
      VM.raise .typeError "exception object expected" : VM Value) := by
    dsimp only
    split <;> infer_instance
  dsimp only at finish
  unfold VM.raiseArgs
  infer_instance

instance runObjectMethod (self : Value) (args : Args) (method : ObjectMethod) :
    Traced tidy catches hosts fun engine => runObjectMethod engine self args method := by
  cases method <;> unfold VM.runObjectMethod <;> dsimp only <;> infer_instance

instance newClass (args : Args) : Traced tidy catches hosts fun engine => newClass engine args := by
  have finish (handle : Handle) : Traced tidy catches hosts fun engine => (do
      match args.block? with
      | some block =>
        let body ← VM.expectProc block
        modifyHeap (·.protect (.object handle))
        let _ ← VM.callProc engine (.object body) [.object handle]
      | none => pure ()
      return Value.object handle : VM Value) := by
    dsimp only
    split <;> infer_instance
  dsimp only at finish
  unfold VM.newClass
  infer_instance

instance newInstance (self : Value) (args : Args) :
    Traced tidy catches hosts fun engine => newInstance engine self args := by
  unfold VM.newInstance
  infer_instance

instance runModuleMethod (self : Value) (args : Args) (method : ModuleMethod) :
    Traced tidy catches hosts fun engine => runModuleMethod engine self args method := by
  cases method <;> unfold VM.runModuleMethod <;> dsimp only
  case name =>
    refine @behind _ _ _ _ _ _ _ _ fun handle => @behind _ _ _ _ _ _ _ _ fun record => ?_
    split <;> infer_instance
  case constGet =>
    refine @behind _ _ _ _ _ _ _ _ fun handle => @behind _ _ _ _ _ _ _ _ fun name =>
      @behind _ _ _ _ _ _ _ _ fun value? => ?_
    split <;> infer_instance
  all_goals infer_instance

instance messageValue (value : Value) :
    Traced tidy catches hosts fun engine => messageValue engine value := by
  unfold VM.messageValue
  infer_instance

instance copyException (self message : Value) :
    Traced tidy catches hosts fun engine => copyException engine self message := by
  have copy (object : Object) (record : ExceptionRecord) : Quiet (VM.allocate
      { classHandle := object.classHandle, content := .exception record
        fields := object.fields }) :=
    .of_allocate rfl rfl
  unfold VM.copyException
  dsimp only
  infer_instance

instance runExceptionMethod (self : Value) (args : Args) (method : ExceptionMethod) :
    Traced tidy catches hosts fun engine => runExceptionMethod engine self args method := by
  cases method <;> unfold VM.runExceptionMethod <;> dsimp only
  case backtrace =>
    refine @behind _ _ _ _ _ _ _ _ fun exception => ?_
    split <;> infer_instance
  all_goals infer_instance

instance callEach (block : Value) (values : List Value) :
    Traced tidy catches hosts fun engine => callEach engine block values := by
  induction values with
  | nil => exact inferInstanceAs (Traced tidy catches hosts fun _ => pure ())
  | cons value rest inductionHypothesis =>
      unfold VM.callEach
      infer_instance

instance callItems (block array : Value) (rounds index : Nat) :
    Traced tidy catches hosts fun engine => callItems engine block array rounds index := by
  induction rounds generalizing index with
  | zero => exact inferInstanceAs (Traced tidy catches hosts fun _ => throw _)
  | succ rounds inductionHypothesis =>
      unfold VM.callItems
      refine @behind _ _ _ _ _ _ _ _ fun item? => ?_
      split <;> infer_instance

instance callPairs (block : Value) (pairs : List (Value × Value)) :
    Traced tidy catches hosts fun engine => callPairs engine block pairs := by
  induction pairs with
  | nil => exact inferInstanceAs (Traced tidy catches hosts fun _ => pure ())
  | cons pair rest inductionHypothesis =>
      unfold VM.callPairs
      infer_instance

instance areEqual (left right : Value) :
    Traced tidy catches hosts fun engine => areEqual engine left right := by
  unfold VM.areEqual
  split
  · infer_instance
  · have ask : Traced tidy catches hosts fun engine => (do
        match ← Query.string? left, ← Query.string? right with
        | some left, some right => return left == right
        | _, _ => return (← VM.callWith engine left .opEq [right]).isTruthy : VM Bool) := by
      refine @behind _ _ _ _ _ _ _ _ fun left? => @behind _ _ _ _ _ _ _ _ fun right? => ?_
      split <;> infer_instance
    infer_instance

instance areAllEqual (pairs : List (Value × Value)) :
    Traced tidy catches hosts fun engine => areAllEqual engine pairs := by
  induction pairs with
  | nil => exact inferInstanceAs (Traced tidy catches hosts fun _ => pure true)
  | cons pair rest inductionHypothesis =>
      unfold VM.areAllEqual
      infer_instance

/-- The fuel is known in a run. -/
theorem of_rounds {action : Nat → Engine → VM α}
    (traced : ∀ rounds, Traced tidy catches hosts (action rounds)) :
    Traced tidy catches hosts fun engine => action engine.rounds engine where
  exists_happens fuel machine most conform answers linked := by
    obtain ⟨events, happens⟩ := (traced fuel).exists_happens fuel machine most conform answers linked
    exact ⟨events, .same (fun engine rounds => by rw [rounds]) happens⟩

instance runArrayMethod (self : Value) (args : Args) (method : ArrayMethod) :
    Traced tidy catches hosts fun engine => runArrayMethod engine self args method := by
  cases method <;> unfold VM.runArrayMethod <;> dsimp only
  case get =>
    refine @behind _ _ _ _ _ _ _ _ fun _ => @behind _ _ _ _ _ _ _ _ fun start => ?_
    have slice (count : Int64) (items? : Option (Array Value)) : Quiet (
        match sliceOf? (items?.getD #[]) start.toInt count.toInt with
        | some slice => VM.newArray slice
        | none => Pure.pure .nil : VM Value) := by
      split <;> infer_instance
    infer_instance
  case equal =>
    refine @behind _ _ _ _ _ _ _ _ fun left? => @behind _ _ _ _ _ _ _ _ fun right? => ?_
    split <;> infer_instance
  case each =>
    have each (rounds : Nat) : Traced tidy catches hosts fun engine => (do
        let block ← VM.blockToYield args
        VM.callItems engine block self rounds 0
        return self : VM Value) := inferInstance
    exact of_rounds each
  all_goals infer_instance

instance runHashMethod (self : Value) (args : Args) (method : HashMethod) :
    Traced tidy catches hosts fun engine => runHashMethod engine self args method := by
  cases method <;> unfold VM.runHashMethod <;> dsimp only <;> infer_instance

instance runRangeMethod (self : Value) (args : Args) (method : RangeMethod) :
    Traced tidy catches hosts fun engine => runRangeMethod engine self args method := by
  cases method <;> unfold VM.runRangeMethod <;> dsimp only <;> infer_instance

instance countWith (block : Value) (start : Int) (count : Nat) :
    Traced tidy catches hosts fun engine => countWith engine block start count := by
  induction count generalizing start with
  | zero => exact inferInstanceAs (Traced tidy catches hosts fun _ => pure ())
  | succ count inductionHypothesis =>
      unfold VM.countWith
      infer_instance

instance runNumberMethod (self : Value) (args : Args) (method : NumberMethod) :
    Traced tidy catches hosts fun engine => runNumberMethod engine self args method := by
  cases method <;> unfold VM.runNumberMethod <;> dsimp only
  case arithmetic op =>
    refine @behind _ _ _ _ _ _ _ _ fun _ => @behind _ _ _ _ _ _ _ _ fun result? => ?_
    split <;> infer_instance
  case comparison op =>
    refine @behind _ _ _ _ _ _ _ _ fun _ => ?_
    split <;> infer_instance
  case negate =>
    split <;> infer_instance
  case toI =>
    split
    · split <;> infer_instance
    · infer_instance
  all_goals infer_instance

instance runTextMethod (self : Value) (args : Args) (method : TextMethod) :
    Traced tidy catches hosts fun _ => runTextMethod self args method := by
  cases method <;> unfold VM.runTextMethod <;> dsimp only
  case concat =>
    refine @behind _ _ _ _ _ _ _ _ fun _ => @behind _ _ _ _ _ _ _ _ fun bytes =>
      @behind _ _ _ _ _ _ _ _ fun more? => ?_
    split <;> infer_instance
  case equal =>
    refine @behind _ _ _ _ _ _ _ _ fun left? => @behind _ _ _ _ _ _ _ _ fun right? => ?_
    split <;> infer_instance
  case symbolToS =>
    split <;> infer_instance
  all_goals infer_instance

instance runClosureMethod (self : Value) (args : Args) (method : ClosureMethod) :
    Traced tidy catches hosts fun engine => runClosureMethod engine self args method := by
  cases method <;> unfold VM.runClosureMethod <;> dsimp only
  case newFiber =>
    split <;> infer_instance
  all_goals infer_instance

theorem rescue {body : Engine → VM α} (traced : Traced tidy catches hosts body) :
    Traced tidy catches hosts fun engine => VM.rescue catches (body engine) where
  exists_happens fuel machine most conform answers linked := by
    obtain ⟨events, happens⟩ := traced.exists_happens fuel machine most conform answers linked
    exact ⟨events, .rescue happens⟩

theorem of_hostCode {body : Engine → VM α} (code : HostCode catches body) :
    Traced tidy catches hosts body := by
  induction code with
  | entry isEntry => exact of_calls (.entry isEntry)
  | action asked => exact of_hostAction asked
  | newObject classHandle => infer_instance
  | newData classHandle typeName payload => infer_instance
  | newException classHandle message => infer_instance
  | finish value => infer_instance
  | fail failure => infer_instance
  | rescue _ inductionHypothesis => exact inductionHypothesis.rescue
  | next _ _ first second => exact seq

/-- A method has events if the methods of the host have. -/
theorem runMethod (traced : ∀ body ∈ hosts, ∀ self args,
      Traced tidy catches hosts fun engine => body engine self args)
    (method : NativeMethod) (self : Value) (args : Args) :
    Traced tidy catches hosts fun engine => runMethod hosts engine method self args := by
  unfold VM.runMethod
  cases method with
  | host index =>
      dsimp only
      cases found : hosts[index]? with
      | none => infer_instance
      | some body => exact traced body (Array.mem_of_getElem? found) self args
  | _ => dsimp only; infer_instance

end Traced

/-! ### Whole runs -/

/-- What the engine does with any fuel has events. -/
theorem answersTraced (most : CatchesAtMost tidy catches) (conform : HostsConform catches hosts)
    (fuel : Nat) : AnswersTraced tidy catches hosts fuel := by
  induction fuel with
  | zero => exact fun place start _ _ => ⟨[], .outOfFuel place start⟩
  | succ fuel inductionHypothesis =>
      intro place start notHost fits
      cases place with
      | host => exact absurd rfl notHost
      | native method self args =>
          have traced : Traced tidy catches hosts fun engine =>
              VM.runMethod hosts engine method self args :=
            .runMethod (fun body isHost self args => .of_hostCode (conform body isHost self args))
              method self args
          obtain ⟨events, happens⟩ :=
            traced.exists_happens fuel start most conform inductionHypothesis fits.1
          exact ⟨events, .native happens⟩
      | loop stop =>
          obtain ⟨linked, runs⟩ := fits
          obtain ⟨first, inside⟩ := exists_happens_part most conform inductionHypothesis
            (Activity.fitsIn_cycle linked (runs stop rfl))
          by_cases goesOn : ∃ next, VM.cycle (.ofHosts hosts fuel) stop start = .ok none next
          · obtain ⟨next, cycled⟩ := goesOn
            obtain ⟨second, later⟩ := inductionHypothesis (.loop stop) next notHost
              (.cycle most conform ⟨linked, runs⟩ cycled)
            exact ⟨_, .cycle cycled inside later⟩
          · exact ⟨_, .last (not_exists.mp goesOn) inside⟩

/-- Whatever a host does has events. -/
theorem HostCode.exists_happens {body : Engine → VM α} (code : HostCode catches body)
    (most : CatchesAtMost tidy catches) (conform : HostsConform catches hosts)
    (linked : machine.Linked tidy) (fuel : Nat) :
    ∃ events, Happens catches hosts fuel (.code body) machine events :=
  (Traced.of_hostCode code).exists_happens fuel machine most conform
    (answersTraced most conform fuel) linked

/-- Two calls of a host, one after the other. -/
theorem exists_happens_two {first second : Engine → VM Value} {value : Value} {next : Machine}
    (most : CatchesAtMost tidy catches) (conform : HostsConform catches hosts)
    (isFirst : EntryPoint first) (isSecond : EntryPoint second) (linked : machine.Linked tidy)
    (linked' : next.Linked tidy) (returned : first (.ofHosts hosts fuel) machine = .ok value next) :
    ∃ inside later,
      Happens catches hosts fuel (.code fun engine => first engine >>= fun _ => second engine)
        machine (.called fuel first machine :: (inside ++ .ended fuel first machine ::
          .called fuel second next :: later)) := by
  have answers := answersTraced most conform fuel
  have isIntact : IsIntact (first (.ofHosts hosts fuel) machine) := by
    rw [returned]
    trivial
  obtain ⟨inside, happens⟩ :=
    exists_happens_part most conform answers (Activity.fitsIn_call (.entry isFirst) linked)
  obtain ⟨later, goesOn⟩ := exists_happens_call most conform answers (.entry isSecond) linked'
  refine ⟨inside, later, ?_⟩
  rw [List.append_cons, ← List.cons_append]
  exact @Happens.next _ _ _ _ _ _ _ _ (fun _ => second) _ _ _ returned
    (.call (.entry isFirst) isIntact happens) goesOn

end RiteVm
