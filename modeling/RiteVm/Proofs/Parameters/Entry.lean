import RiteVm.Proofs.Parameters.Placement
import RiteVm.Proofs.Unwinding.Clauses

/-!
Contract: the instruction that binds the arguments of a call to the parameters of a frame.

Owns:
- frames that have received the arguments of a call and have not bound them yet;
- the effective positional arguments, with a keyword hash that no parameter takes and with the
  items of a single array;
- one step of the instruction, which raises for a wrong number of arguments or binds each
  parameter to its share.

Does not own: taking keywords out of the dictionary.
-/

namespace RiteVm

open RiteVm.Bytecode

/-! ### What a frame has received -/

/-- The call site at which a frame was called. -/
def Frame.site (frame : Frame) : CallSite := ⟨frame.base, frame.argCount, frame.hasKeywords⟩

/-- The frame on top of the running stack holds the arguments of its call. -/
structure Machine.Receives (machine : Machine) (context : Context) (frame : Frame)
    (below : List Frame) (strict : Bool) (args : Args) : Prop where
  runs : machine.RunsOn context
  top : context.activations = frame :: below
  strictness : frame.strictness machine = .ok strict
  holds : frame.site.Holds machine.heap context args
  positional : ∀ value ∈ args.positional, machine.heap.Resolves value
  keys : ∀ pair ∈ args.keywords, machine.heap.Resolves pair.1

/-- The positional arguments, and behind them the keyword hash if it has entries and no parameter
takes keywords. -/
def Frame.given (frame : Frame) (context : Context) (spec : ArgSpec) (args : Args) : List Value :=
  args.positional ++ if spec.takesKeywords || args.keywords.isEmpty then []
    else (frame.site.keywords? context).toList

/-- The arguments that count: the items of a single array, if a frame that does not count its
arguments has more than one parameter, and otherwise what is given. -/
def Heap.Effective (heap : Heap) (spec : ArgSpec) (strict : Bool) (given args : List Value) :
    Prop :=
  (strict = false ∧ 1 < spec.parameterCount ∧ ∃ array, given = [array] ∧ heap.HoldsArray array args) ∨
    (args = given ∧ ∀ array items, strict = false → 1 < spec.parameterCount → given = [array] →
      ¬ heap.HoldsArray array items)

/-- An array has one list of items. -/
theorem Heap.HoldsArray.unique {heap : Heap} {value : Value} {items others : List Value}
    (holds : heap.HoldsArray value items) (also : heap.HoldsArray value others) : items = others := by
  obtain ⟨handle, object, rfl, found, isArray⟩ := holds
  obtain ⟨handle', object', isValue, found', isArray'⟩ := also
  obtain rfl := Value.object.inj isValue
  obtain rfl := Option.some.inj (found.symm.trans found')
  exact List.toArray_inj (Option.some.inj (isArray.symm.trans isArray'))

section Reading

variable {machine : Machine} {value : Value}

/-- What there is can be asked whether it is an array. -/
theorem Query.array?_of_resolves (resolves : machine.heap.Resolves value) :
    ∃ items?, array? value machine = .ok items? ∧
      ∀ items, machine.heap.HoldsArray value items ↔ items? = some items.toArray := by
  cases value with
  | object handle =>
      obtain ⟨object, found⟩ := resolves handle rfl
      refine ⟨object.array?, part?_of_found found _, fun items => ⟨?_, fun isArray => ?_⟩⟩
      · rintro ⟨other, object', isValue, found', isArray⟩
        obtain rfl := Value.object.inj isValue
        obtain rfl := Option.some.inj (found.symm.trans found')
        exact isArray
      · exact ⟨handle, object, rfl, found, isArray⟩
  | _ =>
      refine ⟨none, rfl, fun items => ⟨?_, nofun⟩⟩
      rintro ⟨_, _, isValue, -⟩
      cases isValue

/-- The effective arguments are what parameters are bound to. -/
theorem Query.bindingOf_of_resolves (spec : ArgSpec) (strict : Bool) {given : List Value}
    (resolve : ∀ value ∈ given, machine.heap.Resolves value) (keywords? : Option Value)
    (block : Value) :
    ∃ args, bindingOf spec strict given keywords? block machine =
        .ok { strict, args, keywords?, block } ∧ machine.heap.Effective spec strict given args := by
  have many (notSingle : ∀ value, given ≠ [value]) :
      machine.heap.Effective spec strict given given :=
    .inr ⟨rfl, fun array _ _ _ isSingle => absurd isSingle (notSingle array)⟩
  match given with
  | [] => exact ⟨[], rfl, many fun _ => nofun⟩
  | first :: second :: rest => exact ⟨first :: second :: rest, rfl, many fun _ => nofun⟩
  | [single] =>
      obtain ⟨items?, read, isArray⟩ := array?_of_resolves (resolve single List.mem_cons_self)
      have bound : bindingOf spec strict [single] keywords? block machine =
          .ok { strict, args := spec.spread strict [single] items?, keywords?, block } := by
        rw [bindingOf]
        dsimp only
        rw [Query.bind_of_ok read]
        rfl
      refine ⟨_, bound, ?_⟩
      cases items? with
      | none =>
          refine .inr ⟨rfl, fun array items _ _ isSingle holdsArray => ?_⟩
          obtain rfl := (List.cons.inj isSingle).1
          cases (isArray items).mp holdsArray
      | some items =>
          by_cases spreads : strict = false ∧ 1 < spec.parameterCount
          · have isSpread : spec.spread strict [single] (some items) = items.toList :=
              if_pos (by simp [spreads])
            rw [isSpread]
            exact .inl ⟨spreads.1, spreads.2, single, rfl, (isArray _).mpr (by simp)⟩
          · have isKept : spec.spread strict [single] (some items) = [single] :=
              if_neg (by simpa using spreads)
            exact .inr ⟨isKept, fun _ _ lenient more _ => absurd ⟨lenient, more⟩ spreads⟩

end Reading

/-! ### One step -/

/-- The frame comes to an instruction of its code with an opcode. -/
structure Frame.Executes (frame : Frame) (unit : CodeUnit) (instruction : Instruction) (op : Opcode) :
    Prop where
  isUnit : frame.unit = some unit
  decoded : instructionAt? unit.code frame.pc = some instruction
  isOp : instruction.op = op

/-- The message about a wrong number of arguments. -/
def arityMessage (given : Nat) (spec : ArgSpec) : String :=
  s!"wrong number of arguments (given {given}, expected {spec.arityText})"

/-- The values of a hash that is copied. A key that comes twice keeps its first place and has
its last value. -/
def Machine.copiedEntries (machine : Machine) (pairs : List (Value × Value)) : Entries :=
  Entries.storeAll [] (machine.entries pairs)

/-- The frame on top has its parameters bound to shares of the arguments, and goes on behind the
defaults of the optional parameters that have one. Its dictionary is a new hash. -/
structure Machine.Enters (spec : ArgSpec) (args : Args) (shares : Shares) (next : Nat)
    (machine : Machine) (context : Context) (frame : Frame) (after : Machine)
    (context' : Context) : Prop where
  fills : machine.Fills (frame.base + 1)
    (fun frame => { frame with pc := next }.binding spec shares.optional.length) context after
    context'
  holds : after.HoldsParameters context' frame.base
    ((frame.unit.map (·.localCount.toNat)).getD 0) spec shares
    (machine.copiedEntries args.keywords) args.block
  isNew : spec.takesKeywords = true → ∀ dictionary,
    context'.slot (frame.base + spec.behindParameters) = .object dictionary →
    machine.heap.get? dictionary = none

/-- A hash whose keys differ is copied as it is. -/
theorem Machine.copiedEntries_of_distinct (machine : Machine) {pairs : List (Value × Value)}
    (distinct : ((machine.entries pairs).map Prod.fst).Nodup) :
    machine.copiedEntries pairs = machine.entries pairs :=
  Entries.storeAll_of_distinct distinct

section Stepping

variable {machine : Machine} {context : Context} {frame : Frame} {below : List Frame}
  {strict : Bool} {args : Args}

/-- The arguments that a frame has received are read as effective ones. -/
theorem Machine.Receives.passedArgs (receives : machine.Receives context frame below strict args)
    (spec : ArgSpec) :
    ∃ effective, Query.passedArgs frame.base frame spec machine =
        .ok { strict, args := effective, keywords? := frame.site.keywords? context,
              block := args.block } ∧
      machine.heap.Effective spec strict (frame.given context spec args) effective := by
  have resolve : ∀ value ∈ frame.given context spec args, machine.heap.Resolves value := by
    intro value member
    rcases List.mem_append.mp member with isPositional | isKeywords
    · exact receives.positional value isPositional
    · have standsFor := receives.holds.standsFor
      cases passed : frame.site.keywords? context with
      | none => simp [passed] at isKeywords
      | some hash =>
          rw [passed] at standsFor isKeywords
          obtain ⟨handle, object, table, rfl, found, -⟩ := standsFor
          split at isKeywords
          · exact absurd isKeywords List.not_mem_nil
          · obtain rfl := List.mem_singleton.mp isKeywords
            rintro other ⟨⟩
            exact ⟨object, found⟩
  obtain ⟨effective, bound, isEffective⟩ := Query.bindingOf_of_resolves spec strict resolve
    (frame.site.keywords? context) args.block
  refine ⟨effective, ?_, isEffective⟩
  rw [passedArgs_of_strictness receives.runs.running receives.strictness rfl receives.holds]
  exact bound

theorem Frame.strictness_congr {other : Frame} {next : Machine} (sameProc : other.proc = frame.proc)
    (sameHeap : next.heap = machine.heap) : other.strictness next = frame.strictness machine := by
  rw [Frame.strictness, Frame.strictness, sameProc]
  cases frame.proc with
  | none => rfl
  | some proc =>
      have sameObject : Query.object proc next = Query.object proc machine := by
        rw [Query.object, Query.object, sameHeap]
      change (Query.object proc next >>= _) = (Query.object proc machine >>= _)
      rw [sameObject]
      rfl

/-- Reading the next instruction takes no argument away. -/
theorem Machine.Receives.fetched (receives : machine.Receives context frame below strict args)
    (pc : Nat) :
    (machine.fetched pc).Receives (context.modifyTop fun frame => { frame with pc })
      { frame with pc } below strict args where
  runs := (receives.runs.fetched receives.top pc).1
  top := (receives.runs.fetched receives.top pc).2
  strictness := by
    have same : ({ frame with pc } : Frame).strictness (machine.fetched pc) =
      frame.strictness machine := Frame.strictness_congr rfl rfl
    exact same.trans receives.strictness
  holds := ⟨receives.holds.positional, receives.holds.keywords, receives.holds.block⟩
  positional := receives.positional
  keys := receives.keys

theorem Bytecode.ArgSpec.accepts_eq_false_iff {spec : ArgSpec} {count : Nat} :
    spec.accepts count = false ↔ count < spec.required + spec.post ∨
      spec.rest = false ∧ spec.required + spec.optional + spec.post < count := by
  rw [ArgSpec.accepts, Bool.and_eq_false_iff, Bool.or_eq_false_iff, decide_eq_false_iff_not,
    decide_eq_false_iff_not, Nat.not_le, Nat.not_le]
  rfl

/-- A wrong number of arguments is an exception, and an accepted one is bound. -/
theorem VM.enter_of_receives (receives : machine.Receives context frame below strict args)
    (spec : ArgSpec) :
    ∃ effective, machine.heap.Effective spec strict (frame.given context spec args) effective ∧
      if strict = true ∧ (effective.length < spec.required + spec.post ∨
          spec.rest = false ∧ spec.required + spec.optional + spec.post < effective.length) then
        ∃ exception next, enter frame.base spec machine = .error (.raised exception) next ∧
          next.Reports .argumentError (arityMessage effective.length spec) exception
      else
        ∃ shares next context', enter frame.base spec machine = .ok () next ∧
          spec.Cuts effective shares ∧
          machine.Fills (frame.base + 1) (·.binding spec shares.optional.length) context next
            context' ∧
          next.HoldsParameters context' frame.base ((frame.unit.map (·.localCount.toNat)).getD 0)
            spec shares (machine.copiedEntries args.keywords) args.block ∧
          (spec.takesKeywords = true → ∀ dictionary,
            context'.slot (frame.base + spec.behindParameters) = .object dictionary →
            machine.heap.get? dictionary = none) := by
  obtain ⟨effective, passed, isEffective⟩ := receives.passedArgs spec
  refine ⟨effective, isEffective, ?_⟩
  have read := liftM_of_ok (Query.frame_of_runsOn receives.runs receives.top)
  rw [enter, bind_of_ok read, bind_of_ok (liftM_of_ok passed)]
  split
  · rename_i refused
    obtain ⟨exception, next, raises, reports, -⟩ := raise_of_runsOn (α := Unit) receives.runs
      .argumentError (arityMessage effective.length spec)
    refine ⟨exception, next, ?_, reports⟩
    have isRefused : (strict && !spec.accepts effective.length) = true := by
      rw [refused.1, ArgSpec.accepts_eq_false_iff.mpr refused.2]
      rfl
    rw [if_pos isRefused]
    exact bind_of_error raises
  · rename_i accepted
    obtain ⟨shares, cuts⟩ := spec.exists_cuts effective
    obtain ⟨next, context', places, fills, holds, isNew⟩ :=
      placeArgs_of_cuts receives.runs receives.top cuts receives.holds.standsFor receives.keys
        args.block
    refine ⟨shares, next, context', ?_, cuts, fills, holds, isNew⟩
    have isAccepted : ¬ (strict && !spec.accepts effective.length) = true := by
      rw [Bool.and_eq_true, Bool.not_eq_true', ArgSpec.accepts_eq_false_iff]
      exact accepted
    rw [if_neg isAccepted, cuts.bind_eq]
    exact places

theorem VM.execute_enter {instruction : Instruction} {unit : CodeUnit} {engine : Engine} {stop : Nat}
    (isEnter : instruction.op = .enter) :
    VM.execute { engine, stop, frame, unit } instruction = (do
      enter frame.base (.ofOperand instruction.operands.a)
      return none) := by
  obtain ⟨op, ⟨a, b, c⟩, address, next⟩ := instruction
  obtain rfl : op = .enter := isEnter
  rfl

/-- One step of the instruction, with the register that it leaves the frame on. -/
theorem VM.step_enter_of_receives {unit : CodeUnit} {instruction : Instruction}
    (receives : machine.Receives context frame below strict args) (isUnit : frame.unit = some unit)
    (decoded : instructionAt? unit.code frame.pc = some instruction)
    (isEnter : instruction.op = .enter) (engine : Engine) (stop : Nat) {spec : ArgSpec}
    (isSpec : ArgSpec.ofOperand instruction.operands.a = spec) :
    ∃ effective, machine.heap.Effective spec strict (frame.given context spec args) effective ∧
      if strict = true ∧ (effective.length < spec.required + spec.post ∨
          spec.rest = false ∧ spec.required + spec.optional + spec.post < effective.length) then
        ∃ exception next, VM.step engine stop machine = .error (.raised exception) next ∧
          next.Reports .argumentError (arityMessage effective.length spec) exception
      else
        ∃ shares next context', VM.step engine stop machine = .ok none next ∧
          spec.Cuts effective shares ∧
          machine.Enters spec args shares instruction.next context frame next context' := by
  subst isSpec
  have stepped : VM.step engine stop machine =
      (VM.enter frame.base (.ofOperand instruction.operands.a) >>= fun _ => pure none)
        (machine.fetched instruction.next) := by
    rw [VM.step_eq receives.runs receives.top isUnit decoded, VM.execute_enter isEnter]
  obtain ⟨effective, isEffective, outcome⟩ :=
    VM.enter_of_receives (receives.fetched instruction.next) (.ofOperand instruction.operands.a)
  refine ⟨effective, isEffective, ?_⟩
  split at outcome <;> rename_i decided
  · obtain ⟨exception, next, raises, reports⟩ := outcome
    rw [if_pos decided]
    exact ⟨exception, next, stepped.trans (VM.bind_of_error raises), reports⟩
  · obtain ⟨shares, next, context', enters, cuts, fills, holds, isNew⟩ := outcome
    rw [if_neg decided]
    have reads : machine.Fills (frame.base + 1) ({ · with pc := instruction.next }) context
        (machine.fetched instruction.next)
        (context.modifyTop fun frame => { frame with pc := instruction.next }) :=
      .modifyTop receives.runs receives.top _ rfl rfl _
    exact ⟨shares, next, context', stepped.trans (VM.bind_of_ok enters), cuts,
      reads.trans fills (Nat.le_refl _), holds, isNew⟩

end Stepping

/-- One step of the instruction binds the arguments that a frame has received, for every spec,
every list of positional arguments and whatever keywords. A frame that counts its arguments raises
exactly if the effective ones are too few for the required parameters, or too many without a rest
parameter. Otherwise each parameter gets its share, with nil where there is no argument, the
dictionary is a copy of the keywords, and arguments are dropped only by a frame that does not
count them and has no rest parameter. -/
theorem enter_binds_parameters {machine : Machine} {context : Context} {frame : Frame}
    {below : List Frame} {strict : Bool} {args : Args} {unit : CodeUnit} {instruction : Instruction}
    (receives : machine.Receives context frame below strict args) (isUnit : frame.unit = some unit)
    (decoded : instructionAt? unit.code frame.pc = some instruction)
    (isEnter : instruction.op = .enter) (engine : Engine) (stop : Nat) :
    let spec := ArgSpec.ofOperand instruction.operands.a
    ∃ effective, machine.heap.Effective spec strict (frame.given context spec args) effective ∧
      if strict = true ∧ (effective.length < spec.required + spec.post ∨
          spec.rest = false ∧ spec.required + spec.optional + spec.post < effective.length) then
        ∃ exception next, VM.step engine stop machine = .error (.raised exception) next ∧
          next.Reports .argumentError (arityMessage effective.length spec) exception
      else
        ∃ shares next context', VM.step engine stop machine = .ok none next ∧
          spec.Cuts effective shares ∧ (strict = true → shares.extra = []) ∧
          machine.Enters spec args shares instruction.next context frame next context' ∧
          (((machine.entries args.keywords).map Prod.fst).Nodup →
            machine.copiedEntries args.keywords = machine.entries args.keywords) := by
  intro spec
  obtain ⟨effective, isEffective, outcome⟩ :=
    VM.step_enter_of_receives receives isUnit decoded isEnter engine stop rfl
  refine ⟨effective, isEffective, ?_⟩
  split at outcome <;> rename_i decided
  · rwa [if_pos decided]
  · obtain ⟨shares, next, context', stepped, cuts, enters⟩ := outcome
    rw [if_neg decided]
    refine ⟨shares, next, context', stepped, cuts, fun counts => cuts.extra_eq_nil ?_, enters,
      machine.copiedEntries_of_distinct⟩
    cases hasRest : spec.rest with
    | true => exact .inl rfl
    | false => exact .inr (Nat.le_of_not_lt fun more => decided ⟨counts, .inr ⟨hasRest, more⟩⟩)

/-! ### A block that spreads an array -/

/-- A machine with one register stack and nothing in the heap but some objects. -/
def Machine.ofObjects (objects : List Object) (context : Context) : Machine :=
  { empty {} with
    heap := objects.foldl (fun heap object => (heap.allocate object).1) (.new {})
    contexts := #[some context] }

/-- It runs on its stack if it has what the frames hold. -/
theorem Machine.ofObjects_runsOn {objects : List Object} {context : Context}
    (noFiber : ∀ object ∈ objects, object.fiber? = none)
    (held : ∀ frame ∈ context.activations, ∀ handle, frame.Holds handle →
      ∃ object, (ofObjects objects context).heap.get? handle = some object) :
    (ofObjects objects context).RunsOn context := by
  have heaps (heap : Heap) (wellFormed : heap.WellFormed)
      (plain : ∀ handle object, heap.get? handle = some object → object.fiber? = none) :
      (objects.foldl (fun heap object => (heap.allocate object).1) heap).WellFormed ∧
        ∀ handle object, (objects.foldl (fun heap object => (heap.allocate object).1) heap).get?
          handle = some object → object.fiber? = none := by
    clear held
    induction objects generalizing heap with
    | nil => exact ⟨wellFormed, plain⟩
    | cons first rest inductionHypothesis =>
        refine inductionHypothesis (fun object member => noFiber object (List.mem_cons_of_mem _ member))
          _ (wellFormed.allocate first) fun handle object found => ?_
        rw [wellFormed.get?_allocate] at found
        split at found
        · exact Option.some.inj found ▸ noFiber first List.mem_cons_self
        · exact plain handle object found
  obtain ⟨wellFormed, plain⟩ := heaps (.new {}) (Heap.wellFormed_new {}) fun handle object found => by
    rw [Heap.get?_new] at found
    cases found
  refine ⟨rfl, wellFormed, held, fun handle object record found isFiber => ?_⟩
  have isPlain := plain handle object found
  rw [Object.fiber?, isFiber] at isPlain
  cases isPlain

/-- A block with a parameter of every kind, which does nothing but bind them. -/
def everyKindUnit : CodeUnit :=
  { localCount := 7, registerCount := 8
    code := #[Opcode.enter.toByte, 4, 48, 132, Opcode.nop.toByte, Opcode.nop.toByte,
      Opcode.nop.toByte, Opcode.loadNil.toByte, 1, Opcode.returnValue.toByte, 1]
    handlers := [], pool := #[], symbols := #[], children := [] }

/-- The frame of a call with one array and one keyword. -/
def everyKindFrame : Frame :=
  { base := 0, top := 8, proc := some ⟨1, 1⟩, unit := some everyKindUnit, argCount := 1
    hasKeywords := true, method := none, owner := none, targetClass := .null, boundary := true
    block := .nil }

/-- The keywords of the call. -/
def everyKindKeywords : List (Value × Value) := [(.symbol ⟨7⟩, .int 9)]

def everyKindContext : Context :=
  { stack := #[.nil, .object ⟨2, 1⟩, .object ⟨3, 1⟩, .nil], frames := #[everyKindFrame] }

/-- The items of the array. -/
def fiveItems : List Value := [.int 1, .int 2, .int 3, .int 4, .int 5]

/-- A machine with the block, the array and the keyword hash. -/
def everyKindMachine : Machine :=
  .ofObjects
    [{ classHandle := .null
       content := .proc { unit := everyKindUnit, upper := none, env := none, targetClass := .null,
                          strict := false } },
      { classHandle := .null, content := .array fiveItems.toArray },
      { classHandle := .null, content := .hash (.ofPairs (fun _ => .symbol ⟨7⟩) everyKindKeywords) }]
    everyKindContext

theorem everyKindMachine_receives :
    everyKindMachine.Receives everyKindContext everyKindFrame [] false
      { positional := [.object ⟨2, 1⟩], keywords := everyKindKeywords } where
  runs := by
    refine Machine.ofObjects_runsOn (by decide) fun frame member handle holds => ?_
    obtain rfl := List.mem_singleton.mp member
    rcases holds with isProc | isEnv
    · cases isProc
      exact ⟨_, rfl⟩
    · cases isEnv
  top := rfl
  strictness := rfl
  holds := ⟨rfl, ⟨⟨3, 1⟩, _, _, rfl, rfl, rfl, by decide⟩, rfl⟩
  positional value member := by
    obtain rfl := List.mem_singleton.mp member
    rintro handle ⟨⟩
    exact ⟨_, rfl⟩
  keys pair member := by
    obtain rfl := List.mem_singleton.mp member
    exact fun handle => nofun

/-- The array is spread over all parameters, and the keyword is copied. -/
theorem enter_binds_parameters_everyKind :
    let spec := ArgSpec.ofOperand 274564
    everyKindMachine.Receives everyKindContext everyKindFrame [] false
        { positional := [.object ⟨2, 1⟩], keywords := everyKindKeywords } ∧
      ∃ shares next context', VM.step (.ofHosts #[] 0) 0 everyKindMachine = .ok none next ∧
        spec.Cuts fiveItems shares ∧
        everyKindMachine.Enters spec
          { positional := [.object ⟨2, 1⟩], keywords := everyKindKeywords } shares 4
          everyKindContext everyKindFrame next context' ∧
        everyKindMachine.copiedEntries everyKindKeywords = [(.symbol ⟨7⟩, .int 9)] := by
  have receives := everyKindMachine_receives
  have decoded : instructionAt? everyKindUnit.code 0 = some
      { op := .enter, operands := { a := 274564 }, address := 0, next := 4 } := rfl
  obtain ⟨effective, isEffective, outcome⟩ :=
    enter_binds_parameters receives rfl decoded rfl (.ofHosts #[] 0) 0
  have isArray : everyKindMachine.heap.HoldsArray (.object ⟨2, 1⟩) fiveItems :=
    ⟨⟨2, 1⟩, _, rfl, rfl, rfl⟩
  have isFive : effective = fiveItems := by
    rcases isEffective with ⟨-, -, array, isGiven, holdsArray⟩ | ⟨-, notArray⟩
    · obtain rfl : .object ⟨2, 1⟩ = array := (List.cons.inj isGiven).1
      exact holdsArray.unique isArray
    · exact absurd isArray (notArray _ fiveItems rfl (by decide) rfl)
  subst isFive
  rw [if_neg (by decide)] at outcome
  obtain ⟨shares, next, context', stepped, cuts, -, enters, isCopy⟩ := outcome
  refine ⟨receives, shares, next, context', stepped, cuts, enters, ?_⟩
  rw [isCopy (by decide)]
  rfl

end RiteVm
