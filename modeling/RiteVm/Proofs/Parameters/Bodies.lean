import RiteVm.Proofs.Parameters.Keywords

/-!
Contract: a body that takes the keywords it declares.

Owns:
- code that takes keywords, asks for keywords and then checks that none is left;
- the values that its instructions leave in their registers, and how it ends;
- that binding the arguments of a call and running such code hands out the keywords of the call.

Between two instructions the collector may run, and jumps may lead from one to the other.
-/

namespace RiteVm

open RiteVm.Bytecode

/-! ### Code that reads keywords -/

/-- What an instruction does with a keyword, and the register for its answer. -/
inductive KeywordStep where
  | take (register : Nat) (name : Bytes)
  | ask (register : Nat) (name : Bytes)
deriving DecidableEq, Repr

namespace KeywordStep

def register : KeywordStep → Nat
  | take register _ => register
  | ask register _ => register

/-- The names that are taken, in order. -/
def declared (steps : List KeywordStep) : List Bytes :=
  steps.filterMap fun
    | take _ name => some name
    | ask _ _ => none

theorem declared_take (register : Nat) (name : Bytes) (steps : List KeywordStep) :
    declared (.take register name :: steps) = name :: declared steps := rfl

theorem declared_ask (register : Nat) (name : Bytes) (steps : List KeywordStep) :
    declared (.ask register name :: steps) = declared steps := rfl

end KeywordStep

/-- From an address on, the code takes keywords and asks for keywords in the order of the steps, and
then checks that none is left. -/
inductive Bytecode.CodeUnit.ReadsKeywords (unit : CodeUnit) : Nat → List KeywordStep → Prop where
  | take {pc : Nat} {instruction : Instruction} {name : Bytes} {steps : List KeywordStep}
      (decoded : instructionAt? unit.code pc = some instruction) (isOp : instruction.op = .keyArg)
      (isName : unit.symbol? instruction.operands.b = some name)
      (rest : ReadsKeywords unit instruction.next steps) :
      ReadsKeywords unit pc (.take instruction.operands.a name :: steps)
  | ask {pc : Nat} {instruction : Instruction} {name : Bytes} {steps : List KeywordStep}
      (decoded : instructionAt? unit.code pc = some instruction)
      (isOp : instruction.op = .keyPresent)
      (isName : unit.symbol? instruction.operands.b = some name)
      (rest : ReadsKeywords unit instruction.next steps) :
      ReadsKeywords unit pc (.ask instruction.operands.a name :: steps)
  | jump {pc : Nat} {instruction : Instruction} {steps : List KeywordStep}
      (decoded : instructionAt? unit.code pc = some instruction) (isOp : instruction.op = .jump)
      (rest : ReadsKeywords unit ((instruction.jumpTarget?).getD instruction.next).toNat steps) :
      ReadsKeywords unit pc steps
  | check {pc : Nat} {instruction : Instruction}
      (decoded : instructionAt? unit.code pc = some instruction) (isOp : instruction.op = .keyEnd) :
      ReadsKeywords unit pc []

/-! ### What is handed out -/

/-- How a body ends. -/
inductive KeywordOutcome where
  | accepted
  | missing (name : Bytes)
  | unknown (name : Bytes)
deriving DecidableEq, Repr

namespace Keywords

/-- What the registers of the steps have got when some names are taken already: the value of the
keyword, or whether the keyword was passed and is not taken yet. A missing keyword ends it. -/
def answers (keywords : Keywords) : List Bytes → List KeywordStep → List (Nat × Value)
  | _, [] => []
  | taken, .take register name :: steps =>
    match keywords.value? name with
    | some value => (register, value) :: keywords.answers (taken ++ [name]) steps
    | none => []
  | taken, .ask register name :: steps =>
    (register, .ofBool ((keywords.without taken).value? name).isSome) ::
      keywords.answers taken steps

/-- The first declared name without a keyword ends a body, and otherwise the first keyword that is
neither taken nor declared. -/
def outcome (keywords : Keywords) (taken declared : List Bytes) : KeywordOutcome :=
  match declared.find? fun name => (keywords.value? name).isNone with
  | some name => .missing name
  | none =>
    match keywords.without (taken ++ declared) with
    | keyword :: _ => .unknown keyword.1
    | [] => .accepted

variable {keywords : Keywords} {taken declared : List Bytes} {name : Bytes}

/-- A body is accepted if it declares the names of the keywords and no others. -/
theorem outcome_eq_accepted_iff :
    keywords.outcome [] declared = .accepted ↔
      ∀ name, name ∈ declared ↔ name ∈ keywords.map Prod.fst := by
  have missing : declared.find? (fun name => (keywords.value? name).isNone) = none ↔
      ∀ name ∈ declared, name ∈ keywords.map Prod.fst := by
    rw [List.find?_eq_none]
    refine forall₂_congr fun name _ => ?_
    rw [Option.isNone_iff_eq_none, value?_eq_none_iff, not_not]
  have unknown : keywords.without ([] ++ declared) = [] ↔
      ∀ name ∈ keywords.map Prod.fst, name ∈ declared := by
    rw [without, List.filter_eq_nil_iff, List.forall_mem_map]
    refine forall₂_congr fun keyword _ => ?_
    simp
  rw [outcome]
  constructor
  · intro accepted
    split at accepted
    · cases accepted
    · rename_i noneMissing
      split at accepted
      · cases accepted
      · rename_i noneUnknown
        exact fun name => ⟨missing.mp noneMissing name, unknown.mp noneUnknown name⟩
  · intro same
    rw [missing.mpr fun name => (same name).mp, unknown.mpr fun name => (same name).mpr]

theorem outcome_of_missing (isMissing : keywords.value? name = none) :
    keywords.outcome taken (name :: declared) = .missing name := by
  rw [outcome, List.find?_cons, isMissing]
  rfl

/-- A keyword that was passed is taken. -/
theorem outcome_of_passed {value : Value} (isPassed : keywords.value? name = some value) :
    keywords.outcome taken (name :: declared) = keywords.outcome (taken ++ [name]) declared := by
  rw [outcome, List.find?_cons, isPassed, List.append_cons]
  rfl

end Keywords

/-- The instruction that the frame on top comes to. -/
def Machine.upcoming? (machine : Machine) : Option Instruction := do
  let context ← machine.context? machine.current
  let frame ← context.activations.head?
  let unit ← frame.unit
  instructionAt? unit.code frame.pc

/-- A cycle whose instruction neither raises nor ends the loop. -/
structure VM.Passes (engine : Engine) (stop : Nat) (machine next : Machine) : Prop where
  stepped : ∃ behind, step engine stop machine.collectedIfDue = .ok none behind
  cycled : cycle engine stop machine = .ok none next

/-- What the cycles of a body leave in the registers of their instructions, up to its end. An instruction
that ends it raises the exception about a keyword, and every cycle spares the objects of an earlier
heap. -/
inductive VM.HandsOut (engine : Engine) (stop base : Nat) (before : Heap) :
    Machine → List (Nat × Value) → KeywordOutcome → Prop where
  | jump {machine next : Machine} {reads : List (Nat × Value)} {outcome : KeywordOutcome}
      (isJump : machine.upcoming?.map (·.op) = some .jump) (passes : Passes engine stop machine next)
      (spares : before.Spares next.heap) (rest : HandsOut engine stop base before next reads outcome) :
      HandsOut engine stop base before machine reads outcome
  | read {machine next : Machine} {instruction : Instruction} {context : Context}
      {reads : List (Nat × Value)} {outcome : KeywordOutcome}
      (isNext : machine.upcoming? = some instruction)
      (isOp : instruction.op = .keyArg ∨ instruction.op = .keyPresent)
      (passes : Passes engine stop machine next)
      (running : next.context? next.current = some context) (spares : before.Spares next.heap)
      (rest : HandsOut engine stop base before next reads outcome) :
      HandsOut engine stop base before machine
        ((instruction.operands.a, context.slot (base + instruction.operands.a)) :: reads) outcome
  | accepted {machine next : Machine} (isCheck : machine.upcoming?.map (·.op) = some .keyEnd)
      (passes : Passes engine stop machine next) (spares : before.Spares next.heap) :
      HandsOut engine stop base before machine [] .accepted
  | missing {machine next : Machine} {name : Bytes} {exception : Handle}
      (isTake : machine.upcoming?.map (·.op) = some .keyArg)
      (raises : step engine stop machine.collectedIfDue = .error (.raised exception) next)
      (reports : next.Reports .argumentError (missingMessage name) exception)
      (spares : before.Spares next.heap) : HandsOut engine stop base before machine [] (.missing name)
  | unknown {machine next : Machine} {name : Bytes} {exception : Handle}
      (isCheck : machine.upcoming?.map (·.op) = some .keyEnd)
      (raises : step engine stop machine.collectedIfDue = .error (.raised exception) next)
      (reports : next.Reports .argumentError (unknownMessage name) exception)
      (spares : before.Spares next.heap) : HandsOut engine stop base before machine [] (.unknown name)

/-! ### One instruction -/

/-- A cycle passes when its instruction does, behind the collection. -/
theorem VM.passes_of_step {engine : Engine} {stop : Nat} {machine next : Machine}
    (stepped : step engine stop machine.collectedIfDue = .ok none next) :
    ∃ arena, Passes engine stop machine (next.withArena arena) := by
  have settles : ∃ arena, settle stop machine.collectedIfDue.heap.arenaMark (step engine stop)
      machine.collectedIfDue = .ok none (next.withArena arena) := settle_of_ok stepped
  obtain ⟨arena, settled⟩ := settles
  exact ⟨arena, ⟨next, stepped⟩, cycle_eq.trans settled⟩

section Executions

variable {engine : Engine} {stop : Nat} {frame : Frame} {unit : CodeUnit} {instruction : Instruction}

theorem VM.execute_keyArg (isOp : instruction.op = .keyArg) :
    VM.execute { engine, stop, frame, unit } instruction = (do
      let name ← VM.unitSymbol unit instruction.operands.b
      let value ← VM.takeKeyword frame.base name
      VM.setRegister frame.base instruction.operands.a value
      return none) := by
  obtain ⟨op, ⟨a, b, c⟩, address, next⟩ := instruction
  obtain rfl : op = .keyArg := isOp
  rfl

theorem VM.execute_keyPresent (isOp : instruction.op = .keyPresent) :
    VM.execute { engine, stop, frame, unit } instruction = (do
      let name ← VM.unitSymbol unit instruction.operands.b
      let isThere ← VM.hasKeyword frame.base name
      VM.setRegister frame.base instruction.operands.a (.ofBool isThere)
      return none) := by
  obtain ⟨op, ⟨a, b, c⟩, address, next⟩ := instruction
  obtain rfl : op = .keyPresent := isOp
  rfl

theorem VM.execute_keyEnd (isOp : instruction.op = .keyEnd) :
    VM.execute { engine, stop, frame, unit } instruction = (do
      VM.checkKeywords frame.base
      return none) := by
  obtain ⟨op, ⟨a, b, c⟩, address, next⟩ := instruction
  obtain rfl : op = .keyEnd := isOp
  rfl

theorem VM.execute_jump (isOp : instruction.op = .jump) :
    VM.execute { engine, stop, frame, unit } instruction = (do
      VM.modifyFrame ({ · with pc := ((instruction.jumpTarget?).getD instruction.next).toNat })
      return none) := by
  obtain ⟨op, ⟨a, b, c⟩, address, next⟩ := instruction
  obtain rfl : op = .jump := isOp
  rfl

end Executions

section Instructions

variable {machine : Machine} {before : Heap} {context : Context} {frame : Frame} {below : List Frame}
  {register : Nat} {dictionary : Handle} {left : Keywords} {name : Bytes} {unit : CodeUnit}
  {instruction : Instruction}

namespace Machine.AwaitsKeywords

theorem upcoming? (awaits : machine.AwaitsKeywords before context frame below register dictionary left)
    {op : Opcode} (executes : frame.Executes unit instruction op) :
    machine.upcoming? = some instruction := by
  rw [Machine.upcoming?, awaits.runs.running]
  change (context.activations.head?.bind _) = _
  rw [awaits.top]
  change (frame.unit.bind _) = _
  rw [executes.isUnit]
  exact executes.decoded

/-- The name of an instruction has a symbol from then on. -/
theorem unitSymbol
    (awaits : machine.AwaitsKeywords before context frame below register dictionary left)
    {index : Nat} (isName : unit.symbol? index = some name) :
    ∃ symbol next, VM.unitSymbol unit index machine = .ok symbol next ∧
      next.AwaitsKeywords before context frame below register dictionary left ∧
      next.symbols.lookup? name = some symbol := by
  refine ⟨(machine.symbols.intern name).2, machine.interned name, ?_, awaits.interned name,
    awaits.faithful.lookup?_intern name⟩
  rw [VM.unitSymbol, isName]
  rfl

/-- An answer goes into a register that is not the dictionary's. -/
theorem setAnswer
    (awaits : machine.AwaitsKeywords before context frame below register dictionary left)
    {index : Nat} (apart : index ≠ register) (value : Value) :
    ∃ next, (do VM.setRegister frame.base index value; return none : VM (Option Exit)) machine =
        .ok none next ∧
      next.AwaitsKeywords before (context.setSlot (frame.base + index) value) frame below register
        dictionary left := by
  have isOther : frame.base + index ≠ frame.base + register := by omega
  obtain ⟨next, stored, awaits⟩ := awaits.setSlot isOther value
  exact ⟨next, VM.bind_of_ok stored, awaits⟩

/-- Taking a keyword answers its value, or raises if there is none. -/
theorem step_keyArg (awaits : machine.AwaitsKeywords before context frame below register dictionary left)
    (executes : frame.Executes unit instruction .keyArg)
    (isName : unit.symbol? instruction.operands.b = some name)
    (apart : instruction.operands.a ≠ register) (engine : Engine) (stop : Nat) :
    match left.value? name with
    | some value => ∃ next context', VM.step engine stop machine = .ok none next ∧
        next.AwaitsKeywords before context' { frame with pc := instruction.next } below register
          dictionary (left.erase name) ∧
        context'.slot (frame.base + instruction.operands.a) = value
    | none => ∃ exception next, VM.step engine stop machine = .error (.raised exception) next ∧
        next.Reports .argumentError (missingMessage name) exception ∧ before.Spares next.heap := by
  have stepped : VM.step engine stop machine = _ :=
    VM.step_eq awaits.runs awaits.top executes.isUnit executes.decoded
  obtain ⟨symbol, interned, interns, awaitsNamed, isSymbol⟩ :=
    (awaits.fetched instruction.next).unitSymbol isName
  obtain ⟨taken, awaitsTaken, takes⟩ := awaitsNamed.takeKeyword isSymbol
  rw [VM.execute_keyArg executes.isOp, VM.bind_of_ok interns] at stepped
  split
  · rename_i value isValue
    rw [isValue] at takes
    obtain ⟨next, sets, awaitsNext⟩ := awaitsTaken.setAnswer apart value
    exact ⟨next, _, stepped.trans ((VM.bind_of_ok takes).trans sets), awaitsNext,
      Context.slot_setSlot _ _ _⟩
  · rename_i noValue
    rw [noValue] at takes
    obtain ⟨exception, next, raises, reports, alters⟩ := VM.raise_alters (α := Value)
      awaitsTaken.runs .argumentError (missingMessage name)
    exact ⟨exception, next, stepped.trans (VM.bind_of_error (takes.trans raises)), reports,
      awaitsTaken.spares.alters_none alters⟩

/-- Asking for a keyword answers whether it is left. -/
theorem step_keyPresent
    (awaits : machine.AwaitsKeywords before context frame below register dictionary left)
    (executes : frame.Executes unit instruction .keyPresent)
    (isName : unit.symbol? instruction.operands.b = some name)
    (apart : instruction.operands.a ≠ register) (engine : Engine) (stop : Nat) :
    ∃ next context', VM.step engine stop machine = .ok none next ∧
      next.AwaitsKeywords before context' { frame with pc := instruction.next } below register
        dictionary left ∧
      context'.slot (frame.base + instruction.operands.a) = .ofBool (left.value? name).isSome := by
  have stepped : VM.step engine stop machine = _ :=
    VM.step_eq awaits.runs awaits.top executes.isUnit executes.decoded
  obtain ⟨symbol, interned, interns, awaitsNamed, isSymbol⟩ :=
    (awaits.fetched instruction.next).unitSymbol isName
  obtain ⟨next, sets, awaitsNext⟩ := awaitsNamed.setAnswer apart (.ofBool (left.value? name).isSome)
  rw [VM.execute_keyPresent executes.isOp, VM.bind_of_ok interns] at stepped
  exact ⟨next, _, stepped.trans ((VM.bind_of_ok (awaitsNamed.hasKeyword isSymbol)).trans sets),
    awaitsNext, Context.slot_setSlot _ _ _⟩

/-- The check raises for the first keyword that is left. -/
theorem step_keyEnd (awaits : machine.AwaitsKeywords before context frame below register dictionary left)
    (executes : frame.Executes unit instruction .keyEnd) (engine : Engine) (stop : Nat) :
    match left with
    | (name, _) :: _ => ∃ exception next, VM.step engine stop machine = .error (.raised exception) next ∧
        next.Reports .argumentError (unknownMessage name) exception ∧ before.Spares next.heap
    | [] => ∃ next, VM.step engine stop machine = .ok none next ∧ before.Spares next.heap := by
  have stepped : VM.step engine stop machine = _ :=
    VM.step_eq awaits.runs awaits.top executes.isUnit executes.decoded
  have awaitsThen := awaits.fetched instruction.next
  have checks := awaitsThen.checkKeywords
  rw [VM.execute_keyEnd executes.isOp] at stepped
  rcases left with _ | ⟨⟨name, value⟩, rest⟩
  · exact ⟨_, stepped.trans (VM.bind_of_ok checks), awaitsThen.spares⟩
  · obtain ⟨exception, next, raises, reports, alters⟩ := VM.raise_alters (α := Unit)
      awaitsThen.runs .argumentError (unknownMessage name)
    exact ⟨exception, next, stepped.trans (VM.bind_of_error (checks.trans raises)), reports,
      awaitsThen.spares.alters_none alters⟩

theorem step_jump (awaits : machine.AwaitsKeywords before context frame below register dictionary left)
    (executes : frame.Executes unit instruction .jump) (engine : Engine) (stop : Nat) :
    ∃ next context', VM.step engine stop machine = .ok none next ∧
      next.AwaitsKeywords before context'
        { frame with pc := ((instruction.jumpTarget?).getD instruction.next).toNat } below register
        dictionary left := by
  have stepped : VM.step engine stop machine = _ :=
    VM.step_eq awaits.runs awaits.top executes.isUnit executes.decoded
  rw [VM.execute_jump executes.isOp] at stepped
  exact ⟨_, _, stepped.trans (VM.bind_of_ok (VM.modifyFrame_ok _)),
    (awaits.fetched instruction.next).fetched
      ((instruction.jumpTarget?).getD instruction.next).toNat⟩

theorem passes {engine : Engine} {stop : Nat} {start : Machine}
    (awaits : machine.AwaitsKeywords before context frame below register dictionary left)
    (stepped : VM.step engine stop start.collectedIfDue = .ok none machine) :
    ∃ last, VM.Passes engine stop start last ∧
      last.AwaitsKeywords before context frame below register dictionary left := by
  obtain ⟨arena, passes⟩ := VM.passes_of_step stepped
  exact ⟨machine.withArena arena, passes, awaits.withArena arena⟩

end Machine.AwaitsKeywords

end Instructions

/-! ### A whole body -/

section Bodies

variable {machine : Machine} {before : Heap} {context : Context} {frame : Frame} {below : List Frame}
  {register : Nat} {dictionary : Handle} {keywords : Keywords} {taken : List Bytes} {unit : CodeUnit}
  {pc : Nat} {steps : List KeywordStep}

/-- From any point of a body on, the rest of the keywords is handed out. The induction is on the code; what
it carries along is that the dictionary has exactly the keywords that are not taken yet. -/
theorem VM.handsOut_of_awaits (code : unit.ReadsKeywords pc steps)
    (awaits : machine.AwaitsKeywords before context frame below register dictionary
      (keywords.without taken))
    (isUnit : frame.unit = some unit) (isPc : frame.pc = pc)
    (distinct : (keywords.map Prod.fst).Nodup)
    (once : (taken ++ KeywordStep.declared steps).Nodup)
    (apart : ∀ step ∈ steps, step.register ≠ register) (engine : Engine) (stop : Nat) :
    HandsOut engine stop frame.base before machine (keywords.answers taken steps)
      (keywords.outcome taken (KeywordStep.declared steps)) := by
  induction code generalizing machine context frame taken with
  | @take pc instruction name steps decoded isOp isName rest inductionHypothesis =>
      have executes : frame.Executes unit instruction .keyArg := ⟨isUnit, isPc ▸ decoded, isOp⟩
      have isNext := awaits.upcoming? executes
      have notTaken : name ∉ taken := fun isTaken =>
        (List.nodup_append.mp once).2.2 name isTaken name List.mem_cons_self rfl
      have stepped := awaits.collectedIfDue.step_keyArg executes isName
        (apart _ List.mem_cons_self) engine stop
      rw [Keywords.value?_without notTaken, Keywords.erase_without distinct] at stepped
      rw [KeywordStep.declared_take] at once ⊢
      rw [Keywords.answers]
      cases isValue : keywords.value? name with
      | none =>
          rw [isValue] at stepped
          obtain ⟨exception, next, raises, reports, spares⟩ := stepped
          rw [Keywords.outcome_of_missing isValue]
          exact .missing (by rw [isNext, Option.map_some, isOp]) raises reports spares
      | some value =>
          rw [isValue] at stepped
          obtain ⟨next, context', stepped, awaitsNext, rfl⟩ := stepped
          obtain ⟨last, passes, awaitsLast⟩ := awaitsNext.passes stepped
          rw [Keywords.outcome_of_passed isValue]
          rw [List.append_cons] at once
          have handsOut := inductionHypothesis awaitsLast isUnit rfl once fun step member =>
            apart step (List.mem_cons_of_mem _ member)
          exact .read isNext (.inl isOp) passes awaitsLast.runs.running awaitsLast.spares handsOut
  | @ask pc instruction name steps decoded isOp isName rest inductionHypothesis =>
      have executes : frame.Executes unit instruction .keyPresent := ⟨isUnit, isPc ▸ decoded, isOp⟩
      obtain ⟨next, context', stepped, awaitsNext, isAnswer⟩ :=
        awaits.collectedIfDue.step_keyPresent executes isName (apart _ List.mem_cons_self) engine stop
      obtain ⟨last, passes, awaitsLast⟩ := awaitsNext.passes stepped
      rw [KeywordStep.declared_ask] at once ⊢
      rw [Keywords.answers, ← isAnswer]
      have handsOut := inductionHypothesis awaitsLast isUnit rfl once fun step member =>
        apart step (List.mem_cons_of_mem _ member)
      exact .read (awaits.upcoming? executes) (.inr isOp) passes awaitsLast.runs.running
        awaitsLast.spares handsOut
  | @jump pc instruction steps decoded isOp rest inductionHypothesis =>
      have executes : frame.Executes unit instruction .jump := ⟨isUnit, isPc ▸ decoded, isOp⟩
      obtain ⟨next, context', stepped, awaitsNext⟩ :=
        awaits.collectedIfDue.step_jump executes engine stop
      obtain ⟨last, passes, awaitsLast⟩ := awaitsNext.passes stepped
      have handsOut := inductionHypothesis awaitsLast isUnit rfl once apart
      exact .jump (by rw [awaits.upcoming? executes, Option.map_some, isOp]) passes awaitsLast.spares
        handsOut
  | @check pc instruction decoded isOp =>
      have executes : frame.Executes unit instruction .keyEnd := ⟨isUnit, isPc ▸ decoded, isOp⟩
      have isCheck : machine.upcoming?.map (·.op) = some .keyEnd := by
        rw [awaits.upcoming? executes, Option.map_some, isOp]
      have stepped := awaits.collectedIfDue.step_keyEnd executes engine stop
      have noneDeclared : KeywordStep.declared [] = [] := rfl
      rw [noneDeclared, Keywords.outcome, List.find?_nil, List.append_nil]
      generalize keywords.without taken = left at awaits stepped ⊢
      rcases left with _ | ⟨⟨name, value⟩, left⟩
      · obtain ⟨next, stepped, spares⟩ := stepped
        obtain ⟨arena, passes⟩ := VM.passes_of_step stepped
        exact .accepted isCheck passes spares
      · obtain ⟨exception, next, raises, reports, spares⟩ := stepped
        exact .unknown isCheck raises reports spares

end Bodies

/-! ### Calls with keywords -/

section Calls

variable {machine next : Machine} {context : Context} {frame : Frame} {below : List Frame}
  {strict : Bool} {args : Args} {keywords : Keywords}

/-- Pairs with the entries of spelled ones are spelled themselves. -/
theorem SymbolTable.Spells.of_entries {table : SymbolTable} {pairs others : List (Value × Value)}
    (spells : table.Spells others keywords) (same : next.entries pairs = machine.entries others) :
    table.Spells pairs keywords := by
  induction spells generalizing pairs with
  | nil =>
      rw [List.map_eq_nil_iff.mp same]
      exact .nil
  | @cons other keyword others keywords head _ inductionHypothesis =>
      obtain ⟨symbol, isSymbol, rfl⟩ := head
      cases pairs with
      | nil => cases same
      | cons pair pairs =>
          obtain ⟨sameEntry, sameRest⟩ := List.cons.inj same
          obtain ⟨sameDigest, sameValue⟩ := Prod.mk.inj sameEntry
          have isKey : pair.1 = .symbol symbol := by
            obtain ⟨key, value⟩ := pair
            cases key with
            | object handle =>
                simp only [Machine.digest, KeyDigest.ofValue] at sameDigest
                split at sameDigest <;> cases sameDigest
            | symbol other => exact congrArg Value.symbol (KeyDigest.symbol.inj sameDigest)
            | _ => cases sameDigest
          exact .cons ⟨symbol, isSymbol, Prod.ext isKey sameValue⟩ (inductionHypothesis sameRest)

/-- A key that is the symbol of a name is spelled by it. -/
theorem SymbolTable.Spells.name_of_digest {table : SymbolTable} {pairs : List (Value × Value)}
    {symbol : Symbol} (spells : table.Spells pairs keywords)
    (member : machine.digest (.symbol symbol) ∈ (machine.entries pairs).map Prod.fst) :
    ∃ name ∈ keywords.map Prod.fst, table.lookup? name = some symbol := by
  induction spells with
  | nil => cases member
  | @cons pair keyword pairs keywords head rest inductionHypothesis =>
      obtain ⟨other, isOther, rfl⟩ := head
      rcases List.mem_cons.mp member with same | isRest
      · obtain rfl := KeyDigest.symbol.inj same
        exact ⟨keyword.1, List.mem_cons_self, isOther⟩
      · obtain ⟨name, isName, isSymbol⟩ := inductionHypothesis isRest
        exact ⟨name, List.mem_cons_of_mem _ isName, isSymbol⟩

/-- Different names have different entries. -/
theorem SymbolTable.Spells.distinct {table : SymbolTable} {pairs : List (Value × Value)}
    (spells : table.Spells pairs keywords) (faithful : table.Faithful)
    (distinct : (keywords.map Prod.fst).Nodup) (machine : Machine) :
    ((machine.entries pairs).map Prod.fst).Nodup := by
  induction spells with
  | nil => exact List.nodup_nil
  | @cons pair keyword pairs keywords head rest inductionHypothesis =>
      obtain ⟨symbol, isSymbol, rfl⟩ := head
      obtain ⟨isNew, distinct⟩ := List.nodup_cons.mp distinct
      refine List.nodup_cons.mpr ⟨fun member => isNew ?_, inductionHypothesis distinct⟩
      obtain ⟨other, isOther, isSame⟩ := SymbolTable.Spells.name_of_digest rest member
      rwa [faithful.eq_of_lookup? isSymbol isSame]

/-- When the arguments of a call are bound, the frame waits for the keywords of the call. -/
theorem VM.awaits_of_enters {spec : ArgSpec} {shares : Shares} {pc : Nat} {context' : Context}
    (receives : machine.Receives context frame below strict args)
    (enters : machine.Enters spec args shares pc context frame next context')
    (takes : spec.takesKeywords = true) (faithful : machine.symbols.Faithful)
    (spells : machine.symbols.Spells args.keywords keywords)
    (distinct : (keywords.map Prod.fst).Nodup) :
    ∃ dictionary, next.AwaitsKeywords machine.heap context'
      ({ frame with pc }.binding spec shares.optional.length) below spec.behindParameters dictionary
      keywords := by
  have sameSymbols : next.symbols = machine.symbols := by rw [enters.fills.rest]
  obtain ⟨dictionary, isSlot, object, table, found, isHash, -, sound, -, isCopy⟩ :=
    enters.holds.dictionary takes
  rw [machine.copiedEntries_of_distinct (spells.distinct faithful distinct machine)] at isCopy
  refine ⟨dictionary,
    { runs := enters.fills.runs
      top := enters.fills.frames _ _ receives.top
      isRegister := if_pos takes
      inside := ?_
      isSlot
      isNew := enters.isNew takes dictionary isSlot
      faithful := sameSymbols ▸ faithful
      holds := ⟨object, table, found, isHash, sound, sameSymbols ▸ spells.of_entries isCopy⟩
      spares := .of_extends enters.fills.objects }⟩
  have isBlock : spec.blockRegister = spec.behindParameters + 1 := by
    rw [ArgSpec.blockRegister, if_pos takes]
  have isTop : frame.base + spec.blockRegister + 1 ≤
    ({ frame with pc }.binding spec shares.optional.length).top := Nat.le_max_right _ _
  have sameBase : ({ frame with pc }.binding spec shares.optional.length).base = frame.base := rfl
  omega

end Calls

/-- A body that declares its keywords hands them out. For every spec that takes keywords, every call that
passes an acceptable number of arguments and any keywords, and every list of different names, the body
gives each declared name the value of its keyword, in order, and answers every question whether a keyword
is left. It is accepted exactly if it declares the names of the keywords, and otherwise raises for the first
declared name that was not passed or, if there is none, for the first keyword that was not declared. All
objects that were there before, with the hash that was passed, stay as they are until they are
collected. -/
theorem bodies_hand_out_keywords {machine : Machine} {context : Context} {frame : Frame}
    {below : List Frame} {strict : Bool} {args : Args} {unit : CodeUnit} {instruction : Instruction}
    {keywords : Keywords} {steps : List KeywordStep}
    (receives : machine.collectedIfDue.Receives context frame below strict args)
    (executes : frame.Executes unit instruction .enter)
    (takes : (ArgSpec.ofOperand instruction.operands.a).takesKeywords = true)
    (acceptable : strict = true → ∀ effective,
      machine.collectedIfDue.heap.Effective (.ofOperand instruction.operands.a) strict
        (frame.given context (.ofOperand instruction.operands.a) args) effective →
      (ArgSpec.ofOperand instruction.operands.a).accepts effective.length = true)
    (faithful : machine.symbols.Faithful) (spells : machine.symbols.Spells args.keywords keywords)
    (distinct : (keywords.map Prod.fst).Nodup)
    (code : ∀ count ≤ (ArgSpec.ofOperand instruction.operands.a).optional,
      unit.ReadsKeywords (instruction.next + count * 3) steps)
    (once : (KeywordStep.declared steps).Nodup)
    (apart : ∀ step ∈ steps,
      step.register ≠ (ArgSpec.ofOperand instruction.operands.a).behindParameters)
    (engine : Engine) (stop : Nat) :
    (∃ entered, VM.Passes engine stop machine entered ∧
      machine.collectedIfDue.heap.Spares entered.heap ∧
      VM.HandsOut engine stop frame.base machine.collectedIfDue.heap entered
        (keywords.answers [] steps) (keywords.outcome [] (KeywordStep.declared steps))) ∧
      (keywords.outcome [] (KeywordStep.declared steps) = .accepted ↔
        ∀ name, name ∈ KeywordStep.declared steps ↔ name ∈ keywords.map Prod.fst) := by
  refine ⟨?_, Keywords.outcome_eq_accepted_iff⟩
  obtain ⟨effective, isEffective, outcome⟩ := VM.step_enter_of_receives receives executes.isUnit
    executes.decoded executes.isOp engine stop rfl
  split at outcome <;> rename_i decided
  · have refused := ArgSpec.accepts_eq_false_iff.mpr decided.2
    rw [acceptable decided.1 effective isEffective] at refused
    cases refused
  · obtain ⟨shares, next, context', stepped, cuts, enters⟩ := outcome
    obtain ⟨dictionary, awaits⟩ := VM.awaits_of_enters receives enters takes
      (machine.symbols_collectedIfDue ▸ faithful) (machine.symbols_collectedIfDue ▸ spells) distinct
    obtain ⟨entered, passes, awaits⟩ := awaits.passes stepped
    refine ⟨entered, passes, awaits.spares, ?_⟩
    have bound := cuts.optional_length
    rw [← Keywords.without_nil keywords] at awaits
    have handsOut := VM.handsOut_of_awaits (code shares.optional.length (by omega)) awaits
      executes.isUnit rfl distinct (by rwa [List.nil_append]) apart engine stop
    exact handsOut

/-! ### A method with two keywords -/

/-- A method that asks for one keyword and takes two. -/
def namedUnit : CodeUnit :=
  { localCount := 6, registerCount := 8
    code := #[Opcode.enter.toByte, 0, 0, 8, Opcode.keyPresent.toByte, 3, 0, Opcode.keyArg.toByte, 4, 0,
      Opcode.keyArg.toByte, 5, 1, Opcode.keyEnd.toByte]
    handlers := [], pool := #[], children := []
    symbols := #[some (Text.utf8 "message"), some (Text.utf8 "exception")] }

def namedSteps : List KeywordStep :=
  [.ask 3 (Text.utf8 "message"), .take 4 (Text.utf8 "message"), .take 5 (Text.utf8 "exception")]

theorem namedUnit_readsKeywords : namedUnit.ReadsKeywords 4 namedSteps := by
  have asks : instructionAt? namedUnit.code 4 =
    some { op := .keyPresent, operands := { a := 3, b := 0 }, address := 4, next := 7 } := rfl
  have takes : instructionAt? namedUnit.code 7 =
    some { op := .keyArg, operands := { a := 4, b := 0 }, address := 7, next := 10 } := rfl
  have takesMore : instructionAt? namedUnit.code 10 =
    some { op := .keyArg, operands := { a := 5, b := 1 }, address := 10, next := 13 } := rfl
  have checks : instructionAt? namedUnit.code 13 =
    some { op := .keyEnd, operands := {}, address := 13, next := 14 } := rfl
  exact .ask asks rfl rfl (.take takes rfl rfl (.take takesMore rfl rfl (.check checks rfl)))

/-- What the call passes, in another order. -/
def namedKeywords : Keywords :=
  [(Text.utf8 "exception", .int 6), (Text.utf8 "message", .int 5)]

def namedArgs : Args :=
  { positional := [], keywords := [(.symbol .exception, .int 6), (.symbol .message, .int 5)] }

def namedFrame : Frame :=
  { base := 0, top := 8, proc := some ⟨1, 1⟩, unit := some namedUnit, argCount := 0
    hasKeywords := true, method := none, owner := none, targetClass := .null, boundary := true
    block := .nil }

def namedContext : Context := { stack := #[.nil, .object ⟨2, 1⟩, .nil], frames := #[namedFrame] }

def namedObjects : List Object :=
  [{ classHandle := .null
     content := .proc { unit := namedUnit, upper := none, env := none, targetClass := .null,
                        strict := true } },
    { classHandle := .null
      content := .hash (.ofPairs (KeyDigest.ofValue fun _ => none) namedArgs.keywords) }]

/-- A machine with the method and the keyword hash. -/
def namedMachine : Machine := .ofObjects namedObjects namedContext

theorem namedMachine_collectedIfDue : namedMachine.collectedIfDue = namedMachine := by
  have notDue : namedMachine.heap.isDue = false := rfl
  rw [Machine.collectedIfDue, notDue]
  rfl

/-- Both names have symbols from the start. -/
theorem namedMachine_spells :
    namedMachine.symbols.Spells namedArgs.keywords namedKeywords := by
  have seen : SymbolTable.initial.Holds (SymbolTable.namesSeen []) :=
    (SymbolTable.internEach_initial []).2
  have first : SymbolTable.initial.lookup? (Text.utf8 "message") = some .message := by
    rw [seen.symbols]
    decide +kernel
  have second : SymbolTable.initial.lookup? (Text.utf8 "exception") = some .exception := by
    rw [seen.symbols]
    decide +kernel
  exact .cons ⟨_, second, rfl⟩ (.cons ⟨_, first, rfl⟩ .nil)

theorem namedMachine_receives :
    namedMachine.Receives namedContext namedFrame [] true namedArgs where
  runs := by
    refine Machine.ofObjects_runsOn (by decide) fun frame member handle holds => ?_
    obtain rfl := List.mem_singleton.mp member
    rcases holds with isProc | isEnv
    · cases isProc
      exact ⟨_, rfl⟩
    · cases isEnv
  top := rfl
  strictness := rfl
  holds := ⟨rfl, ⟨⟨2, 1⟩, _, _, rfl, rfl, rfl, by decide⟩, rfl⟩
  positional value member := nomatch member
  keys pair member := by
    rcases List.mem_cons.mp member with rfl | member
    · exact fun handle => nofun
    · obtain rfl := List.mem_singleton.mp member
      exact fun handle => nofun

/-- Both keywords are handed out, and nothing is left. -/
theorem bodies_hand_out_keywords_both :
    namedMachine.collectedIfDue.Receives namedContext namedFrame [] true namedArgs ∧
      namedMachine.symbols.Spells namedArgs.keywords namedKeywords ∧
      ∃ entered, VM.Passes (.ofHosts #[] 0) 0 namedMachine entered ∧
        VM.HandsOut (.ofHosts #[] 0) 0 0 namedMachine.heap entered
          [(3, .true), (4, .int 5), (5, .int 6)] .accepted := by
  have executes : namedFrame.Executes namedUnit
      { op := .enter, operands := { a := 8 }, address := 0, next := 4 } .enter := ⟨rfl, rfl, rfl⟩
  have receives : namedMachine.collectedIfDue.Receives namedContext namedFrame [] true namedArgs := by
    rw [namedMachine_collectedIfDue]
    exact namedMachine_receives
  have reads : ∀ count ≤ (ArgSpec.ofOperand 8).optional,
      namedUnit.ReadsKeywords (4 + count * 3) namedSteps := by
    intro count few
    obtain rfl : count = 0 := Nat.le_zero.mp few
    exact namedUnit_readsKeywords
  have acceptable : true = true → ∀ effective,
      namedMachine.collectedIfDue.heap.Effective (.ofOperand 8) true
        (namedFrame.given namedContext (.ofOperand 8) namedArgs) effective →
      (ArgSpec.ofOperand 8).accepts effective.length = true := by
    rintro - effective (⟨isStrict, -⟩ | ⟨rfl, -⟩)
    · cases isStrict
    · decide
  refine ⟨receives, namedMachine_spells, ?_⟩
  obtain ⟨⟨entered, passes, -, handsOut⟩, -⟩ := bodies_hand_out_keywords receives executes
    (by decide) acceptable SymbolTable.Faithful.initial namedMachine_spells (by decide) reads
    (by decide) (by decide) (.ofHosts #[] 0) 0
  rw [namedMachine_collectedIfDue] at handsOut
  exact ⟨entered, passes, handsOut⟩

end RiteVm
