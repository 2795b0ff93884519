import Mathlib.Tactic.IntervalCases
import RiteVm.Proofs.Assembler.Labels
import RiteVm.Proofs.Assembler.Literals
import RiteVm.Proofs.Unwinding.Clauses

/-!
Contract: loading an integer, from the call of the assembler to the register.

Owns:
- what it means that an instruction only stores a value in a register of the running frame;
- that the instruction for an integer is accepted and stores exactly this integer;
- that it does so in a unit with the pool behind the call, which has at most one more entry.

The assembler, the bytes of the instruction and the interpreter each have their own view of the sign
of an operand. They are compared here by the integer that goes in and the one that comes out.
-/

namespace RiteVm

open RiteVm.Bytecode

/-- Only a slot of the running stack has changed, and the address in the frame on top. -/
structure Machine.Stores (machine next : Machine) (context after : Context) (frame : Frame)
    (below : List Frame) (index : Nat) (value : Value) : Prop where
  running : next.context? machine.current = some after
  stored : after.slot index = value
  slots : ∀ other ≠ index, after.slot other = context.slot other
  frames : after.activations = frame :: below
  context : after = { context with stack := after.stack, frames := after.frames }
  contexts : ∀ id ≠ machine.current, next.context? id = machine.context? id
  machine : next = { machine with contexts := next.contexts }

/-- Wherever an instruction stands in a unit that has at least the given literals, it stores a value
in a register of the frame that executes it and does nothing else. -/
def LoadsInto (op : Opcode) (operands : Operands) (pool : Array Literal) (register : Nat)
    (value : Value) : Prop :=
  ∀ (unit : CodeUnit) (before behind : List UInt8) (more : Array Literal) (machine : Machine)
    (context : Context) (frame : Frame) (below : List Frame) (engine : Engine) (stop : Nat),
    unit.code = (before ++ Instruction.encode op operands ++ behind).toArray →
    unit.pool = pool ++ more →
    machine.context? machine.current = some context → context.activations = frame :: below →
    frame.unit = some unit → frame.pc = before.length →
    ∃ next after, VM.step engine stop machine = .ok none next ∧
      machine.Stores next context after { frame with pc := frame.pc + op.width } below
        (frame.base + register) value

variable {machine : Machine} {context : Context} {frame : Frame} {below : List Frame}
  {op : Opcode} {operands : Operands} {pool : Array Literal} {register : Nat} {value : Value}

/-! ### The machine -/

theorem Machine.context?_modifyContext_of_ne {id other : ContextId} (isOther : other ≠ id)
    (change : Context → Context) :
    (machine.modifyContext id change).context? other = machine.context? other := by
  have apart : id.index ≠ other.index := fun same =>
    isOther (ContextId.mk.injEq _ _ ▸ same.symm)
  rw [context?, context?, modifyContext, Array.getElem?_modify, if_neg apart]

/-- Storing a value with the frame on top at another address. -/
theorem Machine.stores_setSlot (running : machine.context? machine.current = some context)
    (top : context.activations = frame :: below) (pc index : Nat) (value : Value) :
    ∃ after, machine.Stores
      ((machine.fetched pc).modifyContext machine.current (·.setSlot index value)) context after
      { frame with pc } below index value := by
  have moved := context?_modifyContext running (Context.modifyTop · fun frame => { frame with pc })
  refine ⟨(context.modifyTop fun frame => { frame with pc }).setSlot index value, ?_⟩
  constructor
  case running =>
    change (machine.fetched pc).context? (machine.fetched pc).current = _ at moved
    exact context?_modifyContext moved _
  case stored => exact Context.slot_setSlot _ _ _
  case slots =>
    intro other isOther
    rw [Context.slot_setSlot_of_ne _ _ isOther]
    rfl
  case frames =>
    rw [Context.setSlot_eq]
    exact Context.activations_modify top _
  case context =>
    rw [Context.setSlot_eq]
    rfl
  case contexts =>
    intro id isOther
    rw [context?_modifyContext_of_ne isOther]
    exact context?_modifyContext_of_ne isOther _
  case machine => rfl

/-- An instruction that stores a value when it is executed does so from its bytes. -/
theorem loadsInto_of_execute (kept : op.layout.truncate operands = operands)
    (executes : ∀ (surroundings : VM.Surroundings) (instruction : Instruction)
      (more : Array Literal) (machine : Machine), surroundings.unit.pool = pool ++ more →
      instruction.op = op → instruction.operands = operands →
      VM.execute surroundings instruction machine =
        .ok none (machine.modifyContext machine.current
          (·.setSlot (surroundings.frame.base + register) value))) :
    LoadsInto op operands pool register value := by
  intro unit before behind more machine context frame below engine stop code isPool running top
    isUnit address
  have decoded := instructionAt?_encode before behind op operands
  rw [← code, ← address, kept] at decoded
  obtain ⟨after, stores⟩ := Machine.stores_setSlot running top (frame.pc + op.width)
    (frame.base + register) value
  refine ⟨_, after, ?_, stores⟩
  rw [VM.step_of_frame (Query.frame_of_running running top) isUnit decoded]
  exact executes _ _ more _ isPool rfl rfl

namespace Bytecode.Assembler

variable {assembler : Assembler} {number : Int} {rest : List Nat}

/-! ### The assembler -/

theorem emit_of_limits (assembler : Assembler) {values : List Nat}
    (count : values.length = op.layout.arity) (noJump : op.jumpOperand? = none)
    (within : ∀ value limit, (value, limit) ∈
      values.zip [op.layout.limits.a, op.layout.limits.b, op.layout.limits.c] → value ≤ limit) :
    assembler.emit op values = .ok (assembler.push op (.plain op (operandsOf values))) := by
  unfold emit
  dsimp only
  rw [if_neg (not_not_intro count), noJump, if_neg (by simp)]
  split
  · next value limit isBeyond =>
      have fits := within value limit (List.mem_of_find?_eq_some isBeyond)
      have beyond := List.find?_some isBeyond
      simp only [decide_eq_true_eq] at beyond
      omega
  · rfl

theorem layout_of_small : ∀ op ∈ smallIntOpcodes, op.layout = .b ∧ op.jumpOperand? = none := by
  decide

/-- The instruction that holds an integer is accepted for each register of one byte. -/
theorem HoldsInt.emits (holds : HoldsInt number op rest) (isRegister : register ≤ 255)
    (assembler : Assembler) : assembler.emit op (register :: rest) =
      .ok (assembler.push op (.plain op (operandsOf (register :: rest)))) := by
  cases holds with
  | small low isOp =>
      obtain ⟨layout, noJump⟩ := layout_of_small op (List.mem_of_getElem? isOp)
      refine emit_of_limits assembler (by rw [layout]; rfl) noJump ?_
      rw [layout]
      simpa [Layout.limits] using isRegister
  | byte | negByte | short | word =>
      refine emit_of_limits assembler rfl rfl ?_
      simp [Opcode.layout, Layout.limits]
      omega

theorem emit_literal (assembler : Assembler) {index : Nat} (isRegister : register ≤ 255)
    (inReach : index ≤ 255) : assembler.emit .loadLiteral [register, index] =
      .ok (assembler.push .loadLiteral (.plain .loadLiteral (operandsOf [register, index]))) := by
  refine emit_of_limits assembler rfl rfl ?_
  simp [Opcode.layout, Layout.limits]
  omega

/-! ### The interpreter -/

/-- A word is read back from its halves. -/
theorem word_of_halves (low : -2147483648 ≤ number) (high : number ≤ 2147483647) :
    Int.bmod (((number % 4294967296).toNat / 65536 : Nat) * 65536 +
      ((number % 4294967296).toNat % 65536 : Nat)) 4294967296 = number := by
  have whole : (((number % 4294967296).toNat / 65536 : Nat) * 65536 +
      ((number % 4294967296).toNat % 65536 : Nat) : Int) = number % 4294967296 := by omega
  calc Int.bmod (((number % 4294967296).toNat / 65536 : Nat) * 65536 +
      ((number % 4294967296).toNat % 65536 : Nat)) 4294967296
    _ = Int.bmod (number % 4294967296) 4294967296 := by rw [whole]
    _ = Int.bmod number 4294967296 := Int.emod_bmod number 4294967296
    _ = number := Int.bmod_eq_of_le low (Int.lt_of_le_of_lt high (by decide))

/-- The end of an instruction that stores an integer. -/
theorem set_of_eq (base register : Nat) {stored value : Int64} (same : stored = value) :
    (do VM.setRegister base register (.int stored); return none : VM (Option Exit)) machine =
      .ok none (machine.modifyContext machine.current
        (·.setSlot (base + register) (.int value))) := by
  rw [same]
  rfl

/-- The instruction that holds an integer stores it. -/
theorem HoldsInt.executes {value : Int64} (holds : HoldsInt value.toInt op rest)
    (surroundings : VM.Surroundings) {instruction : Instruction} (machine : Machine)
    (isOp : instruction.op = op) (given : instruction.operands = operandsOf (register :: rest)) :
    VM.execute surroundings instruction machine =
      .ok none (machine.modifyContext machine.current
        (·.setSlot (surroundings.frame.base + register) (.int value))) := by
  obtain ⟨engine, stop, frame, unit⟩ := surroundings
  obtain ⟨_, _, address, next⟩ := instruction
  obtain rfl : _ = op := isOp
  obtain rfl : _ = operandsOf (register :: rest) := given
  have isValue : Int64.ofInt value.toInt = value := Int64.ofInt_toInt value
  generalize value.toInt = number at holds isValue
  subst isValue
  cases holds with
  | small low isOp =>
      have short : (number + 1).toNat < 9 := (List.getElem?_eq_some_iff.mp isOp).1
      have high : number ≤ 7 := by omega
      interval_cases number
      all_goals cases isOp
      all_goals rfl
  | byte low high =>
      have isNumber : Int64.ofNat number.toNat = Int64.ofInt number := by
        rw [← Int64.ofInt_eq_ofNat, Int.toNat_of_nonneg (by omega)]
      exact set_of_eq _ _ isNumber
  | negByte low high =>
      have isNumber : -Int64.ofNat (-number).toNat = Int64.ofInt number := by
        rw [← Int64.ofInt_eq_ofNat, Int.toNat_of_nonneg (by omega), ← Int64.ofInt_neg, Int.neg_neg]
      exact set_of_eq _ _ isNumber
  | short low high =>
      have isNumber := signed16_of_distance low high
      rw [Nat.mod_eq_of_lt (by omega)] at isNumber
      exact set_of_eq _ _ (congrArg Int64.ofInt isNumber)
  | word low high => exact set_of_eq _ _ (congrArg Int64.ofInt (word_of_halves low high))

/-- The instruction that reads the pool stores the integer at its index. -/
theorem executes_loadLiteral {value : Int64} {index : Nat} (surroundings : VM.Surroundings)
    {instruction : Instruction} (machine : Machine) (isOp : instruction.op = .loadLiteral)
    (given : instruction.operands = operandsOf [register, index])
    (isEntry : surroundings.unit.pool[index]? = some (.int value)) :
    VM.execute surroundings instruction machine =
      .ok none (machine.modifyContext machine.current
        (·.setSlot (surroundings.frame.base + register) (.int value))) := by
  obtain ⟨engine, stop, frame, unit⟩ := surroundings
  obtain ⟨_, _, address, next⟩ := instruction
  obtain rfl : _ = Opcode.loadLiteral := isOp
  obtain rfl : _ = operandsOf [register, index] := given
  have read : VM.unitLiteral unit index machine = .ok (.int value) machine := by
    rw [VM.unitLiteral, isEntry]
    rfl
  change (VM.unitLiteral unit index >>= fun loaded => do
    VM.setRegister frame.base register loaded
    return none) machine = _
  rw [VM.bind_of_ok read]
  rfl

/-! ### Both -/

theorem HoldsInt.loadsInto {value : Int64} (holds : HoldsInt value.toInt op rest)
    (isRegister : register ≤ 255) (pool : Array Literal) :
    LoadsInto op (operandsOf (register :: rest)) pool register (.int value) := by
  refine loadsInto_of_execute (of_emit (holds.emits isRegister default)).2.2 ?_
  intro surroundings instruction _ machine _ isOp given
  exact holds.executes surroundings machine isOp given

theorem loadsInto_loadLiteral {value : Int64} {index : Nat} (isRegister : register ≤ 255)
    (inReach : index ≤ 255) (isEntry : pool[index]? = some (.int value)) :
    LoadsInto .loadLiteral (operandsOf [register, index]) pool register (.int value) := by
  refine loadsInto_of_execute (of_emit (emit_literal default isRegister inReach)).2.2 ?_
  intro surroundings instruction more machine isPool isOp given
  obtain ⟨inside, -⟩ := Array.getElem?_eq_some_iff.mp isEntry
  refine executes_loadLiteral surroundings machine isOp given ?_
  rw [isPool]
  exact (Array.getElem?_append_left inside).trans isEntry

/-- Loading an integer is exact. In each state of an assembler with room in the pool, the call
issues one instruction, whose execution stores this integer in the register and changes no other.
The pool has one more entry at most, and none for an integer of 32 bits. -/
theorem loadInt_exact (assembler : Assembler) (value : Int64) (isRegister : register ≤ 255)
    (room : assembler.pool.size < 256) :
    ∃ next op operands, assembler.loadInt register value = .ok next ∧
      next = { assembler.push op (.plain op operands) with pool := next.pool } ∧
      (next.pool = assembler.pool ∨
        ¬FitsWord value.toInt ∧ next.pool = assembler.pool.push (.int value)) ∧
      LoadsInto op operands next.pool register (.int value) := by
  rcases assembler.loadInt_cases register value with ⟨-, op, rest, holds, emits⟩ | ⟨tooLarge, emits⟩
  · exact ⟨_, op, operandsOf (register :: rest), emits.trans (holds.emits isRegister assembler),
      rfl, .inl rfl, holds.loadsInto isRegister _⟩
  · obtain ⟨entry, isEntry, standsFor⟩ := (holds_literal assembler (.int value)).entry
    cases standsFor
    rcases assembler.literal_cases (.int value) with ⟨index, inside, isEntered⟩ | isEntered
    · rw [isEntered] at emits isEntry
      have inReach : index ≤ 255 := by omega
      exact ⟨_, .loadLiteral, operandsOf [register, index],
        emits.trans (emit_literal assembler isRegister inReach), rfl, .inl rfl,
        loadsInto_loadLiteral isRegister inReach isEntry⟩
    · rw [isEntered] at emits isEntry
      have inReach : assembler.pool.size ≤ 255 := by omega
      exact ⟨_, .loadLiteral, operandsOf [register, assembler.pool.size],
        emits.trans (emit_literal _ isRegister inReach), rfl, .inr ⟨tooLarge, rfl⟩,
        loadsInto_loadLiteral isRegister inReach isEntry⟩

/-- A frame of four registers at the start of a unit. -/
def startingFrame (unit : CodeUnit) : Frame where
  base := 0
  top := 4
  proc := none
  unit := some unit
  argCount := 0
  hasKeywords := false
  method := none
  owner := none
  targetClass := .null
  boundary := true
  block := .nil

/-- A machine with this frame only. -/
def startingMachine (unit : CodeUnit) : Machine :=
  { Machine.empty {} with
    contexts := #[some { stack := #[.nil, .true, .nil, .nil], frames := #[startingFrame unit] }] }

/-- An integer of 41 bits is loaded from the second entry of the pool. -/
theorem loadInt_exact_large :
    ∃ next op operands, loadInt { localCount := 1, registerCount := 4, pool := #[.string #[]] } 3
        0x10000000000 = .ok next ∧
      next.pool = #[.string #[], .int 0x10000000000] ∧
      ∃ after, VM.step (.ofHosts #[] 1) 0 (startingMachine
          { localCount := 1, registerCount := 4, handlers := [], symbols := #[], children := []
            code := (Instruction.encode op operands).toArray, pool := next.pool }) =
          .ok none after ∧
        after.slot? 3 = some (.int 0x10000000000) ∧ after.slot? 1 = some .true := by
  obtain ⟨next, op, operands, loaded, -, -, loads⟩ := loadInt_exact
    { localCount := 1, registerCount := 4, pool := #[.string #[]] } 0x10000000000
    (show 3 ≤ 255 by decide) (by decide)
  refine ⟨next, op, operands, loaded, ?_, ?_⟩
  · have isPool : (loadInt { localCount := 1, registerCount := 4, pool := #[.string #[]] } 3
        0x10000000000).toOption.map (·.pool) = some #[.string #[], .int 0x10000000000] := by
      decide +kernel
    rw [loaded] at isPool
    exact Option.some.inj isPool
  · let unit : CodeUnit :=
      { localCount := 1, registerCount := 4, handlers := [], symbols := #[], children := []
        code := (Instruction.encode op operands).toArray, pool := next.pool }
    obtain ⟨after, context, stepped, stores⟩ := loads unit [] [] #[] (startingMachine unit) _
      (startingFrame unit) [] (.ofHosts #[] 1) 0 (by simp [unit]) (by simp [unit]) rfl rfl rfl rfl
    have running : after.context? after.current = some context := by
      rw [stores.machine]
      exact stores.running
    refine ⟨after, stepped, ?_, ?_⟩
    · rw [Machine.slot?, running]
      exact congrArg some stores.stored
    · rw [Machine.slot?, running]
      exact congrArg some (stores.slots 1 (show 1 ≠ 0 + 3 by decide))

end Bytecode.Assembler

end RiteVm
