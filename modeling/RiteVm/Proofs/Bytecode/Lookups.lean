import RiteVm.Proofs.Bytecode.Questions

/-!
Contract: the table entries that an instruction looks up.

Owns:
- entries of the tables of a code unit, and the fault of a missing one;
- the entries that an instruction looks up, as its execution shows them;
- the list of these entries for each opcode.

An instruction looks an entry up if some execution of it, without the fault of anything
that it starts, fails for want of the entry. `looksUp_iff_mem` says that the list has
exactly these entries, so what the machine does is compared with the list only once.
-/

namespace RiteVm

open RiteVm.Bytecode

namespace Bytecode

/-- An entry in a table of a code unit. -/
inductive TableEntry where
  | symbol (index : Nat)
  /-- an entry of the pool that has to be a string -/
  | text (index : Nat)
  | literal (index : Nat)
  | child (index : Nat)
deriving DecidableEq, Repr

namespace TableEntry

/-- The fault of a unit that does not have an entry. -/
def cause : TableEntry → FatalCause
  | symbol index => .unnamedSymbol index
  | text index => .noStringLiteral index
  | literal index => .poolIndex index
  | child index => .childIndex index

/-- A unit has an entry. The symbol may be a slot without a name. -/
def Exists (unit : CodeUnit) : TableEntry → Prop
  | symbol index => index < unit.symbols.size
  | text index => (unit.stringLiteral? index).isSome
  | literal index => index < unit.pool.size
  | child index => index < unit.children.length

/-- A unit has an entry that can be read. -/
def Readable (unit : CodeUnit) : TableEntry → Prop
  | symbol index => (unit.symbol? index).isSome
  | entry => entry.Exists unit

theorem isCodeFault_cause (entry : TableEntry) : (Failure.fatal entry.cause).isCodeFault := by
  cases entry <;> rfl

theorem cause_injective {first second : TableEntry} (same : first.cause = second.cause) :
    first = second := by
  cases first <;> cases second <;> cases same <;> rfl

/-- An entry that is there can be read, unless it is a symbol without a name. -/
theorem Exists.readable_or {unit : CodeUnit} {entry : TableEntry} (isThere : entry.Exists unit) :
    entry.Readable unit ∨
      ∃ index, entry = .symbol index ∧ unit.symbols[index]? = some none := by
  cases entry with
  | symbol index =>
      obtain ⟨name?, isName⟩ : ∃ name?, unit.symbols[index]? = some name? :=
        ⟨_, Array.getElem?_eq_getElem isThere⟩
      cases name? with
      | none => exact .inr ⟨index, rfl, isName⟩
      | some name =>
          refine .inl ?_
          rw [Readable, CodeUnit.symbol?, isName]
          rfl
  | text | literal | child => exact .inl isThere

end TableEntry

/-- The table entries that an instruction refers to, in the order in which it reads them. -/
def Instruction.entries (instruction : Instruction) : List TableEntry :=
  match instruction.op with
  | .loadLiteral => [.literal instruction.operands.b]
  | .string | .symbol => [.text instruction.operands.b]
  | .raiseJumpError => [.text instruction.operands.a]
  | .loadSymbol | .getGlobal | .setGlobal | .getSpecial | .setSpecial
  | .getInstanceVar | .setInstanceVar | .getClassVar | .setClassVar
  | .getConst | .setConst | .getScopedConst | .setScopedConst
  | .sendSelf | .sendSelfBlock | .send | .sendBlock | .keyPresent | .keyArg
  | .defineMethod | .openClass | .openModule => [.symbol instruction.operands.b]
  | .aliasMethod => [.symbol instruction.operands.a, .symbol instruction.operands.b]
  | .undefMethod => [.symbol instruction.operands.a]
  | .lambda | .block | .method | .exec => [.child instruction.operands.b]
  | _ => []

/-- Whether an opcode extends the operands of the next instruction. -/
def Opcode.isExtension (op : Opcode) : Bool := op == .ext1 || op == .ext2 || op == .ext3

/-- The faults of a unit that the execution of an instruction can meet. -/
def Instruction.faults (instruction : Instruction) (unit : CodeUnit) : Set Failure :=
  {failure | (∃ entry ∈ instruction.entries, failure = .fatal entry.cause ∧ ¬ entry.Readable unit) ∨
    (instruction.op.isExtension ∧ failure = .fatal (.unsupportedPrefix instruction.op))}

end Bytecode

namespace VM

set_option synthInstance.maxSize 3000

/-! ### Reading the tables -/

section Reading

variable {unit : CodeUnit} {instruction : Instruction} {α : Type}

theorem FaultsOnly.of_missing {entry : TableEntry} (looked : entry ∈ instruction.entries)
    (missing : ¬ entry.Readable unit) :
    FaultsOnly (instruction.faults unit) (fatal entry.cause : VM α) :=
  .of_failure fun _ => .inl ⟨entry, looked, rfl, missing⟩

theorem FaultsOnly.unitSymbol {index : Nat} (looked : .symbol index ∈ instruction.entries) :
    FaultsOnly (instruction.faults unit) (unitSymbol unit index) := by
  unfold VM.unitSymbol
  split
  · infer_instance
  · rename_i missing
    exact .of_missing looked (by simp [TableEntry.Readable, missing])

theorem FaultsOnly.unitString {index : Nat} (looked : .text index ∈ instruction.entries) :
    FaultsOnly (instruction.faults unit) (unitString unit index) := by
  unfold VM.unitString
  split
  · infer_instance
  · rename_i missing
    exact .of_missing looked (by simp [TableEntry.Readable, TableEntry.Exists, missing])

theorem FaultsOnly.unitChild {index : Nat} (looked : .child index ∈ instruction.entries) :
    FaultsOnly (instruction.faults unit) (unitChild unit index) := by
  unfold VM.unitChild
  split
  · infer_instance
  · rename_i missing
    exact .of_missing looked (by simpa [TableEntry.Readable, TableEntry.Exists] using missing)

theorem FaultsOnly.unitLiteral {index : Nat} (looked : .literal index ∈ instruction.entries) :
    FaultsOnly (instruction.faults unit) (unitLiteral unit index) := by
  unfold VM.unitLiteral
  split
  · infer_instance
  · infer_instance
  · infer_instance
  · rename_i missing
    exact .of_missing looked (by simpa [TableEntry.Readable, TableEntry.Exists] using missing)

theorem FaultsOnly.executeBody (base register : Nat) {index : Nat}
    (looked : .child index ∈ instruction.entries) :
    FaultsOnly (instruction.faults unit) (executeBody base register unit index) := by
  have reads := @FaultsOnly.unitChild unit instruction index looked
  unfold VM.executeBody
  infer_instance

end Reading

/-- An instruction only meets faults of the entries it refers to, and of a prefix. -/
theorem FaultsOnce.execute (stop : Nat) (frame : Frame) (unit : CodeUnit) (instruction : Instruction) :
    FaultsOnce (instruction.faults unit) fun engine =>
      execute { engine, stop, frame, unit } instruction := by
  obtain ⟨op, ⟨a, b, c⟩, address, next⟩ := instruction
  have symbol (index : Nat) := @FaultsOnly.unitSymbol unit ⟨op, ⟨a, b, c⟩, address, next⟩ index
  have text (index : Nat) := @FaultsOnly.unitString unit ⟨op, ⟨a, b, c⟩, address, next⟩ index
  have child := @FaultsOnly.unitChild unit ⟨op, ⟨a, b, c⟩, address, next⟩ b
  unfold VM.execute
  dsimp only
  cases op <;> dsimp only
  case loadLiteral =>
    have reads := @FaultsOnly.unitLiteral unit ⟨.loadLiteral, ⟨a, b, c⟩, address, next⟩ b (.head _)
    infer_instance
  case string | symbol =>
    have reads := text b (.head _)
    infer_instance
  case raiseJumpError =>
    have reads := text a (.head _)
    infer_instance
  case loadSymbol | getGlobal | setGlobal | getSpecial | setSpecial | getInstanceVar
      | setInstanceVar | getClassVar | setClassVar | getConst | setConst | getScopedConst
      | setScopedConst | sendSelf | sendSelfBlock | send | sendBlock | keyPresent | keyArg
      | defineMethod | openClass | openModule =>
    have reads := symbol b (.head _)
    infer_instance
  case aliasMethod =>
    have readsNew := symbol a (.head _)
    have readsOld := symbol b (.tail _ (.head _))
    infer_instance
  case undefMethod =>
    have reads := symbol a (.head _)
    infer_instance
  case lambda | block | method =>
    have reads := child (.head _)
    infer_instance
  case exec =>
    have runs := @FaultsOnly.executeBody unit ⟨.exec, ⟨a, b, c⟩, address, next⟩ frame.base a b (.head _)
    infer_instance
  case ext1 | ext2 | ext3 =>
    exact @FaultsOnce.ofAlone _ _ _ (.of_failure fun _ => .inr ⟨rfl, rfl⟩)
  -- no other instruction refers to an entry
  all_goals infer_instance

end VM

/-! ### What an instruction looks up -/

/-- Some execution of an instruction fails for want of an entry, though nothing that it starts
does. -/
def Bytecode.Instruction.LooksUp (instruction : Instruction) (entry : TableEntry) : Prop :=
  ∃ (surroundings : VM.Surroundings) (machine next : Machine),
    VM.execute surroundings instruction machine = .error (.fatal entry.cause) next ∧
      ∀ place start, ¬ surroundings.engine.FailsAt (.fatal entry.cause) place start

namespace VM

/-- The surroundings of an instruction of a unit, where nothing can be started. -/
def Surroundings.idle (unit : CodeUnit) : Surroundings where
  engine := .ofHosts #[] 0
  stop := 0
  frame :=
    { base := 0, top := 0, proc := none, unit := some unit, argCount := 0, hasKeywords := false
      method := none, owner := none, targetClass := .null, boundary := false, block := .nil }
  unit := unit

theorem Surroundings.not_failsAt_idle (unit : CodeUnit) (entry : TableEntry) (place : Place)
    (start : Machine) : ¬ (idle unit).engine.FailsAt (.fatal entry.cause) place start := by
  cases place with
  | host => exact id
  | loop | native => exact fun ⟨_, failed⟩ => nomatch failed

/-- A machine without frames, on whose stack a class lies in every register up to one. -/
def holdingClass (register : Nat) : Machine :=
  let created := (Machine.empty {}).heap.allocate
    { classHandle := .null
      content := .classOrModule { kind := .ordinary, superclass := none, instances := .special } }
  { Machine.empty {} with
    heap := created.1
    contexts := #[some { stack := Array.replicate (register + 1) (.object created.2) }] }

/-- In front of an entry that the unit does not have, the execution of a class body finds the
class. -/
theorem executeBody_missing (register index : Nat) :
    executeBody 0 register default index (holdingClass register) =
      .error (.fatal (.childIndex index)) (holdingClass register) := by
  have isClass : Query.register 0 register (holdingClass register) =
      .ok (.object ⟨1, 1⟩) := by
    have inside : (Array.replicate (register + 1) (Value.object ⟨1, 1⟩)).getD (0 + register) .nil =
        .object ⟨1, 1⟩ := by simp
    exact congrArg Except.ok inside
  have expected : expectModule (.object ⟨1, 1⟩) (holdingClass register) =
      .ok ⟨1, 1⟩ (holdingClass register) := rfl
  rw [executeBody, bind_of_ok (liftM_of_ok isClass), bind_of_ok expected]
  rfl

/-- A unit in which each symbol up to one has a name, except for another one. -/
def unitNaming (named unnamed : Nat) : CodeUnit :=
  { (default : CodeUnit) with
    symbols := (Array.replicate (named + 1) (some #[])).setIfInBounds unnamed none }

theorem symbol?_unitNaming {named unnamed : Nat} (isOther : named ≠ unnamed) :
    (unitNaming named unnamed).symbol? named = some #[] ∧
      (unitNaming named unnamed).symbol? unnamed = none := by
  rw [CodeUnit.symbol?, CodeUnit.symbol?, unitNaming]
  constructor
  · rw [Array.getElem?_setIfInBounds_ne isOther.symm]
    simp
  · rw [Array.getElem?_setIfInBounds_self]
    split <;> rfl

/-- Every entry that an instruction refers to is missed by some execution. -/
theorem looksUp_of_mem {instruction : Instruction} {entry : TableEntry}
    (looked : entry ∈ instruction.entries) : instruction.LooksUp entry := by
  obtain ⟨op, ⟨a, b, c⟩, address, next⟩ := instruction
  have missing (unit : CodeUnit) (machine next' : Machine)
      (fails : execute (.idle unit) ⟨op, ⟨a, b, c⟩, address, next⟩ machine =
        .error (.fatal entry.cause) next') :
      Instruction.LooksUp ⟨op, ⟨a, b, c⟩, address, next⟩ entry :=
    ⟨.idle unit, machine, next', fails, Surroundings.not_failsAt_idle unit entry⟩
  cases op
  case loadLiteral | string | symbol | raiseJumpError | undefMethod | lambda | block | method
      | loadSymbol | getGlobal | setGlobal | getSpecial | setSpecial | getInstanceVar
      | setInstanceVar | getClassVar | setClassVar | getConst | setConst | getScopedConst
      | setScopedConst | sendSelf | sendSelfBlock | send | sendBlock | keyPresent | keyArg
      | defineMethod | openClass | openModule =>
    -- the entry is the first thing that is looked at
    obtain rfl := List.mem_singleton.mp looked
    exact missing default default default rfl
  case aliasMethod =>
    rcases List.mem_pair.mp looked with rfl | rfl
    · exact missing default default default rfl
    · by_cases isOther : a = b
      · subst isOther
        exact missing default default default rfl
      · -- the new name has to be there for the old one to be looked up
        obtain ⟨isNamed, isUnnamed⟩ := symbol?_unitNaming isOther
        have readsNew : unitSymbol (unitNaming a b) a default = intern #[] default := by
          rw [unitSymbol, isNamed]
        have missesOld (machine : Machine) : unitSymbol (unitNaming a b) b machine =
            .error (.fatal (.unnamedSymbol b)) machine := by
          rw [unitSymbol, isUnnamed]
          rfl
        refine missing (unitNaming a b) default ((intern #[]).after default) ?_
        exact bind_of_error ((bind_of_ok readsNew).trans (bind_of_error (missesOld _)))
  case exec =>
    obtain rfl := List.mem_singleton.mp looked
    refine missing default (holdingClass a) (holdingClass a) ?_
    exact bind_of_error (executeBody_missing a b)
  all_goals exact absurd looked List.not_mem_nil

/-- An instruction looks up exactly the entries that it refers to. -/
theorem looksUp_iff_mem {instruction : Instruction} {entry : TableEntry} :
    instruction.LooksUp entry ↔ entry ∈ instruction.entries := by
  refine ⟨?_, looksUp_of_mem⟩
  rintro ⟨⟨engine, stop, frame, unit⟩, machine, next, failed, notStarted⟩
  obtain ⟨place, start, -, mem⟩ :=
    (FaultsOnce.execute stop frame unit instruction).exists_faultsAt machine
  rcases mem engine _ next failed entry.isCodeFault_cause with (given | extension) | answered
  · obtain ⟨other, looked, same, -⟩ := given
    rw [TableEntry.cause_injective (Failure.fatal.inj same)]
    exact looked
  · exact absurd extension.2 (by cases entry <;> exact nofun)
  · exact absurd answered (notStarted place start)

end VM

end RiteVm
