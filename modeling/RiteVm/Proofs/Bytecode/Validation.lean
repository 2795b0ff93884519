import RiteVm.Bytecode.Validation
import RiteVm.Proofs.Binary.Layouts
import RiteVm.Proofs.Bytecode.Encoding
import RiteVm.Proofs.Bytecode.Lookups

/-!
Contract: the check of a tree accepts exactly the well-formed trees.

Owns:
- well-formed units, whose entries are those that the machine looks up;
- what each part of the check finds, and what the whole of it finds in a tree;
- instructions of accepted units, which meet no fault of their unit.

Does not own: where a run goes. A jump may lead into the middle of an instruction, so that a
run comes to instructions that the check has not seen.
-/

namespace RiteVm

open RiteVm.Bytecode

namespace Bytecode.CodeUnit

/-- A unit whose instructions tile its code, extend no operands, jump inside the code and find
what they look up, and whose handlers lie inside the code. -/
structure WellFormed (unit : CodeUnit) : Prop where
  tiles : Tiles 0 (instructions unit.code) unit.code.size
  plain : ∀ instruction ∈ instructions unit.code, ¬ instruction.op.isExtension
  /-- a jump may lead to the end of the code -/
  jumps : ∀ instruction ∈ instructions unit.code, ∀ target,
    instruction.jumpTarget? = some target → 0 ≤ target ∧ target ≤ unit.code.size
  entries : ∀ instruction ∈ instructions unit.code, ∀ entry,
    instruction.LooksUp entry → entry.Exists unit
  handlers : ∀ handler ∈ unit.handlers, handler.first.toNat ≤ handler.last.toNat ∧
    handler.last.toNat ≤ unit.code.size ∧ handler.target.toNat < unit.code.size

variable {unit : CodeUnit} {instruction : Instruction}

/-! ### The parts of the check -/

theorem operandFault?_eq_none_iff : unit.operandFault? instruction = none ↔
    ¬ instruction.op.isExtension ∧ ∀ entry ∈ instruction.entries, entry.Exists unit := by
  obtain ⟨op, ⟨a, b, c⟩, address, next⟩ := instruction
  cases op <;>
    simp [operandFault?, Instruction.entries, Opcode.isExtension, TableEntry.Exists,
      ← Option.isSome_iff_ne_none]

theorem jumpFault?_eq_none_iff : unit.jumpFault? instruction = none ↔
    ∀ target, instruction.jumpTarget? = some target → 0 ≤ target ∧ target ≤ unit.code.size := by
  rw [jumpFault?]
  cases instruction.jumpTarget? with
  | none => simp
  | some target => simp

theorem decodingFault?_eq_none_iff :
    unit.decodingFault? = none ↔ decodedEnd unit.code = unit.code.size := by
  have within := (tiles_decodedEnd unit.code).2.1
  simp only [decodingFault?]
  constructor
  · intro noFault
    split at noFault
    · rename_i behind
      have beyond := Array.getElem?_eq_none_iff.mp behind
      omega
    · split at noFault <;> exact nomatch noFault
  · intro complete
    rw [complete, Array.getElem?_size]

/-- The code has no fault if decoding comes to its end and no instruction has one. -/
theorem codeFault?_eq_none_iff : unit.codeFault? = none ↔
    (∀ instruction ∈ instructions unit.code, unit.operandFault? instruction = none ∧
      unit.jumpFault? instruction = none) ∧ decodedEnd unit.code = unit.code.size := by
  rw [codeFault?, Option.orElse_eq_none, decodingFault?_eq_none_iff]
  simp [instructionFault?]

theorem handlerFault?_eq_none_iff : unit.handlerFault? = none ↔
    ∀ handler ∈ unit.handlers, handler.first.toNat ≤ handler.last.toNat ∧
      handler.last.toNat ≤ unit.code.size ∧ handler.target.toNat < unit.code.size := by
  simp [handlerFault?, CatchHandler.fits, UInt32.le_iff_toNat_le, and_assoc]

/-- A unit passes the check if and only if it is well-formed. -/
theorem fault?_eq_none_iff :
    (unit.codeFault? <|> unit.handlerFault?) = none ↔ unit.WellFormed := by
  rw [Option.orElse_eq_none, codeFault?_eq_none_iff, handlerFault?_eq_none_iff]
  have tiles := (tiles_decodedEnd unit.code).1
  constructor
  · rintro ⟨⟨passes, complete⟩, handlers⟩
    refine
      { tiles := complete ▸ tiles
        plain := fun instruction member =>
          (operandFault?_eq_none_iff.mp (passes instruction member).1).1
        jumps := fun instruction member => jumpFault?_eq_none_iff.mp (passes instruction member).2
        entries := fun instruction member entry looks => ?_
        handlers }
    exact (operandFault?_eq_none_iff.mp (passes instruction member).1).2 entry
      (VM.looksUp_iff_mem.mp looks)
  · intro wellFormed
    refine ⟨⟨fun instruction member => ⟨operandFault?_eq_none_iff.mpr ?_, ?_⟩, ?_⟩,
      wellFormed.handlers⟩
    · refine ⟨wellFormed.plain instruction member, fun entry looked => ?_⟩
      exact wellFormed.entries instruction member entry (VM.looksUp_iff_mem.mpr looked)
    · exact jumpFault?_eq_none_iff.mpr (wellFormed.jumps instruction member)
    · exact tiles.last_eq.trans wellFormed.tiles.last_eq.symm

/-! ### The check of a tree -/

theorem EveryUnit.imp {property other : CodeUnit → Prop} {tree : CodeUnit}
    (every : tree.EveryUnit property) (implies : ∀ unit, property unit → other unit) :
    tree.EveryUnit other := by
  induction every with
  | tree holds _ inductionHypothesis => exact .tree (implies _ holds) inductionHypothesis

mutual

theorem validate_iff : ∀ tree : CodeUnit, tree.validate = .ok () ↔ tree.EveryUnit WellFormed
  | ⟨localCount, registerCount, code, handlers, pool, symbols, children⟩ => by
    have parts := validateAll_iff children
    have own := @fault?_eq_none_iff ⟨localCount, registerCount, code, handlers, pool, symbols, children⟩
    rw [validate]
    split
    · rename_i fault found
      refine ⟨nofun, ?_⟩
      rintro ⟨wellFormed, -⟩
      exact nomatch found.symm.trans (own.mpr wellFormed)
    · rename_i noFault
      refine ⟨fun passes => .tree (own.mp noFault) (parts.mp passes), ?_⟩
      rintro ⟨-, inside⟩
      exact parts.mpr inside

theorem validateAll_iff : ∀ trees : List CodeUnit,
    validateAll trees = .ok () ↔ ∀ tree ∈ trees, tree.EveryUnit WellFormed
  | [] => by simp [validateAll]
  | tree :: rest => by
    have first := validate_iff tree
    have others := validateAll_iff rest
    rw [validateAll, List.forall_mem_cons, ← first, ← others]
    cases tree.validate with
    | error fault => exact ⟨nofun, fun both => nomatch both.1⟩
    | ok _ => exact ⟨fun passes => ⟨rfl, passes⟩, And.right⟩

end

end Bytecode.CodeUnit

/-! ### Accepted instructions -/

/-- Whatever runs an instruction of the tiling of a unit, it never fails because of the unit,
but for symbols whose slot is there without a name. All other faults come from what the
instruction started. -/
def Bytecode.CodeUnit.RunsOnItsTables (unit : CodeUnit) : Prop :=
  ∀ instruction ∈ instructions unit.code, ∀ (engine : Engine) (stop : Nat) (machine next : Machine)
    (frame : Frame) (failure : Failure),
    Query.frame machine = .ok frame → frame.unit = some unit → frame.pc = instruction.address →
    VM.step engine stop machine = .error failure next → failure.isCodeFault →
    (∃ index, failure = .fatal (.unnamedSymbol index) ∧ unit.symbols[index]? = some none) ∨
      ∃ place start, engine.ComesTo (fun engine => VM.step engine stop) machine place start ∧
        engine.FailsAt failure place start

namespace VM

variable {engine : Engine} {machine next : Machine} {failure : Failure}

/-- An action that fails for a fault that is not its own has started what failed so. -/
theorem FaultsAt.comesTo {α : Type} {faults : Set Failure} {action : Engine → VM α} {place : Place}
    {start : Machine} (once : FaultsAt faults machine action place start)
    (failed : action engine machine = .error failure next) (isFault : failure.isCodeFault)
    (notOwn : failure ∉ faults) :
    engine.ComesTo action machine place start ∧ engine.FailsAt failure place start := by
  have answered (engine : Engine) (failed : action engine machine = .error failure next) :
      engine.FailsAt failure place start :=
    (once.mem engine failure next failed isFault).resolve_left notOwn
  -- an engine that does nothing does not fail so, and the action can tell
  have isIdle : ¬ (Engine.ofHosts #[] 0).FailsAt failure place start := by
    cases place with
    | host => exact id
    | loop | native =>
        rintro ⟨_, fails⟩
        cases fails
        exact nomatch isFault
  have differs : action (.ofHosts #[] 0) machine ≠ action engine machine :=
    fun same => isIdle (answered _ (same.trans failed))
  exact ⟨engine.comesTo_of_same once.same differs, answered engine failed⟩

end VM

/-- Every instruction of a well-formed unit finds what it looks up. -/
theorem Bytecode.CodeUnit.WellFormed.runsOnItsTables {unit : CodeUnit} (wellFormed : unit.WellFormed) :
    unit.RunsOnItsTables := by
  intro instruction member engine stop machine next frame failure isFrame isUnit isAddress failed isFault
  have decoded : instructionAt? unit.code frame.pc = some instruction := by
    rw [isAddress]
    exact instructionAt?_of_mem_instructionsFrom member
  have executes (engine : Engine) : VM.step engine stop machine =
      VM.execute { engine, stop, frame, unit } instruction (machine.fetched instruction.next) := by
    rw [VM.step, VM.bind_of_ok (VM.liftM_of_ok isFrame), isUnit]
    dsimp only
    rw [decoded]
    exact VM.bind_of_ok rfl
  obtain ⟨place, start, once⟩ :=
    (VM.FaultsOnce.execute stop frame unit instruction).exists_faultsAt (machine.fetched instruction.next)
  rw [executes] at failed
  by_cases own : failure ∈ instruction.faults unit
  · rcases own with ⟨entry, looked, rfl, unreadable⟩ | ⟨isExtension, -⟩
    · have isThere := wellFormed.entries instruction member entry (VM.looksUp_iff_mem.mpr looked)
      obtain ⟨index, rfl, isNameless⟩ := isThere.readable_or.resolve_left unreadable
      exact .inl ⟨index, rfl, isNameless⟩
    · exact absurd isExtension (wellFormed.plain instruction member)
  · obtain ⟨⟨engine', same, differs⟩, answered⟩ := once.comesTo failed isFault own
    refine .inr ⟨place, start, ⟨engine', same, fun equal => differs ?_⟩, answered⟩
    exact (executes engine').symm.trans (equal.trans (executes engine))

/-- The check accepts exactly the trees of well-formed units, and no instruction of the tiling of
an accepted unit fails for want of a table entry: a name may be missing in its slot, and all else
comes from what the instruction started. -/
theorem validate_accepts_well_formed (tree : CodeUnit) :
    (tree.validate = .ok () ↔ tree.EveryUnit CodeUnit.WellFormed) ∧
      (tree.validate = .ok () → tree.EveryUnit CodeUnit.RunsOnItsTables) := by
  have accepts := CodeUnit.validate_iff tree
  exact ⟨accepts, fun passes => (accepts.mp passes).imp fun _ => CodeUnit.WellFormed.runsOnItsTables⟩

/-- A tree with a region, a child, literals of every kind and a slot without a name. -/
theorem validate_accepts_well_formed_tabled :
    Binary.tabledUnit.validate = .ok () ∧ Binary.tabledUnit.EveryUnit CodeUnit.WellFormed ∧
      Binary.tabledUnit.EveryUnit CodeUnit.RunsOnItsTables := by
  have passes : Binary.tabledUnit.validate = .ok () := by decide +kernel
  have accepted := validate_accepts_well_formed Binary.tabledUnit
  exact ⟨passes, accepted.1.mp passes, accepted.2 passes⟩

end RiteVm
