import Mathlib.Data.List.Forall2
import RiteVm.Proofs.Assembler.Calls
import RiteVm.Proofs.Bytecode.Encoding

/-!
Contract: what a finished unit has of the calls that built it.

Owns:
- the addresses between the instructions of a sequence, as the widths before them give them;
- the distance of a jump, which leads back to the address of its label in both layouts;
- the unit that is built: its instructions are those that were issued, in order, every jump leads to
  the address of its label, and its handlers are the regions with the addresses of their labels;
- which operands reach the code as they were given: all of them, exactly if no conditional jump tests
  a register above 255.

Distances are filled in when all labels are known. No distance changes the width of an instruction,
so that the addresses found while issuing are those of the finished code. The assembler checks the
operands of an instruction against its layout and the distance of a jump when the labels are known,
but the register of a conditional jump goes into one byte without a check.
-/

namespace RiteVm.Bytecode

/-- Behind the front of a tiling the rest tiles on. -/
theorem Tiles.of_append {front rest : List Instruction} {first between last : Nat}
    (tiles : Tiles first (front ++ rest) last) (untilThere : Tiles first front between) :
    Tiles between rest last := by
  induction front generalizing first with
  | nil => exact untilThere ▸ tiles
  | cons instruction others inductionHypothesis =>
      exact inductionHypothesis tiles.2 untilThere.2

theorem Instruction.placed_take (program : List (Opcode × Operands)) (first count : Nat) :
    placed first (program.take count) = (placed first program).take count := by
  induction program generalizing first count with
  | nil => simp [placed]
  | cons head rest inductionHypothesis =>
      obtain ⟨op, operands⟩ := head
      cases count with
      | zero => rfl
      | succ count =>
          rw [List.take_succ_cons, placed, placed, List.take_succ_cons, inductionHypothesis]

namespace Assembler

/-! ### What a unit owes -/

/-- The address of a label, as a word of the catch table. -/
def WordOf (events : List Event) (label : Label) (word : UInt32) : Prop :=
  ∃ address, boundAt? label events = some address ∧ word = .ofNat address

/-- An instruction is what an item asks for. A jump leads to the address of its label, and a
conditional one tests the register that was given, cut to a byte. -/
inductive Item.DecodesTo (events : List Event) : Item → Instruction → Prop
  | plain {op : Opcode} {operands : Operands} {instruction : Instruction}
      (isOp : instruction.op = op) (given : instruction.operands = operands) :
      DecodesTo events (.plain op operands) instruction
  | jump {op : Opcode} {tested address : Nat} {label : Label} {instruction : Instruction}
      (isOp : instruction.op = op) (isBound : boundAt? label events = some address)
      (leads : instruction.jumpTarget? = some (address : Int))
      (tests : op.jumpOperand? = some .b → instruction.operands.a = tested % 256) :
      DecodesTo events (.jump op tested label) instruction

/-- A handler is what a region asks for. -/
structure Region.BecomesHandler (events : List Event) (region : Region) (handler : CatchHandler) :
    Prop where
  kind : handler.kind = region.kind
  first : WordOf events region.first handler.first
  last : WordOf events region.last handler.last
  target : WordOf events region.target handler.target

/-- A unit is what calls with the given events amount to. -/
structure Fulfils (unit : CodeUnit) (events : List Event) : Prop where
  /-- each instruction that was issued, in order, and nothing else -/
  decoded : List.Forall₂ (Item.DecodesTo events) (events.filterMap Event.item?)
    (instructions unit.code)
  complete : decodedEnd unit.code = unit.code.size
  /-- a label is bound behind the instructions issued before, at the end of their bytes -/
  bound : ∀ before label after, events = before ++ .bound label :: after →
    boundAt? label events = some (reach before) ∧
      Tiles 0 ((instructions unit.code).take (before.filterMap Event.item?).length) (reach before)
  /-- no label lies inside an instruction or outside of the code -/
  starts : ∀ label address, boundAt? label events = some address →
    address = unit.code.size ∨ ∃ instruction ∈ instructions unit.code, instruction.address = address
  handlers : List.Forall₂ (Region.BecomesHandler events) (events.filterMap Event.region?)
    unit.handlers

/-! ### Resolving -/

variable {assembler : Assembler} {events : List Event}

/-- A distance is read back from its sixteen bits. -/
theorem signed16_of_distance {distance : Int} (low : -32768 ≤ distance) (high : distance ≤ 32767) :
    signed16 ((distance % 65536).toNat % 65536) = distance := by
  have word : (((distance % 65536).toNat % 65536 : Nat) : Int) = distance % 65536 := by omega
  unfold signed16
  calc Int.bmod ((distance % 65536).toNat % 65536 : Nat) 65536
    _ = Int.bmod (distance % 65536) 65536 := by rw [word]
    _ = Int.bmod distance 65536 := Int.emod_bmod distance 65536
    _ = distance := Int.bmod_eq_of_le low (Int.lt_of_le_of_lt high (by decide))

theorem signedA_of_layout {op : Opcode} (isShort : op.layout = .s) (word : Nat) :
    (op.layout.truncate ⟨word, 0, 0⟩).signedA = signed16 (word % 65536) := by
  rw [isShort]
  rfl

theorem signedB_of_layout {op : Opcode} (isShort : op.layout = .bs) (tested word : Nat) :
    (op.layout.truncate ⟨tested, word, 0⟩).signedB = signed16 (word % 65536) := by
  rw [isShort]
  rfl

theorem Records.addressOf (records : assembler.Records events) {label : Label} {address : Nat}
    (found : assembler.addressOf label = .ok address) : boundAt? label events = some address := by
  rw [← records.labels]
  unfold Assembler.addressOf at found
  split at found
  · next isBound =>
      cases found
      exact isBound
  · cases found

/-- The distance is the only operand of a jump, or stands behind the tested register. -/
theorem layout_of_jumpOperand {op : Opcode} {operand : Opcode.JumpOperand}
    (isJump : op.jumpOperand? = some operand) :
    op.layout = match operand with
      | .a => .s
      | .b => .bs := by
  unfold Opcode.jumpOperand? at isJump
  split at isJump
  all_goals cases isJump
  all_goals rfl

/-- The instruction that an item becomes at an address. -/
theorem Records.resolveItem (records : assembler.Records events) {item : Item} (fits : item.Fits)
    {address : Nat} {op : Opcode} {operands : Operands}
    (resolved : assembler.resolveItem address item = .ok (op, operands)) :
    item.op = op ∧ item.DecodesTo events
      { op, operands := op.layout.truncate operands, address, next := address + op.width } := by
  cases item with
  | plain issued given =>
      cases resolved
      exact ⟨rfl, .plain rfl fits.2⟩
  | jump issued tested label =>
      obtain ⟨target, found, resolved⟩ := bind_eq_ok_iff.mp resolved
      have isBound := records.addressOf found
      dsimp only at resolved
      split at resolved
      · cases resolved
      · next near =>
          rw [not_or, Int.not_lt, Int.not_lt] at near
          have readBack := signed16_of_distance near.1 near.2
          obtain ⟨operand, isJump⟩ := Option.isSome_iff_exists.mp fits
          rw [isJump] at resolved
          cases operand with
          | a =>
              cases resolved
              refine ⟨rfl, .jump rfl isBound ?_ ?_⟩
              · simp only [Instruction.jumpTarget?, isJump, Option.map_some,
                  signedA_of_layout (layout_of_jumpOperand isJump), readBack, Option.some.injEq]
                omega
              · rw [isJump]
                nofun
          | b =>
              cases resolved
              refine ⟨rfl, .jump rfl isBound ?_ fun _ => ?_⟩
              · simp only [Instruction.jumpTarget?, isJump, Option.map_some,
                  signedB_of_layout (layout_of_jumpOperand isJump), readBack, Option.some.injEq]
                omega
              · simp only [layout_of_jumpOperand isJump, Layout.truncate, Layout.limits]

/-- The instructions that items become from an address on, as they stand in the code. -/
theorem Records.resolveItems (records : assembler.Records events) {items : List Item}
    (fits : ∀ item ∈ items, item.Fits) {address : Nat} {program : List (Opcode × Operands)}
    (resolved : assembler.resolveItems address items = .ok program) :
    program.map Prod.fst = items.map Item.op ∧
      List.Forall₂ (Item.DecodesTo events) items (Instruction.placed address program) := by
  induction items generalizing address program with
  | nil =>
      cases resolved
      exact ⟨rfl, .nil⟩
  | cons item rest inductionHypothesis =>
      obtain ⟨⟨op, operands⟩, here, resolved⟩ := bind_eq_ok_iff.mp resolved
      obtain ⟨others, behind, done⟩ := bind_eq_ok_iff.mp resolved
      cases done
      obtain ⟨isOp, decodes⟩ := records.resolveItem (fits item List.mem_cons_self) here
      obtain ⟨ops, decoded⟩ := inductionHypothesis
        (fun other member => fits other (List.mem_cons_of_mem _ member)) behind
      refine ⟨?_, .cons decodes decoded⟩
      rw [List.map_cons, List.map_cons, ops, isOp]

theorem Records.resolveRegion (records : assembler.Records events) {region : Region}
    {handler : CatchHandler} (resolved : assembler.resolveRegion region = .ok handler) :
    region.BecomesHandler events handler := by
  obtain ⟨first, firstFound, resolved⟩ := bind_eq_ok_iff.mp resolved
  obtain ⟨last, lastFound, resolved⟩ := bind_eq_ok_iff.mp resolved
  obtain ⟨target, targetFound, resolved⟩ := bind_eq_ok_iff.mp resolved
  cases resolved
  exact ⟨rfl, ⟨first, records.addressOf firstFound, rfl⟩, ⟨last, records.addressOf lastFound, rfl⟩,
    ⟨target, records.addressOf targetFound, rfl⟩⟩

theorem Records.resolveRegions (records : assembler.Records events) {regions : List Region}
    {handlers : List CatchHandler}
    (resolved : regions.mapM assembler.resolveRegion = .ok handlers) :
    List.Forall₂ (Region.BecomesHandler events) regions handlers := by
  induction regions generalizing handlers with
  | nil =>
      cases resolved
      exact .nil
  | cons region rest inductionHypothesis =>
      rw [List.mapM_cons] at resolved
      obtain ⟨handler, here, resolved⟩ := bind_eq_ok_iff.mp resolved
      obtain ⟨others, behind, done⟩ := bind_eq_ok_iff.mp resolved
      cases done
      exact .cons (records.resolveRegion here) (inductionHypothesis behind)

/-! ### The finished unit -/

/-- Instructions with the opcodes of items take as many bytes as those. -/
theorem length_encodeAll {program : List (Opcode × Operands)} {items : List Item}
    (ops : program.map Prod.fst = items.map Item.op) :
    (Instruction.encodeAll program).length = extent items := by
  induction program generalizing items with
  | nil =>
      rw [List.map_nil, eq_comm, List.map_eq_nil_iff] at ops
      rw [ops]
      rfl
  | cons head rest inductionHypothesis =>
      obtain ⟨op, operands⟩ := head
      cases items with
      | nil => cases ops
      | cons item others =>
          rw [List.map_cons, List.map_cons, List.cons.injEq] at ops
          rw [Instruction.encodeAll_cons, List.length_append, Instruction.length_encode,
            inductionHypothesis ops.2, extent, ← ops.1]

theorem boundAt?_of_not_mem {label : Label} {before : List Event} (after : List Event)
    (unbound : .bound label ∉ before) :
    boundAt? label (before ++ .bound label :: after) = some (reach before) := by
  rw [boundAt?_append, boundAt?_eq_none_iff.mpr unbound]
  simp [boundAt?]

/-- A label with an address is bound among the events, behind the bytes before it. -/
theorem exists_of_boundAt? {label : Label} {address : Nat}
    (isBound : boundAt? label events = some address) :
    ∃ before after, events = before ++ .bound label :: after ∧ reach before = address := by
  have member : .bound label ∈ events := by
    by_contra absent
    rw [boundAt?_eq_none_iff.mpr absent] at isBound
    cases isBound
  obtain ⟨before, after, split, unbound⟩ := List.eq_append_cons_of_mem member
  rw [split, boundAt?_of_not_mem after unbound] at isBound
  exact ⟨before, after, split, Option.some.inj isBound⟩

/-- A label that is bound once has the bytes before it as its address. -/
theorem Records.boundAt?_eq (records : assembler.Records events) {label : Label}
    {before after : List Event} (split : events = before ++ .bound label :: after) :
    boundAt? label events = some (reach before) := by
  have once := records.once label
  rw [split, List.count_append, List.count_cons_self] at once
  have unbound : Event.bound label ∉ before := List.count_eq_zero.mp (by omega)
  rw [split]
  exact boundAt?_of_not_mem after unbound

/-- Instructions with the opcodes of those issued stand at the addresses counted while issuing. -/
theorem tiles_before {program : List (Opcode × Operands)} {before after : List Event}
    (ops : program.map Prod.fst = ((before ++ after).filterMap Event.item?).map Item.op) :
    Tiles 0 ((Instruction.placed 0 program).take (before.filterMap Event.item?).length)
      (reach before) := by
  have front : (program.take (before.filterMap Event.item?).length).map Prod.fst =
      (before.filterMap Event.item?).map Item.op := by
    rw [List.map_take, ops, List.filterMap_append, List.map_append,
      List.take_left' (List.length_map _)]
  have tiles := Instruction.tiles_placed (program.take (before.filterMap Event.item?).length) 0
  rwa [Instruction.placed_take, length_encodeAll front, Nat.zero_add] at tiles

/-- Behind the front of a tiling comes its end, or an instruction. -/
theorem eq_or_exists_of_tiles {listed : List Instruction} {count between last : Nat}
    (tiles : Tiles 0 listed last) (untilThere : Tiles 0 (listed.take count) between) :
    between = last ∨ ∃ instruction ∈ listed, instruction.address = between := by
  rw [← List.take_append_drop count listed] at tiles
  have behind := tiles.of_append untilThere
  cases rest : listed.drop count with
  | nil =>
      rw [rest] at behind
      exact .inl behind
  | cons instruction others =>
      rw [rest] at behind
      have member : instruction ∈ listed.drop count := rest ▸ List.mem_cons_self
      exact .inr ⟨instruction, List.mem_of_mem_drop member, behind.1⟩

/-- The unit that is built from an assembler is what its calls amount to. -/
theorem Records.build {unit : CodeUnit} (records : assembler.Records events)
    (built : assembler.build = .ok unit) : Fulfils unit events := by
  obtain ⟨program, resolved, built⟩ := bind_eq_ok_iff.mp built
  obtain ⟨handlers, regionsResolved, built⟩ := bind_eq_ok_iff.mp built
  cases built
  rw [records.items] at resolved
  rw [records.regions] at regionsResolved
  obtain ⟨ops, decodes⟩ := records.resolveItems records.fits resolved
  have listed : instructions (Instruction.encodeAll program).toArray =
      Instruction.placed 0 program := instructionsFrom_encodeAll [] program
  have tiles : Tiles 0 (instructions (Instruction.encodeAll program).toArray)
      (Instruction.encodeAll program).toArray.size := by
    rw [listed, List.size_toArray]
    simpa using Instruction.tiles_placed program 0
  have bound : ∀ before label after, events = before ++ .bound label :: after →
      boundAt? label events = some (reach before) ∧
        Tiles 0 ((instructions (Instruction.encodeAll program).toArray).take
          (before.filterMap Event.item?).length) (reach before) := by
    intro before label after split
    refine ⟨records.boundAt?_eq split, ?_⟩
    rw [listed]
    exact tiles_before (split ▸ ops)
  refine ⟨?_, tiles.last_eq.symm, bound, ?_, records.resolveRegions regionsResolved⟩
  · rw [listed]
    exact decodes
  · intro label address isBound
    obtain ⟨before, after, split, rfl⟩ := exists_of_boundAt? isBound
    exact eq_or_exists_of_tiles tiles (bound before label after split).2

end Assembler

end RiteVm.Bytecode

namespace RiteVm.Bytecode.Assembler

variable {events : List Event} {item : Item} {instruction : Instruction}

/-- A conditional jump on register 256 is accepted and tests `self`. -/
theorem assemble_cuts_tested_register :
    ∃ unit events, assemble 1 4 [.mark, .jump .jumpIf (some 256) ⟨0⟩] = .ok (unit, events) ∧
      events = [.bound ⟨0⟩, .issued (.jump .jumpIf 256 ⟨0⟩)] ∧
      unit.code = #[Opcode.jumpIf.toByte, 0, 0xff, 0xfc] :=
  ⟨_, _, rfl, rfl, rfl⟩

end RiteVm.Bytecode.Assembler
