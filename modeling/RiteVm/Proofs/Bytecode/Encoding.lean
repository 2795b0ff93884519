import RiteVm.Bytecode.CodeUnit

/-!
Contract: encoding instructions and decoding them again.

Owns:
- what it means that instructions tile the code between two addresses;
- the instruction at the address where its bytes were placed, and the bytes of an
  instruction that was decoded;
- the round trip of a whole sequence in both directions.

The address of an instruction is only known once everything before it has been decoded.
The lemmas about one instruction therefore speak of any bytes before and behind it, and
those about sequences of any address to start from.
-/

namespace RiteVm.Bytecode

/-- The instructions stand one behind the other and fill the code between two addresses. -/
def Tiles (first : Nat) : List Instruction → Nat → Prop
  | [], last => first = last
  | instruction :: rest, last => instruction.address = first ∧ Tiles instruction.next rest last

/-- The end of a tiling is the address behind its last instruction. -/
theorem Tiles.last_eq {listed : List Instruction} {first last : Nat}
    (tiles : Tiles first listed last) :
    last = (match listed.getLast? with
      | none => first
      | some instruction => instruction.next) := by
  induction listed generalizing first with
  | nil => exact tiles.symm
  | cons instruction rest inductionHypothesis =>
      have behind := inductionHypothesis tiles.2
      cases rest with
      | nil => simpa using behind
      | cons second others =>
          rw [List.getLast?_cons_cons]
          rw [List.getLast?_cons] at behind ⊢
          exact behind

/-- A tiling of instructions that take room does not run backwards. -/
theorem Tiles.le {listed : List Instruction} {first last : Nat} (tiles : Tiles first listed last)
    (forward : ∀ instruction ∈ listed, instruction.address ≤ instruction.next) : first ≤ last := by
  induction listed generalizing first with
  | nil => exact Nat.le_of_eq tiles
  | cons instruction rest inductionHypothesis =>
      have here := forward instruction List.mem_cons_self
      have behind := inductionHypothesis tiles.2 fun other member =>
        forward other (List.mem_cons_of_mem _ member)
      have start := tiles.1
      omega

/-! ### One instruction -/

/-- The bytes of operands that were read are as many as the layout takes. -/
theorem Layout.length_of_read? {layout : Layout} {bytes : List UInt8} {operands : Operands}
    (decoded : layout.read? bytes = some operands) : bytes.length = layout.width := by
  rw [← Layout.write_read? decoded, Layout.length_write]

/-- An instruction is decoded at the address where its bytes begin, whatever surrounds them. -/
theorem instructionAt?_encode (before behind : List UInt8) (op : Opcode) (operands : Operands) :
    instructionAt? (before ++ Instruction.encode op operands ++ behind).toArray before.length =
      some { op, operands := op.layout.truncate operands, address := before.length,
             next := before.length + op.width } := by
  have opcodeByte :
      (before ++ Instruction.encode op operands ++ behind).toArray[before.length]? =
        some op.toByte := by
    simp [Instruction.encode]
  have operandBytes :
      ((before ++ Instruction.encode op operands ++ behind).toArray.extract
        (before.length + 1) (before.length + op.width)).toList = op.layout.write operands := by
    have width : before.length + op.width - (before.length + 1) =
        (op.layout.write operands).length := by
      rw [Layout.length_write, Opcode.width]
      omega
    have rest : (before ++ Instruction.encode op operands ++ behind).drop (before.length + 1) =
        op.layout.write operands ++ behind := by
      rw [List.append_assoc, Instruction.encode, List.cons_append, ← List.drop_drop,
        List.drop_left, List.drop_one, List.tail_cons]
    simp only [List.extract_toArray, List.extract_eq_take_drop, rest, width]
    exact List.take_left
  simp only [instructionAt?, opcodeByte, operandBytes, Opcode.ofByte?_toByte,
    Layout.read?_write, Option.bind_eq_bind, Option.bind_some, Option.pure_def]

/-- A decoded instruction ends inside the code, and its bytes are those of its encoding. -/
theorem extract_of_instructionAt? {code : Bytes} {address : Nat} {instruction : Instruction}
    (decoded : instructionAt? code address = some instruction) :
    instruction.next ≤ code.size ∧ (code.extract address instruction.next).toList =
      Instruction.encode instruction.op instruction.operands := by
  simp only [instructionAt?, Option.bind_eq_bind, Option.bind_eq_some_iff,
    Option.pure_def, Option.some.injEq] at decoded
  obtain ⟨byte, atAddress, op, opcode, operands, read, rfl⟩ := decoded
  obtain ⟨inRange, byteEq⟩ := Array.getElem?_eq_some_iff.1 atAddress
  have positive := op.width_pos
  have length := Layout.length_of_read? read
  rw [Array.length_toList, Array.size_extract] at length
  have width : op.width = 1 + op.layout.width := rfl
  have inside : address + op.width ≤ code.size := by omega
  refine ⟨inside, ?_⟩
  have split : code.extract address (address + op.width) =
      code.extract address (address + 1) ++ code.extract (address + 1) (address + op.width) := by
    rw [Array.extract_append_extract]
    congr 1 <;> omega
  have single : (code.extract address (address + 1)).toList = [byte] := by
    rw [Array.toList_extract, List.extract_eq_take_drop, Nat.add_sub_cancel_left,
      List.drop_eq_getElem_cons inRange, List.take_succ_cons, List.take_zero, Array.getElem_toList,
      byteEq]
  dsimp only
  rw [split, Array.toList_append, single, Instruction.encode, Layout.write_read? read,
    Opcode.toByte_ofByte? opcode]
  rfl

/-! ### Sequences -/

namespace Instruction

/-- What an instruction does, without where it stands. -/
def content (instruction : Instruction) : Opcode × Operands :=
  (instruction.op, instruction.operands)

@[simp] theorem encodeAll_nil : encodeAll [] = [] := rfl

theorem encodeAll_cons (op : Opcode) (operands : Operands) (rest : List (Opcode × Operands)) :
    encodeAll ((op, operands) :: rest) = encode op operands ++ encodeAll rest := rfl

/-- The decoded form of instructions that stand one behind the other from an address on. -/
def placed (first : Nat) : List (Opcode × Operands) → List Instruction
  | [] => []
  | (op, operands) :: rest =>
    { op, operands := op.layout.truncate operands, address := first, next := first + op.width } ::
      placed (first + op.width) rest

theorem tiles_placed (program : List (Opcode × Operands)) (first : Nat) :
    Tiles first (placed first program) (first + (encodeAll program).length) := by
  induction program generalizing first with
  | nil => rfl
  | cons head rest inductionHypothesis =>
      obtain ⟨op, operands⟩ := head
      refine ⟨rfl, ?_⟩
      rw [encodeAll_cons, List.length_append, length_encode, ← Nat.add_assoc]
      exact inductionHypothesis (first + op.width)

theorem map_content_placed (program : List (Opcode × Operands)) (first : Nat) :
    (placed first program).map content =
      program.map fun (op, operands) => (op, op.layout.truncate operands) := by
  induction program generalizing first with
  | nil => rfl
  | cons head rest inductionHypothesis =>
      rw [placed, List.map_cons, List.map_cons, inductionHypothesis]
      rfl

end Instruction

/-- Encoded instructions are decoded one by one, whatever stands before them. -/
theorem instructionsFrom_encodeAll (before : List UInt8) (program : List (Opcode × Operands)) :
    instructionsFrom (before ++ Instruction.encodeAll program).toArray before.length =
      Instruction.placed before.length program := by
  induction program generalizing before with
  | nil =>
      have undecoded : instructionAt? (before ++ []).toArray before.length = none := by
        simp [instructionAt?]
      rw [Instruction.encodeAll_nil, instructionsFrom, undecoded, Instruction.placed]
  | cons head rest inductionHypothesis =>
      obtain ⟨op, operands⟩ := head
      have decoded := instructionAt?_encode before (Instruction.encodeAll rest) op operands
      have behind := inductionHypothesis (before ++ Instruction.encode op operands)
      rw [List.length_append, Instruction.length_encode] at behind
      rw [Instruction.encodeAll_cons, ← List.append_assoc, instructionsFrom, decoded]
      exact congrArg _ behind

/-- Every listed instruction is the one decoded at its own address. -/
theorem instructionAt?_of_mem_instructionsFrom {code : Bytes} {first : Nat}
    {instruction : Instruction} (member : instruction ∈ instructionsFrom code first) :
    instructionAt? code instruction.address = some instruction := by
  induction first using instructionsFrom.induct code with
  | case1 first undecoded =>
      rw [instructionsFrom, undecoded] at member
      cases member
  | case2 first head decoded inductionHypothesis =>
      rw [instructionsFrom, decoded] at member
      rcases List.mem_cons.1 member with rfl | later
      · rw [(instructionAt?_next decoded).2.1]
        exact decoded
      · exact inductionHypothesis later

/-- The instructions of a sequence tile it up to an address inside the code where nothing can
be decoded. -/
theorem exists_tiles_instructionsFrom {code : Bytes} {address : Nat} (inside : address ≤ code.size) :
    ∃ last, Tiles address (instructionsFrom code address) last ∧ last ≤ code.size ∧
      instructionAt? code last = none := by
  induction address using instructionsFrom.induct code with
  | case1 address undecoded =>
      rw [instructionsFrom, undecoded]
      exact ⟨address, rfl, inside, undecoded⟩
  | case2 address instruction decoded inductionHypothesis =>
      obtain ⟨last, tiles, within, undecoded⟩ :=
        inductionHypothesis (extract_of_instructionAt? decoded).1
      rw [instructionsFrom, decoded]
      exact ⟨last, ⟨(instructionAt?_next decoded).2.1, tiles⟩, within, undecoded⟩

/-- What was decoded between two addresses encodes to the bytes between them. -/
theorem encodeAll_instructionsFrom {code : Bytes} {first last : Nat}
    (tiles : Tiles first (instructionsFrom code first) last) :
    Instruction.encodeAll ((instructionsFrom code first).map Instruction.content) =
      (code.extract first last).toList := by
  induction first using instructionsFrom.induct code with
  | case1 first undecoded =>
      rw [instructionsFrom, undecoded] at tiles ⊢
      cases tiles
      simp
  | case2 first instruction decoded inductionHypothesis =>
      rw [instructionsFrom, decoded] at tiles ⊢
      have bytes := (extract_of_instructionAt? decoded).2
      have rest := inductionHypothesis tiles.2
      have here : first ≤ instruction.next := by
        rw [(instructionAt?_next decoded).2.2]
        exact Nat.le_add_right _ _
      have behind : instruction.next ≤ last := tiles.2.le fun other member => by
        have own := instructionAt?_next (instructionAt?_of_mem_instructionsFrom member)
        omega
      rw [List.map_cons, Instruction.content, Instruction.encodeAll_cons, rest, ← bytes,
        ← Array.toList_append, Array.extract_append_extract, Nat.min_eq_left here,
        Nat.max_eq_right behind]

/-- The instructions of a sequence tile it up to the address where decoding ends. -/
theorem tiles_decodedEnd (code : Bytes) :
    Tiles 0 (instructions code) (decodedEnd code) ∧ decodedEnd code ≤ code.size ∧
      instructionAt? code (decodedEnd code) = none := by
  obtain ⟨last, tiles, within, undecoded⟩ := exists_tiles_instructionsFrom code.size.zero_le
  have same : last = decodedEnd code := tiles.last_eq
  exact same ▸ ⟨tiles, within, undecoded⟩

/-- Encoding and decoding undo each other. A program written into one buffer is read back in
order, each operand cut to its slot, and its instructions tile the buffer. A buffer that is
decoded to its end consists of the bytes of its instructions. -/
theorem encoding_round_trips :
    (∀ program : List (Opcode × Operands),
      (instructions (Instruction.encodeAll program).toArray).map Instruction.content =
          (program.map fun (op, operands) => (op, op.layout.truncate operands)) ∧
        Tiles 0 (instructions (Instruction.encodeAll program).toArray)
          (Instruction.encodeAll program).length) ∧
      ∀ code : Bytes, decodedEnd code = code.size →
        Instruction.encodeAll ((instructions code).map Instruction.content) = code.toList := by
  constructor
  · intro program
    have decoded : instructions (Instruction.encodeAll program).toArray =
        Instruction.placed 0 program := instructionsFrom_encodeAll [] program
    rw [decoded]
    refine ⟨Instruction.map_content_placed program 0, ?_⟩
    have tiles := Instruction.tiles_placed program 0
    rwa [Nat.zero_add] at tiles
  · intro code complete
    have tiles := (tiles_decodedEnd code).1
    have bytes := encodeAll_instructionsFrom tiles
    rwa [complete, Array.extract_size] at bytes

/-- A move, a jump and a return fill eight bytes, which come back from their decoding. -/
theorem encoding_round_trips_jump :
    decodedEnd #[0x01, 1, 2, 0x25, 0xff, 0xfa, 0x38, 1] = 8 ∧
      Instruction.encodeAll ((instructions #[0x01, 1, 2, 0x25, 0xff, 0xfa, 0x38, 1]).map
        Instruction.content) = [0x01, 1, 2, 0x25, 0xff, 0xfa, 0x38, 1] := by
  have bytes : (Instruction.encodeAll
      [(.move, { a := 1, b := 2 }), (.jump, { a := 0xfffa }), (.returnValue, { a := 1 })]).toArray =
        #[0x01, 1, 2, 0x25, 0xff, 0xfa, 0x38, 1] := by decide
  have tiles := (encoding_round_trips.1
    [(.move, { a := 1, b := 2 }), (.jump, { a := 0xfffa }), (.returnValue, { a := 1 })]).2
  rw [bytes] at tiles
  have complete : decodedEnd #[0x01, 1, 2, 0x25, 0xff, 0xfa, 0x38, 1] = 8 := tiles.last_eq.symm
  exact ⟨complete, encoding_round_trips.2 _ complete⟩

end RiteVm.Bytecode
