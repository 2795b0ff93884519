import Mathlib
import RiteVm.Proofs.Assembler.Calls

/-!
Contract: which literals a unit holds of those that were entered.

Owns:
- the bit patterns of floats that are equal as numbers;
- which integers are part of the instruction that loads them, so that they need no literal;
- the literals that calls enter, each with the index that it got;
- that a pool only grows, so that an index keeps its entry;
- that each entry is the literal that was entered, apart from the sign of a float zero, and that
  equal strings and equal integers have one entry.

Literals share an entry if they are equal. Two floats are compared as numbers, and the two zeros are
equal as numbers: the first one that is entered stands for both.
-/

namespace RiteVm.Bytecode

/-! ### Equal literals -/

/-- The bit patterns of the two zeros. -/
def IsZeroPattern (bits : UInt64) : Prop := bits = 0 ∨ bits = 0x8000000000000000

/-- Only the pattern of a NaN is lost in a float. -/
theorem toBits_ofBits {bits : UInt64} (isNumber : Float.ofBits bits ≠ .nan) :
    (Float.ofBits bits).toBits = bits := by
  have packed := Float.Model.UnpackedFloat.pack_unpack
    (show BitVec Float.Model.Format.binary64.numBits from bits.toBitVec)
  change (Float.ofBits bits).toBits.toBitVec = _ at packed
  split at packed
  · exact absurd (Float.toBits_inj.mp (UInt64.toBitVec_inj.mp packed)) isNumber
  · exact UInt64.toBitVec_inj.mp packed

/-- Floats that are equal have the same pattern, or are zeros. -/
theorem eq_or_zeros_of_beq {left right : UInt64}
    (equal : (Float.ofBits left == Float.ofBits right) = true) :
    left = right ∨ IsZeroPattern left ∧ IsZeroPattern right := by
  obtain ⟨leftNumber, rightNumber, same⟩ := Float.beq_iff_ne_nan_and_eq.mp equal
  rw [← toBits_ofBits leftNumber, ← toBits_ofBits rightNumber]
  rcases same with same | ⟨isLeft, isRight⟩ | ⟨isLeft, isRight⟩
  · exact .inl (congrArg Float.toBits same)
  · rw [isLeft, isRight]
    exact .inr ⟨.inl (by decide), .inr (by decide)⟩
  · rw [isLeft, isRight]
    exact .inr ⟨.inr (by decide), .inl (by decide)⟩

variable {entry value : Literal}

/-- An entry stands for a literal: it is that literal, or both are zeros. -/
inductive Literal.StandsFor : Literal → Literal → Prop
  | same {value : Literal} : StandsFor value value
  | zero {left right : UInt64} (leftZero : IsZeroPattern left) (rightZero : IsZeroPattern right) :
      StandsFor (.float left) (.float right)

theorem Literal.standsFor_of_shares (shares : entry.shares value = true) :
    entry.StandsFor value := by
  cases entry with
  | string left =>
      cases value with
      | string right =>
          obtain rfl : left = right := eq_of_beq shares
          exact .same
      | int | float => cases shares
  | int left =>
      cases value with
      | int right =>
          obtain rfl : left = right := eq_of_beq shares
          exact .same
      | string | float => cases shares
  | float left =>
      cases value with
      | float right =>
          rcases eq_or_zeros_of_beq shares with rfl | ⟨leftZero, rightZero⟩
          · exact .same
          · exact .zero leftZero rightZero
      | string | int => cases shares

/-- A literal shares an entry with itself. This fails for a NaN, which equals no number. -/
theorem Literal.shares_self (noFloat : ∀ bits, value ≠ .float bits) :
    value.shares value = true := by
  cases value with
  | string bytes => exact beq_self_eq_true bytes
  | int number => exact beq_self_eq_true number
  | float bits => exact absurd rfl (noFloat bits)

namespace Assembler

/-! ### Entering a literal -/

/-- A literal has an index in a pool. What is no float is found there again. -/
structure Holds (pool : Array Literal) (value : Literal) (index : Nat) : Prop where
  entry : ∃ entry, pool[index]? = some entry ∧ entry.StandsFor value
  found : (∀ bits, value ≠ .float bits) → pool.findIdx? (·.shares value) = some index

/-- A literal is entered unless its entry is there. -/
theorem literal_cases (assembler : Assembler) (value : Literal) :
    (∃ index < assembler.pool.size, assembler.literal value = (assembler, index)) ∨
      assembler.literal value =
        ({ assembler with pool := assembler.pool.push value }, assembler.pool.size) := by
  unfold literal
  cases isFound : assembler.pool.findIdx? (·.shares value) with
  | some index => exact .inl ⟨index, (Array.findIdx?_eq_some_iff_getElem.mp isFound).1, rfl⟩
  | none => exact .inr rfl

theorem pool_literal (assembler : Assembler) (value : Literal) :
    ∃ more, (assembler.literal value).1.pool = assembler.pool ++ more := by
  rcases assembler.literal_cases value with ⟨index, -, isEntered⟩ | isEntered
  · exact ⟨#[], by rw [isEntered, Array.append_empty]⟩
  · exact ⟨#[value], by rw [isEntered, Array.push_eq_append]⟩

theorem holds_literal (assembler : Assembler) (value : Literal) :
    Holds (assembler.literal value).1.pool value (assembler.literal value).2 := by
  unfold literal
  cases isFound : assembler.pool.findIdx? (·.shares value) with
  | some index =>
      obtain ⟨inside, shares, -⟩ := Array.findIdx?_eq_some_iff_getElem.mp isFound
      exact ⟨⟨_, Array.getElem?_eq_getElem inside, Literal.standsFor_of_shares shares⟩,
        fun _ => isFound⟩
  | none =>
      refine ⟨⟨value, Array.getElem?_push_size, .same⟩, fun noFloat => ?_⟩
      dsimp only
      rw [Array.findIdx?_push, isFound, Literal.shares_self noFloat]
      rfl

/-- A literal keeps its index when the pool grows. -/
theorem Holds.append {pool : Array Literal} {index : Nat} (holds : Holds pool value index)
    (more : Array Literal) : Holds (pool ++ more) value index where
  entry := by
    obtain ⟨entry, isEntry, standsFor⟩ := holds.entry
    obtain ⟨inside, -⟩ := Array.getElem?_eq_some_iff.mp isEntry
    exact ⟨entry, (Array.getElem?_append_left inside).trans isEntry, standsFor⟩
  found noFloat := by
    rw [Array.findIdx?_append, holds.found noFloat]
    rfl

variable {assembler next : Assembler} {number : Int}

/-! ### Integers -/

/-- An integer of 32 bits is part of the instruction that loads it. -/
def FitsWord (number : Int) : Prop := -2147483648 ≤ number ∧ number ≤ 2147483647

instance (number : Int) : Decidable (FitsWord number) := inferInstanceAs (Decidable (_ ∧ _))

/-- An instruction holds an integer in its operands behind the register, or in its opcode. -/
inductive HoldsInt (number : Int) : Opcode → List Nat → Prop
  | small {op : Opcode} (low : -1 ≤ number)
      (isOp : smallIntOpcodes[(number + 1).toNat]? = some op) : HoldsInt number op []
  | byte (low : 8 ≤ number) (high : number ≤ 255) : HoldsInt number .loadByte [number.toNat]
  | negByte (low : -255 ≤ number) (high : number ≤ -2) :
      HoldsInt number .loadNegByte [(-number).toNat]
  | short (low : -32768 ≤ number) (high : number ≤ 32767) :
      HoldsInt number .loadShort [(number % 65536).toNat]
  | word (low : -2147483648 ≤ number) (high : number ≤ 2147483647) :
      HoldsInt number .loadWord
        [(number % 4294967296).toNat / 65536, (number % 4294967296).toNat % 65536]

theorem fitsWord_of_small {op : Opcode} (low : -1 ≤ number)
    (isOp : smallIntOpcodes[(number + 1).toNat]? = some op) : FitsWord number := by
  have high : (number + 1).toNat < 9 := (List.getElem?_eq_some_iff.mp isOp).1
  rw [FitsWord]
  omega

/-- An integer is loaded by the instruction that holds it, or from the pool if there is none. -/
theorem loadInt_cases (assembler : Assembler) (register : Nat) (value : Int64) :
    (FitsWord value.toInt ∧ ∃ op rest, HoldsInt value.toInt op rest ∧
      assembler.loadInt register value = assembler.emit op (register :: rest)) ∨
    (¬FitsWord value.toInt ∧
      assembler.loadInt register value = (assembler.literal (.int value)).1.emit .loadLiteral
        [register, (assembler.literal (.int value)).2]) := by
  unfold loadInt
  dsimp only
  generalize value.toInt = number
  split
  · next op isSmall =>
      split at isSmall
      · next low => exact .inl ⟨fitsWord_of_small low isSmall, op, [], .small low isSmall, rfl⟩
      · cases isSmall
  split
  · next isByte =>
      exact .inl ⟨by rw [FitsWord]; omega, _, _, .byte isByte.1 isByte.2, rfl⟩
  split
  · next isNegative =>
      exact .inl ⟨by rw [FitsWord]; omega, _, _, .negByte isNegative.1 isNegative.2, rfl⟩
  split
  · next isShort => exact .inl ⟨by rw [FitsWord]; omega, _, _, .short isShort.1 isShort.2, rfl⟩
  split
  · next isWord => exact .inl ⟨isWord, _, _, .word isWord.1 isWord.2, rfl⟩
  · next tooLarge => exact .inr ⟨tooLarge, rfl⟩

/-! ### Calls -/

/-- The literal that a call enters. -/
def Call.literal? : Call → Option Literal
  | literal value => some value
  | loadInt _ value => if FitsWord value.toInt then none else some (.int value)
  | loadFloat _ bits => some (.float bits)
  | loadString _ text => some (.string (Text.utf8 text))
  | _ => none

/-- The literals that calls enter, each with the index that it gets. -/
def entered (assembler : Assembler) : List Call → List (Literal × Nat)
  | [] => []
  | call :: rest =>
    match call.perform assembler with
    | .error _ => []
    | .ok next =>
      (call.literal?.map fun value => (value, (assembler.literal value).2)).toList ++
        next.entered rest

theorem pool_emit {op : Opcode} {values : List Nat}
    (emitted : assembler.emit op values = .ok next) : next.pool = assembler.pool := by
  obtain ⟨rfl, -⟩ := of_emit emitted
  rfl

theorem pool_symbol (assembler : Assembler) (name : String) :
    (assembler.symbol name).1.pool = assembler.pool := by
  unfold symbol
  dsimp only
  split <;> rfl

theorem pool_defineMethod {register : Nat} {name : String} {body : CodeUnit}
    (defined : assembler.defineMethod register name body = .ok next) :
    next.pool = assembler.pool := by
  obtain ⟨between, emitted, defined⟩ := bind_eq_ok_iff.mp defined
  change (between.symbol name).1.emit .defineMethod [register, (between.symbol name).2] =
    .ok next at defined
  calc next.pool
    _ = (between.symbol name).1.pool := pool_emit defined
    _ = between.pool := pool_symbol between name
    _ = (assembler.child body).1.pool := pool_emit emitted

theorem pool_loadInt {register : Nat} {value : Int64}
    (loaded : assembler.loadInt register value = .ok next) :
    next.pool = if FitsWord value.toInt then assembler.pool
      else (assembler.literal (.int value)).1.pool := by
  rcases assembler.loadInt_cases register value with ⟨fits, op, rest, -, emits⟩ | ⟨tooLarge, emits⟩
  · rw [if_pos fits]
    exact pool_emit (emits ▸ loaded)
  · rw [if_neg tooLarge]
    exact pool_emit (emits ▸ loaded)

/-- The pool behind a call. -/
def Call.poolBehind (assembler : Assembler) (call : Call) : Array Literal :=
  match call.literal? with
  | none => assembler.pool
  | some value => (assembler.literal value).1.pool

/-- A call enters its literal and leaves the pool alone otherwise. -/
theorem pool_perform {call : Call} (performed : call.perform assembler = .ok next) :
    next.pool = call.poolBehind assembler := by
  cases call with
  | symbol name =>
      cases performed
      exact pool_symbol assembler name
  | literal | child | newLabel | mark | protect =>
      cases performed
      rfl
  | bind label =>
      change assembler.bind label = .ok next at performed
      unfold Assembler.bind at performed
      split at performed
      all_goals cases performed
      rfl
  | emit op values => exact pool_emit performed
  | jump op tested? label =>
      obtain ⟨rfl, -⟩ := of_jump performed
      rfl
  | enter spec =>
      change assembler.emit .enter [spec.word.toNat] = .ok next at performed
      exact pool_emit performed
  | loadInt register value =>
      rw [pool_loadInt performed, Call.poolBehind, Call.literal?]
      split <;> rfl
  | loadFloat register bits =>
      change (assembler.literal (.float bits)).1.emit .loadLiteral
        [register, (assembler.literal (.float bits)).2] = .ok next at performed
      exact pool_emit performed
  | loadSymbol register name =>
      change (assembler.symbol name).1.emit .loadSymbol
        [register, (assembler.symbol name).2] = .ok next at performed
      exact (pool_emit performed).trans (pool_symbol assembler name)
  | loadString register text =>
      change (assembler.literal (.string (Text.utf8 text))).1.emit .string
        [register, (assembler.literal (.string (Text.utf8 text))).2] = .ok next at performed
      exact pool_emit performed
  | send op register name count =>
      change (assembler.symbol name).1.emit op
        [register, (assembler.symbol name).2, count] = .ok next at performed
      exact (pool_emit performed).trans (pool_symbol assembler name)
  | defineMethod register name body => exact pool_defineMethod performed

/-- A call keeps the entries and enters its literal. -/
theorem step_keeps {call : Call} (performed : call.perform assembler = .ok next) :
    (∃ more, next.pool = assembler.pool ++ more) ∧
      ∀ value, call.literal? = some value → Holds next.pool value (assembler.literal value).2 := by
  rw [pool_perform performed]
  unfold Call.poolBehind
  cases call.literal? with
  | none => exact ⟨⟨#[], Array.append_empty.symm⟩, nofun⟩
  | some value =>
      refine ⟨pool_literal assembler value, ?_⟩
      intro _ isLiteral
      cases isLiteral
      exact holds_literal assembler value

/-- Calls keep the entries and enter their literals. -/
theorem performAll_keeps {calls : List Call} {events : List Event}
    (performed : assembler.performAll calls = .ok (next, events)) :
    (∃ more, next.pool = assembler.pool ++ more) ∧
      ∀ value index, (value, index) ∈ assembler.entered calls → Holds next.pool value index := by
  induction calls generalizing assembler events with
  | nil =>
      cases performed
      exact ⟨⟨#[], Array.append_empty.symm⟩, nofun⟩
  | cons call rest inductionHypothesis =>
      obtain ⟨between, one, performed⟩ := bind_eq_ok_iff.mp performed
      obtain ⟨⟨last, behind⟩, others, done⟩ := bind_eq_ok_iff.mp performed
      cases done
      obtain ⟨⟨first, grown⟩, enters⟩ := step_keeps one
      obtain ⟨⟨second, grownBehind⟩, entersBehind⟩ := inductionHypothesis others
      refine ⟨⟨first ++ second, by rw [grownBehind, grown, Array.append_assoc]⟩, ?_⟩
      intro value index member
      rw [entered, one, List.mem_append, Option.mem_toList] at member
      rcases member with here | later
      · obtain ⟨_, isLiteral, same⟩ := Option.map_eq_some_iff.mp here
        cases same
        rw [grownBehind]
        exact (enters value isLiteral).append second
      · exact entersBehind value index later

theorem new_eq {localCount registerCount : UInt16}
    (created : new localCount registerCount = .ok next) : next = { localCount, registerCount } := by
  unfold new at created
  split at created
  · cases created
  split at created
  · cases created
  · exact (Except.ok.inj created).symm

theorem pool_build {unit : CodeUnit} (built : assembler.build = .ok unit) :
    unit.pool = assembler.pool := by
  obtain ⟨program, -, built⟩ := bind_eq_ok_iff.mp built
  obtain ⟨handlers, -, built⟩ := bind_eq_ok_iff.mp built
  cases built
  rfl

/-- Literals keep their value, apart from the sign of zero. Behind the index of a literal the unit
holds that literal, whatever was entered before or after; only a float zero may be held as the other
one. A string or an integer has the same index each time. -/
theorem assemble_keeps_literals {localCount registerCount : UInt16} {calls : List Call}
    {unit : CodeUnit} {events : List Event}
    (assembled : assemble localCount registerCount calls = .ok (unit, events)) :
    (∀ value index, (value, index) ∈ entered { localCount, registerCount } calls →
      ∃ entry, unit.pool[index]? = some entry ∧ entry.StandsFor value) ∧
    ∀ value first second, (value, first) ∈ entered { localCount, registerCount } calls →
      (value, second) ∈ entered { localCount, registerCount } calls →
      (∀ bits, value ≠ .float bits) → first = second := by
  obtain ⟨empty, created, assembled⟩ := bind_eq_ok_iff.mp assembled
  obtain ⟨⟨assembler, happened⟩, performed, assembled⟩ := bind_eq_ok_iff.mp assembled
  obtain ⟨built, isBuilt, done⟩ := bind_eq_ok_iff.mp assembled
  cases done
  obtain ⟨-, holds⟩ := performAll_keeps performed
  rw [new_eq created] at holds
  rw [pool_build isBuilt]
  refine ⟨fun value index member => (holds value index member).entry, ?_⟩
  intro value first second isFirst isSecond noFloat
  have found := (holds value first isFirst).found noFloat
  exact Option.some.inj (found.symm.trans ((holds value second isSecond).found noFloat))

/-- The two zeros have one entry, which is the one that was entered first. -/
theorem assemble_merges_zeros :
    let calls := [.loadFloat 1 0, .loadFloat 2 0x8000000000000000, .emit .returnValue [2]]
    entered { localCount := 1, registerCount := 4 } calls =
        [(.float 0, 0), (.float 0x8000000000000000, 0)] ∧
      (assemble 1 4 calls).toOption.map (·.1.pool) = some #[.float 0] := by
  decide +kernel

end Assembler

end RiteVm.Bytecode
