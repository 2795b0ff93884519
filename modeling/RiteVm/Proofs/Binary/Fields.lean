import Mathlib.Tactic.Ring
import RiteVm.Binary.Dump
import RiteVm.Binary.Load

/-!
Contract: readers take back what was written for them, whatever follows it, and take nothing
else.

Owns:
- numbers of a fixed width, whose low bytes are kept;
- what a reader reads from given bytes, and the rules for readers put together;
- which bytes a reader that succeeds has taken, and the rules for that;
- the fields that records are made of, and lists of items of one kind.

Does not own: the records of units and the container.
-/

namespace RiteVm.Binary

/-! ### Numbers of a fixed width -/

theorem ofBigEndian_cons (byte : UInt8) (bytes : List UInt8) :
    ofBigEndian (byte :: bytes) = byte.toNat * 256 ^ bytes.length + ofBigEndian bytes := by
  have shifted (start : Nat) : bytes.foldl (fun value byte => value * 256 + byte.toNat) start =
      start * 256 ^ bytes.length + ofBigEndian bytes := by
    rw [ofBigEndian]
    induction bytes generalizing start with
    | nil => simp
    | cons next rest inductionHypothesis =>
        rw [List.foldl_cons, List.foldl_cons, inductionHypothesis,
          inductionHypothesis (0 * 256 + next.toNat), List.length_cons]
        ring
  rw [ofBigEndian, List.foldl_cons, shifted]
  simp

/-- A number written with the high bytes first is read back cut to its width. -/
theorem ofBigEndian_bigEndian (width value : Nat) :
    ofBigEndian (bigEndian width value) = value % 256 ^ width := by
  induction width with
  | zero => simp [bigEndian, ofBigEndian, Nat.mod_one]
  | succ width inductionHypothesis =>
      have isPower : 2 ^ (8 * width) = 256 ^ width := by rw [Nat.pow_mul]
      have isByte : (UInt8.ofNat (value / 256 ^ width)).toNat = value / 256 ^ width % 256 :=
        UInt8.toNat_ofNat'
      rw [bigEndian, ofBigEndian_cons, length_bigEndian, inductionHypothesis,
        Nat.shiftRight_eq_div_pow, isPower, isByte, Nat.pow_succ, Nat.mod_mul]
      ring

theorem ofLittleEndian_littleEndian (width value : Nat) :
    ofLittleEndian (littleEndian width value) = value % 256 ^ width := by
  induction width generalizing value with
  | zero => simp [littleEndian, ofLittleEndian, Nat.mod_one]
  | succ width inductionHypothesis =>
      have isByte : (UInt8.ofNat value).toNat = value % 256 := UInt8.toNat_ofNat'
      rw [littleEndian, ofLittleEndian, inductionHypothesis, isByte, Nat.pow_succ', Nat.mod_mul]

theorem ofBigEndian_lt (bytes : List UInt8) : ofBigEndian bytes < 256 ^ bytes.length := by
  induction bytes with
  | nil => decide
  | cons byte rest inductionHypothesis =>
      have isByte := byte.toNat_lt
      have shifted : (byte.toNat + 1) * 256 ^ rest.length ≤ 256 * 256 ^ rest.length :=
        Nat.mul_le_mul_right _ (by omega)
      rw [ofBigEndian_cons, List.length_cons, Nat.pow_succ]
      rw [Nat.add_mul] at shifted
      omega

theorem ofLittleEndian_lt (bytes : List UInt8) : ofLittleEndian bytes < 256 ^ bytes.length := by
  induction bytes with
  | nil => decide
  | cons byte rest inductionHypothesis =>
      have isByte := byte.toNat_lt
      rw [ofLittleEndian, List.length_cons, Nat.pow_succ]
      omega

/-- Different bytes of one length stand for different numbers. -/
theorem ofBigEndian_injective {left right : List UInt8} (sameLength : left.length = right.length)
    (same : ofBigEndian left = ofBigEndian right) : left = right := by
  induction left generalizing right with
  | nil => exact (List.length_eq_zero_iff.mp sameLength.symm).symm
  | cons byte rest inductionHypothesis =>
      obtain _ | ⟨other, others⟩ := right
      · simp at sameLength
      rw [List.length_cons, List.length_cons, Nat.succ_inj] at sameLength
      have low := ofBigEndian_lt rest
      have otherLow := ofBigEndian_lt others
      rw [ofBigEndian_cons, ofBigEndian_cons, sameLength, Nat.mul_comm, Nat.mul_comm other.toNat]
        at same
      rw [sameLength] at low
      have sameByte : byte.toNat = other.toNat := by
        have quotients := congrArg (· / 256 ^ others.length) same
        simpa [Nat.mul_add_div, Nat.div_eq_of_lt low, Nat.div_eq_of_lt otherLow] using quotients
      rw [sameByte, Nat.add_left_cancel_iff] at same
      rw [UInt8.toNat_inj.mp sameByte, inductionHypothesis sameLength same]

theorem ofLittleEndian_injective {left right : List UInt8}
    (sameLength : left.length = right.length)
    (same : ofLittleEndian left = ofLittleEndian right) : left = right := by
  induction left generalizing right with
  | nil => exact (List.length_eq_zero_iff.mp sameLength.symm).symm
  | cons byte rest inductionHypothesis =>
      obtain _ | ⟨other, others⟩ := right
      · simp at sameLength
      have isByte := byte.toNat_lt
      have isOther := other.toNat_lt
      rw [ofLittleEndian, ofLittleEndian] at same
      rw [List.length_cons, List.length_cons, Nat.succ_inj] at sameLength
      have sameByte : byte.toNat = other.toNat := by omega
      rw [UInt8.toNat_inj.mp sameByte, inductionHypothesis sameLength (by omega)]

/-- Bytes are what is written for their number. -/
theorem bigEndian_ofBigEndian (bytes : List UInt8) :
    bigEndian bytes.length (ofBigEndian bytes) = bytes := by
  apply ofBigEndian_injective (length_bigEndian _ _)
  rw [ofBigEndian_bigEndian, Nat.mod_eq_of_lt (ofBigEndian_lt bytes)]

theorem littleEndian_ofLittleEndian (bytes : List UInt8) :
    littleEndian bytes.length (ofLittleEndian bytes) = bytes := by
  apply ofLittleEndian_injective (length_littleEndian _ _)
  rw [ofLittleEndian_littleEndian, Nat.mod_eq_of_lt (ofLittleEndian_lt bytes)]

/-- Only the low bytes of a number are written. -/
theorem bigEndian_mod (width value : Nat) :
    bigEndian width (value % 256 ^ width) = bigEndian width value := by
  apply ofBigEndian_injective (by simp)
  rw [ofBigEndian_bigEndian, ofBigEndian_bigEndian, Nat.mod_mod]

/-- The high bytes of a number stand in front of the low ones. -/
theorem bigEndian_add (high low value : Nat) :
    bigEndian (high + low) value = bigEndian high (value >>> (8 * low)) ++ bigEndian low value := by
  induction high with
  | zero => simp [bigEndian]
  | succ high inductionHypothesis =>
      rw [show high + 1 + low = (high + low) + 1 by omega, bigEndian, bigEndian,
        inductionHypothesis, List.cons_append, ← Nat.shiftRight_add,
        show 8 * low + 8 * high = 8 * (high + low) by omega]

/-! ### Readers -/

/-- A reader takes exactly the given bytes off the front of any input and returns a value. -/
def Reads {α : Type} (reader : Reader α) (bytes : List UInt8) (value : α) : Prop :=
  ∀ rest, reader (bytes ++ rest) = .ok (value, rest)

namespace Reads

variable {α β : Type} {reader : Reader α} {next : α → Reader β} {front more : List UInt8}
  {value : α} {result : β}

theorem nothing (value : α) : Reads (pure value) [] value := fun _ => rfl

theorem bind (first : Reads reader front value) (second : Reads (next value) more result) :
    Reads (reader >>= next) (front ++ more) result := by
  intro rest
  change (reader (front ++ more ++ rest) >>= fun (value, rest) => next value rest) = _
  rw [List.append_assoc, first]
  exact second rest

/-- A reader that reads nothing more after another one. -/
theorem finish (first : Reads reader front value) (ends : next value = pure result) :
    Reads (reader >>= next) front result := by
  have both := first.bind (ends ▸ nothing result)
  rwa [List.append_nil] at both

theorem map (convert : α → β) (first : Reads reader front value) :
    Reads (convert <$> reader) front (convert value) := by
  intro rest
  change (reader (front ++ rest) >>= fun (value, rest) => Except.ok (convert value, rest)) = _
  rw [first]
  rfl

/-- The outcome of a computation that does not read the input. -/
theorem lift {outcome : Except LoadError α} (succeeds : outcome = .ok value) :
    Reads (liftM outcome) [] value := by
  intro rest
  rw [succeeds]
  rfl

theorem bytes (front : List UInt8) (part : Part) :
    Reads (Reader.bytes front.length part) front front := by
  intro rest
  rw [Reader.bytes, splitExact?_append]

theorem byte (value : UInt8) (part : Part) : Reads (Reader.byte part) [value] value :=
  fun _ => rfl

theorem word16 {value : Nat} (fits : value < 65536) (part : Part) :
    Reads (Reader.word16 part) (bigEndian 2 value) value := by
  have read := (bytes (bigEndian 2 value) part).map ofBigEndian
  rwa [length_bigEndian, ofBigEndian_bigEndian, Nat.mod_eq_of_lt (by omega)] at read

/-- A number of four bytes is read back cut to its width. -/
theorem word32 (value : Nat) (part : Part) :
    Reads (Reader.word32 part) (bigEndian 4 value) (value % 4294967296) := by
  have read := (bytes (bigEndian 4 value) part).map ofBigEndian
  rwa [length_bigEndian, ofBigEndian_bigEndian] at read

theorem word32_of_lt {value : Nat} (fits : value < 4294967296) (part : Part) :
    Reads (Reader.word32 part) (bigEndian 4 value) value := by
  have read := word32 value part
  rwa [Nat.mod_eq_of_lt fits] at read

/-- A list of items, each of which is read back on its own. -/
theorem times {items : List α} {fronts : List (List UInt8)}
    (each : List.Forall₂ (fun item front => Reads reader front item) items fronts) :
    Reads (reader.times items.length) fronts.flatten items := by
  induction each with
  | nil => exact nothing []
  | cons first _ inductionHypothesis =>
      rw [List.flatten_cons]
      exact first.bind (inductionHypothesis.finish rfl)

end Reads

/-! ### What readers take -/

/-- A reader that succeeds has taken bytes of the given layouts off the front of the input. -/
def Recognizes {α : Type} (reader : Reader α) (layout : α → List UInt8 → Prop) : Prop :=
  ∀ ⦃input value rest⦄, reader input = .ok (value, rest) →
    ∃ front, input = front ++ rest ∧ layout value front

namespace Recognizes

variable {α β : Type} {reader : Reader α} {next : α → Reader β}
  {first : α → List UInt8 → Prop} {layout : β → List UInt8 → Prop}

theorem imp {other : α → List UInt8 → Prop} (recognizes : Recognizes reader first)
    (implies : ∀ value front, first value front → other value front) :
    Recognizes reader other := by
  intro input value rest read
  obtain ⟨front, isInput, layout⟩ := recognizes read
  exact ⟨front, isInput, implies value front layout⟩

theorem nothing {value : β} (layout_nil : layout value []) :
    Recognizes (pure value) layout := by
  intro input result rest read
  obtain ⟨rfl, rfl⟩ := Prod.mk.inj (Except.ok.inj read)
  exact ⟨[], rfl, layout_nil⟩

theorem fails (error : LoadError) : Recognizes (throw error) layout :=
  fun _ _ _ read => nomatch read

/-- What the first reader takes stands in front of what the next one takes. -/
theorem bind (recognizes : Recognizes reader first)
    (behind : ∀ value front, first value front →
      Recognizes (next value) fun result more => layout result (front ++ more)) :
    Recognizes (reader >>= next) layout := by
  intro input result rest read
  change (reader input >>= fun (value, middle) => next value middle) = _ at read
  cases taken : reader input with
  | error error => rw [taken] at read; exact nomatch read
  | ok outcome =>
      obtain ⟨value, middle⟩ := outcome
      rw [taken] at read
      obtain ⟨front, rfl, isFirst⟩ := recognizes taken
      obtain ⟨more, rfl, isLayout⟩ := behind value front isFirst read
      exact ⟨front ++ more, (List.append_assoc front more rest).symm, isLayout⟩

/-- A value that is only converted. -/
theorem map {convert : α → β} (recognizes : Recognizes reader first)
    (implies : ∀ value front, first value front → layout (convert value) front) :
    Recognizes (convert <$> reader) layout := by
  rw [map_eq_pure_bind]
  apply recognizes.bind
  intro value front isFirst
  apply nothing
  rw [List.append_nil]
  exact implies value front isFirst

/-- The outcome of a computation that does not read the input. -/
theorem lift (outcome : Except LoadError α) :
    Recognizes (liftM outcome) fun value front => outcome = .ok value ∧ front = [] := by
  intro input value rest read
  cases outcome with
  | error error => exact nomatch read
  | ok result =>
      obtain ⟨rfl, rfl⟩ := Prod.mk.inj (Except.ok.inj read)
      exact ⟨[], rfl, rfl, rfl⟩

theorem bytes (count : Nat) (part : Part) :
    Recognizes (Reader.bytes count part) fun value front => front = value ∧ value.length = count := by
  intro input value rest read
  rw [Reader.bytes] at read
  split at read
  · rename_i front back split
    obtain ⟨rfl, rfl⟩ := Prod.mk.inj (Except.ok.inj read)
    obtain ⟨isInput, length⟩ := splitExact?_eq_some split
    exact ⟨front, isInput, rfl, length⟩
  · exact nomatch read

theorem byte (part : Part) : Recognizes (Reader.byte part) fun value front => front = [value] := by
  intro input value rest read
  cases input with
  | nil => exact nomatch read
  | cons first others =>
      obtain ⟨rfl, rfl⟩ := Prod.mk.inj (Except.ok.inj read)
      exact ⟨[first], rfl, rfl⟩

/-- Bytes that are read as a number are those that are written for it. -/
theorem number (width : Nat) (part : Part) :
    Recognizes (ofBigEndian <$> Reader.bytes width part) fun value front =>
      front = bigEndian width value ∧ value < 256 ^ width := by
  apply (bytes width part).map
  rintro value front ⟨rfl, rfl⟩
  exact ⟨(bigEndian_ofBigEndian front).symm, ofBigEndian_lt front⟩

theorem word16 (part : Part) : Recognizes (Reader.word16 part) fun value front =>
    front = bigEndian 2 value ∧ value < 65536 := number 2 part

theorem word32 (part : Part) : Recognizes (Reader.word32 part) fun value front =>
    front = bigEndian 4 value ∧ value < 4294967296 := number 4 part

theorem times (recognizes : Recognizes reader first) (count : Nat) :
    Recognizes (reader.times count) fun items front => items.length = count ∧
      ∃ fronts, front = List.flatten fronts ∧ List.Forall₂ first items fronts := by
  induction count with
  | zero => exact nothing ⟨rfl, [], rfl, .nil⟩
  | succ count inductionHypothesis =>
      apply recognizes.bind
      intro item front isItem
      apply inductionHypothesis.bind
      rintro items _ ⟨length, fronts, rfl, each⟩
      apply nothing
      rw [List.append_nil, ← List.flatten_cons]
      exact ⟨congrArg (· + 1) length, front :: fronts, rfl, .cons isItem each⟩

end Recognizes

end RiteVm.Binary
