import Mathlib.Data.List.Forall2
import RiteVm.Proofs.Binary.Fields

/-!
Contract: the records of a tree, what is read from them, and that the container written for a
valid tree gives the tree back.

Owns:
- the layouts of a literal, a name, a record and a tree, with the choices that the format
  leaves to whoever writes them;
- readers take any layout off the front of the input and return what is laid out;
- the sizes that the fields of a record can hold;
- what is written is a layout: literals, names and records first, then trees, by induction on
  their units, and the container around them.

Does not own: other containers around the records (`Containers`), and that nothing but layouts is
read (`Recognition`).

A layout is a relation between an item and bytes. No reader occurs in it, and a choice that
the loader does not look at is a variable of its own in each place. The sizes are those of one unit.
That they hold of every unit is a predicate on trees. The bound on the length of the container bounds
all offsets in it.
-/

namespace RiteVm.Binary

open RiteVm.Bytecode

/-! ### Layouts -/

/-- The layouts of a literal. A string has one of two tags and any byte behind it, and an
integer that fits four bytes may take eight. -/
inductive LiteralLayout : Literal → List UInt8 → Prop where
  | string (bytes : Bytes) {tag : UInt8} (padding : UInt8)
      (isTag : tag = stringTag ∨ tag = staticStringTag) (fits : bytes.size ≤ 65535) :
      LiteralLayout (.string bytes)
        (tag :: bigEndian 2 bytes.size ++ bytes.toList ++ [padding])
  | int32 {value : Int64} (fits : -2147483648 ≤ value.toInt ∧ value.toInt < 2147483648) :
      LiteralLayout (.int value) (int32Tag :: bigEndian 4 value.toUInt64.toNat)
  | int64 (value : Int64) :
      LiteralLayout (.int value) (int64Tag :: bigEndian 8 value.toUInt64.toNat)
  | float (bits : UInt64) :
      LiteralLayout (.float bits) (floatTag :: littleEndian 8 bits.toNat)

/-- The layouts of a name. The greatest length marks a name that is not there. -/
inductive SymbolLayout : Option Bytes → List UInt8 → Prop where
  | missing : SymbolLayout none (bigEndian 2 noName)
  | name (name : Bytes) (padding : UInt8) (fits : name.size < noName) :
      SymbolLayout (some name) (bigEndian 2 name.size ++ name.toList ++ [padding])

/-- The record of a unit, given the bytes of its size, of its literals and of its names. -/
def recordBytes (unit : CodeUnit) (recordSize : List UInt8) (literals names : List (List UInt8)) :
    List UInt8 :=
  recordSize ++ bigEndian 2 unit.localCount.toNat ++ bigEndian 2 unit.registerCount.toNat
    ++ bigEndian 2 unit.children.length ++ bigEndian 2 unit.handlers.length
    ++ bigEndian 4 unit.code.size ++ unit.code.toList
    ++ unit.handlers.flatMap dumpHandler
    ++ bigEndian 2 unit.pool.size ++ literals.flatten
    ++ bigEndian 2 unit.symbols.size ++ names.flatten

/-- The layouts of a record. Its size may be any number. -/
inductive RecordLayout (unit : CodeUnit) : List UInt8 → Prop where
  | record {recordSize : List UInt8} {literals names : List (List UInt8)}
      (sizeField : recordSize.length = 4)
      (children : unit.children.length ≤ 65535) (handlers : unit.handlers.length ≤ 65535)
      (code : unit.code.size < 4294967296)
      (pool : unit.pool.size ≤ 65535) (symbols : unit.symbols.size ≤ 65535)
      (eachLiteral : List.Forall₂ LiteralLayout unit.pool.toList literals)
      (eachName : List.Forall₂ SymbolLayout unit.symbols.toList names) :
      RecordLayout unit (recordBytes unit recordSize literals names)

/-- The layouts of a tree: a unit stands in front of its children. -/
inductive TreeLayout : CodeUnit → List UInt8 → Prop where
  | tree {unit : CodeUnit} {record : List UInt8} {children : List (List UInt8)}
      (ownRecord : RecordLayout unit record)
      (eachChild : List.Forall₂ TreeLayout unit.children children) :
      TreeLayout unit (record ++ children.flatten)

/-! ### The parts of a record -/

theorem reads_handler (handler : CatchHandler) :
    Reads readHandler (dumpHandler handler) handler := by
  obtain ⟨kind, first, last, target⟩ := handler
  have number (field : UInt32) : Reads (Reader.word32 .handlers) (bigEndian 4 field.toNat)
      field.toNat := .word32_of_lt field.toNat_lt _
  have fields (kind : CatchKind) : Reads (do
      let first ← Reader.word32 .handlers
      let last ← Reader.word32 .handlers
      let target ← Reader.word32 .handlers
      return { kind, first := .ofNat first, last := .ofNat last, target := .ofNat target })
      (bigEndian 4 first.toNat ++ (bigEndian 4 last.toNat ++ bigEndian 4 target.toNat))
      (⟨kind, first, last, target⟩ : CatchHandler) := by
    refine (number first).bind ((number last).bind ((number target).finish ?_))
    simp only [UInt32.ofNat_toNat]
  rw [dumpHandler, List.append_assoc, List.cons_append, ← List.singleton_append]
  cases kind with
  | rescue => exact (Reads.byte 0 .handlers).bind (fields .rescue)
  | ensure => exact (Reads.byte 1 .handlers).bind (fields .ensure)

theorem length_dumpHandlers (handlers : List CatchHandler) :
    (handlers.flatMap dumpHandler).length = handlers.length * handlerSize := by
  induction handlers with
  | nil => rfl
  | cons handler rest inductionHypothesis =>
      have length : (dumpHandler handler).length = handlerSize := by simp [dumpHandler, handlerSize]
      rw [List.flatMap_cons, List.length_append, length, inductionHypothesis, List.length_cons,
        Nat.succ_mul, Nat.add_comm]

/-- The table of handlers is taken as a whole before its entries are read. -/
theorem reads_handlers (handlers : List CatchHandler) :
    Reads (readHandlers handlers.length) (handlers.flatMap dumpHandler) handlers := by
  have table : Reads (Reader.bytes (handlers.length * handlerSize) .handlers)
      (handlers.flatMap dumpHandler) (handlers.flatMap dumpHandler) :=
    length_dumpHandlers handlers ▸ Reads.bytes _ _
  have each : List.Forall₂ (fun handler front => Reads readHandler front handler)
      handlers (handlers.map dumpHandler) :=
    List.forall₂_map_right_iff.mpr (List.forall₂_same.mpr fun handler _ => reads_handler handler)
  have entries : (Reader.times readHandler handlers.length).run (handlers.flatMap dumpHandler) =
      .ok (handlers, []) := by
    have read := Reads.times each []
    rwa [List.append_nil, ← List.flatMap_def] at read
  have both : Reads (readHandlers handlers.length) (handlers.flatMap dumpHandler ++ []) handlers :=
    table.bind ((Reads.lift entries).finish rfl)
  rwa [List.append_nil] at both

/-- An integer that fits four bytes is read back with its sign. -/
theorem ofInt_bmod_low {value : Int64}
    (fits : -2147483648 ≤ value.toInt ∧ value.toInt < 2147483648) :
    Int64.ofInt (Int.bmod (value.toUInt64.toNat % 4294967296 : Nat) 4294967296) = value := by
  have bits : value.toInt = Int.bmod value.toUInt64.toNat 18446744073709551616 :=
    BitVec.toInt_eq_toNat_bmod value.toBitVec
  have bound := value.toUInt64.toNat_lt
  have same : Int.bmod (value.toUInt64.toNat % 4294967296 : Nat) 4294967296 = value.toInt := by
    rw [Int.bmod_def] at bits ⊢
    omega
  rw [same, Int64.ofInt_toInt]

theorem ofNat_halves (value : Int64) :
    (UInt64.ofNat (value.toUInt64.toNat >>> 32 % 4294967296 * 4294967296 +
      value.toUInt64.toNat % 4294967296)).toInt64 = value := by
  have bound := value.toUInt64.toNat_lt
  have same : value.toUInt64.toNat >>> 32 % 4294967296 * 4294967296 +
      value.toUInt64.toNat % 4294967296 = value.toUInt64.toNat := by
    rw [Nat.shiftRight_eq_div_pow]
    omega
  rw [same, UInt64.ofNat_toNat]
  exact Int64.toInt64_toUInt64 value

theorem LiteralLayout.reads {literal : Literal} {front : List UInt8}
    (layout : LiteralLayout literal front) : Reads readLiteral front literal := by
  cases layout with
  | @string bytes tag padding isTag fits =>
      have length : Reads (Reader.word16 .poolString) (bigEndian 2 bytes.size)
          bytes.toList.length := .word16 (by omega) _
      rw [List.append_assoc, List.cons_append, ← List.singleton_append]
      apply (Reads.byte tag .pool).bind
      rw [if_pos isTag]
      exact length.bind
        ((Reads.bytes bytes.toList .poolString).bind ((Reads.byte padding .poolString).finish rfl))
  | int32 fits =>
      apply (Reads.byte int32Tag .pool).bind
      apply (Reads.word32 _ .poolInteger).finish
      rw [ofInt_bmod_low fits]
  | int64 value =>
      rw [show 8 = 4 + 4 by rfl, bigEndian_add]
      apply (Reads.byte int64Tag .pool).bind
      apply (Reads.word32 _ .poolInteger).bind
      apply (Reads.word32 _ .poolInteger).finish
      rw [ofNat_halves]
  | float bits =>
      have bytes : Reads (Reader.bytes 8 .poolFloat) (littleEndian 8 bits.toNat)
          (littleEndian 8 bits.toNat) := by
        have read := Reads.bytes (littleEndian 8 bits.toNat) .poolFloat
        rwa [length_littleEndian] at read
      apply (Reads.byte floatTag .pool).bind
      apply bytes.finish
      rw [ofLittleEndian_littleEndian, Nat.mod_eq_of_lt (by have := bits.toNat_lt; omega),
        UInt64.ofNat_toNat]

theorem SymbolLayout.reads {symbol? : Option Bytes} {front : List UInt8}
    (layout : SymbolLayout symbol? front) : Reads readSymbol front symbol? := by
  cases layout with
  | missing => exact (Reads.word16 (by decide) .symbol).finish rfl
  | @name name padding fits =>
      rw [noName] at fits
      have length : Reads (Reader.word16 .symbol) (bigEndian 2 name.size) name.toList.length :=
        .word16 (by omega) _
      rw [List.append_assoc]
      apply length.bind
      rw [if_neg (by rw [noName, Array.length_toList]; omega)]
      exact (Reads.bytes name.toList .symbol).bind ((Reads.byte padding .symbol).finish rfl)

/-! ### Records and trees -/

/-- A record is read as the unit without its children, and their number. -/
theorem RecordLayout.reads {unit : CodeUnit} {front : List UInt8}
    (layout : RecordLayout unit front) :
    Reads readRecord front ({ unit with children := [] }, unit.children.length) := by
  obtain @⟨recordSize, literals, names, sizeField, children, handlers, codeSize, poolSize,
    symbolCount, eachLiteral, eachName⟩ := layout
  have size : Reads (Reader.word32 .recordSize) recordSize (ofBigEndian recordSize) := by
    have read := (Reads.bytes recordSize .recordSize).map ofBigEndian
    rwa [sizeField] at read
  have pool : Reads (Reader.times readLiteral unit.pool.size) literals.flatten
      unit.pool.toList :=
    Array.length_toList ▸ Reads.times (eachLiteral.imp fun _ _ => LiteralLayout.reads)
  have symbols : Reads (Reader.times readSymbol unit.symbols.size) names.flatten
      unit.symbols.toList :=
    Array.length_toList ▸ Reads.times (eachName.imp fun _ _ => SymbolLayout.reads)
  have code : Reads (Reader.bytes unit.code.size .code) unit.code.toList unit.code.toList :=
    Array.length_toList ▸ Reads.bytes unit.code.toList .code
  have field (count : Nat) (part : Part) (fits : count ≤ 65535) :
      Reads (Reader.word16 part) (bigEndian 2 count) count := .word16 (by omega) part
  have localCount := unit.localCount.toNat_lt
  have registerCount := unit.registerCount.toNat_lt
  rw [recordBytes]
  simp only [List.append_assoc]
  refine size.bind <|
    (field _ .unitHeader (by omega)).bind <| (field _ .unitHeader (by omega)).bind <|
    (field _ .unitHeader children).bind <| (field _ .unitHeader handlers).bind <|
    (Reads.word32_of_lt codeSize .unitHeader).bind <| code.bind <|
    (reads_handlers unit.handlers).bind <| (field _ .pool poolSize).bind <| pool.bind <|
    (field _ .symbols symbolCount).bind <| symbols.finish ?_
  simp only [UInt16.ofNat_toNat, Array.toArray_toList]

theorem RecordLayout.length_pos {unit : CodeUnit} {front : List UInt8}
    (layout : RecordLayout unit front) : 0 < front.length := by
  obtain ⟨sizeField⟩ := layout
  simp only [recordBytes, List.length_append, sizeField]
  omega

/-- A tree is read with fuel for each of its bytes. -/
theorem TreeLayout.reads {unit : CodeUnit} {front : List UInt8} {fuel : Nat}
    (layout : TreeLayout unit front) (enough : front.length ≤ fuel) :
    Reads (readTree fuel) front unit := by
  induction fuel generalizing unit front with
  | zero =>
      obtain ⟨ownRecord, -⟩ := layout
      have nonempty := ownRecord.length_pos
      rw [List.length_append] at enough
      omega
  | succ fuel inductionHypothesis =>
      obtain @⟨_, record, fronts, ownRecord, eachChild⟩ := layout
      have nonempty := ownRecord.length_pos
      rw [List.length_append] at enough
      have each : List.Forall₂ (fun child front => Reads (readTree fuel) front child)
          unit.children fronts := by
        rw [List.forall₂_iff_zip] at eachChild ⊢
        refine ⟨eachChild.1, fun {child front} member => ?_⟩
        have inside : front.length ≤ fronts.flatten.length :=
          (List.sublist_flatten_of_mem (List.of_mem_zip member).2).length_le
        exact inductionHypothesis (eachChild.2 member) (by omega)
      apply ownRecord.reads.bind
      apply (Reads.times each).finish
      cases unit
      rfl

/-- A version and a tree behind it. -/
def readVersioned (fuel : Nat) : Reader CodeUnit := do
  let _ ← Reader.bytes 4 .unitVersion
  readTree fuel

theorem treeOfSection_eq (body : List UInt8) :
    treeOfSection body = (readVersioned body.length body).map Prod.fst := by
  rw [treeOfSection]
  change readVersioned body.length body >>= (fun result => Except.ok result.1) = _
  cases readVersioned body.length body <;> rfl

/-- The tree in a section is found behind any version and in front of any bytes. -/
theorem TreeLayout.treeOfSection {unit : CodeUnit} {tree : List UInt8}
    (layout : TreeLayout unit tree) {version : List UInt8} (versionField : version.length = 4)
    (extra : List UInt8) :
    treeOfSection (version ++ tree ++ extra) = .ok unit := by
  have both : Reads (readVersioned (version ++ tree ++ extra).length) (version ++ tree) unit :=
    (versionField ▸ Reads.bytes version .unitVersion).bind (layout.reads (by simp; omega))
  rw [treeOfSection_eq, both extra]
  rfl

end RiteVm.Binary

namespace RiteVm

namespace Bytecode

/-- Tables and texts of a unit that the fields of a record have room for. -/
structure CodeUnit.FitsRecord (unit : CodeUnit) : Prop where
  children : unit.children.length ≤ 65535
  handlers : unit.handlers.length ≤ 65535
  pool : unit.pool.size ≤ 65535
  symbols : unit.symbols.size ≤ 65535
  strings : ∀ bytes, .string bytes ∈ unit.pool → bytes.size ≤ 65535
  /-- the greatest length marks a name that is not there -/
  names : ∀ name, some name ∈ unit.symbols → name.size ≤ 65534

/-- Every unit of a tree has a property. -/
inductive CodeUnit.EveryUnit (property : CodeUnit → Prop) : CodeUnit → Prop where
  | tree {unit : CodeUnit} :
      property unit → (∀ child ∈ unit.children, EveryUnit property child) →
      EveryUnit property unit

end Bytecode

namespace Binary

open RiteVm.Bytecode

/-! ### The layout that is written -/

theorem dumpLiteral_layout {literal : Literal}
    (fits : ∀ bytes, literal = .string bytes → bytes.size ≤ 65535) :
    LiteralLayout literal (dumpLiteral literal) := by
  cases literal with
  | string bytes => exact .string bytes 0 (.inl rfl) (fits bytes rfl)
  | int value =>
      rw [dumpLiteral]
      split
      · rename_i small
        exact .int32 small
      · exact .int64 value
  | float bits => exact .float bits

theorem dumpSymbol_layout {symbol? : Option Bytes}
    (fits : ∀ name, symbol? = some name → name.size ≤ 65534) :
    SymbolLayout symbol? (dumpSymbol symbol?) := by
  cases symbol? with
  | none => exact .missing
  | some name => exact .name name 0 (Nat.lt_succ_of_le (fits name rfl))

/-- A record that is written has its true size in front. -/
theorem dumpRecord_eq (unit : CodeUnit) :
    dumpRecord unit = recordBytes unit (bigEndian 4 (4 + (dumpRecordBody unit).length))
      (unit.pool.toList.map dumpLiteral) (unit.symbols.toList.map dumpSymbol) := by
  simp only [dumpRecord, dumpRecordBody, recordBytes, List.flatMap_def, List.append_assoc]

theorem dumpRecord_layout {unit : CodeUnit} (fits : unit.FitsRecord)
    (short : (dumpRecord unit).length < 4294967296) : RecordLayout unit (dumpRecord unit) := by
  have codeSize : unit.code.size < 4294967296 := by
    simp [dumpRecord, dumpRecordBody] at short
    omega
  rw [dumpRecord_eq]
  apply RecordLayout.record (length_bigEndian 4 _) fits.children fits.handlers codeSize fits.pool
    fits.symbols
  · rw [List.forall₂_map_right_iff, List.forall₂_same]
    intro literal member
    apply dumpLiteral_layout
    rintro bytes rfl
    exact fits.strings bytes (Array.mem_toList_iff.mp member)
  · rw [List.forall₂_map_right_iff, List.forall₂_same]
    intro symbol? member
    apply dumpSymbol_layout
    rintro name rfl
    exact fits.names name (Array.mem_toList_iff.mp member)

theorem dumpTree_eq (unit : CodeUnit) :
    dumpTree unit = dumpRecord unit ++ unit.children.flatMap dumpTree := by
  have trees (children : List CodeUnit) : dumpTrees children = children.flatMap dumpTree := by
    induction children with
    | nil => rfl
    | cons child rest inductionHypothesis => rw [dumpTrees, inductionHypothesis, List.flatMap_cons]
  obtain ⟨localCount, registerCount, code, handlers, pool, symbols, children⟩ := unit
  rw [dumpTree, trees]

/-- A tree is written in one of its layouts. -/
theorem dumpTree_layout {unit : CodeUnit} (fits : unit.EveryUnit CodeUnit.FitsRecord)
    (short : (dumpTree unit).length < 4294967296) : TreeLayout unit (dumpTree unit) := by
  induction fits with
  | @tree unit fits _ inductionHypothesis =>
      rw [dumpTree_eq, List.flatMap_def] at short ⊢
      rw [List.length_append] at short
      apply TreeLayout.tree (dumpRecord_layout fits (by omega))
      rw [List.forall₂_map_right_iff, List.forall₂_same]
      intro child member
      have inside := (List.sublist_flatten_of_mem
        (List.mem_map_of_mem (f := dumpTree) member)).length_le
      exact inductionHypothesis child member (by omega)

/-! ### The container -/

/-- The header of a container of a declared size. -/
def headerBytes (minor compiler : List UInt8) (declared : Nat) : List UInt8 :=
  fileIdent ++ (majorVersion ++ (minor ++ (bigEndian 4 declared ++ compiler)))

theorem reads_headerBytes {minor compiler : List UInt8} {declared : Nat} (actual : Nat)
    (minorField : minor.length = 2) (supported : ¬ minorVersion < minor)
    (compilerField : compiler.length = 8) (complete : declared ≤ actual)
    (short : declared < 4294967296) :
    Reads (readHeader actual) (headerBytes minor compiler declared) declared := by
  have minorRead : Reads (Reader.bytes 2 .header) minor minor := minorField ▸ Reads.bytes minor _
  have compilerRead : Reads (Reader.bytes 8 .header) compiler compiler :=
    compilerField ▸ Reads.bytes compiler _
  apply (Reads.bytes fileIdent .header).bind
  rw [if_neg (by decide)]
  apply (Reads.bytes majorVersion .header).bind
  apply minorRead.bind
  rw [if_neg (by simp [supported])]
  apply (Reads.word32_of_lt short .header).bind
  rw [if_neg (by omega)]
  exact compilerRead.finish rfl

theorem reads_header (actual : Nat) {declared : Nat} (complete : declared ≤ actual)
    (short : declared < 4294967296) :
    Reads (readHeader actual) (fileIdent ++ (majorVersion ++ (minorVersion ++
      (bigEndian 4 declared ++ (compilerName ++ compilerVersion))))) declared :=
  reads_headerBytes actual rfl (by decide) rfl complete short

theorem reads_section {ident body : List UInt8} (isIdent : ident.length = 4)
    (short : sectionHeaderSize + body.length < 4294967296) :
    Reads readSection (ident ++ (bigEndian 4 (sectionHeaderSize + body.length) ++ body))
      { ident, body } := by
  have named : Reads (Reader.bytes 4 .sectionHeader) ident ident :=
    isIdent ▸ Reads.bytes ident .sectionHeader
  refine named.bind <| (Reads.word32_of_lt short .sectionHeader).bind <| ?_
  rw [if_neg (by omega), Nat.add_sub_cancel_left]
  exact (Reads.bytes body .sectionBody).finish rfl

theorem treeOfSection_dumpTree {unit : CodeUnit} (fits : unit.EveryUnit CodeUnit.FitsRecord)
    (short : (dumpTree unit).length < 4294967296) :
    treeOfSection (unitSectionVersion ++ dumpTree unit) = .ok unit := by
  have version : unitSectionVersion.length = 4 := rfl
  have read := (dumpTree_layout fits short).treeOfSection version []
  rwa [List.append_nil] at read

/-- Sections are read one after the other. -/
theorem treeOfSections_succ (found? : Option CodeUnit) (fuel : Nat) {input rest : List UInt8}
    {part : Section} (read : readSection input = .ok (part, rest)) :
    treeOfSections found? (fuel + 1) input =
      if part.ident = unitSection then do
        let tree ← treeOfSection part.body
        treeOfSections (some tree) fuel rest
      else if part.ident = endSection then .ok found?
      else treeOfSections found? fuel rest := by
  cases input with
  | nil => exact nomatch read
  | cons first others =>
      rw [treeOfSections]
      · change (readSection (first :: others) >>= _) = _
        rw [read]
        rfl
      · nofun

/-- The body of the unit section of a tree. -/
def unitSectionBody (unit : CodeUnit) : List UInt8 := unitSectionVersion ++ dumpTree unit

/-- What stands behind the header of a container. -/
def dumpSections (unit : CodeUnit) : List UInt8 :=
  (unitSection ++ (bigEndian 4 (sectionHeaderSize + (unitSectionBody unit).length) ++
    unitSectionBody unit)) ++ (endSection ++ bigEndian 4 sectionHeaderSize)

theorem length_dumpSections (unit : CodeUnit) : (dumpSections unit).length =
    sectionHeaderSize + (unitSectionBody unit).length + sectionHeaderSize := by
  have ident : unitSection.length + 4 = sectionHeaderSize := rfl
  have ending : endSection.length + 4 = sectionHeaderSize := rfl
  simp only [dumpSections, List.length_append, length_bigEndian]
  omega

/-- A container is its header in front of its sections. -/
theorem toList_dump (unit : CodeUnit) : (dump unit).toList =
    (fileIdent ++ (majorVersion ++ (minorVersion ++
      (bigEndian 4 (headerSize + (dumpSections unit).length) ++
        (compilerName ++ compilerVersion))))) ++ dumpSections unit := by
  rw [length_dumpSections, dump, dumpSections, unitSectionBody, List.length_append]
  simp only [List.append_assoc, Nat.add_assoc]

theorem size_dump (unit : CodeUnit) :
    (dump unit).size = headerSize + (dumpSections unit).length := by
  have header : fileIdent.length + (majorVersion.length + (minorVersion.length +
      (4 + (compilerName.length + compilerVersion.length)))) = headerSize := rfl
  rw [← Array.length_toList, toList_dump]
  simp only [List.length_append, length_bigEndian]
  omega

/-- The sections of a container hold the tree. -/
theorem treeOfSections_dumpSections {unit : CodeUnit} (fuel : Nat)
    (fits : unit.EveryUnit CodeUnit.FitsRecord)
    (short : (dumpSections unit).length < 4294967296) :
    treeOfSections none (fuel + 2) (dumpSections unit) = .ok (some unit) := by
  rw [length_dumpSections] at short
  have isTree : treeOfSection (unitSectionBody unit) = .ok unit := by
    refine treeOfSection_dumpTree fits ?_
    rw [unitSectionBody, List.length_append] at short
    omega
  have tree : Reads readSection _ { ident := unitSection, body := unitSectionBody unit } :=
    reads_section rfl (by omega)
  have first := treeOfSections_succ none (fuel + 1) (tree (endSection ++
    bigEndian 4 sectionHeaderSize))
  have ending : Reads readSection _ { ident := endSection, body := [] } :=
    reads_section rfl (by decide)
  have ends := ending []
  rw [List.append_nil, List.append_nil, List.length_nil, Nat.add_zero] at ends
  have second := treeOfSections_succ (some unit) fuel ends
  have notUnit : ¬ endSection = unitSection := by decide
  dsimp only at first second
  rw [if_pos (Eq.refl unitSection), isTree] at first
  dsimp only [bind, Except.bind] at first
  rw [if_neg notUnit, if_pos (Eq.refl endSection)] at second
  exact first.trans second

/-- Loading what was dumped gives the tree back. -/
theorem load_dump {unit : CodeUnit} (valid : unit.validate = .ok ())
    (fits : unit.EveryUnit CodeUnit.FitsRecord) (short : (dump unit).size < 4294967296) :
    load (dump unit) = .ok unit := by
  rw [size_dump] at short
  have header := reads_header (dump unit).size (Nat.le_of_eq (size_dump unit).symm) short
    (dumpSections unit)
  rw [← toList_dump] at header
  have body : (dumpSections unit).take (headerSize + (dumpSections unit).length - headerSize) =
      dumpSections unit := by
    rw [Nat.add_sub_cancel_left, List.take_length]
  obtain ⟨fuel, isFuel⟩ : ∃ fuel, (dumpSections unit).length = fuel + 2 := by
    rw [length_dumpSections]
    exact ⟨_, rfl⟩
  have tree := treeOfSections_dumpSections fuel fits (by omega)
  rw [← isFuel] at tree
  rw [load]
  change (readHeader (dump unit).size (dump unit).toList >>= _) = _
  rw [header]
  dsimp only [bind, Except.bind]
  rw [body, tree]
  dsimp only
  rw [valid]
  rfl

/-- A method of one instruction, a return of what a register holds. -/
def returningUnit : CodeUnit :=
  { localCount := 1, registerCount := 2, code := #[Opcode.returnValue.toByte, 1], handlers := []
    pool := #[], symbols := #[], children := [] }

/-- Code with a region, literals of every kind, a name, a missing name and a child. -/
def tabledUnit : CodeUnit :=
  { localCount := 1, registerCount := 3
    code := #[Opcode.string.toByte, 1, 0, Opcode.returnValue.toByte, 1]
    handlers := [{ kind := .ensure, first := 0, last := 3, target := 3 }]
    pool := #[.string #[104, 0, 255], .int (-1), .int (-4294967297), .float 0x7ff8000000000001]
    symbols := #[some #[97, 255], none, some #[]]
    children := [returningUnit] }

theorem load_dump_tabledUnit :
    tabledUnit.validate = .ok () ∧ tabledUnit.EveryUnit CodeUnit.FitsRecord ∧
      (dump tabledUnit).size < 4294967296 ∧ load (dump tabledUnit) = .ok tabledUnit := by
  have valid : tabledUnit.validate = .ok () := by decide +kernel
  have child : returningUnit.EveryUnit CodeUnit.FitsRecord :=
    .tree ⟨by decide, by decide, by decide, by decide, nofun, nofun⟩ nofun
  have fits : tabledUnit.EveryUnit CodeUnit.FitsRecord := by
    refine .tree ⟨by decide, by decide, by decide, by decide, ?_, ?_⟩ ?_
    · simp [tabledUnit]
    · simp [tabledUnit]
    · simp [tabledUnit, child]
  have short : (dump tabledUnit).size < 4294967296 := by decide +kernel
  exact ⟨valid, fits, short, load_dump valid fits short⟩

end Binary

end RiteVm
