import RiteVm.Proofs.Binary.Containers

/-!
Contract: nothing but layouts is read, so what was loaded stands in the container, and can be written
again without a loss.

Owns:
- each reader of a record takes a layout of the item that it returns;
- trees, by induction on the fuel, and the tree that a container yields;
- an item fits the fields of a record if it has any layout, and no layout is shorter than the
  one that is written, or than the tables in it;
- the container that is written for a tree, as one of its layouts, and loading it again.

A container without an end section is written with one, so the bytes can become more by the
size of a section header and by no more.

Does not own: that each layout is read (`Layouts`).
-/

namespace RiteVm.Binary

open RiteVm.Bytecode

namespace Recognizes

/-! ### The parts of a record -/

theorem handler : Recognizes readHandler fun handler front => front = dumpHandler handler := by
  have fields (kind : CatchKind) : Recognizes (do
      let first ← Reader.word32 .handlers
      let last ← Reader.word32 .handlers
      let target ← Reader.word32 .handlers
      return { kind, first := .ofNat first, last := .ofNat last, target := .ofNat target })
      fun (handler : CatchHandler) front =>
        handlerKindByte kind :: front = dumpHandler handler := by
    apply (word32 .handlers).bind
    rintro first _ ⟨rfl, firstFits⟩
    apply (word32 .handlers).bind
    rintro last _ ⟨rfl, lastFits⟩
    apply (word32 .handlers).bind
    rintro target _ ⟨rfl, targetFits⟩
    apply nothing
    simp [dumpHandler, Nat.mod_eq_of_lt firstFits, Nat.mod_eq_of_lt lastFits,
      Nat.mod_eq_of_lt targetFits]
  apply (byte .handlers).bind
  rintro kind _ rfl
  split
  · exact fields .rescue
  · exact fields .ensure
  · intro _ _ _ read
    cases read

/-- The table of handlers has no more bytes than its entries. -/
theorem handlers (count : Nat) : Recognizes (readHandlers count) fun handlers front =>
    handlers.length = count ∧ front = handlers.flatMap dumpHandler := by
  apply (bytes (count * handlerSize) .handlers).bind
  rintro _ table ⟨rfl, size⟩
  apply (lift ((Reader.times readHandler count).run table)).bind
  rintro ⟨handlers, left⟩ _ ⟨read, rfl⟩
  obtain ⟨_, isTable, length, fronts, rfl, each⟩ := (handler.times count) read
  apply nothing
  have entries : fronts.flatten = handlers.flatMap dumpHandler := by
    rw [List.flatMap_def]
    congr 1
    rw [← List.forall₂_eq_eq_eq, List.forall₂_map_right_iff]
    exact each.flip
  have nothingLeft : left = [] := by
    have lengths := congrArg List.length isTable
    rw [List.length_append, entries, length_dumpHandlers, length, size] at lengths
    exact List.length_eq_zero_iff.mp (by omega)
  refine ⟨length, ?_⟩
  rw [isTable, nothingLeft, entries, List.append_nil, List.append_nil, List.append_nil]

/-- A word with a sign fits four bytes and is written as it was read. -/
theorem layout_int32 {word : Nat} (fits : word < 4294967296) :
    LiteralLayout (.int (Int64.ofInt (Int.bmod word 4294967296)))
      (int32Tag :: bigEndian 4 word) := by
  generalize isValue : Int64.ofInt (Int.bmod word 4294967296) = value
  have small : value.toInt = Int.bmod word 4294967296 := by
    rw [← isValue, Int64.toInt_ofInt]
    simp only [Int64.size, Int.bmod_def]
    omega
  have bits : value.toInt = Int.bmod value.toUInt64.toNat 18446744073709551616 :=
    BitVec.toInt_eq_toNat_bmod value.toBitVec
  have bound := value.toUInt64.toNat_lt
  have low : value.toUInt64.toNat % 256 ^ 4 = word := by
    rw [small, Int.bmod_def, Int.bmod_def] at bits
    omega
  rw [← low, bigEndian_mod]
  apply LiteralLayout.int32
  rw [small, Int.bmod_def]
  omega

theorem layout_int64 {high low : Nat} (highFits : high < 4294967296) (lowFits : low < 4294967296) :
    LiteralLayout (.int (UInt64.ofNat (high * 4294967296 + low)).toInt64)
      (int64Tag :: (bigEndian 4 high ++ bigEndian 4 low)) := by
  have layout := LiteralLayout.int64 (UInt64.ofNat (high * 4294967296 + low)).toInt64
  have isNumber : (UInt64.ofNat (high * 4294967296 + low)).toNat = high * 4294967296 + low :=
    UInt64.toNat_ofNat_of_lt' (by simp only [UInt64.size]; omega)
  have isHigh : (high * 4294967296 + low) >>> (8 * 4) = high := by
    rw [Nat.shiftRight_eq_div_pow]
    omega
  have isLow : (high * 4294967296 + low) % 256 ^ 4 = low := by omega
  rw [UInt64.toUInt64_toInt64, isNumber, show 8 = 4 + 4 by rfl, bigEndian_add, isHigh,
    ← bigEndian_mod 4 (high * 4294967296 + low), isLow] at layout
  exact layout

theorem layout_float {raw : List UInt8} (size : raw.length = 8) :
    LiteralLayout (.float (UInt64.ofNat (ofLittleEndian raw))) (floatTag :: raw) := by
  have layout := LiteralLayout.float (UInt64.ofNat (ofLittleEndian raw))
  have bound := ofLittleEndian_lt raw
  rw [size] at bound
  rwa [UInt64.toNat_ofNat_of_lt' bound, ← size, littleEndian_ofLittleEndian] at layout

theorem literal : Recognizes readLiteral LiteralLayout := by
  apply (byte .pool).bind
  rintro tag _ rfl
  split
  · rename_i isTag
    apply (word16 .poolString).bind
    rintro length _ ⟨rfl, fits⟩
    apply (bytes length .poolString).bind
    rintro _ content ⟨rfl, rfl⟩
    apply (byte .poolString).bind
    rintro padding _ rfl
    apply nothing
    have layout := LiteralLayout.string content.toArray padding isTag
      (by rw [List.size_toArray]; omega)
    simpa using layout
  split
  · rename_i isTag
    apply (word32 .poolInteger).bind
    rintro word _ ⟨rfl, fits⟩
    apply nothing
    simpa [isTag] using layout_int32 fits
  split
  · rename_i isTag
    apply (word32 .poolInteger).bind
    rintro high _ ⟨rfl, highFits⟩
    apply (word32 .poolInteger).bind
    rintro low _ ⟨rfl, lowFits⟩
    apply nothing
    simpa [isTag] using layout_int64 highFits lowFits
  split
  · rename_i isTag
    apply (bytes 8 .poolFloat).bind
    rintro _ raw ⟨rfl, size⟩
    apply nothing
    simpa [isTag] using layout_float size
  split
  · exact fails _
  · exact fails _

theorem symbol : Recognizes readSymbol SymbolLayout := by
  apply (word16 .symbol).bind
  rintro length _ ⟨rfl, fits⟩
  split
  · rename_i isMissing
    apply nothing
    rw [isMissing, List.append_nil]
    exact .missing
  · rename_i isName
    apply (bytes length .symbol).bind
    rintro _ name ⟨rfl, rfl⟩
    apply (byte .symbol).bind
    rintro padding _ rfl
    apply nothing
    have layout := SymbolLayout.name name.toArray padding
      (by rw [List.size_toArray]; rw [noName] at isName ⊢; omega)
    simpa using layout

/-! ### Records and trees -/

/-- A record is a layout of the unit that it belongs to, given as many children as it says. -/
theorem record : Recognizes readRecord fun (unit, childCount) front =>
    ∀ children, children.length = childCount → RecordLayout { unit with children } front := by
  apply (word32 .recordSize).bind
  rintro size _ ⟨rfl, -⟩
  apply (word16 .unitHeader).bind
  rintro localCount _ ⟨rfl, localFits⟩
  apply (word16 .unitHeader).bind
  rintro registerCount _ ⟨rfl, registerFits⟩
  apply (word16 .unitHeader).bind
  rintro childCount _ ⟨rfl, childFits⟩
  apply (word16 .unitHeader).bind
  rintro handlerCount _ ⟨rfl, handlerFits⟩
  apply (word32 .unitHeader).bind
  rintro codeSize _ ⟨rfl, codeFits⟩
  apply (bytes codeSize .code).bind
  rintro _ code ⟨rfl, rfl⟩
  apply (handlers handlerCount).bind
  rintro handlers _ ⟨rfl, rfl⟩
  apply (word16 .pool).bind
  rintro poolSize _ ⟨rfl, poolFits⟩
  apply (literal.times poolSize).bind
  rintro pool _ ⟨rfl, literals, rfl, eachLiteral⟩
  apply (word16 .symbols).bind
  rintro symbolCount _ ⟨rfl, symbolFits⟩
  apply (symbol.times symbolCount).bind
  rintro symbols _ ⟨rfl, names, rfl, eachName⟩
  apply nothing
  rintro children rfl
  let unit : CodeUnit := {
    localCount := .ofNat localCount
    registerCount := .ofNat registerCount
    code := code.toArray
    handlers
    pool := pool.toArray
    symbols := symbols.toArray
    children }
  have layout : RecordLayout unit (recordBytes unit (bigEndian 4 size) literals names) :=
    .record (length_bigEndian 4 size) (Nat.le_of_lt_succ childFits)
      (Nat.le_of_lt_succ handlerFits) codeFits (Nat.le_of_lt_succ poolFits)
      (Nat.le_of_lt_succ symbolFits) eachLiteral eachName
  simpa [unit, recordBytes, Nat.mod_eq_of_lt localFits, Nat.mod_eq_of_lt registerFits] using layout

theorem tree (fuel : Nat) : Recognizes (readTree fuel) TreeLayout := by
  induction fuel with
  | zero => exact fails _
  | succ fuel inductionHypothesis =>
      apply record.bind
      rintro ⟨unit, childCount⟩ record isRecord
      apply (inductionHypothesis.times childCount).bind
      rintro children _ ⟨length, fronts, rfl, eachChild⟩
      apply nothing
      rw [List.append_nil]
      exact .tree (isRecord children length) eachChild

theorem versioned (fuel : Nat) : Recognizes (readVersioned fuel) fun tree front =>
    ∃ records, TreeLayout tree records ∧ front.length = 4 + records.length := by
  apply (bytes 4 .unitVersion).bind
  rintro _ version ⟨rfl, size⟩
  apply (tree fuel).imp
  intro tree records layout
  exact ⟨records, layout, by rw [List.length_append, size]⟩

/-! ### The container -/

/-- The declared size stands behind eight bytes of the header, and in front of eight. -/
theorem header (actual : Nat) : Recognizes (readHeader actual) fun declared front =>
    declared ≤ actual ∧ declared < 4294967296 ∧ ∃ before behind,
      front = before ++ (bigEndian 4 declared ++ behind) ∧ before.length = 8 ∧
        behind.length = 8 := by
  apply (bytes 4 .header).bind
  rintro _ ident ⟨rfl, identSize⟩
  split
  · intro _ _ _ read
    cases read
  apply (bytes 2 .header).bind
  rintro _ major ⟨rfl, majorSize⟩
  apply (bytes 2 .header).bind
  rintro _ minor ⟨rfl, minorSize⟩
  split
  · intro _ _ _ read
    cases read
  apply (word32 .header).bind
  rintro declared _ ⟨rfl, fits⟩
  split
  · intro _ _ _ read
    cases read
  rename_i complete
  apply (bytes 8 .header).bind
  rintro _ compiler ⟨rfl, compilerSize⟩
  apply nothing
  refine ⟨Nat.le_of_not_lt complete, fits, ident ++ (major ++ minor), compiler, ?_, ?_,
    compilerSize⟩
  · simp only [List.append_assoc, List.append_nil]
  · simp [identSize, majorSize, minorSize]

theorem oneSection : Recognizes readSection fun part front =>
    part.ident.length = 4 ∧ sectionHeaderSize + part.body.length < 4294967296 ∧
      front = part.bytes := by
  apply (bytes 4 .sectionHeader).bind
  rintro _ ident ⟨rfl, identSize⟩
  apply (word32 .sectionHeader).bind
  rintro size _ ⟨rfl, fits⟩
  split
  · intro _ _ _ read
    cases read
  rename_i hasHeader
  apply (bytes (size - sectionHeaderSize) .sectionBody).bind
  rintro _ body ⟨rfl, bodySize⟩
  apply nothing
  have isSize : sectionHeaderSize + body.length = size := by omega
  refine ⟨identSize, isSize ▸ fits, ?_⟩
  rw [List.append_nil, Section.bytes, isSize]

end Recognizes

/-- The tree of a section stands in its body, behind the version. -/
theorem exists_layout_of_treeOfSection {body : List UInt8} {tree : CodeUnit}
    (found : treeOfSection body = .ok tree) :
    ∃ front, TreeLayout tree front ∧ unitSectionVersion.length + front.length ≤ body.length := by
  rw [treeOfSection_eq] at found
  cases read : readVersioned body.length body with
  | error error =>
      rw [read] at found
      cases found
  | ok outcome =>
      obtain ⟨tree, extra⟩ := outcome
      rw [read] at found
      obtain rfl := Except.ok.inj found
      obtain ⟨front, isBody, records, layout, length⟩ := Recognizes.versioned body.length read
      refine ⟨records, layout, ?_⟩
      rw [isBody, List.length_append, length, show unitSectionVersion.length = 4 from rfl]
      omega

/-- The tree of a container stands in one of its sections. -/
theorem exists_layout_of_treeOfSections {found? : Option CodeUnit} {fuel : Nat}
    {input : List UInt8} {tree : CodeUnit}
    (found : treeOfSections found? fuel input = .ok (some tree)) :
    found? = some tree ∨ ∃ front, TreeLayout tree front ∧
      sectionHeaderSize + unitSectionVersion.length + front.length ≤ input.length := by
  induction fuel generalizing found? input with
  | zero => exact .inl (Except.ok.inj found)
  | succ fuel inductionHypothesis =>
      cases input with
      | nil => exact .inl (Except.ok.inj found)
      | cons first others =>
          cases read : readSection (first :: others) with
          | error error =>
              rw [treeOfSections] at found
              · change (readSection (first :: others) >>= _) = _ at found
                rw [read] at found
                cases found
              · rintro ⟨⟩
          | ok outcome =>
              obtain ⟨part, rest⟩ := outcome
              obtain ⟨_, isInput, isIdent, -, rfl⟩ := Recognizes.oneSection read
              have length := part.length_bytes isIdent
              rw [treeOfSections_succ found? fuel read] at found
              rw [isInput, List.length_append]
              split at found
              · cases inside : treeOfSection part.body with
                | error error =>
                    rw [inside] at found
                    cases found
                | ok other =>
                    rw [inside] at found
                    rcases inductionHypothesis found with same | ⟨front, layout, fits⟩
                    · obtain rfl := Option.some.inj same
                      obtain ⟨front, layout, fits⟩ := exists_layout_of_treeOfSection inside
                      exact .inr ⟨front, layout, by omega⟩
                    · exact .inr ⟨front, layout, by omega⟩
              · split at found
                · exact .inl (Except.ok.inj found)
                · rcases inductionHypothesis found with same | ⟨front, layout, fits⟩
                  · exact .inl same
                  · exact .inr ⟨front, layout, by omega⟩

/-- A loaded tree is valid, and its records stand in the container. -/
theorem exists_layout_of_load {binary : Bytes} {tree : CodeUnit}
    (loaded : load binary = .ok tree) :
    tree.validate = .ok () ∧ ∃ front, TreeLayout tree front ∧
      headerSize + sectionHeaderSize + unitSectionVersion.length + front.length ≤ binary.size := by
  rw [load] at loaded
  change (readHeader binary.size binary.toList >>= _) = _ at loaded
  cases header : readHeader binary.size binary.toList with
  | error error =>
      rw [header] at loaded
      cases loaded
  | ok outcome =>
      obtain ⟨declared, rest⟩ := outcome
      obtain ⟨_, isBinary, -, -, before, behind, rfl, beforeSize, behindSize⟩ :=
        Recognizes.header _ header
      have size : (before ++ (bigEndian 4 declared ++ behind)).length = headerSize := by
        rw [List.length_append, List.length_append, length_bigEndian, beforeSize, behindSize]
        rfl
      rw [header] at loaded
      dsimp only [bind, Except.bind] at loaded
      split at loaded
      · cases loaded
      rename_i found? found
      cases found? with
      | none => cases loaded
      | some other =>
          dsimp only at loaded
          split at loaded
          · rename_i valid
            obtain rfl := Except.ok.inj loaded
            refine ⟨valid, ?_⟩
            rcases exists_layout_of_treeOfSections found with impossible | ⟨front, layout, fits⟩
            · cases impossible
            · refine ⟨front, layout, ?_⟩
              rw [List.length_take] at fits
              rw [← Array.length_toList, isBinary, List.length_append]
              omega
          · cases loaded

/-! ### The shortest layout -/

theorem LiteralLayout.length_dump_le {literal : Literal} {front : List UInt8}
    (layout : LiteralLayout literal front) : (dumpLiteral literal).length ≤ front.length := by
  cases layout with
  | string padding isTag fits => simp [dumpLiteral]
  | int32 fits => simp [dumpLiteral, fits]
  | int64 value =>
      rw [dumpLiteral]
      split <;> simp
  | float bits => simp [dumpLiteral]

theorem SymbolLayout.length_dump_le {symbol? : Option Bytes} {front : List UInt8}
    (layout : SymbolLayout symbol? front) : (dumpSymbol symbol?).length ≤ front.length := by
  cases layout with
  | missing => exact Nat.le_refl _
  | name padding fits => simp [dumpSymbol]

theorem sum_le_of_forall₂ {α : Type} {layout : α → List UInt8 → Prop} {size : α → Nat}
    {items : List α} {fronts : List (List UInt8)} (each : List.Forall₂ layout items fronts)
    (least : ∀ item front, layout item front → size item ≤ front.length) :
    (items.map size).sum ≤ fronts.flatten.length := by
  induction each with
  | nil => exact Nat.le_refl _
  | cons isFirst _ inductionHypothesis =>
      have first := least _ _ isFirst
      rw [List.map_cons, List.sum_cons, List.flatten_cons, List.length_append]
      omega

theorem length_flatMap_le_of_forall₂ {α : Type} {layout : α → List UInt8 → Prop}
    {write : α → List UInt8} {items : List α} {fronts : List (List UInt8)}
    (each : List.Forall₂ layout items fronts)
    (shortest : ∀ item front, layout item front → (write item).length ≤ front.length) :
    (items.flatMap write).length ≤ fronts.flatten.length := by
  rw [List.length_flatMap]
  exact sum_le_of_forall₂ each shortest

/-- Each item of a list with layouts has one of them. -/
theorem exists_layout_of_mem {α : Type} {layout : α → List UInt8 → Prop} {items : List α}
    {fronts : List (List UInt8)} (each : List.Forall₂ layout items fronts) {item : α}
    (member : item ∈ items) : ∃ front, layout item front := by
  induction each with
  | nil => exact nomatch member
  | cons isFirst _ inductionHypothesis =>
      rcases List.mem_cons.mp member with rfl | behind
      · exact ⟨_, isFirst⟩
      · exact inductionHypothesis behind

theorem RecordLayout.fitsRecord {unit : CodeUnit} {front : List UInt8}
    (layout : RecordLayout unit front) : unit.FitsRecord := by
  obtain @⟨_, _, _, _, children, handlers, _, pool, symbols, eachLiteral, eachName⟩ := layout
  refine ⟨children, handlers, pool, symbols, ?_, ?_⟩
  · intro bytes member
    obtain ⟨_, literal⟩ := exists_layout_of_mem eachLiteral (Array.mem_toList_iff.mpr member)
    cases literal
    assumption
  · intro name member
    obtain ⟨_, symbol⟩ := exists_layout_of_mem eachName (Array.mem_toList_iff.mpr member)
    cases symbol
    exact Nat.le_of_lt_succ ‹_›

theorem RecordLayout.length_dump_le {unit : CodeUnit} {front : List UInt8}
    (layout : RecordLayout unit front) : (dumpRecord unit).length ≤ front.length := by
  obtain @⟨_, _, _, sizeField, _, _, _, _, _, eachLiteral, eachName⟩ := layout
  have pool := length_flatMap_le_of_forall₂ eachLiteral fun _ _ => LiteralLayout.length_dump_le
  have symbols := length_flatMap_le_of_forall₂ eachName fun _ _ => SymbolLayout.length_dump_le
  simp only [dumpRecord, dumpRecordBody, recordBytes, List.length_append, length_bigEndian,
    sizeField]
  omega

/-! ### The sizes of tables -/

/-- Bytes that a literal takes at least. -/
def literalSize : Literal → Nat
  | .string bytes => bytes.size + 4
  | .int _ => 5
  | .float _ => 9

/-- Bytes that a name takes. -/
def nameSize : Option Bytes → Nat
  | some name => name.size + 3
  | none => 2

/-- Bytes that the tables of a unit take at least: its code, handlers, literals and names. -/
def tableSize (unit : CodeUnit) : Nat :=
  unit.code.size + handlerSize * unit.handlers.length + (unit.pool.toList.map literalSize).sum +
    (unit.symbols.toList.map nameSize).sum

theorem LiteralLayout.literalSize_le {literal : Literal} {front : List UInt8}
    (layout : LiteralLayout literal front) : literalSize literal ≤ front.length := by
  cases layout with
  | string padding isTag fits => simp [literalSize]; omega
  | int32 fits => simp [literalSize]
  | int64 value => simp [literalSize]
  | float bits => simp [literalSize]

theorem SymbolLayout.nameSize_le {symbol? : Option Bytes} {front : List UInt8}
    (layout : SymbolLayout symbol? front) : nameSize symbol? ≤ front.length := by
  cases layout with
  | missing => simp [nameSize]
  | name name padding fits => simp [nameSize]; omega

/-- A record has twenty bytes besides its tables. -/
theorem RecordLayout.tableSize_le {unit : CodeUnit} {front : List UInt8}
    (layout : RecordLayout unit front) : 20 + tableSize unit ≤ front.length := by
  obtain @⟨_, _, _, sizeField, _, _, _, _, _, eachLiteral, eachName⟩ := layout
  have pool := sum_le_of_forall₂ eachLiteral fun _ _ => LiteralLayout.literalSize_le
  have symbols := sum_le_of_forall₂ eachName fun _ _ => SymbolLayout.nameSize_le
  simp only [tableSize, recordBytes, List.length_append, length_bigEndian, sizeField,
    length_dumpHandlers, handlerSize, Array.length_toList]
  omega

/-- A tree with a layout fits the fields of its records, and is not written longer. -/
theorem TreeLayout.fits_and_length_dump_le {unit : CodeUnit} {front : List UInt8}
    (layout : TreeLayout unit front) :
    unit.EveryUnit CodeUnit.FitsRecord ∧ (dumpTree unit).length ≤ front.length := by
  induction layout using TreeLayout.rec
    (motive_2 := fun children fronts _ =>
      List.Forall₂ (fun child front =>
        child.EveryUnit CodeUnit.FitsRecord ∧ (dumpTree child).length ≤ front.length)
        children fronts) with
  | tree ownRecord _ children =>
      constructor
      · apply CodeUnit.EveryUnit.tree ownRecord.fitsRecord
        intro child member
        obtain ⟨_, fits, -⟩ := exists_layout_of_mem children member
        exact fits
      · have own := ownRecord.length_dump_le
        have rest := length_flatMap_le_of_forall₂ children fun _ _ layout => layout.2
        rw [dumpTree_eq, List.length_append, List.length_append]
        omega
  | nil => exact .nil
  | cons first behind isFirst areBehind => exact .cons isFirst areBehind

/-! ### The container that is written -/

/-- A container is written in one of its layouts. -/
theorem dump_layout {unit : CodeUnit} (fits : unit.EveryUnit CodeUnit.FitsRecord)
    (short : (dump unit).size < 4294967296) : ContainerLayout unit (dump unit) := by
  rw [size_dump] at short
  have shortTree : (dumpTree unit).length < 4294967296 := by
    rw [length_dumpSections, unitSectionBody, List.length_append] at short
    omega
  have sections : SectionsLayout unit (dumpSections unit) := by
    have layout := SectionsLayout.sections [] [] unitSectionVersion [] (by simp) (by simp) rfl
      (dumpTree_layout fits shortTree) (.present [] [])
    rwa [List.append_nil] at layout
  have layout := ContainerLayout.container minorVersion (compilerName ++ compilerVersion) [] rfl
    (by decide) rfl sections short
  rwa [List.append_nil, headerBytes, ← toList_dump, Array.toArray_toList] at layout

/-- A tree that was loaded is written with at most one section header more than it had. -/
theorem size_dump_le_of_load {binary : Bytes} {tree : CodeUnit}
    (loaded : load binary = .ok tree) :
    tree.EveryUnit CodeUnit.FitsRecord ∧ (dump tree).size ≤ binary.size + sectionHeaderSize := by
  obtain ⟨-, front, layout, inside⟩ := exists_layout_of_load loaded
  obtain ⟨fits, shorter⟩ := layout.fits_and_length_dump_le
  refine ⟨fits, ?_⟩
  rw [size_dump, length_dumpSections, unitSectionBody, List.length_append]
  omega

/-- Writing a loaded tree loses nothing: it is loaded again, from hardly more bytes than it
was loaded from, and writing it once more gives the same bytes. -/
theorem load_dump_of_load {binary : Bytes} {tree : CodeUnit}
    (short : binary.size < 4294967296 - 8) (loaded : load binary = .ok tree) :
    load (dump tree) = .ok tree ∧ (dump tree).size ≤ binary.size + 8 ∧
      (load (dump tree)).map dump = .ok (dump tree) := by
  obtain ⟨valid, -⟩ := exists_layout_of_load loaded
  obtain ⟨fits, shorter⟩ := size_dump_le_of_load loaded
  rw [sectionHeaderSize] at shorter
  have layout := dump_layout fits (by omega)
  have again : load (dump tree) = .ok tree := by rw [layout.load_eq, valid]
  refine ⟨again, shorter, ?_⟩
  rw [again]
  rfl

/-- The section of a tree in which an integer takes more bytes than it needs, and no end. -/
def endlessSections : List UInt8 :=
  (⟨unitSection, unitSectionVersion ++ foreignTree⟩ : Section).bytes

def endlessContainer : Bytes :=
  (headerBytes minorVersion (compilerName ++ compilerVersion)
    (headerSize + endlessSections.length) ++ endlessSections).toArray

theorem endlessContainer_layout : ContainerLayout tabledUnit endlessContainer := by
  have sections : SectionsLayout tabledUnit endlessSections := by
    have layout := SectionsLayout.sections [] [] unitSectionVersion [] (by simp) (by simp) rfl
      foreignTree_layout .absent
    simp only [List.flatMap_nil, List.nil_append, List.append_nil] at layout
    exact layout
  have layout := ContainerLayout.container minorVersion (compilerName ++ compilerVersion) [] rfl
    (by decide) rfl sections (by decide +kernel)
  rwa [List.append_nil] at layout

theorem load_dump_of_load_endless :
    endlessContainer.size < 4294967296 - 8 ∧ load endlessContainer = .ok tabledUnit ∧
      load (dump tabledUnit) = .ok tabledUnit ∧
      (dump tabledUnit).size ≤ endlessContainer.size + 8 ∧
      (load (dump tabledUnit)).map dump = .ok (dump tabledUnit) := by
  have short : endlessContainer.size < 4294967296 - 8 := by decide +kernel
  have valid : tabledUnit.validate = .ok () := by decide +kernel
  have loaded : load endlessContainer = .ok tabledUnit := by
    rw [endlessContainer_layout.load_eq, valid]
  exact ⟨short, loaded, load_dump_of_load short loaded⟩

end RiteVm.Binary
