import RiteVm.Proofs.Binary.Layouts

/-!
Contract: the containers that hold a tree, and what is loaded from them.

Owns:
- the layouts of a container around the records of a tree: other sections, an end or none, and
  bytes that nobody looks at;
- loading a container of a valid tree gives the tree, whichever choices were made in it.

Does not own: the layouts of the records (`Layouts`).

The loader needs fuel for the sections in front of the tree and behind it. Each of them takes
bytes of its own, so the bytes that are left always suffice.
-/

namespace RiteVm.Binary

open RiteVm.Bytecode

/-! ### Layouts of a container -/

/-- The bytes of a section. -/
def Section.bytes (part : Section) : List UInt8 :=
  part.ident ++ (bigEndian 4 (sectionHeaderSize + part.body.length) ++ part.body)

/-- A section of neither a tree nor the end. -/
structure Section.IsOther (part : Section) : Prop where
  ident : part.ident.length = 4
  notUnit : part.ident ≠ unitSection
  notEnd : part.ident ≠ endSection

/-- What may stand behind the last section: nothing, or the end and any bytes. -/
inductive EndLayout : List UInt8 → Prop where
  | absent : EndLayout []
  | present (body beyond : List UInt8) :
      EndLayout ((⟨endSection, body⟩ : Section).bytes ++ beyond)

/-- What may stand behind the header. Any four bytes stand for the version of the unit
section, and any bytes may follow the tree in it. -/
inductive SectionsLayout (unit : CodeUnit) : List UInt8 → Prop where
  | sections (before behind : List Section) (version extra : List UInt8)
      {tree ending : List UInt8}
      (othersBefore : ∀ part ∈ before, part.IsOther) (othersBehind : ∀ part ∈ behind, part.IsOther)
      (versionField : version.length = 4) (isTree : TreeLayout unit tree)
      (isEnding : EndLayout ending) :
      SectionsLayout unit (before.flatMap Section.bytes
        ++ ((⟨unitSection, version ++ tree ++ extra⟩ : Section).bytes
          ++ (behind.flatMap Section.bytes ++ ending)))

/-- The layouts of a container. Its minor version is not above the one that is written, eight
bytes name the compiler, and any bytes may follow the size that the header declares. -/
inductive ContainerLayout (unit : CodeUnit) : Bytes → Prop where
  | container (minor compiler beyond : List UInt8) {sections : List UInt8}
      (minorField : minor.length = 2) (supported : ¬ minorVersion < minor)
      (compilerField : compiler.length = 8) (inside : SectionsLayout unit sections)
      (short : headerSize + sections.length < 4294967296) :
      ContainerLayout unit
        (headerBytes minor compiler (headerSize + sections.length) ++ sections ++ beyond).toArray

/-! ### Sections in order -/

theorem Section.length_bytes (part : Section) (isIdent : part.ident.length = 4) :
    part.bytes.length = sectionHeaderSize + part.body.length := by
  simp only [bytes, List.length_append, length_bigEndian, isIdent, sectionHeaderSize]
  omega

theorem Section.reads (part : Section) (isIdent : part.ident.length = 4)
    (short : sectionHeaderSize + part.body.length < 4294967296) :
    Reads readSection part.bytes part :=
  reads_section isIdent short

/-- Other sections leave what was found, and fuel for each byte behind them. -/
theorem exists_treeOfSections_others {parts : List Section} (found? : Option CodeUnit)
    (rest : List UInt8) {fuel : Nat} (others : ∀ part ∈ parts, part.IsOther)
    (short : (parts.flatMap Section.bytes).length < 4294967296)
    (enough : (parts.flatMap Section.bytes ++ rest).length ≤ fuel) :
    ∃ left, rest.length ≤ left ∧
      treeOfSections found? fuel (parts.flatMap Section.bytes ++ rest) =
        treeOfSections found? left rest := by
  induction parts generalizing fuel with
  | nil => exact ⟨fuel, enough, rfl⟩
  | cons part parts inductionHypothesis =>
      obtain ⟨isIdent, notUnit, notEnd⟩ := others part List.mem_cons_self
      have length := part.length_bytes isIdent
      rw [List.flatMap_cons] at short enough ⊢
      simp only [List.length_append, sectionHeaderSize] at short enough length
      obtain ⟨fuel, rfl⟩ : ∃ left, fuel = left + 1 := ⟨fuel - 1, by omega⟩
      have read := part.reads isIdent (by simp only [sectionHeaderSize]; omega)
        (parts.flatMap Section.bytes ++ rest)
      rw [List.append_assoc, treeOfSections_succ found? fuel read, if_neg notUnit, if_neg notEnd]
      apply inductionHypothesis
      · exact fun other member => others other (List.mem_cons_of_mem _ member)
      · omega
      · rw [List.length_append]
        omega

theorem EndLayout.treeOfSections {ending : List UInt8} (layout : EndLayout ending)
    (found? : Option CodeUnit) {fuel : Nat} (short : ending.length < 4294967296)
    (enough : ending.length ≤ fuel) : treeOfSections found? fuel ending = .ok found? := by
  cases layout with
  | absent => cases fuel <;> rfl
  | present body beyond =>
      have length := Section.length_bytes ⟨endSection, body⟩ rfl
      simp only [List.length_append, sectionHeaderSize] at short enough length
      obtain ⟨fuel, rfl⟩ : ∃ left, fuel = left + 1 := ⟨fuel - 1, by omega⟩
      have read := Section.reads ⟨endSection, body⟩ rfl
        (by simp only [sectionHeaderSize]; omega) beyond
      rw [treeOfSections_succ found? fuel read, if_neg (show ¬ endSection = unitSection by decide),
        if_pos rfl]

/-- The sections hold the tree, whatever sections stand around it. -/
theorem SectionsLayout.treeOfSections {unit : CodeUnit} {sections : List UInt8}
    (layout : SectionsLayout unit sections) (short : sections.length < 4294967296) :
    treeOfSections none sections.length sections = .ok (some unit) := by
  obtain @⟨before, behind, version, extra, tree, ending, othersBefore, othersBehind, versionField,
    isTree, isEnding⟩ := layout
  let own : Section := ⟨unitSection, version ++ tree ++ extra⟩
  have length := own.length_bytes rfl
  change (before.flatMap Section.bytes ++ (own.bytes ++
    (behind.flatMap Section.bytes ++ ending))).length < _ at short
  simp only [List.length_append, sectionHeaderSize] at short length
  obtain ⟨fuel, enough, skips⟩ := exists_treeOfSections_others none
    (own.bytes ++ (behind.flatMap Section.bytes ++ ending)) othersBefore (by omega)
    (Nat.le_refl _)
  simp only [List.length_append] at enough
  obtain ⟨fuel, rfl⟩ : ∃ left, fuel = left + 1 := ⟨fuel - 1, by omega⟩
  obtain ⟨left, enoughLeft, skipsBehind⟩ := exists_treeOfSections_others (some unit)
    ending othersBehind (by omega)
    (show (behind.flatMap Section.bytes ++ ending).length ≤ fuel by rw [List.length_append]; omega)
  have read := own.reads rfl (by simp only [sectionHeaderSize]; omega)
    (behind.flatMap Section.bytes ++ ending)
  rw [skips, treeOfSections_succ none fuel read, if_pos rfl,
    isTree.treeOfSection versionField extra]
  exact skipsBehind.trans (isEnding.treeOfSections (some unit) (by omega) enoughLeft)

/-! ### The container -/

theorem length_headerBytes {minor compiler : List UInt8} {declared : Nat}
    (minorField : minor.length = 2) (compilerField : compiler.length = 8) :
    (headerBytes minor compiler declared).length = headerSize := by
  simp only [headerBytes, List.length_append, minorField, compilerField, length_bigEndian]
  rfl

/-- What is loaded from a container depends on its tree alone. -/
theorem ContainerLayout.load_eq {unit : CodeUnit} {binary : Bytes}
    (layout : ContainerLayout unit binary) :
    load binary =
      match unit.validate with
      | .ok () => .ok unit
      | .error error => .error (.invalid error) := by
  obtain @⟨minor, compiler, beyond, sections, minorField, supported, compilerField, inside,
    short⟩ := layout
  have header := reads_headerBytes
    (headerBytes minor compiler (headerSize + sections.length) ++ (sections ++ beyond)).length
    minorField supported compilerField
    (by rw [List.length_append, List.length_append, length_headerBytes minorField compilerField]
        omega) short (sections ++ beyond)
  have body : (sections ++ beyond).take (headerSize + sections.length - headerSize) = sections := by
    rw [Nat.add_sub_cancel_left, List.take_left]
  rw [load, List.append_assoc]
  change (readHeader _ (_ ++ _) >>= _) = _
  rw [List.size_toArray, header]
  dsimp only [bind, Except.bind]
  rw [body, inside.treeOfSections (by omega)]
  dsimp only
  cases unit.validate <;> rfl

/-- Every container of a valid tree is loaded as the tree, however it is laid out. -/
theorem load_layout {unit : CodeUnit} {binary : Bytes} (valid : unit.validate = .ok ())
    (layout : ContainerLayout unit binary) : load binary = .ok unit := by
  rw [layout.load_eq, valid]

/-- The records of `tabledUnit` and its child in another form than the one that is dumped. -/
def foreignTree : List UInt8 :=
  recordBytes tabledUnit [255, 255, 255, 255]
      [staticStringTag :: bigEndian 2 3 ++ [104, 0, 255] ++ [7],
        int64Tag :: bigEndian 8 (-1 : Int64).toUInt64.toNat,
        int64Tag :: bigEndian 8 (-4294967297 : Int64).toUInt64.toNat,
        floatTag :: littleEndian 8 (0x7ff8000000000001 : UInt64).toNat]
      [bigEndian 2 2 ++ [97, 255] ++ [9], bigEndian 2 noName, bigEndian 2 0 ++ [] ++ [1]]
    ++ [recordBytes returningUnit [0, 0, 0, 0] [] []].flatten

/-- A section that the loader passes over. -/
def debugSection : Section := ⟨ascii "DBG" ++ [0], [1, 2, 3]⟩

/-- The tree between other sections, with bytes behind it and behind the end. -/
def foreignSections : List UInt8 :=
  [debugSection].flatMap Section.bytes
    ++ ((⟨unitSection, [1, 2, 3, 4] ++ foreignTree ++ [5]⟩ : Section).bytes
      ++ ([debugSection, debugSection].flatMap Section.bytes
        ++ ((⟨endSection, [6]⟩ : Section).bytes ++ [7, 8])))

/-- A container of an earlier minor version, with bytes behind its declared size. -/
def foreignContainer : Bytes :=
  (headerBytes [48, 47] [0, 1, 2, 3, 4, 5, 6, 7] (headerSize + foreignSections.length)
    ++ foreignSections ++ [82, 73]).toArray

theorem foreignTree_layout : TreeLayout tabledUnit foreignTree := by
  have child : TreeLayout returningUnit (recordBytes returningUnit [0, 0, 0, 0] [] []) := by
    have record : RecordLayout returningUnit (recordBytes returningUnit [0, 0, 0, 0] [] []) :=
      .record rfl (by decide) (by decide) (by decide) (by decide) (by decide) .nil .nil
    have layout := TreeLayout.tree record .nil
    rwa [List.flatten_nil, List.append_nil] at layout
  apply TreeLayout.tree _ (.cons child .nil)
  · apply RecordLayout.record rfl (by decide) (by decide) (by decide) (by decide) (by decide)
    · exact .cons (.string #[104, 0, 255] 7 (.inr rfl) (by decide))
        (.cons (.int64 _) (.cons (.int64 _) (.cons (.float _) .nil)))
    · exact .cons (.name #[97, 255] 9 (by decide))
        (.cons .missing (.cons (.name #[] 1 (by decide)) .nil))

theorem load_layout_foreign :
    tabledUnit.validate = .ok () ∧ ContainerLayout tabledUnit foreignContainer ∧
      load foreignContainer = .ok tabledUnit := by
  have valid : tabledUnit.validate = .ok () := by decide +kernel
  have isOther : debugSection.IsOther := ⟨by decide, by decide, by decide⟩
  have layout : ContainerLayout tabledUnit foreignContainer := by
    apply ContainerLayout.container _ _ _ (by decide) (by decide) (by decide) _ (by decide +kernel)
    exact .sections _ _ _ _ (by simp [isOther]) (by simp [isOther]) rfl foreignTree_layout
      (.present [6] [7, 8])
  exact ⟨valid, layout, load_layout valid layout⟩

end RiteVm.Binary
