import Mathlib.Algebra.BigOperators.Group.List.Basic
import RiteVm.Proofs.Binary.Runs

/-!
Contract: loading ends on every string of bytes, inside of it, and a tree that it gives is no
larger than the section that it was read from.

Owns:
- the units of a tree in order;
- runs of the loop over the sections, without fuel: they exist at every position and have the
  outcome of the loop, so its fuel never decides;
- where the records of a loaded tree stand, and the bound that the declared size is for its
  units and their tables;
- runs of the loader.

Does not own: the runs of fields, records and trees (`Runs`).

The measure of the loop is the distance between a position and the stop, of which each section takes
eight bytes. The bound comes from the places: records of different units share no byte.
-/

namespace RiteVm.Bytecode

/-! ### The units of a tree -/

mutual

/-- The units of a tree, each in front of those of its children. -/
def CodeUnit.units : CodeUnit → List CodeUnit
  | unit@⟨_, _, _, _, _, _, children⟩ => unit :: unitsAll children

/-- The units of a list of trees. -/
def CodeUnit.unitsAll : List CodeUnit → List CodeUnit
  | [] => []
  | unit :: rest => unit.units ++ unitsAll rest

end

namespace CodeUnit

theorem units_eq (unit : CodeUnit) : unit.units = unit :: unitsAll unit.children := by
  cases unit
  rfl

mutual

theorem length_units : (unit : CodeUnit) → unit.units.length = unit.unitCount
  | ⟨_, _, _, _, _, _, children⟩ => by
    rw [units, unitCount, List.length_cons, length_unitsAll children, Nat.add_comm]

theorem length_unitsAll : (trees : List CodeUnit) →
    (unitsAll trees).length = unitCountAll trees
  | [] => rfl
  | unit :: rest => by
    rw [unitsAll, unitCountAll, List.length_append, length_units unit, length_unitsAll rest]

end

end CodeUnit

end RiteVm.Bytecode

namespace RiteVm.Binary

open RiteVm.Bytecode

/-! ### Runs of sections -/

/-- Sections run from a position, one behind the other, up to the end section or the stop. The tree
of a unit section stands behind the eight bytes of the section's header and the four of its version,
and takes no byte behind the section. -/
inductive SectionsRun (binary : Bytes) (stop : Nat) : (found? : Option CodeUnit) →
    (position records : Nat) → Except LoadError (Option CodeUnit) → Prop where
  | ended {found? : Option CodeUnit} : SectionsRun binary stop found? stop 0 (.ok found?)
  | refused {found? : Option CodeUnit} {position : Nat} {error : LoadError}
      (left : position < stop)
      (header : Runs binary stop position readSection (.error error)) :
      SectionsRun binary stop found? position 0 (.error error)
  | closed {found? : Option CodeUnit} {position next : Nat} {part : Section}
      (left : position < stop)
      (header : Runs binary stop position readSection (.ok (part, next)))
      (isEnd : part.ident = endSection) :
      SectionsRun binary stop found? position 0 (.ok found?)
  | skipped {found? : Option CodeUnit} {position next records : Nat} {part : Section}
      {outcome : Except LoadError (Option CodeUnit)} (left : position < stop)
      (header : Runs binary stop position readSection (.ok (part, next)))
      (notUnit : part.ident ≠ unitSection) (notEnd : part.ident ≠ endSection)
      (behind : SectionsRun binary stop found? next records outcome) :
      SectionsRun binary stop found? position records outcome
  | noVersion {found? : Option CodeUnit} {position next : Nat} {part : Section}
      (left : position < stop)
      (header : Runs binary stop position readSection (.ok (part, next)))
      (isUnit : part.ident = unitSection) (short : next < position + 12) :
      SectionsRun binary stop found? position 0 (.error (.truncated .unitVersion))
  | refusedTree {found? : Option CodeUnit} {position next records : Nat} {part : Section}
      {error : LoadError} (left : position < stop)
      (header : Runs binary stop position readSection (.ok (part, next)))
      (isUnit : part.ident = unitSection) (room : position + 12 ≤ next)
      (inside : TreesRun binary next (position + 12) 1 records (.error error)) :
      SectionsRun binary stop found? position records (.error error)
  | unit {found? : Option CodeUnit} {position next last records more : Nat} {part : Section}
      {tree : CodeUnit} {outcome : Except LoadError (Option CodeUnit)} (left : position < stop)
      (header : Runs binary stop position readSection (.ok (part, next)))
      (isUnit : part.ident = unitSection) (room : position + 12 ≤ next)
      (inside : TreesRun binary next (position + 12) 1 records (.ok ([tree], last)))
      (behind : SectionsRun binary stop (some tree) next more outcome) :
      SectionsRun binary stop found? position (records + more) outcome

/-- The tree of a section without fuel, behind its version. -/
theorem treeOfSection_slice {binary : Bytes} {first last : Nat} (room : first + 4 ≤ last)
    (inside : last ≤ binary.size) :
    treeOfSection (slice binary first last) =
      (readUnit (slice binary (first + 4) last)).map Prod.fst := by
  have takes : Runs binary last first (Reader.bytes 4 .unitVersion) _ := .takes _ room
  have version := takes.sound (by omega) inside
  have enough : (slice binary (first + 4) last).length ≤ (slice binary first last).length := by
    rw [length_slice inside, length_slice inside]
    omega
  rw [treeOfSection_eq, readVersioned, bind_of_read version.1, readTree_eq_readUnit enough]

section OneTree

variable {binary : Bytes} {first last next records : Nat}

theorem TreesRun.treeOfSection_ok {tree : CodeUnit}
    (run : TreesRun binary last (first + 4) 1 records (.ok ([tree], next)))
    (room : first + 4 ≤ last) (inside : last ≤ binary.size) :
    treeOfSection (slice binary first last) = .ok tree := by
  have one := run.sound room inside
  rw [treeOfSection_slice room inside]
  cases read : readUnit (slice binary (first + 4) last) with
  | error error => cases (bind_of_refused read).symm.trans one
  | ok outcome =>
      obtain ⟨other, rest⟩ := outcome
      have same := Except.ok.inj ((bind_of_read read).symm.trans one)
      exact congrArg Except.ok (List.head_eq_of_cons_eq (congrArg Prod.fst same))

theorem TreesRun.treeOfSection_error {error : LoadError}
    (run : TreesRun binary last (first + 4) 1 records (.error error))
    (room : first + 4 ≤ last) (inside : last ≤ binary.size) :
    treeOfSection (slice binary first last) = .error error := by
  have one := run.sound room inside
  rw [treeOfSection_slice room inside]
  cases read : readUnit (slice binary (first + 4) last) with
  | error other =>
      exact congrArg Except.error (Except.error.inj ((bind_of_refused read).symm.trans one))
  | ok outcome =>
      obtain ⟨other, rest⟩ := outcome
      cases (bind_of_read read).symm.trans one

end OneTree

theorem treeOfSection_short {body : List UInt8} (short : body.length < 4) :
    treeOfSection body = .error (.truncated .unitVersion) := by
  have lacks : Reader.bytes 4 .unitVersion body = .error (.truncated .unitVersion) := by
    rw [Reader.bytes, splitExact?_eq_none short]
  rw [treeOfSection_eq, readVersioned, bind_of_refused lacks]
  rfl

/-- A section that is refused ends the loop. -/
theorem treeOfSections_refused (found? : Option CodeUnit) (fuel : Nat) {input : List UInt8}
    {error : LoadError} (left : input ≠ []) (refused : readSection input = .error error) :
    treeOfSections found? (fuel + 1) input = .error error := by
  cases input with
  | nil => exact absurd rfl left
  | cons first others =>
      rw [treeOfSections]
      · change (readSection (first :: others) >>= _) = _
        rw [refused]
        rfl
      · rintro ⟨⟩

section Sections

variable {binary : Bytes} {stop position next records : Nat} {part : Section}

/-- Where the fields of a section stand. -/
structure SectionStands (binary : Bytes) (position next : Nat) (part : Section) : Prop where
  header : position + 8 ≤ next
  ident : slice binary position (position + 4) = part.ident
  size : position + ofBigEndian (slice binary (position + 4) (position + 8)) = next
  body : slice binary (position + 8) next = part.body

theorem Runs.section_stands
    (run : Runs binary stop position readSection (.ok (part, next))) (before : position ≤ stop)
    (inside : stop ≤ binary.size) : SectionStands binary position next part ∧ next ≤ stop := by
  obtain ⟨behind, inFront, isIdent, fits, isBytes⟩ :=
    run.layout_slice before inside Recognizes.oneSection
  have lengths := congrArg List.length isBytes
  rw [length_slice (by omega), part.length_bytes isIdent, sectionHeaderSize] at lengths
  have header : position + 8 ≤ next := by omega
  -- the three fields, one after the other
  rw [Section.bytes, ← slice_append (position + 4) (by omega) (by omega)] at isBytes
  obtain ⟨ident, isBytes⟩ := List.append_inj isBytes (by rw [length_slice (by omega)]; omega)
  rw [← slice_append (position + 8) (by omega) header] at isBytes
  obtain ⟨size, body⟩ := List.append_inj isBytes
    (by rw [length_slice (by omega), length_bigEndian]; omega)
  refine ⟨⟨header, ident, ?_, body⟩, inFront⟩
  rw [sectionHeaderSize] at size fits
  rw [size, ofBigEndian_bigEndian, Nat.mod_eq_of_lt (by omega)]
  omega

/-- Twenty bytes were taken for each record of all sections, except for one that was refused. -/
theorem SectionsRun.forward {found? : Option CodeUnit}
    {outcome : Except LoadError (Option CodeUnit)}
    (run : SectionsRun binary stop found? position records outcome) (before : position ≤ stop)
    (inside : stop ≤ binary.size) : position + 20 * records ≤ stop + 20 := by
  induction run with
  | ended | refused | closed | noVersion => omega
  | skipped left header _ _ _ inductionHypothesis =>
      obtain ⟨⟨behindHeader, -, -, -⟩, inFront⟩ := header.section_stands before inside
      have rest := inductionHypothesis inFront
      omega
  | refusedTree left header _ room tree =>
      obtain ⟨-, inFront⟩ := header.section_stands before inside
      have taken := tree.forward room (Nat.le_trans inFront inside)
      dsimp only at taken
      omega
  | unit left header _ room tree _ inductionHypothesis =>
      obtain ⟨-, inFront⟩ := header.section_stands before inside
      obtain ⟨taken, inSection⟩ := tree.forward room (Nat.le_trans inFront inside)
      have rest := inductionHypothesis inFront
      omega

/-- The loop over the sections has the outcome of the run, with fuel for what is left. -/
theorem SectionsRun.sound {found? : Option CodeUnit}
    {outcome : Except LoadError (Option CodeUnit)}
    (run : SectionsRun binary stop found? position records outcome) (before : position ≤ stop)
    (inside : stop ≤ binary.size) {fuel : Nat} (enough : stop - position ≤ fuel) :
    treeOfSections found? fuel (slice binary position stop) = outcome := by
  have fueled {position fuel : Nat} (left : position < stop) (enough : stop - position ≤ fuel) :
      ∃ less, fuel = less + 1 := ⟨fuel - 1, by omega⟩
  induction run generalizing fuel with
  | ended =>
      rw [slice_self]
      cases fuel <;> rfl
  | refused left header =>
      obtain ⟨less, rfl⟩ := fueled left enough
      apply treeOfSections_refused
      · rw [← List.length_pos_iff, length_slice inside]
        omega
      · exact (header.sound before inside).1
  | closed left header isEnd =>
      obtain ⟨less, rfl⟩ := fueled left enough
      have notUnit : ¬ endSection = unitSection := by decide
      rw [treeOfSections_succ _ less (header.sound before inside).1, isEnd, if_neg notUnit,
        if_pos rfl]
  | skipped left header notUnit notEnd _ inductionHypothesis =>
      obtain ⟨less, rfl⟩ := fueled left enough
      obtain ⟨⟨behindHeader, -, -, -⟩, inFront⟩ := header.section_stands before inside
      rw [treeOfSections_succ _ less (header.sound before inside).1, if_neg notUnit,
        if_neg notEnd]
      exact inductionHypothesis inFront (by omega)
  | noVersion left header isUnit short =>
      obtain ⟨less, rfl⟩ := fueled left enough
      obtain ⟨stands, inFront⟩ := header.section_stands before inside
      have isShort := congrArg List.length stands.body
      rw [length_slice (by omega)] at isShort
      rw [treeOfSections_succ _ less (header.sound before inside).1, if_pos isUnit,
        treeOfSection_short (by omega)]
      rfl
  | refusedTree left header isUnit room tree =>
      obtain ⟨less, rfl⟩ := fueled left enough
      obtain ⟨stands, inFront⟩ := header.section_stands before inside
      rw [treeOfSections_succ _ less (header.sound before inside).1, if_pos isUnit, ← stands.body,
        tree.treeOfSection_error room (Nat.le_trans inFront inside)]
      rfl
  | unit left header isUnit room tree _ inductionHypothesis =>
      obtain ⟨less, rfl⟩ := fueled left enough
      obtain ⟨stands, inFront⟩ := header.section_stands before inside
      have behindHeader := stands.header
      rw [treeOfSections_succ _ less (header.sound before inside).1, if_pos isUnit, ← stands.body,
        tree.treeOfSection_ok room (Nat.le_trans inFront inside)]
      exact inductionHypothesis inFront (by omega)

/-- From every position the sections have a run: each has eight bytes of its own. -/
theorem exists_sectionsRun (found? : Option CodeUnit) (before : position ≤ stop)
    (inside : stop ≤ binary.size) :
    ∃ records outcome, SectionsRun binary stop found? position records outcome := by
  induction room : stop - position using Nat.strong_induction_on
    generalizing position found? with
  | _ room inductionHypothesis =>
      obtain rfl | left := Nat.eq_or_lt_of_le before
      · exact ⟨_, _, .ended⟩
      obtain ⟨outcome, header⟩ := Guarded.oneSection before inside
      obtain error | ⟨part, next⟩ := outcome
      · exact ⟨_, _, .refused left header⟩
      obtain ⟨⟨behindHeader, -, -, -⟩, inFront⟩ := header.section_stands before inside
      by_cases isUnit : part.ident = unitSection
      · rcases Nat.lt_or_ge next (position + 12) with short | roomForVersion
        · exact ⟨_, _, .noVersion left header isUnit short⟩
        obtain ⟨records, outcome, run⟩ :=
          exists_treesRun roomForVersion (Nat.le_trans inFront inside) 1
        obtain error | ⟨trees, last⟩ := outcome
        · exact ⟨_, _, .refusedTree left header isUnit roomForVersion run⟩
        obtain ⟨tree, rfl⟩ := List.length_eq_one_iff.mp run.length_eq
        obtain ⟨more, outcome, behind⟩ :=
          inductionHypothesis (stop - next) (by omega) (some tree) inFront rfl
        exact ⟨_, _, .unit left header isUnit roomForVersion run behind⟩
      by_cases isEnd : part.ident = endSection
      · exact ⟨_, _, .closed left header isEnd⟩
      obtain ⟨records, outcome, behind⟩ :=
        inductionHypothesis (stop - next) (by omega) found? inFront rfl
      exact ⟨_, _, .skipped left header isUnit isEnd behind⟩

end Sections

/-! ### Where a tree stands -/

/-- The records of a tree in a unit section between two positions: each unit has bytes of its own
there, in the order of the tree. -/
structure Placement (binary : Bytes) (first stop : Nat) (tree : CodeUnit) where
  start : Nat
  next : Nat
  last : Nat
  records : List (List UInt8)
  behind : first ≤ start
  inFront : next ≤ stop
  isUnit : slice binary start (start + 4) = unitSection
  isSize : start + ofBigEndian (slice binary (start + 4) (start + 8)) = next
  inside : last ≤ next
  isRecords : slice binary (start + 12) last = records.flatten
  each : List.Forall₂ RecordLayout tree.units records

section Placements

variable {binary : Bytes} {first stop position count records next : Nat}

/-- What a run of trees has taken are the records of their units, one behind the other. -/
theorem TreesRun.exists_records {trees : List CodeUnit}
    (run : TreesRun binary stop position count records (.ok (trees, next)))
    (before : position ≤ stop) (inside : stop ≤ binary.size) :
    ∃ fronts, slice binary position next = fronts.flatten ∧
      List.Forall₂ RecordLayout (CodeUnit.unitsAll trees) fronts := by
  generalize isOutcome : Except.ok (trees, next) = outcome at run
  induction run generalizing trees next with
  | none =>
      obtain ⟨rfl, rfl⟩ := Prod.mk.inj (Except.ok.inj isOutcome)
      exact ⟨[], slice_self, .nil⟩
  | refused | refusedInside | refusedBehind => cases isOutcome
  | @trees position middle afterChildren last count childCount _ _ unit children others record
      inner rest ofChildren ofOthers =>
      obtain ⟨rfl, rfl⟩ := Prod.mk.inj (Except.ok.inj isOutcome)
      obtain ⟨behindRecord, inFront, isRecord⟩ :=
        record.layout_slice before inside Recognizes.record
      obtain ⟨behindChildren, stillInFront⟩ := inner.forward inFront inside
      obtain ⟨behindOthers, -⟩ := rest.forward stillInFront inside
      obtain ⟨fronts, areChildren, eachChild⟩ := ofChildren inFront rfl
      obtain ⟨more, areOthers, eachOther⟩ := ofOthers stillInFront rfl
      refine ⟨slice binary position middle :: (fronts ++ more), ?_, ?_⟩
      · rw [List.flatten_cons, List.flatten_append, ← areChildren, ← areOthers,
          slice_append _ (by omega) (by omega), slice_append _ (by omega) (by omega)]
      · rw [CodeUnit.unitsAll, CodeUnit.units_eq, List.cons_append]
        exact .cons (isRecord children inner.length_eq) (List.rel_append eachChild eachOther)

/-- The tree that the sections give is the one found before, or it stands in one of them. -/
theorem SectionsRun.exists_placement {found? : Option CodeUnit} {tree : CodeUnit}
    (run : SectionsRun binary stop found? position records (.ok (some tree)))
    (behind : first ≤ position) (before : position ≤ stop) (inside : stop ≤ binary.size) :
    found? = some tree ∨ Nonempty (Placement binary first stop tree) := by
  generalize isOutcome : Except.ok (some tree) = outcome at run
  induction run with
  | ended | closed => exact .inl (Except.ok.inj isOutcome).symm
  | refused | noVersion | refusedTree => cases isOutcome
  | skipped left header _ _ _ inductionHypothesis =>
      obtain ⟨⟨behindHeader, -, -, -⟩, inFront⟩ := header.section_stands before inside
      exact inductionHypothesis (by omega) inFront isOutcome
  | @unit found? position next last _ _ part other _ left header isUnit room ofTree _
      inductionHypothesis =>
      obtain ⟨stands, inFront⟩ := header.section_stands before inside
      rcases inductionHypothesis (by omega) inFront isOutcome with same | place
      · obtain rfl := Option.some.inj same
        obtain ⟨fronts, areRecords, each⟩ :=
          ofTree.exists_records room (Nat.le_trans inFront inside)
        rw [CodeUnit.unitsAll, CodeUnit.unitsAll, List.append_nil] at each
        exact .inr ⟨{
          start := position
          next
          last
          records := fronts
          behind
          inFront
          isUnit := stands.ident.trans isUnit
          isSize := stands.size
          inside := (ofTree.forward room (Nat.le_trans inFront inside)).2
          isRecords := areRecords
          each }⟩
      · exact .inr place

/-- The bytes of a unit section bound its units and their tables. -/
theorem Placement.size_le {tree : CodeUnit} (place : Placement binary first stop tree)
    (inside : stop ≤ binary.size) :
    first + 12 + 20 * tree.unitCount + (tree.units.map tableSize).sum ≤ stop := by
  have least := sum_le_of_forall₂ place.each fun _ _ => RecordLayout.tableSize_le
  have length : (slice binary (place.start + 12) place.last).length =
      place.last - (place.start + 12) :=
    length_slice (Nat.le_trans place.inside (Nat.le_trans place.inFront inside))
  have total : (tree.units.map fun unit => 20 + tableSize unit).sum =
      20 * tree.unitCount + (tree.units.map tableSize).sum := by
    rw [List.sum_map_add, List.map_const', List.sum_replicate_nat, tree.length_units,
      Nat.mul_comm]
  have units : 1 ≤ tree.unitCount := by
    rw [← tree.length_units, tree.units_eq]
    exact Nat.succ_le_succ (Nat.zero_le _)
  have behind := place.behind
  have inFront := place.inFront
  have insideSection := place.inside
  rw [total, ← place.isRecords, length] at least
  omega

end Placements

/-! ### The loader -/

/-- The size that a container declares. -/
def declaredSize (binary : Bytes) : Nat := ofBigEndian (slice binary 8 12)

/-- A tree has to be found, and to be valid. -/
def checkedTree : Option CodeUnit → Except LoadError CodeUnit
  | none => .error .missingUnit
  | some tree =>
    match tree.validate with
    | .ok () => .ok tree
    | .error error => .error (.invalid error)

theorem load_eq (binary : Bytes) :
    load binary = readHeader binary.size binary.toList >>= fun header =>
      treeOfSections none (header.2.take (header.1 - headerSize)).length
        (header.2.take (header.1 - headerSize)) >>= checkedTree := by
  rw [load]
  change (readHeader binary.size binary.toList >>= _) = _
  cases readHeader binary.size binary.toList with
  | error error => rfl
  | ok outcome =>
      obtain ⟨declared, rest⟩ := outcome
      dsimp only [bind, Except.bind]
      cases treeOfSections none (rest.take (declared - headerSize)).length
          (rest.take (declared - headerSize)) with
      | error error => rfl
      | ok found? =>
          cases found? with
          | none => rfl
          | some tree =>
              dsimp only [checkedTree]
              cases tree.validate <;> rfl

/-- A run of the loader on a container: its header, the sections in front of the declared size,
and the check of the tree. -/
inductive LoadRun (binary : Bytes) : (records : Nat) → Except LoadError CodeUnit → Prop where
  | refused {error : LoadError}
      (header : Runs binary binary.size 0 (readHeader binary.size) (.error error)) :
      LoadRun binary 0 (.error error)
  | sections {declared records : Nat} {outcome : Except LoadError (Option CodeUnit)}
      (header : Runs binary binary.size 0 (readHeader binary.size) (.ok (declared, headerSize)))
      (inside : max declared headerSize ≤ binary.size)
      (sections : SectionsRun binary (max declared headerSize) none headerSize records outcome) :
      LoadRun binary records (outcome >>= checkedTree)

section Load

variable {binary : Bytes} {declared next records : Nat}

theorem Runs.header_stands
    (run : Runs binary binary.size 0 (readHeader binary.size) (.ok (declared, next))) :
    next = headerSize ∧ headerSize ≤ binary.size ∧ declared ≤ binary.size ∧
      declaredSize binary = declared := by
  obtain ⟨-, inFront, complete, fits, front, behind, isHeader, frontSize, behindSize⟩ :=
    run.layout_slice (Nat.zero_le _) (Nat.le_refl _) (Recognizes.header binary.size)
  have lengths := congrArg List.length isHeader
  rw [length_slice inFront, List.length_append, List.length_append, length_bigEndian, frontSize,
    behindSize] at lengths
  obtain rfl : next = headerSize := lengths
  rw [headerSize] at inFront isHeader
  rw [← slice_append 8 (by omega) (by omega)] at isHeader
  obtain ⟨-, isHeader⟩ := List.append_inj isHeader (by rw [length_slice (by omega), frontSize])
  rw [← slice_append 12 (by omega) (by omega)] at isHeader
  obtain ⟨isDeclared, -⟩ := List.append_inj isHeader
    (by rw [length_slice (by omega), length_bigEndian])
  refine ⟨rfl, inFront, complete, ?_⟩
  rw [declaredSize, isDeclared, ofBigEndian_bigEndian, Nat.mod_eq_of_lt (by omega)]

/-- What the loader reads behind the header are the bytes in front of the declared size. -/
theorem take_slice (header : headerSize ≤ binary.size) (complete : declared ≤ binary.size) :
    (slice binary headerSize binary.size).take (declared - headerSize) =
      slice binary headerSize (max declared headerSize) := by
  have length : (slice binary headerSize (max declared headerSize)).length =
      declared - headerSize := by
    rw [length_slice (by omega)]
    omega
  rw [← slice_append (max declared headerSize) (by omega) (by omega), ← length,
    List.take_left]

/-- The loader has the outcome of its run. -/
theorem LoadRun.sound {outcome : Except LoadError CodeUnit}
    (run : LoadRun binary records outcome) : load binary = outcome := by
  have all : slice binary 0 binary.size = binary.toList := slice_all
  rw [load_eq, ← all]
  cases run with
  | refused header =>
      rw [(header.sound (Nat.zero_le _) (Nat.le_refl _)).1]
      rfl
  | sections header inside sections =>
      obtain ⟨-, hasHeader, complete, -⟩ := header.header_stands
      rw [(header.sound (Nat.zero_le _) (Nat.le_refl _)).1]
      dsimp only [leaving, bind, Except.bind]
      rw [take_slice hasHeader complete,
        sections.sound (by omega) inside (by rw [length_slice inside])]

/-- On every string of bytes the loader has a run. -/
theorem exists_loadRun (binary : Bytes) : ∃ records outcome, LoadRun binary records outcome := by
  obtain ⟨outcome, header⟩ :=
    Guarded.header binary.size (Nat.zero_le binary.size) (Nat.le_refl binary.size)
  obtain error | ⟨declared, next⟩ := outcome
  · exact ⟨_, _, .refused header⟩
  obtain ⟨rfl, hasHeader, complete, -⟩ := header.header_stands
  have inside : max declared headerSize ≤ binary.size := Nat.max_le.mpr ⟨complete, hasHeader⟩
  obtain ⟨records, outcome, sections⟩ :=
    exists_sectionsRun none (Nat.le_max_right declared headerSize) inside
  exact ⟨records, _, .sections header inside sections⟩

theorem LoadRun.records_le {outcome : Except LoadError CodeUnit}
    (run : LoadRun binary records outcome) : 20 * records ≤ binary.size := by
  cases run with
  | refused header => exact Nat.zero_le _
  | sections header inside sections =>
      have taken := sections.forward (Nat.le_max_right _ _) inside
      rw [headerSize] at taken inside
      omega

/-- A tree that is loaded stands in a unit section in front of the declared size. -/
theorem exists_placement_of_load {tree : CodeUnit} (loaded : load binary = .ok tree) :
    declaredSize binary ≤ binary.size ∧
      Nonempty (Placement binary headerSize (declaredSize binary) tree) := by
  obtain ⟨records, outcome, run⟩ := exists_loadRun binary
  rw [run.sound] at loaded
  cases run with
  | refused header => cases loaded
  | @sections declared records result header inside sections =>
      obtain ⟨-, hasHeader, complete, rfl⟩ := header.header_stands
      obtain error | found? := result
      · cases loaded
      obtain _ | other := found?
      · cases loaded
      obtain rfl : other = tree := by
        change checkedTree (some other) = _ at loaded
        rw [checkedTree] at loaded
        split at loaded
        · exact Except.ok.inj loaded
        · cases loaded
      refine ⟨complete, ?_⟩
      obtain impossible | ⟨⟨place⟩⟩ :=
        sections.exists_placement (Nat.le_refl _) (Nat.le_max_right _ _) inside
      · cases impossible
      -- a section behind the header ends behind it, so the declared size does as well
      have bounds := place.size_le inside
      have isMax : max (declaredSize binary) headerSize = declaredSize binary := by
        rw [headerSize] at bounds ⊢
        omega
      exact ⟨isMax ▸ place⟩

end Load

/-- Loading ends on every string of bytes, after no more records than there is room for, and looks
at no byte outside. A tree that it gives is bounded by the declared size: each unit has a record
of its own in the unit section, of at least twenty bytes and those of its tables. -/
theorem load_ends_inside (binary : Bytes) :
    (∃ records, LoadRun binary records (load binary) ∧ 20 * records ≤ binary.size) ∧
      ∀ tree, load binary = .ok tree →
        declaredSize binary ≤ binary.size ∧
          (∃ place : Placement binary headerSize (declaredSize binary) tree,
            List.Forall₂ (fun unit record => 20 + tableSize unit ≤ record.length)
              tree.units place.records) ∧
          20 * tree.unitCount + (tree.units.map tableSize).sum + 32 ≤ declaredSize binary := by
  constructor
  · obtain ⟨records, outcome, run⟩ := exists_loadRun binary
    exact ⟨records, run.sound ▸ run, run.records_le⟩
  · intro tree loaded
    obtain ⟨complete, ⟨place⟩⟩ := exists_placement_of_load loaded
    have bounds := place.size_le complete
    refine ⟨complete, ⟨place, place.each.imp fun _ _ => RecordLayout.tableSize_le⟩, ?_⟩
    rw [headerSize] at bounds
    omega

theorem load_ends_inside_endless :
    load endlessContainer = .ok tabledUnit ∧ tabledUnit.unitCount = 2 ∧
      (∃ records, LoadRun endlessContainer records (.ok tabledUnit)) ∧
      20 * tabledUnit.unitCount + (tabledUnit.units.map tableSize).sum + 32 ≤
        declaredSize endlessContainer := by
  have valid : tabledUnit.validate = .ok () := by decide +kernel
  have loaded : load endlessContainer = .ok tabledUnit := by
    rw [endlessContainer_layout.load_eq, valid]
  obtain ⟨⟨records, run, -⟩, bounded⟩ := load_ends_inside endlessContainer
  exact ⟨loaded, by decide, ⟨records, loaded ▸ run⟩, (bounded tabledUnit loaded).2.2⟩

end RiteVm.Binary
