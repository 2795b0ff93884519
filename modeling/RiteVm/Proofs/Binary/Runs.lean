import RiteVm.Proofs.Binary.Recognition

/-!
Contract: readers at positions of a container, which look at no byte outside of those that they
were given, and trees that are read without fuel.

Owns:
- the bytes between two positions of a container;
- runs of a reader between its position and a stop, in which every access is either inside or
  refused;
- a reader that has a run gives the outcome of the run, and stays between its position and the
  stop;
- every reader of a record, of a section and of the header has a run from every position;
- runs of the recursion over trees: they exist at every position, have the outcome of the reader,
  and take twenty bytes for each record, up to one that is refused.

Does not own: the loop over the sections and the loader (`Termination`).

A run knows the container and two numbers. The only step that looks at a byte is `Runs.takes`, which
asks for room in front of the stop. The measure of the recursion is the distance between its position
and the stop, so the numbers of children decide only which of the bytes in between are looked
at.
-/

namespace RiteVm.Binary

open RiteVm.Bytecode

/-! ### Bytes between positions -/

/-- The bytes of a container from a position up to another one. -/
def slice (binary : Bytes) (first last : Nat) : List UInt8 := (binary.extract first last).toList

section Slices

variable {binary : Bytes} {first last : Nat}

theorem length_slice (inside : last ≤ binary.size) :
    (slice binary first last).length = last - first := by
  rw [slice, Array.length_toList, Array.size_extract]
  omega

theorem slice_append (middle : Nat) (ordered : first ≤ middle) (behind : middle ≤ last) :
    slice binary first middle ++ slice binary middle last = slice binary first last := by
  rw [slice, slice, slice, ← Array.toList_append, Array.extract_append_extract,
    Nat.min_eq_left ordered, Nat.max_eq_right behind]

theorem slice_self : slice binary first first = [] := by
  simp [slice]

theorem slice_all : slice binary 0 binary.size = binary.toList := by
  simp [slice]

/-- What stands in front of the bytes behind a position stands between the two. -/
theorem slice_eq_of_append {middle : Nat} {front : List UInt8} (ordered : first ≤ middle) (behind : middle ≤ last)
    (split : slice binary first last = front ++ slice binary middle last) :
    slice binary first middle = front := by
  rw [← slice_append middle ordered behind] at split
  exact List.append_cancel_right split

end Slices

/-! ### Runs -/

/-- A reader at a position runs to an outcome without looking at or behind a stop. Where it
succeeds, the outcome tells the next position. -/
inductive Runs (binary : Bytes) : {α : Type} → (stop position : Nat) → Reader α →
    Except LoadError (α × Nat) → Prop where
  | done {α : Type} {stop position : Nat} (value : α) :
      Runs binary stop position (pure value) (.ok (value, position))
  | fails {α : Type} {stop position : Nat} (error : LoadError) :
      Runs binary stop position (throw error : Reader α) (.error error)
  | takes {stop position count : Nat} (part : Part) (inside : position + count ≤ stop) :
      Runs binary stop position (Reader.bytes count part)
        (.ok (slice binary position (position + count), position + count))
  | lacks {stop position count : Nat} (part : Part) (short : stop < position + count) :
      Runs binary stop position (Reader.bytes count part) (.error (.truncated part))
  | bind {α β : Type} {stop position middle : Nat} {reader : Reader α} {next : α → Reader β}
      {value : α} {outcome : Except LoadError (β × Nat)}
      (first : Runs binary stop position reader (.ok (value, middle)))
      (second : Runs binary stop middle (next value) outcome) :
      Runs binary stop position (reader >>= next) outcome
  | stops {α β : Type} {stop position : Nat} {reader : Reader α} {next : α → Reader β}
      {error : LoadError} (first : Runs binary stop position reader (.error error)) :
      Runs binary stop position (reader >>= next) (.error error)
  /-- another reader on bytes that were taken before -/
  | within {α : Type} {stop position first last next : Nat} {inner : Reader α} {value : α}
      (ordered : first ≤ last) (inside : last ≤ stop)
      (run : Runs binary last first inner (.ok (value, next))) :
      Runs binary stop position (liftM (inner.run (slice binary first last)))
        (.ok ((value, slice binary next last), position))
  | withinFails {α : Type} {stop position first last : Nat} {inner : Reader α} {error : LoadError}
      (ordered : first ≤ last) (inside : last ≤ stop)
      (run : Runs binary last first inner (.error error)) :
      Runs binary stop position
        (liftM (inner.run (slice binary first last)) : Reader (α × List UInt8)) (.error error)

/-- An outcome with the bytes that are left in place of the next position. -/
def leaving {α : Type} (binary : Bytes) (stop : Nat) :
    Except LoadError (α × Nat) → Except LoadError (α × List UInt8)
  | .ok (value, next) => .ok (value, slice binary next stop)
  | .error error => .error error

theorem splitExact?_eq_none {α : Type} {count : Nat} {items : List α}
    (short : items.length < count) : splitExact? count items = none := by
  induction count generalizing items with
  | zero => exact absurd short (Nat.not_lt_zero _)
  | succ count inductionHypothesis =>
      cases items with
      | nil => rfl
      | cons item rest =>
          rw [splitExact?, inductionHypothesis (Nat.lt_of_succ_lt_succ short)]
          rfl

section Bind

variable {α β : Type} {reader other : Reader α} {next : α → Reader β} {input : List UInt8}

theorem bind_of_read {value : α} {rest : List UInt8} (read : reader input = .ok (value, rest)) :
    (reader >>= next) input = next value rest := by
  change (reader input >>= _) = _
  rw [read]
  rfl

theorem bind_of_refused {error : LoadError} (refused : reader input = .error error) :
    (reader >>= next) input = .error error := by
  change (reader input >>= _) = _
  rw [refused]
  rfl

theorem bind_congr_input (same : reader input = other input) :
    (reader >>= next) input = (other >>= next) input := by
  change (reader input >>= _) = (other input >>= _)
  rw [same]

end Bind

/-- The reader of a run has its outcome, and its position only moves forward, up to the stop. -/
theorem Runs.sound {binary : Bytes} {α : Type} {stop position : Nat} {reader : Reader α}
    {outcome : Except LoadError (α × Nat)} (run : Runs binary stop position reader outcome)
    (before : position ≤ stop) (inside : stop ≤ binary.size) :
    reader (slice binary position stop) = leaving binary stop outcome ∧
      ∀ value next, outcome = .ok (value, next) → position ≤ next ∧ next ≤ stop := by
  induction run with
  | done value =>
      refine ⟨rfl, fun value next same => ?_⟩
      obtain ⟨-, rfl⟩ := Prod.mk.inj (Except.ok.inj same)
      exact ⟨Nat.le_refl _, before⟩
  | fails error => exact ⟨rfl, by rintro _ _ ⟨⟩⟩
  | @takes stop position count part room =>
      refine ⟨?_, fun value next same => ?_⟩
      · have length : (slice binary position (position + count)).length = count := by
          rw [length_slice (by omega)]
          omega
        have split := splitExact?_append (slice binary position (position + count))
          (slice binary (position + count) stop)
        rw [length, slice_append _ (Nat.le_add_right _ _) room] at split
        rw [Reader.bytes, split]
        rfl
      · obtain ⟨-, rfl⟩ := Prod.mk.inj (Except.ok.inj same)
        exact ⟨Nat.le_add_right _ _, room⟩
  | @lacks stop position count part short =>
      refine ⟨?_, by rintro _ _ ⟨⟩⟩
      rw [Reader.bytes, splitExact?_eq_none]
      · rfl
      · rw [length_slice inside]
        omega
  | @bind α β stop position middle reader next value outcome _ _ isFirst isSecond =>
      obtain ⟨read, forward⟩ := isFirst before inside
      obtain ⟨behindFirst, beforeStop⟩ := forward value middle rfl
      obtain ⟨readNext, forwardNext⟩ := isSecond beforeStop inside
      refine ⟨(bind_of_read read).trans readNext, fun result last same => ?_⟩
      obtain ⟨behindMiddle, inFront⟩ := forwardNext result last same
      exact ⟨Nat.le_trans behindFirst behindMiddle, inFront⟩
  | stops _ isFirst => exact ⟨bind_of_refused (isFirst before inside).1, by rintro _ _ ⟨⟩⟩
  | @within α stop position first last next inner value ordered beforeStop _ isInner =>
      refine ⟨?_, fun value next same => ?_⟩
      · have read := (isInner ordered (Nat.le_trans beforeStop inside)).1
        change (liftM (inner (slice binary first last)) : Reader (α × List UInt8)) _ = _
        rw [read]
        rfl
      · obtain ⟨-, rfl⟩ := Prod.mk.inj (Except.ok.inj same)
        exact ⟨Nat.le_refl _, before⟩
  | @withinFails α stop position first last inner error ordered beforeStop _ isInner =>
      refine ⟨?_, by rintro _ _ ⟨⟩⟩
      have read := (isInner ordered (Nat.le_trans beforeStop inside)).1
      change (liftM (inner (slice binary first last)) : Reader (α × List UInt8)) _ = _
      rw [read]
      rfl

section Sound

variable {binary : Bytes} {α : Type} {stop position next : Nat} {reader : Reader α} {value : α}
  {layout : α → List UInt8 → Prop}

/-- What a reader takes stands between its position and the next one. -/
theorem Runs.layout_slice (run : Runs binary stop position reader (.ok (value, next)))
    (before : position ≤ stop) (inside : stop ≤ binary.size)
    (recognizes : Recognizes reader layout) :
    position ≤ next ∧ next ≤ stop ∧ layout value (slice binary position next) := by
  obtain ⟨read, forward⟩ := run.sound before inside
  obtain ⟨behind, inFront⟩ := forward value next rfl
  obtain ⟨front, split, isLayout⟩ := recognizes read
  rw [slice_eq_of_append behind inFront split]
  exact ⟨behind, inFront, isLayout⟩

end Sound

/-! ### Guarded readers -/

/-- A reader has a run from every position in front of every stop. -/
def Guarded {α : Type} (reader : Reader α) : Prop :=
  ∀ ⦃binary : Bytes⦄ ⦃stop position : Nat⦄, position ≤ stop → stop ≤ binary.size →
    ∃ outcome, Runs binary stop position reader outcome

namespace Guarded

variable {α β : Type} {reader : Reader α} {next : α → Reader β}

theorem nothing (value : α) : Guarded (pure value) := fun _ _ _ _ _ => ⟨_, .done value⟩

theorem fails (error : LoadError) : Guarded (throw error : Reader α) :=
  fun _ _ _ _ _ => ⟨_, .fails error⟩

/-- What would be read behind a failure does not matter. -/
theorem stops (error : LoadError) (next : α → Reader β) : Guarded (throw error >>= next) :=
  fun _ _ _ _ _ => ⟨_, .stops (.fails error)⟩

theorem bytes (count : Nat) (part : Part) : Guarded (Reader.bytes count part) := by
  intro binary stop position before inside
  rcases Nat.lt_or_ge stop (position + count) with short | room
  · exact ⟨_, .lacks part short⟩
  · exact ⟨_, .takes part room⟩

theorem bind (guarded : Guarded reader) (behind : ∀ value, Guarded (next value)) :
    Guarded (reader >>= next) := by
  intro binary stop position before inside
  obtain ⟨outcome, run⟩ := guarded before inside
  cases outcome with
  | error error => exact ⟨_, .stops run⟩
  | ok result =>
      obtain ⟨value, middle⟩ := result
      obtain ⟨-, inFront⟩ := (run.sound before inside).2 value middle rfl
      obtain ⟨outcome, second⟩ := behind value inFront inside
      exact ⟨outcome, .bind run second⟩

theorem map (convert : α → β) (guarded : Guarded reader) : Guarded (convert <$> reader) := by
  rw [map_eq_pure_bind]
  exact guarded.bind fun value => nothing (convert value)

theorem byte (part : Part) : Guarded (Reader.byte part) := by
  have isFirst : Reader.byte part = (·.headD 0) <$> Reader.bytes 1 part := by
    funext input
    cases input <;> rfl
  rw [isFirst]
  exact (bytes 1 part).map _

theorem word16 (part : Part) : Guarded (Reader.word16 part) := (bytes 2 part).map ofBigEndian

theorem word32 (part : Part) : Guarded (Reader.word32 part) := (bytes 4 part).map ofBigEndian

theorem times (guarded : Guarded reader) (count : Nat) : Guarded (reader.times count) := by
  induction count with
  | zero => exact nothing []
  | succ count inductionHypothesis =>
      exact guarded.bind fun _ => inductionHypothesis.bind fun _ => nothing _

theorem handler : Guarded readHandler := by
  have fields (kind : CatchKind) : Guarded (do
      let first ← Reader.word32 .handlers
      let last ← Reader.word32 .handlers
      let target ← Reader.word32 .handlers
      return ({ kind, first := .ofNat first, last := .ofNat last, target := .ofNat target } :
        CatchHandler)) :=
    (word32 _).bind fun _ => (word32 _).bind fun _ => (word32 _).bind fun _ => nothing _
  apply (byte .handlers).bind
  intro kind
  split
  · exact fields .rescue
  · exact fields .ensure
  · exact stops _ _

/-- The entries of the table are read from the bytes that were taken for it. -/
theorem handlers (count : Nat) : Guarded (readHandlers count) := by
  intro binary stop position before inside
  rcases Nat.lt_or_ge stop (position + count * handlerSize) with short | room
  · exact ⟨_, .stops (.lacks _ short)⟩
  · have table : Runs binary stop position (Reader.bytes (count * handlerSize) .handlers) _ :=
      .takes _ room
    have ordered := Nat.le_add_right position (count * handlerSize)
    obtain ⟨outcome, entries⟩ := handler.times count ordered (Nat.le_trans room inside)
    cases outcome with
    | error error => exact ⟨_, .bind table (.stops (.withinFails ordered room entries))⟩
    | ok result => exact ⟨_, .bind table (.bind (.within ordered room entries) (.done _))⟩

theorem literal : Guarded readLiteral := by
  apply (byte .pool).bind
  intro tag
  split
  · exact (word16 _).bind fun _ => (bytes _ _).bind fun _ => (byte _).bind fun _ => nothing _
  split
  · exact (word32 _).bind fun _ => nothing _
  split
  · exact (word32 _).bind fun _ => (word32 _).bind fun _ => nothing _
  split
  · exact (bytes _ _).bind fun _ => nothing _
  split
  · exact fails _
  · exact fails _

theorem symbol : Guarded readSymbol := by
  apply (word16 .symbol).bind
  intro length
  split
  · exact nothing _
  · exact (bytes _ _).bind fun _ => (byte _).bind fun _ => nothing _

theorem record : Guarded readRecord :=
  (word32 _).bind fun _ => (word16 _).bind fun _ => (word16 _).bind fun _ =>
  (word16 _).bind fun _ => (word16 _).bind fun _ => (word32 _).bind fun _ =>
  (bytes _ _).bind fun _ => (handlers _).bind fun _ =>
  (word16 _).bind fun _ => (literal.times _).bind fun _ =>
  (word16 _).bind fun _ => (symbol.times _).bind fun _ => nothing _

theorem oneSection : Guarded readSection := by
  apply (bytes 4 .sectionHeader).bind
  intro ident
  apply (word32 .sectionHeader).bind
  intro size
  split
  · exact stops _ _
  · exact (bytes _ _).bind fun _ => nothing _

theorem header (actual : Nat) : Guarded (readHeader actual) := by
  apply (bytes 4 .header).bind
  intro ident
  split
  · exact stops _ _
  apply (bytes 2 .header).bind
  intro major
  apply (bytes 2 .header).bind
  intro minor
  split
  · exact stops _ _
  apply (word32 .header).bind
  intro declared
  split
  · exact stops _ _
  exact (bytes 8 .header).bind fun _ => nothing declared

end Guarded

/-! ### Trees without fuel -/

/-- A tree with the fuel that what is left always suffices for. -/
def readUnit : Reader CodeUnit := fun input => readTree input.length input

/-- Readers that agree on inputs up to a length are repeated alike on such inputs. -/
theorem times_congr {α : Type} {reader other : Reader α} {layout : α → List UInt8 → Prop}
    {room : Nat} (recognizes : Recognizes reader layout)
    (same : ∀ input, input.length ≤ room → reader input = other input)
    (count : Nat) {input : List UInt8} (short : input.length ≤ room) :
    reader.times count input = other.times count input := by
  induction count generalizing input with
  | zero => rfl
  | succ count inductionHypothesis =>
      have alike := same input short
      cases read : reader input with
      | error error =>
          rw [read] at alike
          exact (bind_of_refused read).trans (bind_of_refused alike.symm).symm
      | ok outcome =>
          obtain ⟨item, rest⟩ := outcome
          obtain ⟨front, rfl, -⟩ := recognizes read
          rw [read] at alike
          rw [List.length_append] at short
          have rests : reader.times count rest = other.times count rest :=
            inductionHypothesis (by omega)
          have opens : other.times (count + 1) (front ++ rest) =
              (other.times count >>= fun items => pure (item :: items)) rest :=
            bind_of_read alike.symm
          exact (bind_of_read read).trans ((bind_congr_input rests).trans opens.symm)

/-- The rest behind a record is at least twenty bytes shorter. -/
theorem length_of_readRecord {input rest : List UInt8} {unit : CodeUnit} {childCount : Nat}
    (read : readRecord input = .ok ((unit, childCount), rest)) :
    20 + rest.length ≤ input.length := by
  obtain ⟨front, rfl, isRecord⟩ := Recognizes.record read
  have layout := isRecord (List.replicate childCount unit) List.length_replicate
  have least := layout.tableSize_le
  rw [List.length_append]
  omega

/-- A record and as many trees behind it as it says, given a reader of these. -/
def readWith (child : Reader CodeUnit) : Reader CodeUnit := do
  let (unit, childCount) ← readRecord
  let children ← Reader.times child childCount
  return { unit with children }

theorem readWith_of_refused (child : Reader CodeUnit) {input : List UInt8} {error : LoadError}
    (refused : readRecord input = .error error) : readWith child input = .error error :=
  bind_of_refused refused

theorem readWith_of_record (child : Reader CodeUnit) {input rest : List UInt8} {unit : CodeUnit}
    {childCount : Nat} (read : readRecord input = .ok ((unit, childCount), rest)) :
    readWith child input =
      (child.times childCount >>= fun children => pure { unit with children }) rest :=
  bind_of_read read

theorem readWith_congr {child other : Reader CodeUnit} {layout : CodeUnit → List UInt8 → Prop}
    {input : List UInt8} (recognizes : Recognizes child layout)
    (same : ∀ rest, 20 + rest.length ≤ input.length → child rest = other rest) :
    readWith child input = readWith other input := by
  cases read : readRecord input with
  | error error => rw [readWith_of_refused child read, readWith_of_refused other read]
  | ok outcome =>
      obtain ⟨⟨unit, childCount⟩, rest⟩ := outcome
      have shorter := length_of_readRecord read
      have children : child.times childCount rest = other.times childCount rest :=
        times_congr recognizes (fun input short => same input (by omega)) childCount
          (Nat.le_refl rest.length)
      rw [readWith_of_record child read, readWith_of_record other read]
      exact bind_congr_input children

/-- Fuel for each byte that is left is as good as any other that is enough. -/
theorem readTree_fuel {fuel more : Nat} {input : List UInt8} (enough : input.length ≤ fuel)
    (enoughToo : input.length ≤ more) : readTree fuel input = readTree more input := by
  induction fuel generalizing more input with
  | zero =>
      obtain rfl := List.length_eq_zero_iff.mp (Nat.le_zero.mp enough)
      cases more <;> rfl
  | succ fuel inductionHypothesis =>
      cases more with
      | zero =>
          obtain rfl := List.length_eq_zero_iff.mp (Nat.le_zero.mp enoughToo)
          rfl
      | succ more =>
          exact readWith_congr (Recognizes.tree fuel) fun rest shorter =>
            inductionHypothesis (by omega) (by omega)

theorem readTree_eq_readUnit {fuel : Nat} {input : List UInt8} (enough : input.length ≤ fuel) :
    readTree fuel input = readUnit input :=
  readTree_fuel enough (Nat.le_refl _)

/-- A tree is its record in front of the trees of its children. -/
theorem readUnit_eq : readUnit = readWith readUnit := by
  funext input
  rw [← readTree_eq_readUnit (Nat.le_succ input.length)]
  exact readWith_congr (Recognizes.tree input.length) fun rest shorter =>
    readTree_eq_readUnit (by omega)

/-! ### Runs of trees -/

/-- Trees run from a position, one behind the other: the record of the first, as many trees as it
says, and then the others. There is no fuel, and the last number counts the records that were
begun. -/
inductive TreesRun (binary : Bytes) (stop : Nat) : (position count records : Nat) →
    Except LoadError (List CodeUnit × Nat) → Prop where
  | none {position : Nat} : TreesRun binary stop position 0 0 (.ok ([], position))
  | refused {position count : Nat} {error : LoadError}
      (record : Runs binary stop position readRecord (.error error)) :
      TreesRun binary stop position (count + 1) 1 (.error error)
  | refusedInside {position middle count childCount records : Nat} {unit : CodeUnit}
      {error : LoadError}
      (record : Runs binary stop position readRecord (.ok ((unit, childCount), middle)))
      (inside : TreesRun binary stop middle childCount records (.error error)) :
      TreesRun binary stop position (count + 1) (1 + records) (.error error)
  | refusedBehind {position middle next count childCount records more : Nat} {unit : CodeUnit}
      {children : List CodeUnit} {error : LoadError}
      (record : Runs binary stop position readRecord (.ok ((unit, childCount), middle)))
      (inside : TreesRun binary stop middle childCount records (.ok (children, next)))
      (behind : TreesRun binary stop next count more (.error error)) :
      TreesRun binary stop position (count + 1) (1 + records + more) (.error error)
  | trees {position middle next last count childCount records more : Nat} {unit : CodeUnit}
      {children others : List CodeUnit}
      (record : Runs binary stop position readRecord (.ok ((unit, childCount), middle)))
      (inside : TreesRun binary stop middle childCount records (.ok (children, next)))
      (behind : TreesRun binary stop next count more (.ok (others, last))) :
      TreesRun binary stop position (count + 1) (1 + records + more)
        (.ok ({ unit with children } :: others, last))

section Trees

variable {binary : Bytes} {stop position count records : Nat}

/-- The next position is behind a record by its twenty bytes at least. -/
theorem Runs.record_forward {unit : CodeUnit} {childCount next : Nat}
    (run : Runs binary stop position readRecord (.ok ((unit, childCount), next)))
    (before : position ≤ stop) (inside : stop ≤ binary.size) :
    position + 20 ≤ next ∧ next ≤ stop := by
  obtain ⟨read, forward⟩ := run.sound before inside
  obtain ⟨-, inFront⟩ := forward _ _ rfl
  have shorter := length_of_readRecord read
  rw [length_slice inside, length_slice inside] at shorter
  omega

/-- Twenty bytes were taken for each record, except for one that was refused. -/
theorem TreesRun.forward {outcome : Except LoadError (List CodeUnit × Nat)}
    (run : TreesRun binary stop position count records outcome) (before : position ≤ stop)
    (inside : stop ≤ binary.size) :
    match outcome with
    | .ok (_, next) => position + 20 * records ≤ next ∧ next ≤ stop
    | .error _ => position + 20 * records ≤ stop + 20 := by
  induction run with
  | none => exact ⟨Nat.le_refl _, before⟩
  | refused record =>
      dsimp only
      omega
  | refusedInside record _ inner =>
      obtain ⟨behindRecord, inFront⟩ := record.record_forward before inside
      have children := inner inFront
      dsimp only at children ⊢
      omega
  | refusedBehind record _ _ inner behind =>
      obtain ⟨behindRecord, inFront⟩ := record.record_forward before inside
      obtain ⟨behindChildren, stillInFront⟩ := inner inFront
      have others := behind stillInFront
      dsimp only at others ⊢
      omega
  | trees record _ _ inner behind =>
      obtain ⟨behindRecord, inFront⟩ := record.record_forward before inside
      obtain ⟨behindChildren, stillInFront⟩ := inner inFront
      obtain ⟨behindOthers, beforeStop⟩ := behind stillInFront
      exact ⟨by omega, beforeStop⟩

/-- A tree whose record runs is what the trees of its children make it. -/
theorem Runs.opens_tree {unit : CodeUnit} {childCount next : Nat}
    (run : Runs binary stop position readRecord (.ok ((unit, childCount), next)))
    (before : position ≤ stop) (inside : stop ≤ binary.size) :
    readUnit (slice binary position stop) =
      (readUnit.times childCount >>= fun children => pure { unit with children })
        (slice binary next stop) := by
  have opens := readWith_of_record readUnit (run.sound before inside).1
  rwa [← readUnit_eq] at opens

theorem Runs.refuses_tree {error : LoadError}
    (run : Runs binary stop position readRecord (.error error)) (before : position ≤ stop)
    (inside : stop ≤ binary.size) : readUnit (slice binary position stop) = .error error := by
  have refuses := readWith_of_refused readUnit (run.sound before inside).1
  rwa [← readUnit_eq] at refuses

/-- The reader without fuel has the outcome of the run. -/
theorem TreesRun.sound {outcome : Except LoadError (List CodeUnit × Nat)}
    (run : TreesRun binary stop position count records outcome) (before : position ≤ stop)
    (inside : stop ≤ binary.size) :
    readUnit.times count (slice binary position stop) = leaving binary stop outcome := by
  induction run with
  | none => rfl
  | refused record => exact bind_of_refused (record.refuses_tree before inside)
  | refusedInside record _ inner =>
      obtain ⟨behindRecord, inFront⟩ := record.record_forward before inside
      have tree := (record.opens_tree before inside).trans (bind_of_refused (inner inFront))
      exact bind_of_refused tree
  | refusedBehind record children _ inner behind =>
      obtain ⟨behindRecord, inFront⟩ := record.record_forward before inside
      obtain ⟨behindChildren, stillInFront⟩ := children.forward inFront inside
      have tree := (record.opens_tree before inside).trans (bind_of_read (inner inFront))
      exact (bind_of_read tree).trans (bind_of_refused (behind stillInFront))
  | trees record children _ inner behind =>
      obtain ⟨behindRecord, inFront⟩ := record.record_forward before inside
      obtain ⟨behindChildren, stillInFront⟩ := children.forward inFront inside
      have tree := (record.opens_tree before inside).trans (bind_of_read (inner inFront))
      exact (bind_of_read tree).trans (bind_of_read (behind stillInFront))

/-- From every position, any number of trees has a run: what is left in front of the stop gets
less with each record, whatever numbers of children the records have. -/
theorem exists_treesRun (before : position ≤ stop) (inside : stop ≤ binary.size) (count : Nat) :
    ∃ records outcome, TreesRun binary stop position count records outcome := by
  induction room : stop - position using Nat.strong_induction_on generalizing position count with
  | _ room inductionHypothesis =>
      cases count with
      | zero => exact ⟨_, _, .none⟩
      | succ count =>
          -- the children and the other trees both start behind the record, so in less room
          obtain ⟨outcome, record⟩ := Guarded.record before inside
          obtain error | ⟨⟨unit, childCount⟩, middle⟩ := outcome
          · exact ⟨_, _, .refused record⟩
          obtain ⟨behindRecord, inFront⟩ := record.record_forward before inside
          obtain ⟨records, outcome, inner⟩ :=
            inductionHypothesis (stop - middle) (by omega) inFront childCount rfl
          obtain error | ⟨children, next⟩ := outcome
          · exact ⟨_, _, .refusedInside record inner⟩
          obtain ⟨behindChildren, stillInFront⟩ := inner.forward inFront inside
          obtain ⟨more, outcome, behind⟩ :=
            inductionHypothesis (stop - next) (by omega) stillInFront count rfl
          obtain error | ⟨others, last⟩ := outcome
          · exact ⟨_, _, .refusedBehind record inner behind⟩
          · exact ⟨_, _, .trees record inner behind⟩

end Trees

/-- A run that succeeds gives as many trees as were asked for. -/
theorem TreesRun.length_eq {binary : Bytes} {stop position count records next : Nat}
    {trees : List CodeUnit}
    (run : TreesRun binary stop position count records (.ok (trees, next))) :
    trees.length = count := by
  generalize isOutcome : Except.ok (trees, next) = outcome at run
  induction run generalizing trees next with
  | none =>
      obtain ⟨rfl, -⟩ := Prod.mk.inj (Except.ok.inj isOutcome)
      rfl
  | refused | refusedInside | refusedBehind => cases isOutcome
  | trees _ _ _ _ behind =>
      obtain ⟨rfl, -⟩ := Prod.mk.inj (Except.ok.inj isOutcome)
      rw [List.length_cons, behind rfl]

end RiteVm.Binary
