import RiteVm.Bytecode.Assembler

/-!
Contract: what is asked of an assembler, call by call.

Owns:
- the calls of an assembler as data, and the unit that a list of calls builds;
- what a call amounts to: the instructions it issues, the labels it binds, the regions it protects;
- the address at which a label is bound, as the instructions issued before it give it;
- that the assembler under construction holds exactly what the calls so far amount to.

The assembler keeps an address for each label and counts bytes. Here the addresses follow from the
calls alone, so that what is said about them does not rest on this count.
-/

namespace RiteVm.Bytecode.Assembler

/-! ### Calls -/

/-- One call of an assembler. -/
inductive Call where
  | symbol (name : String)
  | literal (value : Literal)
  | child (unit : CodeUnit)
  | newLabel
  | bind (label : Label)
  | mark
  | emit (op : Opcode) (values : List Nat)
  | jump (op : Opcode) (tested? : Option Nat) (label : Label)
  | enter (spec : ArgSpec)
  | loadInt (register : Nat) (value : Int64)
  | loadFloat (register : Nat) (bits : UInt64)
  | loadSymbol (register : Nat) (name : String)
  | loadString (register : Nat) (text : String)
  | send (op : Opcode) (register : Nat) (name : String) (count : Nat)
  | defineMethod (register : Nat) (name : String) (body : CodeUnit)
  | protect (kind : CatchKind) (first last target : Label)

/-- The assembler behind a call, if no check of the call fails. -/
def Call.perform (assembler : Assembler) : Call → Except AssemblyError Assembler
  | symbol name => .ok (assembler.symbol name).1
  | literal value => .ok (assembler.literal value).1
  | child unit => .ok (assembler.child unit).1
  | newLabel => .ok assembler.label.1
  | bind label => assembler.bind label
  | mark => .ok assembler.mark.1
  | emit op values => assembler.emit op values
  | jump op tested? label => assembler.jump op tested? label
  | enter spec => assembler.enter spec
  | loadInt register value => assembler.loadInt register value
  | loadFloat register bits => assembler.loadFloat register bits
  | loadSymbol register name => assembler.loadSymbol register name
  | loadString register text => assembler.loadString register text
  | send op register name count => assembler.send op register name count
  | defineMethod register name body => assembler.defineMethod register name body
  | protect kind first last target => .ok (assembler.protect kind first last target)

/-! ### What calls amount to -/

/-- What a call does to the code and to the catch table. -/
inductive Event where
  | issued (item : Item)
  | bound (label : Label)
  | guarded (region : Region)
deriving DecidableEq, Repr

/-- The operands of an instruction in order. Missing ones are zero. -/
def operandsOf (values : List Nat) : Operands :=
  ⟨values.getD 0 0, values.getD 1 0, values.getD 2 0⟩

/-- The instruction that loads an integer; the index is that of its literal, if it needs one. -/
def intItem (register : Nat) (value : Int64) (index : Nat) : Item :=
  let number := value.toInt
  match if -1 ≤ number then smallIntOpcodes[(number + 1).toNat]? else none with
  | some op => .plain op { a := register }
  | none =>
    if 8 ≤ number ∧ number ≤ 255 then .plain .loadByte { a := register, b := number.toNat }
    else if -255 ≤ number ∧ number ≤ -2 then
      .plain .loadNegByte { a := register, b := (-number).toNat }
    else if -32768 ≤ number ∧ number ≤ 32767 then
      .plain .loadShort { a := register, b := (number % 65536).toNat }
    else if -2147483648 ≤ number ∧ number ≤ 2147483647 then
      let word := (number % 4294967296).toNat
      .plain .loadWord { a := register, b := word / 65536, c := word % 65536 }
    else .plain .loadLiteral { a := register, b := index }

/-- What a call on an assembler amounts to. A name, a literal or a child that the call enters has
the index that the assembler gives it. -/
def Call.events (assembler : Assembler) : Call → List Event
  | symbol _ | literal _ | child _ | newLabel => []
  | bind label => [.bound label]
  | mark => [.bound assembler.mark.2]
  | emit op values => [.issued (.plain op (operandsOf values))]
  | jump op tested? label => [.issued (.jump op (tested?.getD 0) label)]
  | enter spec => [.issued (.plain .enter { a := spec.word.toNat })]
  | loadInt register value =>
    [.issued (intItem register value (assembler.literal (.int value)).2)]
  | loadFloat register bits =>
    [.issued (.plain .loadLiteral { a := register, b := (assembler.literal (.float bits)).2 })]
  | loadSymbol register name =>
    [.issued (.plain .loadSymbol { a := register, b := (assembler.symbol name).2 })]
  | loadString register text =>
    [.issued (.plain .string
      { a := register, b := (assembler.literal (.string (Text.utf8 text))).2 })]
  | send op register name count =>
    [.issued (.plain op { a := register, b := (assembler.symbol name).2, c := count })]
  | defineMethod register name body =>
    [.issued (.plain .method { a := register + 1, b := (assembler.child body).2 }),
      .issued (.plain .defineMethod { a := register, b := (assembler.symbol name).2 })]
  | protect kind first last target => [.guarded { kind, first, last, target }]

/-- The assembler behind a list of calls, and what they amount to. -/
def performAll (assembler : Assembler) : List Call → Except AssemblyError (Assembler × List Event)
  | [] => .ok (assembler, [])
  | call :: rest => do
    let next ← call.perform assembler
    let (last, events) ← next.performAll rest
    return (last, call.events assembler ++ events)

/-- The unit that calls on an empty assembler build, and what the calls amount to. -/
def assemble (localCount registerCount : UInt16) (calls : List Call) :
    Except AssemblyError (CodeUnit × List Event) := do
  let empty ← new localCount registerCount
  let (assembler, events) ← empty.performAll calls
  return (← assembler.build, events)

/-! ### Addresses -/

/-- The opcode of an item. -/
def Item.op : Item → Opcode
  | plain op _ | jump op _ _ => op

/-- The instruction that was issued, if one was. -/
def Event.item? : Event → Option Item
  | issued item => some item
  | bound _ | guarded _ => none

/-- The region that is protected from now on, if there is one. -/
def Event.region? : Event → Option Region
  | guarded region => some region
  | issued _ | bound _ => none

/-- Bytes that instructions take. -/
def extent : List Item → Nat
  | [] => 0
  | item :: rest => item.op.width + extent rest

/-- Bytes of the instructions issued in a list of events. -/
def reach (events : List Event) : Nat := extent (events.filterMap Event.item?)

/-- The address at which a label is bound: behind the instructions that were issued before. -/
def boundAt? (label : Label) : List Event → Option Nat
  | [] => none
  | event :: rest =>
    if event = .bound label then some 0 else (boundAt? label rest).map (reach [event] + ·)

theorem extent_append (items more : List Item) :
    extent (items ++ more) = extent items + extent more := by
  induction items with
  | nil => exact (Nat.zero_add _).symm
  | cons item rest inductionHypothesis =>
      rw [List.cons_append, extent, extent, inductionHypothesis, Nat.add_assoc]

@[simp] theorem reach_nil : reach [] = 0 := rfl

@[simp] theorem reach_issued (item : Item) : reach [.issued item] = item.op.width := rfl

@[simp] theorem reach_guarded (region : Region) : reach [.guarded region] = 0 := rfl

@[simp] theorem reach_bound (label : Label) : reach [.bound label] = 0 := rfl

theorem reach_append (events more : List Event) :
    reach (events ++ more) = reach events + reach more := by
  simp only [reach, List.filterMap_append, extent_append]

/-- The first binding counts. One behind other events is as far behind their instructions. -/
theorem boundAt?_append (label : Label) (events more : List Event) :
    boundAt? label (events ++ more) =
      (boundAt? label events).or ((boundAt? label more).map (reach events + ·)) := by
  induction events with
  | nil => simp [boundAt?]
  | cons event rest inductionHypothesis =>
      have split := reach_append [event] rest
      rw [List.singleton_append] at split
      rw [List.cons_append, boundAt?, boundAt?]
      by_cases isBound : event = .bound label
      · simp only [isBound, ↓reduceIte, Option.some_or]
      · simp only [isBound, ↓reduceIte, inductionHypothesis, Option.map_or, Option.map_map, split]
        congr 1
        simp only [Function.comp_def, Nat.add_assoc]

theorem boundAt?_eq_none_iff {label : Label} {events : List Event} :
    boundAt? label events = none ↔ .bound label ∉ events := by
  induction events with
  | nil => simp [boundAt?]
  | cons event rest inductionHypothesis =>
      rw [boundAt?, List.mem_cons, not_or, ← inductionHypothesis]
      by_cases isBound : event = .bound label
      · simp [isBound]
      · simp [isBound, Ne.symm isBound]

/-! ### The assembler behind calls -/

/-- An item is one that the checks of the assembler let pass: a jump where a label is given, and
otherwise an instruction whose operands fit into their slots. -/
def Item.Fits : Item → Prop
  | plain op operands => op.jumpOperand? = none ∧ op.layout.truncate operands = operands
  | jump op _ _ => op.jumpOperand?.isSome

/-- An assembler holds what events amount to. -/
structure Records (assembler : Assembler) (events : List Event) : Prop where
  items : assembler.items.toList = events.filterMap Event.item?
  here : assembler.here = reach events
  labels : ∀ label : Label, (assembler.labels[label.index]?).join = boundAt? label events
  regions : assembler.regions.toList = events.filterMap Event.region?
  fits : ∀ item ∈ events.filterMap Event.item?, item.Fits
  once : ∀ label, events.count (.bound label) ≤ 1

variable {assembler next : Assembler} {events : List Event}

theorem bind_eq_ok_iff {α β : Type} {first : Except AssemblyError α}
    {rest : α → Except AssemblyError β} {value : β} :
    first >>= rest = .ok value ↔ ∃ between, first = .ok between ∧ rest between = .ok value := by
  constructor
  · intro done
    cases first with
    | error failure => cases done
    | ok between => exact ⟨between, rfl, done⟩
  · rintro ⟨between, rfl, done⟩
    exact done

/-- Operands within the limits of a layout lose nothing in its slots. -/
theorem truncate_operandsOf (layout : Layout) (values : List Nat)
    (count : values.length = layout.arity)
    (within : ∀ value limit, (value, limit) ∈
      values.zip [layout.limits.a, layout.limits.b, layout.limits.c] → value ≤ limit) :
    layout.truncate (operandsOf values) = operandsOf values := by
  have slots : ∀ index < 3, values.getD index 0 ≤
      [layout.limits.a, layout.limits.b, layout.limits.c].getD index 0 := by
    intro index small
    by_cases given : index < values.length
    · refine within _ _ (List.mem_iff_getElem.mpr ⟨index, by simp; omega, ?_⟩)
      simp [given, small]
    · simp [Nat.le_of_not_lt given]
  have first := slots 0 (by decide)
  have second := slots 1 (by decide)
  have third := slots 2 (by decide)
  simp only [List.getD_cons_zero, List.getD_cons_succ] at first second third
  simp only [Layout.truncate, operandsOf, Operands.mk.injEq]
  exact ⟨Nat.mod_eq_of_lt (by omega), Nat.mod_eq_of_lt (by omega), Nat.mod_eq_of_lt (by omega)⟩

theorem of_emit {op : Opcode} {values : List Nat} (emitted : assembler.emit op values = .ok next) :
    next = assembler.push op (.plain op (operandsOf values)) ∧
      Item.Fits (.plain op (operandsOf values)) := by
  unfold emit at emitted
  dsimp only at emitted
  split at emitted
  · cases emitted
  · rename_i count
    split at emitted
    · cases emitted
    · rename_i noJump
      split at emitted
      · cases emitted
      · rename_i noneBeyond
        cases emitted
        refine ⟨rfl, by simpa using noJump, truncate_operandsOf _ _ (by simpa using count) ?_⟩
        intro value limit member
        have within := List.find?_eq_none.mp noneBeyond _ member
        simpa using within

theorem of_jump {op : Opcode} {tested? : Option Nat} {label : Label}
    (jumped : assembler.jump op tested? label = .ok next) :
    next = assembler.push op (.jump op (tested?.getD 0) label) ∧
      Item.Fits (.jump op (tested?.getD 0) label) := by
  unfold jump at jumped
  split at jumped
  all_goals cases jumped
  all_goals rename_i isJump
  all_goals exact ⟨rfl, by rw [Item.Fits, isJump]; rfl⟩

namespace Records

/-- Nothing but the tables has changed. -/
theorem congr (records : assembler.Records events) (items : next.items = assembler.items)
    (here : next.here = assembler.here) (labels : next.labels = assembler.labels)
    (regions : next.regions = assembler.regions) : next.Records events where
  items := items ▸ records.items
  here := here ▸ records.here
  labels := labels ▸ records.labels
  regions := regions ▸ records.regions
  fits := records.fits
  once := records.once

theorem symbol (records : assembler.Records events) (name : String) :
    (assembler.symbol name).1.Records events := by
  unfold Assembler.symbol
  dsimp only
  split <;> exact records.congr rfl rfl rfl rfl

theorem literal (records : assembler.Records events) (value : Literal) :
    (assembler.literal value).1.Records events := by
  unfold Assembler.literal
  split <;> exact records.congr rfl rfl rfl rfl

theorem child (records : assembler.Records events) (unit : CodeUnit) :
    (assembler.child unit).1.Records events := records.congr rfl rfl rfl rfl

/-- One more instruction. -/
theorem push (records : assembler.Records events) {op : Opcode} {item : Item} (isOp : item.op = op)
    (fits : item.Fits) : (assembler.push op item).Records (events ++ [.issued item]) where
  items := by simp [Assembler.push, records.items, Event.item?]
  here := by
    simp only [Assembler.push, reach_append, reach_issued, records.here, isOp]
  labels label := by
    simp [Assembler.push, records.labels, boundAt?_append, boundAt?]
  regions := by simp [Assembler.push, records.regions, Event.region?]
  fits := by
    intro other member
    rw [List.filterMap_append, List.mem_append] at member
    rcases member with earlier | isNew
    · exact records.fits other earlier
    · rw [List.mem_singleton.mp isNew]
      exact fits
  once label := by
    simp [records.once label]

/-- A label without an address gets the current one. -/
theorem bound (records : assembler.Records events) {label : Label}
    (free : (assembler.labels[label.index]?).join = none) (items : next.items = assembler.items)
    (here : next.here = assembler.here) (regions : next.regions = assembler.regions)
    (labels : ∀ other : Label, (next.labels[other.index]?).join =
      if other = label then some assembler.here else (assembler.labels[other.index]?).join) :
    next.Records (events ++ [.bound label]) where
  items := by simp [items, records.items, Event.item?]
  here := by rw [here, records.here, reach_append, reach_bound, Nat.add_zero]
  labels other := by
    rw [labels, boundAt?_append, records.here]
    by_cases same : other = label
    · subst same
      rw [if_pos rfl, ← records.labels, free]
      simp [boundAt?]
    · have apart : label ≠ other := Ne.symm same
      rw [if_neg same, records.labels]
      simp [boundAt?, apart]
  regions := by simp [regions, records.regions, Event.region?]
  fits := by
    intro item member
    apply records.fits item
    simpa [Event.item?] using member
  once other := by
    rw [List.count_append]
    by_cases same : other = label
    · subst same
      have unbound : Event.bound other ∉ events :=
        boundAt?_eq_none_iff.mp ((records.labels other).symm.trans free)
      simp [List.count_eq_zero_of_not_mem unbound]
    · have apart : Event.bound label ≠ .bound other := by simpa using Ne.symm same
      simpa [apart] using records.once other

theorem newLabel (records : assembler.Records events) : assembler.label.1.Records events where
  items := records.items
  here := records.here
  labels label := by
    rw [← records.labels, Assembler.label, Array.getElem?_push]
    split
    · next isNew => simp [isNew]
    · rfl
  regions := records.regions
  fits := records.fits
  once := records.once

theorem bind (records : assembler.Records events) {label : Label}
    (isBound : assembler.bind label = .ok next) : next.Records (events ++ [.bound label]) := by
  unfold Assembler.bind at isBound
  split at isBound
  · cases isBound
  · cases isBound
  · rename_i free
    cases isBound
    refine records.bound (by rw [free]; rfl) rfl rfl rfl ?_
    intro other
    have inRange : label.index < assembler.labels.size := (Array.getElem?_eq_some_iff.mp free).1
    have sameIndex : label.index = other.index ↔ other = label := by
      rw [Label.mk.injEq, eq_comm]
    simp only [Array.getElem?_setIfInBounds, inRange, sameIndex, ↓reduceIte]
    split <;> rfl

theorem mark (records : assembler.Records events) :
    assembler.mark.1.Records (events ++ [.bound assembler.mark.2]) := by
  refine records.bound (by simp [Assembler.mark]) rfl rfl rfl ?_
  intro other
  have sameIndex : other = ⟨assembler.labels.size⟩ ↔ other.index = assembler.labels.size := by
    cases other
    rw [Label.mk.injEq]
  simp only [Assembler.mark, Array.getElem?_push, sameIndex]
  split <;> rfl

theorem protect (records : assembler.Records events) (kind : CatchKind)
    (first last target : Label) :
    (assembler.protect kind first last target).Records
      (events ++ [.guarded { kind, first, last, target }]) where
  items := by simp [Assembler.protect, records.items, Event.item?]
  here := by rw [reach_append, reach_guarded, Nat.add_zero, ← records.here]; rfl
  labels label := by
    simp [Assembler.protect, records.labels, boundAt?_append, boundAt?]
  regions := by simp [Assembler.protect, records.regions, Event.region?]
  fits := by
    intro item member
    apply records.fits item
    simpa [Event.item?] using member
  once label := by
    simp [records.once label]

theorem emit (records : assembler.Records events) {op : Opcode} {values : List Nat}
    (emitted : assembler.emit op values = .ok next) :
    next.Records (events ++ [.issued (.plain op (operandsOf values))]) := by
  obtain ⟨rfl, fits⟩ := of_emit emitted
  exact records.push rfl fits

theorem loadInt (records : assembler.Records events) {register : Nat} {value : Int64}
    (loaded : assembler.loadInt register value = .ok next) :
    next.Records
      (events ++ [.issued (intItem register value (assembler.literal (.int value)).2)]) := by
  unfold Assembler.loadInt at loaded
  unfold intItem
  dsimp only at loaded ⊢
  -- The cases are those of the assembler; only in the last one the literal is entered.
  generalize (if -1 ≤ value.toInt then smallIntOpcodes[(value.toInt + 1).toNat]? else none) =
    short? at loaded ⊢
  cases short? with
  | some op => exact records.emit loaded
  | none =>
      dsimp only at loaded ⊢
      by_cases isByte : 8 ≤ value.toInt ∧ value.toInt ≤ 255
      · rw [if_pos isByte] at loaded ⊢
        exact records.emit loaded
      rw [if_neg isByte] at loaded ⊢
      by_cases isNegative : -255 ≤ value.toInt ∧ value.toInt ≤ -2
      · rw [if_pos isNegative] at loaded ⊢
        exact records.emit loaded
      rw [if_neg isNegative] at loaded ⊢
      by_cases isShort : -32768 ≤ value.toInt ∧ value.toInt ≤ 32767
      · rw [if_pos isShort] at loaded ⊢
        exact records.emit loaded
      rw [if_neg isShort] at loaded ⊢
      by_cases isWord : -2147483648 ≤ value.toInt ∧ value.toInt ≤ 2147483647
      · rw [if_pos isWord] at loaded ⊢
        exact records.emit loaded
      rw [if_neg isWord] at loaded ⊢
      exact (records.literal _).emit loaded

theorem defineMethod (records : assembler.Records events) {register : Nat} {name : String}
    {body : CodeUnit} (defined : assembler.defineMethod register name body = .ok next) :
    next.Records (events ++ (Call.defineMethod register name body).events assembler) := by
  obtain ⟨between, emitted, defined⟩ := bind_eq_ok_iff.mp defined
  have loaded := (records.child body).emit emitted
  -- The instruction that loads the body leaves the names as they are.
  have names : (between.symbol name).2 = (assembler.symbol name).2 := by
    obtain ⟨rfl, -⟩ := of_emit emitted
    unfold Assembler.symbol
    dsimp only [Assembler.push, Assembler.child]
    split <;> rfl
  have done : next.Records (_ ++ [.issued (.plain .defineMethod
      (operandsOf [register, (between.symbol name).2]))]) := (loaded.symbol name).emit defined
  rwa [names, List.append_assoc] at done

/-- What one call adds. -/
theorem perform (records : assembler.Records events) {call : Call}
    (performed : call.perform assembler = .ok next) :
    next.Records (events ++ call.events assembler) := by
  cases call with
  | symbol name =>
      cases performed
      simpa [Call.events] using records.symbol name
  | literal value =>
      cases performed
      simpa [Call.events] using records.literal value
  | child unit =>
      cases performed
      simpa [Call.events] using records.child unit
  | newLabel =>
      cases performed
      simpa [Call.events] using records.newLabel
  | bind label => exact records.bind performed
  | mark =>
      cases performed
      exact records.mark
  | emit op values => exact records.emit performed
  | jump op tested? label =>
      obtain ⟨rfl, fits⟩ := of_jump performed
      exact records.push rfl fits
  | enter spec =>
      change assembler.emit .enter [spec.word.toNat] = .ok next at performed
      exact records.emit performed
  | loadInt register value => exact records.loadInt performed
  | loadFloat register bits =>
      change (assembler.literal (.float bits)).1.emit .loadLiteral
        [register, (assembler.literal (.float bits)).2] = .ok next at performed
      exact (records.literal _).emit performed
  | loadSymbol register name =>
      change (assembler.symbol name).1.emit .loadSymbol
        [register, (assembler.symbol name).2] = .ok next at performed
      exact (records.symbol name).emit performed
  | loadString register text =>
      change (assembler.literal (.string (Text.utf8 text))).1.emit .string
        [register, (assembler.literal (.string (Text.utf8 text))).2] = .ok next at performed
      exact (records.literal _).emit performed
  | send op register name count => exact (records.symbol name).emit performed
  | defineMethod register name body => exact records.defineMethod performed
  | protect kind first last target =>
      cases performed
      exact records.protect kind first last target

/-- What a list of calls adds. -/
theorem performAll {calls : List Call} {more : List Event} (records : assembler.Records events)
    (performed : assembler.performAll calls = .ok (next, more)) :
    next.Records (events ++ more) := by
  induction calls generalizing assembler events more with
  | nil =>
      cases performed
      rwa [List.append_nil]
  | cons call rest inductionHypothesis =>
      obtain ⟨between, one, performed⟩ := bind_eq_ok_iff.mp performed
      obtain ⟨⟨last, behind⟩, others, done⟩ := bind_eq_ok_iff.mp performed
      cases done
      rw [← List.append_assoc]
      exact inductionHypothesis (records.perform one) others

end Records

end RiteVm.Bytecode.Assembler
