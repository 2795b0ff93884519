import RiteVm.Core.Modules
import RiteVm.Proofs.Parameters.Keywords
import RiteVm.Proofs.Symbols.Interning

/-!
Contract: the names of the accessors of an attribute.

Owns:
- the names that the accessors of an attribute get, and the variable that they share;
- that these are the rendered name of the attribute and not the name itself, so that an attribute
  is accessed under its own name exactly if that name is well-formed text.

Symbols are told apart by the bytes of their names, and text has a replacement character for what
is malformed. So two attributes of different names have the same accessors if they are rendered
alike.
-/

namespace RiteVm

/-- The name that text makes of a name. -/
def respelled (name : Bytes) : Bytes := Text.utf8 (Text.lossy name)

example : respelled #[0x61, 0xff] = #[0x61, 0xef, 0xbf, 0xbd] := by decide +kernel

theorem Text.utf8_append_ne (text : String) : utf8 text ≠ utf8 (text ++ "=") := by
  intro same
  have sameText : text = text ++ "=" :=
    String.toByteArray_inj.mp (ByteArray.ext same)
  have sameLength := congrArg String.length sameText
  rw [String.length_append] at sameLength
  exact Nat.succ_ne_self _ sameLength.symm

/-- The symbols that the accessors of an attribute are defined with: those of the rendered name. -/
structure SymbolTable.NamesAccessors (table : SymbolTable) (text : String)
    (reader writer storage : Symbol) : Prop where
  reader : table.lookup? (Text.utf8 text) = some reader
  writer : table.lookup? (Text.utf8 (text ++ "=")) = some writer
  storage : table.lookup? (Text.utf8 s!"@{text}") = some storage

namespace SymbolTable

variable {table : SymbolTable} {text : String} {reader writer storage : Symbol}

theorem NamesAccessors.reader_ne_writer
    (names : table.NamesAccessors text reader writer storage) (faithful : table.Faithful) :
    reader ≠ writer := by
  rintro rfl
  exact Text.utf8_append_ne text (faithful.eq_of_lookup? names.reader names.writer)

/-- A reader has the name of its attribute exactly if rendering leaves that name as it is. -/
theorem NamesAccessors.reader_eq_iff {name : Symbol} {bytes : Bytes}
    (names : table.NamesAccessors (Text.lossy bytes) reader writer storage)
    (faithful : table.Faithful) (isName : table.lookup? bytes = some name) :
    reader = name ↔ respelled bytes = bytes := by
  constructor
  · rintro rfl
    exact faithful.eq_of_lookup? names.reader isName
  · intro same
    have isReader := names.reader
    rw [show Text.utf8 (Text.lossy bytes) = bytes from same, isName] at isReader
    exact (Option.some.inj isReader).symm

end SymbolTable

namespace VM

variable {machine : Machine} {handle : Handle} {record : ClassRecord}

/-- The machine with one more name. -/
def interned (machine : Machine) (text : String) : Machine :=
  { machine with symbols := (machine.symbols.intern (Text.utf8 text)).1 }

theorem internText_eq (machine : Machine) (text : String) :
    internText text machine =
      .ok (machine.symbols.intern (Text.utf8 text)).2 (interned machine text) := rfl

/-- The record with a native method under a text. -/
def withNative (machine : Machine) (record : ClassRecord) (text : String) (body : NativeMethod) :
    ClassRecord :=
  { record with
    methods := record.methods.insert (machine.symbols.intern (Text.utf8 text)).2 (.native body) }

theorem get?_withNative (machine : Machine) (record : ClassRecord) (text : String)
    (body : NativeMethod) (name : Symbol) :
    (withNative machine record text body).methods.get? name =
      if (machine.symbols.intern (Text.utf8 text)).2 = name then some (.native body)
      else record.methods.get? name := by
  rw [withNative, Table.get?_insert]

/-- The machine with a class that has a native method under a text, and an invalid cache. -/
def defining (machine : Machine) (handle : Handle) (record : ClassRecord) (text : String)
    (body : NativeMethod) : Machine :=
  ((interned machine text).setClass handle (withNative machine record text body)).bump 1 0

@[simp] theorem symbols_defining (text : String) (body : NativeMethod) :
    (defining machine handle record text body).symbols =
      (machine.symbols.intern (Text.utf8 text)).1 := rfl

theorem class?_defining (known : machine.class? handle = some record) (text : String)
    (body : NativeMethod) :
    (defining machine handle record text body).class? handle =
      some (withNative machine record text body) := by
  have knownToo : (interned machine text).class? handle = some record := known
  have changed := Machine.class?_setClass knownToo (withNative machine record text body) handle
  rwa [if_pos rfl] at changed

/-- A definition of a method leaves an object open. -/
theorem open_defining (isOpen : ∀ object, machine.heap.get? handle = some object →
    object.frozen = false) (text : String) (body : NativeMethod) :
    ∀ object, (defining machine handle record text body).heap.get? handle = some object →
      object.frozen = false := by
  intro object found
  have stored : ((interned machine text).setClass handle
      (withNative machine record text body)).heap.get? handle = some object := found
  rw [Machine.setClass, Machine.get?_rewrite, if_pos rfl] at stored
  obtain ⟨before, isBefore, rfl⟩ := Option.map_eq_some_iff.mp stored
  exact isOpen before isBefore

theorem defineMethod_of_open (known : machine.class? handle = some record)
    (isOpen : ∀ object, machine.heap.get? handle = some object → object.frozen = false)
    (text : String) (body : NativeMethod) :
    defineMethod handle text body machine = .ok ⟨⟩ (defining machine handle record text body) := by
  have knownToo : (interned machine text).class? handle = some record := known
  have checked : checkFrozenClass handle (interned machine text) =
      .ok ⟨⟩ (interned machine text) :=
    checkFrozenClass_eq_ok_iff.mpr ⟨rfl, ⟨record, knownToo⟩, isOpen⟩
  rw [defineMethod, bind_of_ok (internText_eq machine text), setMethod, bind_of_ok checked,
    addMethod, bind_of_ok (modifyClass_of_class? knownToo)]
  rfl

/-- The accessors of an attribute are defined under what text makes of its name. The names that are
reported are the name itself and that of the writer. -/
theorem defineAttribute_defines (faithful : machine.symbols.Faithful)
    (known : machine.class? handle = some record)
    (isOpen : ∀ object, machine.heap.get? handle = some object → object.frozen = false)
    (name : Symbol) :
    ∃ next changed reader writer storage,
      defineAttribute handle true true name machine =
        .ok [.symbol name, .symbol writer] next ∧
      next.symbols.Faithful ∧
      (∀ bytes symbol, machine.symbols.lookup? bytes = some symbol →
        next.symbols.lookup? bytes = some symbol) ∧
      next.symbols.NamesAccessors (machine.symbols.text name) reader writer storage ∧
      next.class? handle = some changed ∧
      changed.methods.get? reader = some (.native (.module (.readAttribute storage))) ∧
      changed.methods.get? writer = some (.native (.module (.writeAttribute storage))) ∧
      ∀ other, other ≠ reader → other ≠ writer →
        changed.methods.get? other = record.methods.get? other := by
  let text := machine.symbols.text name
  let first := interned machine s!"@{text}"
  let storage := (machine.symbols.intern (Text.utf8 s!"@{text}")).2
  let reader := (first.symbols.intern (Text.utf8 text)).2
  let withReader := withNative first record text (.module (.readAttribute storage))
  let second := defining first handle record text (.module (.readAttribute storage))
  let writer := (second.symbols.intern (Text.utf8 (text ++ "="))).2
  let withBoth := withNative second withReader (text ++ "=") (.module (.writeAttribute storage))
  let third := defining second handle withReader (text ++ "=") (.module (.writeAttribute storage))
  have knownFirst : first.class? handle = some record := known
  have openFirst : ∀ object, first.heap.get? handle = some object → object.frozen = false := isOpen
  have knownSecond : second.class? handle = some withReader := class?_defining knownFirst text _
  have openSecond : ∀ object, second.heap.get? handle = some object → object.frozen = false :=
    open_defining openFirst text _
  have knownThird : third.class? handle = some withBoth := class?_defining knownSecond _ _
  have definesReader : defineMethod handle text (.module (.readAttribute storage)) first =
      .ok ⟨⟩ second := defineMethod_of_open knownFirst openFirst text _
  have definesWriter : defineMethod handle (text ++ "=") (.module (.writeAttribute storage))
      second = .ok ⟨⟩ third := defineMethod_of_open knownSecond openSecond (text ++ "=") _
  -- the table of names grows by three texts
  have symbolsSecond : second.symbols = (first.symbols.intern (Text.utf8 text)).1 :=
    symbols_defining text _
  have symbolsThird : third.symbols = (second.symbols.intern (Text.utf8 (text ++ "="))).1 :=
    symbols_defining (text ++ "=") _
  have faithfulFirst : first.symbols.Faithful := faithful.intern _
  have faithfulSecond : second.symbols.Faithful := symbolsSecond ▸ faithfulFirst.intern _
  have faithfulThird : third.symbols.Faithful := symbolsThird ▸ faithfulSecond.intern _
  have staysFirst {bytes : Bytes} {symbol : Symbol} (isSymbol : first.symbols.lookup? bytes = some symbol) :
      third.symbols.lookup? bytes = some symbol := by
    rw [symbolsThird]
    refine faithfulSecond.lookup?_intern_of_some ?_ _
    rw [symbolsSecond]
    exact faithfulFirst.lookup?_intern_of_some isSymbol _
  have isReader : second.symbols.lookup? (Text.utf8 text) = some reader := by
    rw [symbolsSecond]
    exact faithfulFirst.lookup?_intern _
  have isWriter : third.symbols.lookup? (Text.utf8 (text ++ "=")) = some writer := by
    rw [symbolsThird]
    exact faithfulSecond.lookup?_intern _
  have names : third.symbols.NamesAccessors text reader writer storage :=
    { reader := symbolsThird ▸ faithfulSecond.lookup?_intern_of_some isReader _
      writer := isWriter
      storage := staysFirst (faithful.lookup?_intern _) }
  have isNew : reader ≠ writer := names.reader_ne_writer faithfulThird
  have lookSecond (other : Symbol) : withReader.methods.get? other = if reader = other then
      some (.native (.module (.readAttribute storage))) else record.methods.get? other :=
    get?_withNative first record text _ other
  have lookThird (other : Symbol) : withBoth.methods.get? other = if writer = other then
      some (.native (.module (.writeAttribute storage))) else withReader.methods.get? other :=
    get?_withNative second withReader (text ++ "=") _ other
  refine ⟨third, withBoth, reader, writer, storage, ?_, faithfulThird, fun bytes symbol isSymbol =>
    staysFirst (faithful.lookup?_intern_of_some isSymbol _), names, knownThird, ?_, ?_, ?_⟩
  · have reportsWriter : internText (text ++ "=") third = .ok writer third := by
      rw [SymbolTable.lookup?] at isWriter
      rw [internText_eq, interned, SymbolTable.intern, isWriter]
    rw [defineAttribute, bind_of_ok (liftM_of_ok (Query.symbolText_eq name machine)),
      bind_of_ok (internText_eq machine _)]
    simp only [if_true]
    rw [bind_of_ok definesReader, pure_bind, bind_of_ok definesWriter, bind_of_ok reportsWriter]
    rfl
  · rw [lookThird, if_neg isNew.symm, lookSecond, if_pos rfl]
  · rw [lookThird, if_pos rfl]
  · intro other notReader notWriter
    rw [lookThird, if_neg (Ne.symm notWriter), lookSecond, if_neg (Ne.symm notReader)]

/-- What a class has under the name of an attribute is the reader exactly if that name is well-formed
text. Otherwise the name keeps the method that it had, or none, although it is reported. -/
theorem attribute_named_iff (faithful : machine.symbols.Faithful)
    (known : machine.class? handle = some record)
    (isOpen : ∀ object, machine.heap.get? handle = some object → object.frozen = false)
    {name : Symbol} {bytes : Bytes} (isName : machine.symbols.lookup? bytes = some name) :
    ∃ next changed writer storage,
      defineAttribute handle true true name machine =
        .ok [.symbol name, .symbol writer] next ∧
      next.class? handle = some changed ∧
      if respelled bytes = bytes then
        changed.methods.get? name = some (.native (.module (.readAttribute storage)))
      else name = writer ∨ changed.methods.get? name = record.methods.get? name := by
  obtain ⟨next, changed, reader, writer, storage, defines, stillFaithful, keeps, names, knownNext,
    isReader, -, others⟩ := defineAttribute_defines faithful known isOpen name
  rw [SymbolTable.text, faithful.bytes_of_lookup? isName] at names
  have named := names.reader_eq_iff stillFaithful (keeps _ _ isName)
  refine ⟨next, changed, writer, storage, defines, knownNext, ?_⟩
  split
  · next isText => exact named.mpr isText ▸ isReader
  · next notText =>
      exact or_iff_not_imp_left.mpr fun notWriter =>
        others name (fun isSame => notText (named.mp isSame.symm)) notWriter

end VM

end RiteVm
