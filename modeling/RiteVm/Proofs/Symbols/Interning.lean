import Mathlib.Data.List.Induction
import Mathlib.Data.List.Nodup
import RiteVm.Symbol

/-!
Contract: names and symbols correspond one to one, at every time in the life of a table.

Owns:
- histories of calls on a new table, with the symbol that each call returned;
- the number of a name, its place among the different names in the order of their first calls;
- the table behind any history, described by these numbers alone;
- what looking up and interning have to do with each other in such a table.

The list of names and the map from names to symbols are two structures. The invariant states
both of them by the names seen so far; an interning step keeps it, and so does a history.
-/

namespace RiteVm

namespace SymbolTable

/-- What a caller interns: a text, or bytes that need not be well-formed. -/
inductive Call where
  | text (name : String)
  | bytes (name : Bytes)

/-- The bytes by which a name is known. -/
def Call.name : Call → Bytes
  | text name => Text.utf8 name
  | bytes name => name

/-- Makes calls in order and collects the symbols. -/
def internEach (table : SymbolTable) : List Call → SymbolTable × List Symbol
  | [] => (table, [])
  | call :: rest =>
    let first := table.intern call.name
    let others := first.1.internEach rest
    (others.1, first.2 :: others.2)

/-- A new table behind a history of calls. -/
def behind (history : List Call) : SymbolTable := (initial.internEach history).1

/-- The constants for the names that every table begins with. -/
def predefinedSymbols : List (String × Symbol) :=
  [("initialize", .initMethod), ("method_missing", .methodMissing), ("call", .call),
    ("new", .new), ("to_s", .toS), ("inspect", .inspect), ("message", .message),
    ("exception", .exception), ("each", .each), ("==", .opEq), ("[]", .opIndex),
    ("[]=", .opIndexSet), ("+", .opAdd), ("-", .opSub), ("*", .opMul), ("/", .opDiv),
    ("<", .opLt), ("<=", .opLe), (">", .opGt), (">=", .opGe), ("resume", .resume),
    ("yield", .yield)]

/-- Every name with the symbol that stands for it, in order: the constants, and then the calls
with the symbols that they returned. -/
def issued (history : List Call) : List (Bytes × Symbol) :=
  predefinedSymbols.map (fun (text, symbol) => (Text.utf8 text, symbol)) ++
    (history.zip (initial.internEach history).2).map fun (call, symbol) => (call.name, symbol)

/-- The different names of a history in the order in which they were first interned. -/
def firstNames (history : List Call) : List Bytes :=
  ((issued history).map Prod.fst).eraseDups

/-- Names and symbols correspond one to one behind a history. -/
structure Bijective (history : List Call) : Prop where
  /-- every call returns a symbol -/
  returns : (initial.internEach history).2.length = history.length
  same_iff : ∀ one ∈ issued history, ∀ other ∈ issued history,
    one.2 = other.2 ↔ one.1 = other.1
  /-- a symbol leads back to its bytes, and does so after any more calls -/
  keepsBytes : ∀ one ∈ issued history, ∀ later, (behind (history ++ later)).bytes one.2 = one.1
  /-- a name is found exactly if it was interned, under the symbol that was returned for it -/
  lookup_iff : ∀ name symbol,
    (behind history).lookup? name = some symbol ↔ (name, symbol) ∈ issued history
  /-- the symbols are numbered from 1 in the order of first interning -/
  numbered : ∀ name symbol, (name, symbol) ∈ issued history ↔
    ∃ index, (firstNames history)[index]? = some name ∧ symbol = ⟨index + 1⟩
  /-- no number is left out -/
  complete : (behind history).size = (firstNames history).length

/-! ### Numbers of names -/

/-- The symbol of a name: its place among the different names seen, counted from 1. -/
def symbolAmong (seen : List Bytes) (name : Bytes) : Symbol := ⟨seen.eraseDups.idxOf name + 1⟩

theorem eraseDups_concat (seen : List Bytes) (name : Bytes) :
    (seen ++ [name]).eraseDups =
      if name ∈ seen then seen.eraseDups else seen.eraseDups ++ [name] := by
  have single : [name].eraseDups = [name] := by rw [List.eraseDups_cons]; rfl
  rw [List.eraseDups_append]
  split
  · rename_i isSeen
    simp [List.removeAll, isSeen]
  · rename_i isNew
    simp [List.removeAll, isNew, single]

theorem nodup_eraseDups (names : List Bytes) : names.eraseDups.Nodup := by
  induction names using List.reverseRecOn with
  | nil => exact List.nodup_nil
  | append_singleton names name inductionHypothesis =>
      rw [eraseDups_concat]
      split
      · exact inductionHypothesis
      · rename_i isNew
        rw [← List.concat_eq_append]
        exact inductionHypothesis.concat fun listed => isNew (List.mem_eraseDups.mp listed)

/-- The symbol of a name stays when more names are seen. -/
theorem symbolAmong_append {seen : List Bytes} {name : Bytes} (isSeen : name ∈ seen)
    (more : List Bytes) : symbolAmong (seen ++ more) name = symbolAmong seen name := by
  rw [symbolAmong, symbolAmong, List.eraseDups_append,
    List.idxOf_append_of_mem (List.mem_eraseDups.mpr isSeen)]

/-- A name that is seen for the first time gets the next number. -/
theorem symbolAmong_concat_new {seen : List Bytes} {name : Bytes} (isNew : name ∉ seen) :
    symbolAmong (seen ++ [name]) name = ⟨seen.eraseDups.length + 1⟩ := by
  have notListed : name ∉ seen.eraseDups := fun listed => isNew (List.mem_eraseDups.mp listed)
  rw [symbolAmong, eraseDups_concat, if_neg isNew, List.idxOf_append_of_notMem notListed]
  simp

theorem symbolAmong_injective {seen : List Bytes} {name other : Bytes} (isSeen : name ∈ seen) :
    symbolAmong seen name = symbolAmong seen other ↔ name = other := by
  rw [symbolAmong, symbolAmong, Symbol.mk.injEq, Nat.add_right_cancel_iff,
    List.idxOf_inj (List.mem_eraseDups.mpr isSeen)]

/-! ### The table behind a history -/

/-- What a table holds when exactly the given names were interned, in this order. -/
structure Holds (table : SymbolTable) (seen : List Bytes) : Prop where
  names : table.names.toList = seen.eraseDups
  symbols : ∀ name, table.lookup? name =
    if name ∈ seen then some (symbolAmong seen name) else none

namespace Holds

variable {table : SymbolTable} {seen : List Bytes}

theorem empty : SymbolTable.empty.Holds [] := by
  refine ⟨rfl, fun name => ?_⟩
  rw [lookup?, SymbolTable.empty, Std.HashMap.getElem?_empty]
  rfl

/-- Interning a name returns its symbol, and the name is seen from then on. -/
theorem intern (holds : table.Holds seen) (name : Bytes) :
    (table.intern name).2 = symbolAmong (seen ++ [name]) name ∧
      (table.intern name).1.Holds (seen ++ [name]) := by
  have look := holds.symbols name
  rw [lookup?] at look
  by_cases isSeen : name ∈ seen
  · rw [if_pos isSeen] at look
    rw [SymbolTable.intern, look]
    refine ⟨(symbolAmong_append isSeen [name]).symm, ?_, fun other => ?_⟩
    · rw [eraseDups_concat, if_pos isSeen]
      exact holds.names
    · rw [holds.symbols other]
      have sameNames : other ∈ seen ++ [name] ↔ other ∈ seen := by
        rw [List.mem_append, List.mem_singleton]
        exact ⟨fun member => member.elim id fun same => same ▸ isSeen, .inl⟩
      rw [if_congr sameNames rfl rfl]
      split
      · rename_i isOther
        rw [symbolAmong_append isOther]
      · rfl
  · rw [if_neg isSeen] at look
    have size : table.names.size = seen.eraseDups.length := by
      rw [← holds.names, Array.length_toList]
    rw [SymbolTable.intern, look, symbolAmong_concat_new isSeen, size]
    refine ⟨rfl, ?_, fun other => ?_⟩
    · rw [Array.toList_push, holds.names, eraseDups_concat, if_neg isSeen]
    · rw [lookup?, Std.HashMap.getElem?_insert]
      by_cases same : name = other
      · subst same
        simp [symbolAmong_concat_new isSeen]
      · have look := holds.symbols other
        rw [lookup?] at look
        rw [if_neg (by simpa using same), look]
        by_cases isOther : other ∈ seen
        · simp [isOther, symbolAmong_append isOther]
        · simp [isOther, Ne.symm same]

theorem internAll (holds : table.Holds seen) (names : List String) :
    (table.internAll names).Holds (seen ++ names.map Text.utf8) := by
  induction names generalizing table seen with
  | nil => rwa [List.map_nil, List.append_nil]
  | cons name rest inductionHypothesis =>
      have behindFirst := (holds.intern (Text.utf8 name)).2
      rw [List.map_cons, List.append_cons]
      exact inductionHypothesis behindFirst

/-- Every call of a history returns the symbol of its name. -/
theorem internEach (holds : table.Holds seen) (history : List Call) :
    (table.internEach history).2 =
        history.map (fun call => symbolAmong (seen ++ history.map Call.name) call.name) ∧
      (table.internEach history).1.Holds (seen ++ history.map Call.name) := by
  induction history generalizing table seen with
  | nil =>
      refine ⟨rfl, ?_⟩
      rw [List.map_nil, List.append_nil]
      exact holds
  | cons call rest inductionHypothesis =>
      obtain ⟨isSymbol, behindFirst⟩ := holds.intern call.name
      obtain ⟨symbols, behindAll⟩ := inductionHypothesis behindFirst
      have isSeen : call.name ∈ seen ++ [call.name] := by simp
      rw [← symbolAmong_append isSeen (rest.map Call.name)] at isSymbol
      rw [List.map_cons, List.map_cons, List.append_cons, ← isSymbol, ← symbols]
      exact ⟨rfl, behindAll⟩

end Holds

/-- The names that a table has seen behind a history, in the order of the calls. -/
def namesSeen (history : List Call) : List Bytes :=
  predefinedNames.map Text.utf8 ++ history.map Call.name

theorem internEach_initial (history : List Call) :
    (initial.internEach history).2 =
        history.map (fun call => symbolAmong (namesSeen history) call.name) ∧
      (behind history).Holds (namesSeen history) := by
  have atStart := Holds.empty.internAll predefinedNames
  rw [List.nil_append] at atStart
  exact atStart.internEach history

/-- The constants are the numbers that their names get in a new table. -/
theorem predefinedSymbols_eq :
    predefinedSymbols.map (fun (text, symbol) => (Text.utf8 text, symbol)) =
      (predefinedNames.map Text.utf8).map fun name =>
        (name, symbolAmong (predefinedNames.map Text.utf8) name) := by
  decide +kernel

/-- Each name is issued with its symbol among all names. -/
theorem issued_eq (history : List Call) : issued history =
    (namesSeen history).map fun name => (name, symbolAmong (namesSeen history) name) := by
  have calls : history.zip (initial.internEach history).2 = history.map fun call =>
      (call, symbolAmong (namesSeen history) call.name) := by
    have zipped := List.zip_map' (f := id)
      (g := fun call : Call => symbolAmong (namesSeen history) call.name) (l := history)
    rwa [List.map_id, ← (internEach_initial history).1] at zipped
  have constants : (predefinedNames.map Text.utf8).map
      (fun name => (name, symbolAmong (predefinedNames.map Text.utf8) name)) =
      (predefinedNames.map Text.utf8).map fun name =>
        (name, symbolAmong (namesSeen history) name) := by
    apply List.map_congr_left
    intro name member
    rw [namesSeen, symbolAmong_append member]
  rw [issued, predefinedSymbols_eq, constants, calls]
  generalize symbolAmong (namesSeen history) = symbol
  rw [namesSeen, List.map_append, List.map_map, List.map_map, List.map_map]
  rfl

theorem firstNames_eq (history : List Call) :
    firstNames history = (namesSeen history).eraseDups := by
  rw [firstNames, issued_eq, List.map_map]
  congr 1
  exact List.map_id _

theorem mem_issued {history : List Call} {name : Bytes} {symbol : Symbol} :
    (name, symbol) ∈ issued history ↔
      name ∈ namesSeen history ∧ symbol = symbolAmong (namesSeen history) name := by
  rw [issued_eq, List.mem_map]
  constructor
  · rintro ⟨_, isSeen, same⟩
    obtain ⟨rfl, rfl⟩ := Prod.mk.inj same
    exact ⟨isSeen, rfl⟩
  · rintro ⟨isSeen, rfl⟩
    exact ⟨name, isSeen, rfl⟩

/-- The bytes of a symbol are those of the name that has its number. -/
theorem Holds.bytes {table : SymbolTable} {seen : List Bytes} (holds : table.Holds seen)
    {name : Bytes} (isSeen : name ∈ seen) : table.bytes (symbolAmong seen name) = name := by
  have inside := List.idxOf_lt_length_iff.mpr (List.mem_eraseDups.mpr isSeen)
  rw [SymbolTable.bytes, symbolAmong, Array.getD_eq_getD_getElem?, ← Array.getElem?_toList,
    holds.names, Nat.add_sub_cancel, List.getElem?_eq_getElem inside, List.getElem_idxOf inside]
  rfl

theorem bytes_behind {history : List Call} {name : Bytes} (isSeen : name ∈ namesSeen history) :
    (behind history).bytes (symbolAmong (namesSeen history) name) = name :=
  (internEach_initial history).2.bytes isSeen

/-! ### Tables of any history -/

/-- The table is one that some names were interned in. -/
def Faithful (table : SymbolTable) : Prop := ∃ seen, table.Holds seen

namespace Faithful

variable {table : SymbolTable} {name other : Bytes} {symbol : Symbol}

theorem initial : initial.Faithful := ⟨_, (internEach_initial []).2⟩

theorem intern (faithful : table.Faithful) (name : Bytes) : (table.intern name).1.Faithful := by
  obtain ⟨seen, holds⟩ := faithful
  exact ⟨_, (holds.intern name).2⟩

/-- A name that was interned has a symbol. -/
theorem lookup?_intern (faithful : table.Faithful) (name : Bytes) :
    (table.intern name).1.lookup? name = some (table.intern name).2 := by
  obtain ⟨seen, holds⟩ := faithful
  obtain ⟨isSymbol, holds⟩ := holds.intern name
  rw [holds.symbols, if_pos (by simp), isSymbol]

/-- Names keep their symbols. -/
theorem lookup?_intern_of_some (faithful : table.Faithful)
    (isSymbol : table.lookup? other = some symbol) (name : Bytes) :
    (table.intern name).1.lookup? other = some symbol := by
  obtain ⟨seen, holds⟩ := faithful
  rw [holds.symbols] at isSymbol
  rw [(holds.intern name).2.symbols]
  split at isSymbol
  · rename_i isSeen
    rw [if_pos (List.mem_append_left _ isSeen), symbolAmong_append isSeen]
    exact isSymbol
  · cases isSymbol

/-- Different names have different symbols. -/
theorem eq_of_lookup? (faithful : table.Faithful) (isSymbol : table.lookup? name = some symbol)
    (isToo : table.lookup? other = some symbol) : name = other := by
  obtain ⟨seen, holds⟩ := faithful
  rw [holds.symbols] at isSymbol isToo
  split at isSymbol
  · rename_i isSeen
    split at isToo
    · exact (symbolAmong_injective isSeen).mp
        ((Option.some.inj isSymbol).trans (Option.some.inj isToo).symm)
    · cases isToo
  · cases isSymbol

theorem bytes_of_lookup? (faithful : table.Faithful) (isSymbol : table.lookup? name = some symbol) :
    table.bytes symbol = name := by
  obtain ⟨seen, holds⟩ := faithful
  rw [holds.symbols] at isSymbol
  split at isSymbol
  · rename_i isSeen
    rw [← Option.some.inj isSymbol]
    exact holds.bytes isSeen
  · cases isSymbol

end Faithful

theorem interning_bijective (history : List Call) : Bijective history where
  returns := by rw [(internEach_initial history).1, List.length_map]
  same_iff := by
    rintro ⟨name, symbol⟩ isIssued ⟨other, otherSymbol⟩ isOther
    obtain ⟨isSeen, rfl⟩ := mem_issued.mp isIssued
    obtain ⟨-, rfl⟩ := mem_issued.mp isOther
    exact symbolAmong_injective isSeen
  keepsBytes := by
    rintro ⟨name, symbol⟩ isIssued later
    obtain ⟨isSeen, rfl⟩ := mem_issued.mp isIssued
    have more : namesSeen (history ++ later) = namesSeen history ++ later.map Call.name := by
      rw [namesSeen, namesSeen, List.map_append, List.append_assoc]
    have stillSeen : name ∈ namesSeen (history ++ later) := more ▸ List.mem_append_left _ isSeen
    have stays := bytes_behind stillSeen
    rwa [more, symbolAmong_append isSeen] at stays
  lookup_iff := by
    intro name symbol
    rw [mem_issued, (internEach_initial history).2.symbols]
    split
    · rename_i isSeen
      simp [isSeen, eq_comm]
    · rename_i isNew
      simp [isNew]
  numbered := by
    intro name symbol
    rw [mem_issued, firstNames_eq]
    constructor
    · rintro ⟨isSeen, rfl⟩
      have inside := List.idxOf_lt_length_iff.mpr (List.mem_eraseDups.mpr isSeen)
      exact ⟨_, List.getElem?_eq_getElem inside ▸ congrArg some (List.getElem_idxOf inside), rfl⟩
    · rintro ⟨index, isName, rfl⟩
      obtain ⟨inside, rfl⟩ := List.getElem?_eq_some_iff.mp isName
      refine ⟨List.mem_eraseDups.mp (List.getElem_mem inside), ?_⟩
      rw [symbolAmong, (nodup_eraseDups _).idxOf_getElem index inside]
  complete := by
    rw [SymbolTable.size, ← Array.length_toList, (internEach_initial history).2.names,
      firstNames_eq]

end SymbolTable

end RiteVm
