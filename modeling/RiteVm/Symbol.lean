import RiteVm.Text.Utf8
import Std.Data.HashMap

/-!
Contract: symbols, the interned names of the machine.

Owns:
- symbols, numbered from 1 in the order of their first interning;
- the table that keeps the bytes of each name and finds a name's symbol;
- the names that every table begins with.

Names are told apart by their bytes, so two names that differ only in malformed
UTF-8 have different symbols.
-/

namespace RiteVm

/-- An interned name. -/
structure Symbol where
  id : Nat
deriving DecidableEq, Repr, Inhabited, Hashable

/-- The names seen so far and the symbol of each. -/
structure SymbolTable where
  names : Array Bytes
  symbols : Std.HashMap Bytes Symbol

namespace SymbolTable

def empty : SymbolTable := ⟨#[], ∅⟩

/-- The symbol of a name, entered into the table if it is new. -/
def intern (table : SymbolTable) (name : Bytes) : SymbolTable × Symbol :=
  match table.symbols[name]? with
  | some symbol => (table, symbol)
  | none =>
    let symbol : Symbol := ⟨table.names.size + 1⟩
    ({ names := table.names.push name, symbols := table.symbols.insert name symbol }, symbol)

/-- The symbol of a name, if it was interned. -/
def lookup? (table : SymbolTable) (name : Bytes) : Option Symbol := table.symbols[name]?

/-- The bytes of a symbol's name; empty for a symbol of another table. -/
def bytes (table : SymbolTable) (symbol : Symbol) : Bytes :=
  table.names.getD (symbol.id - 1) #[]

/-- The text of a symbol's name. -/
def text (table : SymbolTable) (symbol : Symbol) : String := Text.lossy (table.bytes symbol)

/-- Number of names in the table. -/
def size (table : SymbolTable) : Nat := table.names.size

/-- Enters names in order. -/
def internAll (table : SymbolTable) (names : List String) : SymbolTable :=
  names.foldl (fun table name => (table.intern (Text.utf8 name)).1) table

/-- The names that every table begins with. -/
def predefinedNames : List String :=
  ["initialize", "method_missing", "call", "new", "to_s", "inspect", "message", "exception",
    "each", "==", "[]", "[]=", "+", "-", "*", "/", "<", "<=", ">", ">=", "resume", "yield"]

/-- The table that a machine begins with. -/
def initial : SymbolTable := empty.internAll predefinedNames

instance : Inhabited SymbolTable := ⟨initial⟩

end SymbolTable

namespace Symbol

def initMethod : Symbol := ⟨1⟩
def methodMissing : Symbol := ⟨2⟩
def call : Symbol := ⟨3⟩
def new : Symbol := ⟨4⟩
def toS : Symbol := ⟨5⟩
def inspect : Symbol := ⟨6⟩
def message : Symbol := ⟨7⟩
def exception : Symbol := ⟨8⟩
def each : Symbol := ⟨9⟩
def opEq : Symbol := ⟨10⟩
def opIndex : Symbol := ⟨11⟩
def opIndexSet : Symbol := ⟨12⟩
def opAdd : Symbol := ⟨13⟩
def opSub : Symbol := ⟨14⟩
def opMul : Symbol := ⟨15⟩
def opDiv : Symbol := ⟨16⟩
def opLt : Symbol := ⟨17⟩
def opLe : Symbol := ⟨18⟩
def opGt : Symbol := ⟨19⟩
def opGe : Symbol := ⟨20⟩
def resume : Symbol := ⟨21⟩
def yield : Symbol := ⟨22⟩

end Symbol

end RiteVm
