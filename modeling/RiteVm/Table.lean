/-!
Contract: tables that keep their keys in the order of first insertion.

Owns:
- the table of key and value pairs;
- looking up, storing and removing an entry.

`get?_insert` and `get?_erase` describe a table by its look-ups.
-/

namespace RiteVm

/-- A table with its entries in the order in which their keys were first stored. -/
structure Table (κ α : Type) where
  entries : List (κ × α) := []
deriving Repr, Inhabited

namespace Table

variable {κ α : Type} [DecidableEq κ]

/-- The value of the first entry with a key. -/
def lookup (key : κ) : List (κ × α) → Option α
  | [] => none
  | (stored, value) :: rest => if stored = key then some value else lookup key rest

/-- The entries with a value in place of the one under the same key, or behind all. -/
def store (key : κ) (value : α) : List (κ × α) → List (κ × α)
  | [] => [(key, value)]
  | (stored, old) :: rest =>
    if stored = key then (stored, value) :: rest else (stored, old) :: store key value rest

/-- The entries without those of a key. -/
def discard (key : κ) : List (κ × α) → List (κ × α)
  | [] => []
  | (stored, value) :: rest =>
    if stored = key then discard key rest else (stored, value) :: discard key rest

/-- The value stored under a key. -/
def get? (table : Table κ α) (key : κ) : Option α := lookup key table.entries

/-- Stores a value. A key that is present keeps its place. -/
def insert (table : Table κ α) (key : κ) (value : α) : Table κ α :=
  ⟨store key value table.entries⟩

/-- Removes the entry of a key. -/
def erase (table : Table κ α) (key : κ) : Table κ α := ⟨discard key table.entries⟩

/-- Whether a key has an entry. -/
def contains (table : Table κ α) (key : κ) : Bool := (table.get? key).isSome

/-- Number of entries. -/
def size (table : Table κ α) : Nat := table.entries.length

/-- The stored values in order. -/
def values (table : Table κ α) : List α := table.entries.map (·.2)

theorem mem_entries_of_get? {table : Table κ α} {key : κ} {value : α}
    (found : table.get? key = some value) : (key, value) ∈ table.entries := by
  obtain ⟨entries⟩ := table
  simp only [get?] at found
  induction entries with
  | nil => exact nomatch found
  | cons entry rest inductionHypothesis =>
      obtain ⟨stored, other⟩ := entry
      rw [lookup] at found
      split at found
      · rename_i isKey
        obtain rfl := Option.some.inj found
        rw [isKey]
        exact List.mem_cons_self
      · exact List.mem_cons_of_mem _ (inductionHypothesis found)

theorem get?_insert (table : Table κ α) (key other : κ) (value : α) :
    (table.insert key value).get? other =
      if key = other then some value else table.get? other := by
  obtain ⟨entries⟩ := table
  simp only [get?, insert]
  induction entries with
  | nil => rfl
  | cons entry rest inductionHypothesis =>
      obtain ⟨stored, old⟩ := entry
      by_cases replaced : stored = key
      · subst replaced
        by_cases found : stored = other <;> simp [store, lookup, found]
      · by_cases found : stored = other
        · subst found
          simp [store, lookup, replaced, Ne.symm replaced]
        · simp [store, lookup, replaced, found, inductionHypothesis]

theorem get?_erase (table : Table κ α) (key other : κ) :
    (table.erase key).get? other = if key = other then none else table.get? other := by
  obtain ⟨entries⟩ := table
  simp only [get?, erase]
  induction entries with
  | nil => simp [discard, lookup]
  | cons entry rest inductionHypothesis =>
      obtain ⟨stored, old⟩ := entry
      by_cases removed : stored = key
      · subst removed
        by_cases found : stored = other <;>
          simp_all [discard, lookup]
      · by_cases found : stored = other
        · subst found
          simp [discard, lookup, removed, Ne.symm removed]
        · simp [discard, lookup, removed, found, inductionHypothesis]

/-- A table without an entry for a key stays as it is. -/
theorem erase_of_get?_eq_none {table : Table κ α} {key : κ} (missing : table.get? key = none) :
    table.erase key = table := by
  obtain ⟨entries⟩ := table
  simp only [get?] at missing
  simp only [erase, mk.injEq]
  induction entries with
  | nil => rfl
  | cons entry rest inductionHypothesis =>
      obtain ⟨stored, value⟩ := entry
      rw [lookup] at missing
      split at missing
      · cases missing
      · rename_i isOther
        rw [discard, if_neg isOther, inductionHypothesis missing]

end Table

end RiteVm
