import RiteVm.Bytes
import RiteVm.Value

/-!
Contract: hash tables from values to values that keep the order of insertion.

Owns:
- the digest of a key, which tells keys apart as strings by content, other objects by
  identity and immediates by kind and value, and the hash of a digest;
- the table: slots in order of insertion, where a removed entry leaves an empty slot,
  an index from hashes to slots, and the number of entries.

An entry keeps the hash that its key had when it was stored. A key is found again only
while its content is the same. Different keys may have one hash, so a slot that the index
names is looked at before its entry is taken.
-/

namespace RiteVm

/-- What tells keys apart. -/
inductive KeyDigest where
  | nil
  | false
  | true
  | int (number : Int64)
  | float (bits : UInt64)
  | symbol (name : Symbol)
  | string (bytes : Bytes)
  | object (handle : Handle)
deriving DecidableEq, Repr

/-- The digest of a value, given the bytes of strings. -/
def KeyDigest.ofValue (stringBytes? : Handle → Option Bytes) : Value → KeyDigest
  | .nil => .nil
  | .false => .false
  | .true => .true
  | .int number => .int number
  | .float number => .float number.toBits
  | .symbol name => .symbol name
  | .object handle =>
    match stringBytes? handle with
    | some bytes => .string bytes
    | none => .object handle

/-- The bytes of a digest that are hashed: one for its kind, and its content. -/
def KeyDigest.bytes : KeyDigest → List UInt8
  | nil => [0]
  | false => [1]
  | true => [2]
  | int number => 3 :: Binary.littleEndian 8 number.toUInt64.toNat
  | float bits => 4 :: Binary.littleEndian 8 bits.toNat
  | symbol name => 5 :: Binary.littleEndian 4 name.id
  | string bytes => 6 :: bytes.toList
  | object handle => 7 :: Binary.littleEndian 8 handle.identity

def KeyDigest.hash (digest : KeyDigest) : UInt64 := Numeric.fnv1a digest.bytes

namespace OrderedHash

/-- An entry with the hash of its key at the time when it was stored. -/
structure Entry where
  hash : UInt64
  key : Value
  value : Value
deriving DecidableEq, Repr

end OrderedHash

/-- A hash table in order of insertion. -/
structure OrderedHash where
  /-- the entries in order; an empty slot is left by an entry that was removed -/
  slots : Array (Option OrderedHash.Entry) := #[]
  /-- the slot of each entry, found by its hash -/
  index : List (UInt64 × Nat) := []
  /-- number of entries -/
  size : Nat := 0
  counted : slots.countP Option.isSome = size
deriving DecidableEq, Repr

namespace OrderedHash

/-- A table without entries. -/
def empty : OrderedHash := { counted := rfl }

instance : Inhabited OrderedHash := ⟨empty⟩

variable (digest : Value → KeyDigest)

/-- The entry in a slot, if its key is the same now and had the same hash when it was
stored. -/
def matching? (table : OrderedHash) (key : KeyDigest) (slot : Nat) : Option Entry :=
  match (table.slots[slot]?).join with
  | some entry => if entry.hash = key.hash ∧ digest entry.key = key then some entry else none
  | none => none

/-- The slot of a key. -/
def find? (table : OrderedHash) (key : KeyDigest) : Option Nat :=
  let hash := key.hash
  (table.index.find? fun (stored, slot) =>
    stored = hash && (table.matching? digest key slot).isSome).map (·.2)

/-- A found slot holds an entry of the key. -/
theorem exists_of_find? {table : OrderedHash} {key : KeyDigest} {slot : Nat}
    (found : table.find? digest key = some slot) :
    ∃ entry, table.slots[slot]? = some (some entry) ∧ entry.hash = key.hash ∧
      digest entry.key = key := by
  obtain ⟨⟨stored, place⟩, isFound, rfl⟩ := Option.map_eq_some_iff.mp found
  have isMatch := List.find?_some isFound
  simp only [Bool.and_eq_true, matching?] at isMatch
  split at isMatch
  · rename_i entry isEntry
    by_cases same : entry.hash = key.hash ∧ digest entry.key = key
    · exact ⟨entry, Option.join_eq_some_iff.mp isEntry, same⟩
    · simp [same] at isMatch
  · simp at isMatch

/-- The number of entries does not change when an entry does. -/
theorem countP_modify (slots : Array (Option Entry)) (slot : Nat) (change : Entry → Entry) :
    (slots.modify slot (·.map change)).countP Option.isSome = slots.countP Option.isSome := by
  rw [← Array.countP_toList, ← Array.countP_toList, Array.toList_modify]
  induction slots.toList generalizing slot with
  | nil => simp
  | cons first rest ih => cases slot <;> simp [List.countP_cons, ih]

/-- One entry less is left when a slot becomes empty. -/
theorem countP_setIfInBounds {slots : Array (Option Entry)} {slot : Nat} {entry : Entry}
    (holds : slots[slot]? = some (some entry)) :
    (slots.setIfInBounds slot none).countP Option.isSome = slots.countP Option.isSome - 1 := by
  obtain ⟨inBounds, isEntry⟩ := Array.getElem?_eq_some_iff.mp holds
  rw [Array.setIfInBounds, dif_pos inBounds, Array.countP_set, isEntry]
  simp

/-- The value under a key. -/
def get? (table : OrderedHash) (key : Value) : Option Value := do
  let slot ← table.find? digest (digest key)
  let entry ← table.matching? digest (digest key) slot
  return entry.value

/-- Whether a key has an entry. -/
def contains (table : OrderedHash) (key : Value) : Bool := (table.get? digest key).isSome

/-- Stores a value and returns the one that it takes the place of. A key that is present
keeps its place and its key object. -/
def replace (table : OrderedHash) (key value : Value) : OrderedHash × Option Value :=
  let keyDigest := digest key
  match table.find? digest keyDigest with
  | some slot =>
    ({ table with
        slots := table.slots.modify slot (·.map ({ · with value }))
        counted := (countP_modify _ _ _).trans table.counted },
      (table.matching? digest keyDigest slot).map (·.value))
  | none =>
    ({  slots := table.slots.push (some ⟨keyDigest.hash, key, value⟩)
        index := table.index ++ [(keyDigest.hash, table.slots.size)]
        size := table.size + 1
        counted := by rw [Array.countP_push, table.counted]; rfl },
      none)

/-- Stores a value. -/
def insert (table : OrderedHash) (key value : Value) : OrderedHash :=
  (table.replace digest key value).1

/-- The index of a list of entries whose first one stands in the given slot. -/
def indexFrom (slot : Nat) : List Entry → List (UInt64 × Nat)
  | [] => []
  | entry :: rest => (entry.hash, slot) :: indexFrom (slot + 1) rest

/-- The entries in order. -/
def entries (table : OrderedHash) : List Entry := table.slots.toList.filterMap id

/-- There are as many entries as the table counts. -/
theorem length_entries (table : OrderedHash) : table.entries.length = table.size := by
  rw [entries, List.length_filterMap_eq_countP, ← table.counted, ← Array.countP_toList]
  rfl

/-- The table without empty slots. -/
def compact (table : OrderedHash) : OrderedHash :=
  { table with
    slots := (table.entries.map some).toArray
    index := indexFrom 0 table.entries
    counted := by simp [List.countP_map, Function.comp_def, length_entries] }

/-- Drops the empty slots when more than half of at least nine slots are empty. -/
def tidy (table : OrderedHash) : OrderedHash :=
  if 8 < table.slots.size ∧ table.size * 2 < table.slots.size then table.compact else table

/-- Takes the entry out of its slot and out of the index. -/
def vacate (table : OrderedHash) (hash : UInt64) (slot : Nat)
    (isEntry : ∃ entry, table.slots[slot]? = some (some entry)) : OrderedHash where
  slots := table.slots.setIfInBounds slot none
  index := table.index.erase (hash, slot)
  size := table.size - 1
  counted := by
    obtain ⟨entry, holds⟩ := isEntry
    rw [countP_setIfInBounds holds, table.counted]

/-- Removes a key and returns the value that it had. -/
def remove (table : OrderedHash) (key : Value) : OrderedHash × Option Value :=
  let keyDigest := digest key
  match isFound : table.find? digest keyDigest with
  | none => (table, none)
  | some slot =>
    have isEntry := (exists_of_find? digest isFound).imp fun _ holds => holds.1
    ((table.vacate keyDigest.hash slot isEntry).tidy,
      (table.matching? digest keyDigest slot).map (·.value))

/-- The key and value pairs in order. -/
def pairs (table : OrderedHash) : List (Value × Value) :=
  table.entries.map fun entry => (entry.key, entry.value)

/-- Whether there is no entry. -/
def isEmpty (table : OrderedHash) : Bool := table.size == 0

/-- A table filled with pairs in order. -/
def ofPairs (pairs : List (Value × Value)) : OrderedHash :=
  pairs.foldl (fun table (key, value) => table.insert digest key value) empty

section Lemmas

variable {digest : Value → KeyDigest} {table : OrderedHash} {entry : Entry}

theorem mem_entries :
    entry ∈ table.entries ↔ ∃ slot : Nat, table.slots[slot]? = some (some entry) := by
  simp [entries, List.mem_filterMap, Array.mem_iff_getElem?]

theorem isEmpty_iff : table.isEmpty = true ↔ table.pairs = [] := by
  rw [isEmpty, beq_iff_eq, ← length_entries, List.length_eq_zero_iff, pairs, List.map_eq_nil_iff]

/-- A key has no slot if nothing was stored under it. -/
theorem find?_of_absent {key : KeyDigest}
    (absent : ∀ entry ∈ table.entries, digest entry.key ≠ key) :
    table.find? digest key = none := by
  cases isFound : table.find? digest key with
  | none => rfl
  | some slot =>
    obtain ⟨entry, holds, -, same⟩ := exists_of_find? digest isFound
    exact absurd same (absent entry (mem_entries.mpr ⟨slot, holds⟩))

/-- A new key comes last. -/
theorem entries_insert {key : Value}
    (absent : ∀ entry ∈ table.entries, digest entry.key ≠ digest key) (value : Value) :
    (table.insert digest key value).entries =
      table.entries ++ [⟨(digest key).hash, key, value⟩] := by
  simp [insert, replace, find?_of_absent absent, entries]

theorem entries_foldl_insert (pairs : List (Value × Value))
    (distinct : (pairs.map (digest ·.1)).Nodup)
    (absent : ∀ entry ∈ table.entries, ∀ pair ∈ pairs, digest entry.key ≠ digest pair.1) :
    (pairs.foldl (fun table (key, value) => table.insert digest key value) table).entries =
      table.entries ++ pairs.map fun (key, value) => ⟨(digest key).hash, key, value⟩ := by
  induction pairs generalizing table with
  | nil => simp
  | cons pair rest ih =>
    obtain ⟨key, value⟩ := pair
    rw [List.map_cons, List.nodup_cons] at distinct
    have isNew := entries_insert (fun entry stored => absent entry stored _ List.mem_cons_self) value
    rw [List.foldl_cons, ih distinct.2, isNew, List.append_assoc]
    · rfl
    · intro entry stored pair isRest
      rw [isNew, List.mem_append, List.mem_singleton] at stored
      rcases stored with stored | rfl
      · exact absent entry stored pair (List.mem_cons_of_mem _ isRest)
      · intro same
        exact distinct.1 (List.mem_map.mpr ⟨pair, isRest, same.symm⟩)

/-- A table of pairs with different keys has these pairs. -/
theorem pairs_ofPairs {pairs : List (Value × Value)} (distinct : (pairs.map (digest ·.1)).Nodup) :
    (ofPairs digest pairs).pairs = pairs := by
  rw [OrderedHash.pairs, ofPairs,
    entries_foldl_insert pairs distinct (by simp [entries, empty])]
  simp [entries, empty, Function.comp_def]

end Lemmas

end OrderedHash

end RiteVm
