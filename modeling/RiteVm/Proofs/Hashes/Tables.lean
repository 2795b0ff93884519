import Mathlib.Data.List.Nodup
import RiteVm.Object.OrderedHash
import RiteVm.Proofs.Hashes.Associations

/-!
Contract: one operation on a hash table does to its pairs what it does to an association list.

Owns:
- the invariant of a table under one digest: the index lists the positions of the entries, no
  two entries have one key, and the empty slots are few;
- that a found slot is the only one with its key, in whatever order the index is searched;
- storing and removing, with the dropping of empty slots in the middle of a removal.

Every operation begins with a search. What a search finds splits the slots around the entry,
and each operation is then read off the two parts.
-/

namespace RiteVm.OrderedHash

open Association

/-- The positions of the entries among slots, with their hashes, where the first slot has the
given number. -/
def positionsFrom (slot : Nat) : List (Option Entry) → List (UInt64 × Nat)
  | [] => []
  | none :: rest => positionsFrom (slot + 1) rest
  | some entry :: rest => (entry.hash, slot) :: positionsFrom (slot + 1) rest

theorem positionsFrom_append (slot : Nat) (slots more : List (Option Entry)) :
    positionsFrom slot (slots ++ more) =
      positionsFrom slot slots ++ positionsFrom (slot + slots.length) more := by
  induction slots generalizing slot with
  | nil => rfl
  | cons first rest inductionHypothesis =>
    have shift : slot + (rest.length + 1) = slot + 1 + rest.length := by omega
    cases first <;> simp [positionsFrom, inductionHypothesis, shift]

theorem mem_positionsFrom {slot place : Nat} {hash : UInt64} {slots : List (Option Entry)} :
    (hash, place) ∈ positionsFrom slot slots ↔
      ∃ (offset : Nat) (entry : Entry),
        slots[offset]? = some (some entry) ∧ entry.hash = hash ∧ place = slot + offset := by
  induction slots generalizing slot with
  | nil => simp [positionsFrom]
  | cons first rest inductionHypothesis =>
    have later : (hash, place) ∈ positionsFrom (slot + 1) rest ↔
        ∃ (offset : Nat) (entry : Entry), rest[offset]? = some (some entry) ∧ entry.hash = hash ∧
          place = slot + (offset + 1) := by
      simp only [inductionHypothesis, Nat.add_assoc, Nat.add_comm 1]
    constructor
    · intro listed
      cases first with
      | none =>
        obtain ⟨offset, entry, holds⟩ := later.mp listed
        exact ⟨offset + 1, entry, holds⟩
      | some entry =>
        rcases List.mem_cons.mp listed with isFirst | isLater
        · obtain ⟨rfl, rfl⟩ := Prod.mk.inj isFirst
          exact ⟨0, entry, rfl, rfl, rfl⟩
        · obtain ⟨offset, entry, holds⟩ := later.mp isLater
          exact ⟨offset + 1, entry, holds⟩
    · rintro ⟨offset, entry, holds, isHash, isPlace⟩
      cases offset with
      | zero =>
        obtain rfl : first = some entry := by simpa using holds
        simp [positionsFrom, isHash, isPlace]
      | succ offset =>
        have isLater := later.mpr ⟨offset, entry, holds, isHash, isPlace⟩
        cases first with
        | none => exact isLater
        | some entry => exact List.mem_cons_of_mem _ isLater

/-- Slots without empty ones have the positions of their entries. -/
theorem positionsFrom_map_some (slot : Nat) (entries : List Entry) :
    positionsFrom slot (entries.map some) = indexFrom slot entries := by
  induction entries generalizing slot with
  | nil => rfl
  | cons entry rest inductionHypothesis => simp [positionsFrom, indexFrom, inductionHypothesis]

/-- Entries are stored under the hashes of their keys, and no two have one key. -/
structure Keyed (digest : Value → KeyDigest) (entries : List Entry) : Prop where
  hashed : ∀ entry ∈ entries, entry.hash = (digest entry.key).hash
  distinct : (entries.map fun entry => digest entry.key).Nodup

theorem Keyed.sublist {digest : Value → KeyDigest} {entries fewer : List Entry}
    (keyed : Keyed digest entries) (isSublist : fewer.Sublist entries) : Keyed digest fewer where
  hashed entry listed := keyed.hashed entry (isSublist.subset listed)
  distinct := keyed.distinct.sublist (isSublist.map _)

/-- Another value may stand under a key. -/
theorem Keyed.revalue {digest : Value → KeyDigest} {front back : List Entry} {entry : Entry}
    (keyed : Keyed digest (front ++ entry :: back)) (value : Value) :
    Keyed digest (front ++ { entry with value } :: back) where
  hashed other listed := by
    rcases List.mem_append.mp listed with inFront | inBack
    · exact keyed.hashed other (List.mem_append_left _ inFront)
    · rcases List.mem_cons.mp inBack with rfl | inBack
      · exact keyed.hashed entry (by simp)
      · exact keyed.hashed other (by simp [inBack])
  distinct := by simpa using keyed.distinct

/-- A key that no entry has may come last. -/
theorem Keyed.concat {digest : Value → KeyDigest} {entries : List Entry} {key : Value}
    (keyed : Keyed digest entries) (absent : ∀ entry ∈ entries, digest entry.key ≠ digest key)
    (value : Value) : Keyed digest (entries ++ [⟨(digest key).hash, key, value⟩]) where
  hashed other listed := by
    rcases List.mem_append.mp listed with isOld | isNew
    · exact keyed.hashed other isOld
    · rw [List.mem_singleton.mp isNew]
  distinct := by
    rw [List.map_append, List.map_singleton, ← List.concat_eq_append]
    refine keyed.distinct.concat fun listed => ?_
    obtain ⟨entry, stored, same⟩ := List.mem_map.mp listed
    exact absent entry stored same

/-- A table as its operations leave it, when keys have the given digests. -/
structure Sound (digest : Value → KeyDigest) (table : OrderedHash) : Prop where
  indexed : table.index = positionsFrom 0 table.slots.toList
  keyed : Keyed digest table.entries
  bounded : table.slots.size ≤ 2 * table.size + 8

variable {digest : Value → KeyDigest} {table : OrderedHash}

theorem sound_empty : Sound digest empty where
  indexed := rfl
  keyed := ⟨by simp [entries, empty], by simp [entries, empty]⟩
  bounded := Nat.zero_le _

/-- A table is sound under any digest that tells its keys the same. -/
theorem Sound.congr {other : Value → KeyDigest} (sound : table.Sound digest)
    (agree : ∀ pair ∈ table.pairs, other pair.1 = digest pair.1) : table.Sound other := by
  have sameDigest : ∀ entry ∈ table.entries, other entry.key = digest entry.key :=
    fun entry stored => agree (entry.key, entry.value) (List.mem_map_of_mem stored)
  refine ⟨sound.indexed, ⟨fun entry stored => ?_, ?_⟩, sound.bounded⟩
  · rw [sameDigest entry stored, sound.keyed.hashed entry stored]
  · rw [List.map_congr_left sameDigest]
    exact sound.keyed.distinct

/-! ### Searching -/

/-- Where the entry of a key stands among the slots. -/
structure Located (digest : Value → KeyDigest) (table : OrderedHash) (key : KeyDigest)
    (before : List (Option Entry)) (entry : Entry) (behind : List (Option Entry)) : Prop where
  found : table.find? digest key = some before.length
  slots_eq : table.slots.toList = before ++ some entry :: behind
  hash_eq : entry.hash = key.hash
  same : digest entry.key = key
  /-- no other entry has the key -/
  others : ∀ other ∈ before.filterMap id ++ behind.filterMap id, digest other.key ≠ key

/-- Whether a stored key has the digest. -/
def hasDigest (digest : Value → KeyDigest) (key : KeyDigest) (stored : Value) : Bool :=
  digest stored = key

theorem hasDigest_false_of_pairs {key : KeyDigest} {entries : List Entry}
    (absent : ∀ entry ∈ entries, digest entry.key ≠ key) :
    ∀ pair ∈ entries.map fun entry => (entry.key, entry.value),
      hasDigest digest key pair.1 = false := by
  intro pair listed
  obtain ⟨entry, stored, rfl⟩ := List.mem_map.mp listed
  exact decide_eq_false (absent entry stored)

/-- An entry with a key is found by the index. -/
theorem Sound.find?_isSome (sound : table.Sound digest) {entry : Entry}
    (stored : entry ∈ table.entries) : (table.find? digest (digest entry.key)).isSome := by
  obtain ⟨slot, holds⟩ := mem_entries.mp stored
  have listed : ((digest entry.key).hash, slot) ∈ table.index := by
    rw [sound.indexed, mem_positionsFrom]
    exact ⟨slot, entry, by simpa using holds, sound.keyed.hashed entry stored, (Nat.zero_add _).symm⟩
  have isMatch : (table.matching? digest (digest entry.key) slot).isSome := by
    simp [matching?, holds, sound.keyed.hashed entry stored]
  rw [find?, Option.isSome_map, List.find?_isSome]
  exact ⟨_, listed, by simp [isMatch]⟩

theorem Sound.located_of_find? (sound : table.Sound digest) {key : KeyDigest} {slot : Nat}
    (found : table.find? digest key = some slot) :
    ∃ before entry behind, Located digest table key before entry behind := by
  obtain ⟨entry, holds, isHash, same⟩ := exists_of_find? digest found
  obtain ⟨before, behind, slotsEq, isLength⟩ :
      ∃ before behind, table.slots.toList = before ++ some entry :: behind ∧
        before.length = slot := by
    obtain ⟨inBounds, isEntry⟩ := List.getElem?_eq_some_iff.mp (Array.getElem?_toList ▸ holds)
    exact ⟨_, _, by rw [← isEntry, ← List.drop_eq_getElem_cons inBounds, List.take_append_drop],
      List.length_take_of_le (Nat.le_of_lt inBounds)⟩
  refine ⟨before, entry, behind, isLength.symm ▸ found, slotsEq, isHash, same,
    fun other listed isSame => ?_⟩
  have distinct := sound.keyed.distinct
  rw [entries, slotsEq, List.filterMap_append, List.map_append] at distinct
  have notElsewhere := (List.nodup_cons.mp (List.nodup_middle.mp distinct)).1
  rw [← List.map_append] at notElsewhere
  exact notElsewhere (List.mem_map.mpr ⟨other, listed, isSame.trans same.symm⟩)

/-- A search either finds where the only entry of a key stands, or there is none. -/
theorem Sound.search (sound : table.Sound digest) (key : KeyDigest) :
    (∃ before entry behind, Located digest table key before entry behind) ∨
      table.find? digest key = none ∧ ∀ entry ∈ table.entries, digest entry.key ≠ key := by
  cases found : table.find? digest key with
  | some slot => exact .inl (sound.located_of_find? found)
  | none =>
    refine .inr ⟨rfl, fun entry stored same => ?_⟩
    have isFound := sound.find?_isSome stored
    rw [same, found] at isFound
    contradiction

namespace Located

variable {key : KeyDigest} {before behind : List (Option Entry)} {entry : Entry}

theorem matching?_eq (located : Located digest table key before entry behind) :
    table.matching? digest key before.length = some entry := by
  have holds : table.slots[before.length]? = some (some entry) := by
    rw [← Array.getElem?_toList, located.slots_eq]
    simp
  simp [matching?, holds, located.hash_eq, located.same]

theorem entries_eq (located : Located digest table key before entry behind) :
    table.entries = before.filterMap id ++ entry :: behind.filterMap id := by
  rw [entries, located.slots_eq]
  simp

/-- No other place matches the key. -/
theorem place_eq (located : Located digest table key before entry behind) {place : Nat}
    {other : Entry} (holds : table.slots[place]? = some (some other))
    (same : digest other.key = key) : place = before.length := by
  have notElsewhere := located.others other
  simp only [List.mem_append, List.mem_filterMap, id_eq, exists_eq_right] at notElsewhere
  rw [← Array.getElem?_toList, located.slots_eq] at holds
  rcases Nat.lt_trichotomy place before.length with isBefore | isPlace | isBehind
  · rw [List.getElem?_append_left isBefore] at holds
    exact absurd same (notElsewhere (.inl (List.mem_of_getElem? holds)))
  · exact isPlace
  · obtain ⟨distance, rfl⟩ := Nat.exists_eq_add_of_lt isBehind
    rw [List.getElem?_append_right (by omega), Nat.add_assoc, Nat.add_sub_cancel_left,
      List.getElem?_cons_succ] at holds
    exact absurd same (notElsewhere (.inr (List.mem_of_getElem? holds)))

theorem pairs_eq (located : Located digest table key before entry behind) :
    table.pairs = (before.filterMap id).map (fun other => (other.key, other.value)) ++
      (entry.key, entry.value) :: (behind.filterMap id).map fun other => (other.key, other.value) := by
  rw [pairs, located.entries_eq, List.map_append, List.map_cons]

theorem front_absent (located : Located digest table key before entry behind) :
    ∀ pair ∈ (before.filterMap id).map fun other => (other.key, other.value),
      hasDigest digest key pair.1 = false :=
  hasDigest_false_of_pairs fun other listed =>
    located.others other (List.mem_append_left _ listed)

theorem isKey (located : Located digest table key before entry behind) :
    hasDigest digest key entry.key = true :=
  decide_eq_true located.same

end Located

/-- A search finds the only slot that matches, so it does not matter in which order the index
is searched. -/
theorem Sound.find?_eq_some_iff (sound : table.Sound digest) {key : KeyDigest} {slot : Nat} :
    table.find? digest key = some slot ↔
      ∃ entry, table.slots[slot]? = some (some entry) ∧ digest entry.key = key := by
  constructor
  · intro found
    obtain ⟨entry, holds, -, same⟩ := exists_of_find? digest found
    exact ⟨entry, holds, same⟩
  · rintro ⟨entry, holds, same⟩
    rcases sound.search key with ⟨before, found, behind, located⟩ | ⟨-, absent⟩
    · rw [located.found, located.place_eq holds same]
    · exact absurd same (absent entry (mem_entries.mpr ⟨slot, holds⟩))

/-- A search for a value finds what looking up in the pairs finds. -/
theorem Sound.get?_eq (sound : table.Sound digest) (key : Value) :
    table.get? digest key = lookup (hasDigest digest (digest key)) table.pairs := by
  rcases sound.search (digest key) with ⟨before, entry, behind, located⟩ | ⟨notFound, absent⟩
  · rw [located.pairs_eq, lookup_middle located.front_absent located.isKey]
    simp [get?, located.found, located.matching?_eq]
  · rw [pairs, lookup_of_absent (hasDigest_false_of_pairs absent)]
    simp [get?, notFound]

/-! ### Storing -/

section Storing

variable {key : Value} {before behind : List (Option Entry)} {entry : Entry}

theorem Located.slots_insert (located : Located digest table (digest key) before entry behind)
    (value : Value) : (table.insert digest key value).slots.toList =
      before ++ some { entry with value } :: behind := by
  simp only [insert, replace, located.found, Array.toList_modify, located.slots_eq]
  rw [List.modify_eq_take_cons_drop (by simp)]
  simp

theorem Located.entries_insert (located : Located digest table (digest key) before entry behind)
    (value : Value) : (table.insert digest key value).entries =
      before.filterMap id ++ { entry with value } :: behind.filterMap id := by
  rw [entries, located.slots_insert]
  simp

theorem Located.sound_insert (located : Located digest table (digest key) before entry behind)
    (sound : table.Sound digest) (value : Value) : (table.insert digest key value).Sound digest where
  indexed := by
    have sameIndex : (table.insert digest key value).index = table.index := by
      simp only [insert, replace, located.found]
    rw [sameIndex, sound.indexed, located.slots_eq, located.slots_insert]
    simp [positionsFrom_append, positionsFrom]
  keyed := by
    rw [located.entries_insert]
    exact (located.entries_eq ▸ sound.keyed).revalue value
  bounded := by
    simp only [insert, replace, located.found, Array.size_modify]
    exact sound.bounded

/-- Storing keeps a table sound. -/
theorem Sound.insert (sound : table.Sound digest) (key value : Value) :
    (table.insert digest key value).Sound digest := by
  rcases sound.search (digest key) with ⟨before, entry, behind, located⟩ | ⟨notFound, absent⟩
  · exact located.sound_insert sound value
  · refine ⟨?_, ?_, ?_⟩
    · simp [OrderedHash.insert, replace, notFound, sound.indexed, positionsFrom_append,
        positionsFrom]
    · rw [entries_insert absent]
      exact sound.keyed.concat absent value
    · have bounded := sound.bounded
      simp only [OrderedHash.insert, replace, notFound, Array.size_push]
      omega

theorem Sound.pairs_insert (sound : table.Sound digest) (key value : Value) :
    (table.insert digest key value).pairs =
      store (hasDigest digest (digest key)) key value table.pairs := by
  rcases sound.search (digest key) with ⟨before, entry, behind, located⟩ | ⟨-, absent⟩
  · rw [located.pairs_eq, store_middle located.front_absent located.isKey, pairs,
      located.entries_insert, List.map_append, List.map_cons]
  · rw [pairs, entries_insert absent, pairs, store_of_absent (hasDigest_false_of_pairs absent),
      List.map_append, List.map_singleton]

end Storing

/-! ### Removing -/

section Removing

variable {key : Value} {before behind : List (Option Entry)} {entry : Entry}

/-- Dropping the empty slots keeps the entries in order. -/
@[simp]
theorem entries_compact (table : OrderedHash) : table.compact.entries = table.entries := by
  simp [compact, entries]

@[simp]
theorem entries_tidy (table : OrderedHash) : table.tidy.entries = table.entries := by
  unfold tidy
  split
  · exact entries_compact table
  · rfl

/-- Dropping the empty slots numbers the entries anew. -/
theorem Keyed.sound_compact (keyed : Keyed digest table.entries) : table.compact.Sound digest where
  indexed := by simp [compact, positionsFrom_map_some]
  keyed := by rwa [entries_compact]
  bounded := by
    have isSize := length_entries table
    simp only [compact, List.size_toArray, List.length_map]
    omega

/-- Where the empty slots stay, they are few. -/
theorem Keyed.sound_tidy (keyed : Keyed digest table.entries)
    (indexed : table.index = positionsFrom 0 table.slots.toList) : table.tidy.Sound digest := by
  unfold tidy
  split
  · exact keyed.sound_compact
  · exact ⟨indexed, keyed, by omega⟩

/-- The position of a located entry is listed once. -/
theorem erase_positions (before behind : List (Option Entry)) (entry : Entry) :
    (positionsFrom 0 (before ++ some entry :: behind)).erase (entry.hash, before.length) =
      positionsFrom 0 (before ++ none :: behind) := by
  have notBefore : (entry.hash, before.length) ∉ positionsFrom 0 before := by
    intro listed
    obtain ⟨offset, other, holds, -, isPlace⟩ := mem_positionsFrom.mp listed
    obtain ⟨inBounds, -⟩ := List.getElem?_eq_some_iff.mp holds
    omega
  rw [positionsFrom_append, List.erase_append_right _ notBefore, positionsFrom_append]
  simp [positionsFrom]

theorem remove_of_absent (notFound : table.find? digest (digest key) = none) :
    table.remove digest key = (table, none) := by
  unfold remove
  dsimp only
  split
  · rfl
  · rename_i isFound
    rw [notFound] at isFound
    contradiction

/-- What a removal leaves before the empty slots are looked at. -/
theorem Located.remove_eq (located : Located digest table (digest key) before entry behind) :
    ∃ rest : OrderedHash, table.remove digest key = (rest.tidy, some entry.value) ∧
      rest.slots.toList = before ++ none :: behind ∧
      rest.index = table.index.erase (entry.hash, before.length) := by
  unfold remove
  dsimp only
  split
  · rename_i notFound
    rw [located.found] at notFound
    contradiction
  · rename_i slot isFound
    obtain rfl : before.length = slot := by simpa [located.found] using isFound
    rw [located.matching?_eq]
    exact ⟨_, rfl, by simp [vacate, located.slots_eq], by simp [vacate, located.hash_eq]⟩

/-- Removing keeps a table sound, whether the empty slots are dropped or not. -/
theorem Sound.remove (sound : table.Sound digest) (key : Value) :
    (table.remove digest key).1.Sound digest := by
  rcases sound.search (digest key) with ⟨before, entry, behind, located⟩ | ⟨notFound, -⟩
  · obtain ⟨rest, removeEq, slotsEq, indexEq⟩ := located.remove_eq
    have fewer : rest.entries.Sublist table.entries := by
      rw [entries, slotsEq, located.entries_eq]
      simp
    rw [removeEq]
    refine (sound.keyed.sublist fewer).sound_tidy ?_
    rw [indexEq, sound.indexed, slotsEq, located.slots_eq, erase_positions]
  · rw [remove_of_absent notFound]
    exact sound

theorem Sound.pairs_remove (sound : table.Sound digest) (key : Value) :
    (table.remove digest key).1.pairs = erase (hasDigest digest (digest key)) table.pairs := by
  rcases sound.search (digest key) with ⟨before, entry, behind, located⟩ | ⟨notFound, absent⟩
  · obtain ⟨rest, removeEq, slotsEq, -⟩ := located.remove_eq
    rw [removeEq, located.pairs_eq, erase_middle located.front_absent located.isKey, pairs,
      entries_tidy, entries, slotsEq]
    simp
  · rw [remove_of_absent notFound, pairs, erase_of_absent (hasDigest_false_of_pairs absent)]

/-- A removal returns the value that the key had. -/
theorem Sound.removed_eq (sound : table.Sound digest) (key : Value) :
    (table.remove digest key).2 = lookup (hasDigest digest (digest key)) table.pairs := by
  rw [← sound.get?_eq]
  rcases sound.search (digest key) with ⟨before, entry, behind, located⟩ | ⟨notFound, -⟩
  · obtain ⟨rest, removeEq, -, -⟩ := located.remove_eq
    simp [removeEq, get?, located.found, located.matching?_eq]
  · simp [remove_of_absent notFound, get?, notFound]

end Removing

end RiteVm.OrderedHash
