import RiteVm.Proofs.Arguments.Reception
import RiteVm.Proofs.Hashes.Tables

/-!
Contract: the keyword dictionary of a frame is a copy of the hash that was passed.

Owns:
- the entries of a hash, which are its pairs with keys told apart by their digests;
- machines that differ from an earlier one in one object and in new ones;
- the copy of a hash, whose pairs are stored one after the other under copies of keys that
  could be changed.

Does not own: when a frame gets a dictionary, and what is taken out of it.
-/

namespace RiteVm

/-! ### Entries -/

/-- The values of keys in order. -/
abbrev Entries := List (KeyDigest × Value)

namespace Entries

/-- Overwrites in place or appends. -/
def store (key : KeyDigest) (value : Value) : Entries → Entries
  | [] => [(key, value)]
  | (stored, old) :: rest =>
    if stored = key then (stored, value) :: rest else (stored, old) :: store key value rest

/-- Stores entries one after the other. -/
def storeAll (entries : Entries) (more : Entries) : Entries :=
  more.foldl (fun entries entry => entries.store entry.1 entry.2) entries

variable {entries more : Entries} {key : KeyDigest} {value : Value}

theorem store_of_absent (absent : ∀ entry ∈ entries, entry.1 ≠ key) :
    store key value entries = entries ++ [(key, value)] := by
  induction entries with
  | nil => rfl
  | cons entry rest inductionHypothesis =>
      rw [store, if_neg (absent entry List.mem_cons_self),
        inductionHypothesis fun other member => absent other (List.mem_cons_of_mem _ member)]
      rfl

/-- Entries with different keys are appended in order. -/
theorem storeAll_of_distinct (distinct : ((entries ++ more).map Prod.fst).Nodup) :
    entries.storeAll more = entries ++ more := by
  induction more generalizing entries with
  | nil => rw [List.append_nil]; rfl
  | cons entry rest inductionHypothesis =>
      obtain ⟨key, value⟩ := entry
      have isNew : ∀ other ∈ entries, other.1 ≠ key := by
        rw [List.map_append, List.map_cons] at distinct
        intro other member same
        exact (List.nodup_append.mp distinct).2.2 other.1 (List.mem_map_of_mem member) key
          List.mem_cons_self same
      rw [List.append_cons] at distinct
      have isFirst : entries.storeAll ((key, value) :: rest) =
          (entries ++ [(key, value)]).storeAll rest := by
        rw [storeAll, List.foldl_cons, store_of_absent isNew]
        rfl
      rw [isFirst, inductionHypothesis distinct, List.append_assoc]
      rfl

end Entries

/-- The digests of keys in a machine. -/
def Machine.entries (machine : Machine) (pairs : List (Value × Value)) : Entries :=
  pairs.map fun pair => (machine.digest pair.1, pair.2)

/-- Storing under a key is storing under its digest, whatever key object is kept. -/
theorem Machine.entries_store (machine : Machine) {pairs : Association.Pairs} (key value : Value) :
    machine.entries (Association.store (OrderedHash.hasDigest machine.digest (machine.digest key))
      key value pairs) = (machine.entries pairs).store (machine.digest key) value := by
  induction pairs with
  | nil => rfl
  | cons pair rest inductionHypothesis =>
      obtain ⟨stored, old⟩ := pair
      simp only [Association.store, Machine.entries, List.map_cons, Entries.store,
        OrderedHash.hasDigest, decide_eq_true_eq] at inductionHypothesis ⊢
      split
      · rfl
      · rw [List.map_cons, inductionHypothesis]

/-! ### One object that changes -/

/-- A value that is no handle of an object that is gone. -/
def Heap.Resolves (heap : Heap) (value : Value) : Prop :=
  ∀ handle, value = .object handle → ∃ object, heap.get? handle = some object

/-- Only the heap has changed, at most in one object, which is as much a string as it was, and in
objects that came. -/
structure Machine.Alters (changed : Option Handle) (machine next : Machine) : Prop where
  rest : next = { machine with heap := next.heap }
  retains : machine.heap.Retains next.heap
  others : ∀ handle object, some handle ≠ changed → machine.heap.get? handle = some object →
    next.heap.get? handle = some object
  texts : ∀ handle object, machine.heap.get? handle = some object →
    (next.heap.get? handle).map Object.string? = some object.string?
  passed : ∀ handle, machine.heap.Passed handle → next.heap.Passed handle

namespace Machine.Alters

variable {machine next last : Machine} {changed : Option Handle} {value : Value}

theorem refl (changed : Option Handle) (machine : Machine) : machine.Alters changed machine :=
  ⟨rfl, .refl _, fun _ _ _ found => found, fun _ _ found => by rw [found]; rfl, fun _ => id⟩

theorem trans (first : machine.Alters changed next) (second : next.Alters changed last) :
    machine.Alters changed last where
  rest := by rw [second.rest, first.rest]
  retains := first.retains.trans second.retains
  others handle object isOther found :=
    second.others handle object isOther (first.others handle object isOther found)
  texts handle object found := by
    obtain ⟨object', found', sameText⟩ := Option.map_eq_some_iff.mp (first.texts handle object found)
    rw [second.texts handle object' found', sameText]
  passed handle passed := second.passed handle (first.passed handle passed)

/-- Nothing but new objects is no more than that and one change. -/
theorem weaken (alters : machine.Alters none next) (changed : Option Handle) :
    machine.Alters changed next :=
  { alters with others := fun handle object _ => alters.others handle object nofun }

/-- A change of an object that came is none of the objects that were there. -/
theorem trans_new {handle : Handle} (first : machine.Alters none next)
    (second : next.Alters (some handle) last) (isNew : machine.heap.get? handle = none) :
    machine.Alters none last where
  rest := by rw [second.rest, first.rest]
  retains := first.retains.trans second.retains
  others other object _ found := by
    refine second.others other object ?_ (first.others other object nofun found)
    rintro ⟨⟩
    exact nomatch isNew.symm.trans found
  texts := ((first.weaken (some handle)).trans second).texts
  passed := ((first.weaken (some handle)).trans second).passed

/-- A new object that is no fiber. -/
theorem allocate (wellFormed : machine.heap.WellFormed) {object : Object}
    (noFiber : object.fiber? = none) : machine.Alters none (machine.allocate object) where
  rest := rfl
  retains := .allocate object fun record isFiber => by
    rw [Object.fiber?, isFiber] at noFiber
    cases noFiber
  others handle found _ isFound := wellFormed.extends_allocate object handle found isFound
  texts handle found isFound := by
    rw [show (machine.allocate object).heap.get? handle = some found from
      wellFormed.extends_allocate object handle found isFound]
    rfl
  passed _ passed := passed.allocate object

/-- Bytes that an object acquired are only counted. -/
theorem grow (changed : Option Handle) (machine : Machine) (bytes : Nat) :
    machine.Alters changed { machine with heap := machine.heap.grow bytes } :=
  ⟨rfl, .of_cells rfl rfl, fun _ _ _ found => found, fun _ _ found => congrArg (Option.map _) found,
    fun _ => id⟩

/-- A change of the one object, or of an object that came, that leaves its kind as it is. -/
theorem rewrite (alters : machine.Alters changed next) {handle : Handle} {object : Object}
    (isOpen : some handle = changed ∨ machine.heap.get? handle = none)
    (found : next.heap.get? handle = some object) (change : Object → Object)
    (exits : ∀ record, object.content = .exit record → (change object).content = .exit record)
    (exceptions : object.exception?.isSome → (change object).exception?.isSome)
    (noFiber : ∀ record, (change object).content ≠ .fiber record)
    (text : (change object).string? = object.string?) :
    machine.Alters changed (next.rewrite handle change) where
  rest := by
    rw [Machine.rewrite, alters.rest]
  retains := by
    refine alters.retains.trans (.modify handle change ?_ ?_ ?_)
    · intro other record isFound
      obtain rfl := Option.some.inj (found.symm.trans isFound)
      exact exits record
    · intro other isFound
      obtain rfl := Option.some.inj (found.symm.trans isFound)
      exact exceptions
    · intro other record isFound isFiber
      obtain rfl := Option.some.inj (found.symm.trans isFound)
      exact absurd isFiber (noFiber record)
  others other old isOther isFound := by
    have notChanged : other ≠ handle := by
      rintro rfl
      rcases isOpen with rfl | isNew
      · exact isOther rfl
      · exact nomatch isFound.symm.trans isNew
    rw [Machine.get?_rewrite, if_neg notChanged]
    exact alters.others other old isOther isFound
  texts other old isFound := by
    have sameText := alters.texts other old isFound
    rw [Machine.get?_rewrite]
    split
    · rename_i isHandle
      rw [isHandle, found] at sameText
      rw [found, Option.map_some, Option.map_some, text]
      exact sameText
    · exact sameText
  passed other passed := (alters.passed other passed).modify handle change

theorem resolves (alters : machine.Alters changed next) (resolves : machine.heap.Resolves value) :
    next.heap.Resolves value := by
  intro handle isValue
  obtain ⟨object, found⟩ := resolves handle isValue
  obtain ⟨object', found', -⟩ := Option.map_eq_some_iff.mp (alters.texts handle object found)
  exact ⟨object', found'⟩

/-- Keys keep their digests. -/
theorem digest_eq (alters : machine.Alters changed next) (resolves : machine.heap.Resolves value) :
    next.digest value = machine.digest value := by
  cases value with
  | object handle =>
      obtain ⟨object, found⟩ := resolves handle rfl
      obtain ⟨object', found', sameText⟩ := Option.map_eq_some_iff.mp (alters.texts handle object found)
      simp only [Machine.digest, KeyDigest.ofValue, found, found', Option.bind_some, sameText]
  | _ => rfl

/-- The stacks stay as they are. -/
theorem context?_eq (alters : machine.Alters changed next) (id : ContextId) :
    next.context? id = machine.context? id := by
  rw [alters.rest]
  rfl

theorem runsOn {context : Context} (alters : machine.Alters changed next)
    (runs : machine.RunsOn context) : next.RunsOn context := by
  have sameCurrent : next.current = machine.current := by rw [alters.rest]
  have moves : machine.MovesTo next context :=
    ⟨sameCurrent, alters.retains, (alters.context?_eq _).trans runs.running⟩
  exact runs.movesTo moves rfl fun frame member handle holds => ⟨frame, member, holds⟩

theorem entries_eq (alters : machine.Alters changed next) {pairs : List (Value × Value)}
    (resolve : ∀ pair ∈ pairs, machine.heap.Resolves pair.1) :
    next.entries pairs = machine.entries pairs := by
  refine List.map_congr_left fun pair member => ?_
  rw [alters.digest_eq (resolve pair member)]

end Machine.Alters

/-! ### Copying -/

theorem Heap.StandsFor.mono {before after : Heap} {keywords? : Option Value}
    {keywords : List (Value × Value)} (standsFor : before.StandsFor keywords? keywords)
    (keeps : before.KeepsObjects after) : after.StandsFor keywords? keywords := by
  cases keywords? with
  | none => exact standsFor
  | some source => exact HoldsHash.mono standsFor keeps

/-- An object is a hash that can be changed, with the given entries under keys that are there. -/
def Machine.HoldsEntries (machine : Machine) (handle : Handle) (entries : Entries) : Prop :=
  ∃ object table, machine.heap.get? handle = some object ∧ object.content = .hash table ∧
    object.frozen = false ∧ table.Sound machine.digest ∧
    (∀ pair ∈ table.pairs, machine.heap.Resolves pair.1) ∧ machine.entries table.pairs = entries

theorem Machine.HoldsEntries.of_heap {machine next : Machine} {handle : Handle} {entries : Entries}
    (holds : machine.HoldsEntries handle entries) (same : next.heap = machine.heap) :
    next.HoldsEntries handle entries := by
  obtain ⟨object, table, found, isHash, notFrozen, sound, live, rfl⟩ := holds
  have sameDigest := Machine.digest_of_heap same
  refine ⟨object, table, same ▸ found, isHash, notFrozen, sameDigest ▸ sound, same ▸ live, ?_⟩
  simp only [Machine.entries, sameDigest]

namespace Query

variable {machine : Machine} {handle : Handle} {object : Object}

theorem isFrozen_of_found (found : machine.heap.get? handle = some object) :
    isFrozen (.object handle) machine = .ok object.frozen := by
  have isObject : Query.object handle machine = .ok object := object_eq_ok_iff.mpr found
  change (Query.object handle machine >>= fun object => Except.ok (some object)) >>= _ = _
  rw [isObject]
  rfl

end Query

namespace VM

variable {machine : Machine} {handle : Handle} {object : Object} {entries : Entries}
  {key value : Value}

theorem freeze_of_found (found : machine.heap.get? handle = some object) :
    freeze (.object handle) machine = .ok () (machine.rewrite handle ({ · with frozen := true })) :=
  bind_of_ok (liftM_of_ok (Query.object_of_found found))

/-- A frozen string is a new object with the given bytes. -/
theorem newString_freeze (wellFormed : machine.heap.WellFormed) (bytes : Bytes) :
    ∃ copy object next, (do
        let copy ← newString bytes
        freeze copy
        return copy) machine = .ok (.object copy) next ∧
      machine.Alters none next ∧ next.heap.get? copy = some object ∧
      object.string? = some bytes := by
  let text : Object := { classHandle := machine.coreClass .string, content := .string bytes }
  let copy := (machine.heap.allocate text).2
  have found : (machine.allocate text).heap.get? copy = some text :=
    (wellFormed.get?_allocate text _).trans (if_pos rfl)
  have created : newString bytes machine = .ok (.object copy) (machine.allocate text) := rfl
  refine ⟨copy, { text with frozen := true }, (machine.allocate text).rewrite copy
    ({ · with frozen := true }), (bind_of_ok created).trans (bind_of_ok (freeze_of_found found)), ?_,
    ?_, rfl⟩
  · exact (Machine.Alters.allocate wellFormed rfl).rewrite
      (.inr (wellFormed.get?_allocate_snd text)) found _ (fun _ => id) id (fun _ => nofun) rfl
  · rw [Machine.get?_rewrite, if_pos rfl, found]
    rfl

/-- The key that is stored is there and has the digest of the key that is given. -/
theorem storedKey_of_resolves (wellFormed : machine.heap.WellFormed)
    (resolves : machine.heap.Resolves key) :
    ∃ stored next, storedKey key machine = .ok stored next ∧ machine.Alters none next ∧
      next.heap.Resolves stored ∧ next.digest stored = machine.digest key := by
  have asItIs (keeps : storedKey key machine = .ok key machine) :
      ∃ stored next, storedKey key machine = .ok stored next ∧ machine.Alters none next ∧
        next.heap.Resolves stored ∧ next.digest stored = machine.digest key :=
    ⟨key, machine, keeps, .refl none machine, resolves, rfl⟩
  cases key with
  | object handle =>
      obtain ⟨object, found⟩ := resolves handle rfl
      have isText := liftM_of_ok (Query.part?_of_found found Object.string?)
      have isFrozen := liftM_of_ok (Query.isFrozen_of_found found)
      cases text : object.string? with
      | none =>
          refine asItIs ?_
          rw [storedKey, Query.string?, bind_of_ok isText, bind_of_ok isFrozen, text]
          rfl
      | some bytes =>
          cases frozen : object.frozen with
          | true =>
              refine asItIs ?_
              rw [storedKey, Query.string?, bind_of_ok isText, bind_of_ok isFrozen, text, frozen]
              rfl
          | false =>
              obtain ⟨copy, object', next, copied, alters, found', isCopy⟩ :=
                newString_freeze wellFormed bytes
              refine ⟨.object copy, next, ?_, alters, ?_, ?_⟩
              · rw [storedKey, Query.string?, bind_of_ok isText, bind_of_ok isFrozen, text, frozen]
                exact copied
              · rintro other ⟨⟩
                exact ⟨object', found'⟩
              · simp only [Machine.digest, KeyDigest.ofValue, found', found, Option.bind_some, isCopy,
                  text]
  | _ => exact asItIs rfl

theorem checkFrozen_of_found (found : machine.heap.get? handle = some object)
    (notFrozen : object.frozen = false) :
    checkFrozen (.object handle) machine = .ok () machine := by
  have isFrozen := Query.isFrozen_of_found found
  rw [notFrozen] at isFrozen
  exact bind_of_ok (liftM_of_ok isFrozen)

theorem expectHash_of_found {table : OrderedHash} (found : machine.heap.get? handle = some object)
    (isHash : object.content = .hash table) :
    expectHash (.object handle) machine = .ok handle machine := by
  have isSome : object.hash?.isSome = true := by
    rw [Object.hash?, isHash]
    rfl
  rw [expectHash, bind_of_ok (liftM_of_ok (Query.object_of_found found)), if_pos isSome]
  rfl

/-- A changed table takes the place of the one that a hash had. -/
theorem withHash_of_found {α : Type} {table : OrderedHash}
    (found : machine.heap.get? handle = some object) (isHash : object.content = .hash table)
    (change : OrderedHash → OrderedHash × α) :
    ∃ next, withHash handle change machine = .ok (change table).2 next ∧
      machine.Alters (some handle) next ∧
      next.heap.get? handle = some { object with content := .hash (change table).1 } := by
  have isTable : object.hash? = some table := by
    rw [Object.hash?, isHash]
  have alters := (Machine.Alters.refl (some handle) machine).rewrite (.inl rfl) found
    (fun object => { object with content := .hash (change table).1 })
    (fun record isExit => nomatch isHash.symm.trans isExit)
    (fun isException => by rw [Object.exception?, isHash] at isException; cases isException)
    (fun record => nofun)
    (by rw [Object.string?, Object.string?, isHash])
  refine ⟨_, ?_, alters.trans (.grow _ _ (((change table).1.slots.size - table.slots.size) * 48)), ?_⟩
  · rw [withHash, bind_of_ok (liftM_of_ok (Query.object_of_found found)), isTable]
    rfl
  · have isChanged : (machine.rewrite handle fun object =>
        { object with content := .hash (change table).1 }).heap.get? handle = _ :=
      Machine.get?_rewrite handle _
    rwa [if_pos rfl, found] at isChanged

/-- Storing in a hash stores among its entries. -/
theorem hashSet_of_holdsEntries (wellFormed : machine.heap.WellFormed)
    (holds : machine.HoldsEntries handle entries) (resolves : machine.heap.Resolves key)
    (value : Value) :
    ∃ next, hashSet (.object handle) key value machine = .ok () next ∧
      machine.Alters (some handle) next ∧
      next.HoldsEntries handle (entries.store (machine.digest key) value) := by
  obtain ⟨object, table, found, isHash, notFrozen, sound, live, rfl⟩ := holds
  obtain ⟨stored, copied, storesKey, altersNone, storedResolves, sameDigest⟩ :=
    storedKey_of_resolves wellFormed resolves
  have foundThen := altersNone.others handle object nofun found
  obtain ⟨next, changes, alters, isChanged⟩ :=
    withHash_of_found foundThen isHash fun table => (table.insert copied.digest stored value, ())
  have altersBoth := (altersNone.weaken (some handle)).trans alters
  have agree : ∀ pair ∈ table.pairs, copied.digest pair.1 = machine.digest pair.1 :=
    fun pair member => altersNone.digest_eq (live pair member)
  have soundThen : table.Sound copied.digest := sound.congr agree
  have liveThen : ∀ pair ∈ (table.insert copied.digest stored value).pairs,
      copied.heap.Resolves pair.1 := by
    intro pair member
    rw [soundThen.pairs_insert] at member
    rcases Association.key_of_mem_store member with isStored | ⟨old, isOld, sameKey⟩
    · rw [isStored]
      exact storedResolves
    · rw [← sameKey]
      exact altersNone.resolves (live old isOld)
  refine ⟨next, ?_, altersBoth, ⟨_, _, isChanged, rfl, notFrozen, ?_, ?_, ?_⟩⟩
  · rw [hashSet, bind_of_ok (checkFrozen_of_found found notFrozen),
      bind_of_ok (expectHash_of_found found isHash), bind_of_ok storesKey]
    exact changes
  · exact (soundThen.insert stored value).congr fun pair member => alters.digest_eq (liveThen pair member)
  · exact fun pair member => alters.resolves (liveThen pair member)
  · rw [alters.entries_eq liveThen, soundThen.pairs_insert, Machine.entries_store,
      altersNone.entries_eq live, sameDigest]

/-- Storing pairs in a hash stores them among its entries in order. -/
theorem forIn_hashSet (wellFormed : machine.heap.WellFormed) (pairs : List (Value × Value))
    (holds : machine.HoldsEntries handle entries)
    (resolve : ∀ pair ∈ pairs, machine.heap.Resolves pair.1) :
    ∃ next, (forIn pairs PUnit.unit fun (pair : Value × Value) _ => do
        hashSet (.object handle) pair.1 pair.2
        return ForInStep.yield PUnit.unit) machine = .ok PUnit.unit next ∧
      machine.Alters (some handle) next ∧
      next.HoldsEntries handle (entries.storeAll (machine.entries pairs)) := by
  induction pairs generalizing machine entries with
  | nil => exact ⟨machine, rfl, .refl _ _, holds⟩
  | cons pair rest inductionHypothesis =>
      obtain ⟨next, stores, alters, holdsThen⟩ :=
        hashSet_of_holdsEntries wellFormed holds (resolve pair List.mem_cons_self) pair.2
      have live : ∀ other ∈ rest, machine.heap.Resolves other.1 := fun other member =>
        resolve other (List.mem_cons_of_mem _ member)
      obtain ⟨last, storesRest, altersRest, holdsLast⟩ := inductionHypothesis
        (alters.retains.wellFormed wellFormed) holdsThen fun other member =>
          alters.resolves (live other member)
      have stored : (do
          hashSet (.object handle) pair.1 pair.2
          return ForInStep.yield PUnit.unit : VM (ForInStep PUnit)) machine =
            .ok (.yield PUnit.unit) next := bind_of_ok stores
      refine ⟨last, ?_, alters.trans altersRest, ?_⟩
      · rw [List.forIn_cons, bind_of_ok stored]
        exact storesRest
      · rwa [alters.entries_eq live] at holdsLast

/-- Merging a hash stores its pairs. -/
theorem hashMerge_of_holdsHash {into source : Value} {pairs : List (Value × Value)} {next : Machine}
    (holdsHash : machine.heap.HoldsHash source pairs)
    (stores : (forIn pairs PUnit.unit fun (pair : Value × Value) _ => do
        hashSet into pair.1 pair.2
        return ForInStep.yield PUnit.unit) machine = .ok PUnit.unit next) :
    hashMerge into source machine = .ok () next := by
  have isPairs := liftM_of_ok (Query.hashPairs?_of_holds holdsHash)
  obtain ⟨handle, object, table, rfl, found, isTable, rfl⟩ := holdsHash
  have expected : expectHash (.object handle) machine = .ok handle machine := by
    rw [expectHash, bind_of_ok (liftM_of_ok (Query.object_of_found found)), isTable]
    rfl
  rw [hashMerge, bind_of_ok expected, bind_of_ok isPairs]
  exact bind_of_ok stores

/-- The dictionary of a frame is a new hash with the keywords that were passed. -/
theorem newDictionary_of_standsFor (wellFormed : machine.heap.WellFormed)
    {keywords? : Option Value} {keywords : List (Value × Value)}
    (standsFor : machine.heap.StandsFor keywords? keywords)
    (resolve : ∀ pair ∈ keywords, machine.heap.Resolves pair.1) :
    ∃ dictionary next, newDictionary keywords? machine = .ok (.object dictionary) next ∧
      machine.Alters none next ∧ machine.heap.get? dictionary = none ∧
      next.HoldsEntries dictionary (Entries.storeAll [] (machine.entries keywords)) := by
  let object : Object := { classHandle := machine.coreClass .hash, content := .hash .empty }
  let dictionary := (machine.heap.allocate object).2
  have created : newHash machine = .ok (.object dictionary) (machine.allocate object) := rfl
  have isNew : machine.heap.get? dictionary = none := wellFormed.get?_allocate_snd object
  have allocated : machine.Alters none (machine.allocate object) := .allocate wellFormed rfl
  have holds : (machine.allocate object).HoldsEntries dictionary [] :=
    ⟨object, .empty, (wellFormed.get?_allocate object _).trans (if_pos rfl), rfl, rfl,
      OrderedHash.sound_empty, fun _ => nofun, rfl⟩
  refine ⟨dictionary, ?_⟩
  cases keywords? with
  | none =>
      rw [show keywords = [] from standsFor]
      exact ⟨_, bind_of_ok created, allocated, isNew, holds⟩
  | some source =>
      have standsThen : (machine.allocate object).heap.HoldsHash source keywords :=
        standsFor.mono (wellFormed.extends_allocate object).keepsObjects
      obtain ⟨next, merges, alters, holdsThen⟩ := forIn_hashSet
        (allocated.retains.wellFormed wellFormed) keywords holds fun pair member => allocated.resolves (resolve pair member)
      refine ⟨next, ?_, allocated.trans_new alters isNew, isNew, ?_⟩
      · have merged := hashMerge_of_holdsHash standsThen merges
        exact (bind_of_ok created).trans (bind_of_ok merged)
      · rwa [allocated.entries_eq resolve] at holdsThen

end VM

end RiteVm
