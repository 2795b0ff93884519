import RiteVm.Proofs.Fibers.HandingOver

/-!
Contract: a call site of the running stack holds the arguments of a call.

Owns:
- arrays and hashes in the heap, and what reading them gives;
- machines that differ from an earlier one only in new objects, and in slots of the running
  stack from some index on;
- call sites that hold arguments, and what is read there.
-/

namespace RiteVm

/-! ### Objects -/

namespace Heap

/-- Objects that are no classes are as they were. -/
def KeepsObjects (before after : Heap) : Prop :=
  ∀ handle object, before.get? handle = some object → object.class? = none →
    after.get? handle = some object

/-- Every object is as it was. -/
def Extends (before after : Heap) : Prop :=
  ∀ handle object, before.get? handle = some object → after.get? handle = some object

/-- A value is an array of items. -/
def HoldsArray (heap : Heap) (value : Value) (items : List Value) : Prop :=
  ∃ handle object, value = .object handle ∧ heap.get? handle = some object ∧
    object.array? = some items.toArray

/-- A value is a hash with pairs in order. -/
def HoldsHash (heap : Heap) (value : Value) (pairs : List (Value × Value)) : Prop :=
  ∃ handle object table, value = .object handle ∧ heap.get? handle = some object ∧
    object.hash? = some table ∧ table.pairs = pairs

/-- A value is a proc. -/
def HoldsProc (heap : Heap) (value : Value) : Prop :=
  ∃ handle object, value = .object handle ∧ heap.get? handle = some object ∧
    object.proc?.isSome = true

variable {before heap after : Heap} {value : Value} {items : List Value}
  {pairs : List (Value × Value)}

theorem KeepsObjects.refl (heap : Heap) : heap.KeepsObjects heap := fun _ _ found _ => found

theorem KeepsObjects.trans (first : before.KeepsObjects heap) (second : heap.KeepsObjects after) :
    before.KeepsObjects after :=
  fun handle object found plain => second handle object (first handle object found plain) plain

theorem Extends.refl (heap : Heap) : heap.Extends heap := fun _ _ found => found

theorem Extends.trans (first : before.Extends heap) (second : heap.Extends after) :
    before.Extends after :=
  fun handle object found => second handle object (first handle object found)

theorem Extends.keepsObjects (more : before.Extends after) : before.KeepsObjects after :=
  fun handle object found _ => more handle object found

theorem WellFormed.extends_allocate (wellFormed : heap.WellFormed) (object : Object) :
    heap.Extends (heap.allocate object).1 := by
  intro handle other found
  rw [wellFormed.get?_allocate, if_neg, found]
  rintro rfl
  rw [wellFormed.get?_allocate_snd] at found
  exact nomatch found

theorem HoldsArray.mono (holds : before.HoldsArray value items) (keeps : before.KeepsObjects after) :
    after.HoldsArray value items := by
  obtain ⟨handle, object, isValue, found, isArray⟩ := holds
  have plain : object.class? = none := by
    rw [Object.array?] at isArray
    rw [Object.class?]
    split at isArray <;> simp_all
  exact ⟨handle, object, isValue, keeps handle object found plain, isArray⟩

theorem HoldsHash.mono (holds : before.HoldsHash value pairs) (keeps : before.KeepsObjects after) :
    after.HoldsHash value pairs := by
  obtain ⟨handle, object, table, isValue, found, isHash, isPairs⟩ := holds
  have plain : object.class? = none := by
    rw [Object.hash?] at isHash
    rw [Object.class?]
    split at isHash <;> simp_all
  exact ⟨handle, object, table, isValue, keeps handle object found plain, isHash, isPairs⟩

theorem HoldsProc.mono (holds : before.HoldsProc value) (keeps : before.KeepsObjects after) :
    after.HoldsProc value := by
  obtain ⟨handle, object, isValue, found, isProc⟩ := holds
  have plain : object.class? = none := by
    rw [Object.proc?] at isProc
    rw [Object.class?]
    split at isProc <;> simp_all
  exact ⟨handle, object, isValue, keeps handle object found plain, isProc⟩

end Heap

namespace Query

variable {α : Type} {machine : Machine} {value : Value} {handle : Handle} {object : Object}

theorem part?_of_found (found : machine.heap.get? handle = some object)
    (select : Object → Option α) :
    part? select (.object handle) machine = .ok (select object) := by
  have isObject : Query.object handle machine = .ok object := object_eq_ok_iff.mpr found
  change (Query.object handle machine >>= fun object => Except.ok (some object)) >>= _ = _
  rw [isObject]
  rfl

theorem array?_of_holds {items : List Value} (holds : machine.heap.HoldsArray value items) :
    array? value machine = .ok (some items.toArray) := by
  obtain ⟨handle, object, rfl, found, isArray⟩ := holds
  rw [array?, part?_of_found found, isArray]

theorem hashPairs?_of_holds {pairs : List (Value × Value)}
    (holds : machine.heap.HoldsHash value pairs) :
    hashPairs? value machine = .ok (some pairs) := by
  obtain ⟨handle, object, table, rfl, found, isHash, rfl⟩ := holds
  have read : hash? (.object handle) machine = .ok (some table) :=
    (part?_of_found found _).trans (congrArg _ isHash)
  rw [hashPairs?, bind_of_ok read]
  rfl

theorem hasNoEntries_of_holds {pairs : List (Value × Value)}
    (holds : machine.heap.HoldsHash value pairs) :
    hasNoEntries value machine = .ok pairs.isEmpty := by
  obtain ⟨handle, object, table, rfl, found, isHash, rfl⟩ := holds
  have read : hash? (.object handle) machine = .ok (some table) :=
    (part?_of_found found _).trans (congrArg _ isHash)
  have same : table.isEmpty = table.pairs.isEmpty := by
    rw [Bool.eq_iff_iff, OrderedHash.isEmpty_iff, List.isEmpty_iff]
  rw [hasNoEntries, bind_of_ok read]
  exact congrArg _ same

end Query

/-! ### Preparing a call -/

/-- New objects have been allocated, and slots of the running stack from an index on have been
written. -/
structure Machine.Prepares (first : Nat) (machine : Machine) (context : Context)
    (next : Machine) (context' : Context) : Prop where
  rest : next = { machine with heap := next.heap, contexts := next.contexts }
  running : next.context? next.current = some context'
  others : ∀ id, id ≠ machine.current → next.context? id = machine.context? id
  wellFormed : next.heap.WellFormed
  objects : machine.heap.Extends next.heap
  frames : context'.frames = context.frames
  slots : ∀ index < first, context'.slot index = context.slot index

namespace Machine.Prepares

variable {machine next last : Machine} {context context' context'' : Context} {first second : Nat}

theorem refl (running : machine.context? machine.current = some context)
    (wellFormed : machine.heap.WellFormed) (first : Nat) :
    machine.Prepares first context machine context where
  rest := rfl
  running := running
  others _ _ := rfl
  wellFormed := wellFormed
  objects := .refl _
  frames := rfl
  slots _ _ := rfl

theorem current (prepares : machine.Prepares first context next context') :
    next.current = machine.current := by
  rw [prepares.rest]

theorem trans (prepares : machine.Prepares first context next context')
    (more : next.Prepares second context' last context'') (inside : first ≤ second) :
    machine.Prepares first context last context'' where
  rest := by
    rw [more.rest, prepares.rest]
  running := more.running
  others id isOther := by
    rw [more.others id (prepares.current ▸ isOther), prepares.others id isOther]
  wellFormed := more.wellFormed
  objects := prepares.objects.trans more.objects
  frames := more.frames.trans prepares.frames
  slots index below := by
    rw [more.slots index (by omega), prepares.slots index below]

end Machine.Prepares

namespace VM

variable {machine : Machine} {context : Context}

theorem setSlot_prepares (running : machine.context? machine.current = some context)
    (wellFormed : machine.heap.WellFormed) (index : Nat) (value : Value) :
    ∃ next, setSlot index value machine = .ok () next ∧ next.heap = machine.heap ∧
      machine.Prepares index context next (context.setSlot index value) := by
  refine ⟨machine.modifyContext machine.current (·.setSlot index value), rfl, rfl, ?_⟩
  exact
    { rest := rfl
      running := Machine.context?_modifyContext running _
      others := fun id isOther => by
        rw [Machine.context?_of_modifyContext, if_neg isOther.symm]
      wellFormed := wellFormed
      objects := .refl _
      frames := by
        rw [Context.setSlot, Context.ensureSize]
        split <;> rfl
      slots := fun other below => Context.slot_setSlot_of_ne _ _ (by omega) }

theorem newCore_prepares (running : machine.context? machine.current = some context)
    (wellFormed : machine.heap.WellFormed) (core : CoreClass) (content : Content) (first : Nat) :
    ∃ handle object next, newCore core content machine = .ok (.object handle) next ∧
      next.heap.get? handle = some object ∧ object.content = content ∧
      machine.Prepares first context next context := by
  let object : Object := { classHandle := machine.coreClass core, content }
  refine ⟨_, object, { machine with heap := (machine.heap.allocate object).1 }, rfl,
    (wellFormed.get?_allocate object _).trans (if_pos rfl), rfl, ?_⟩
  exact
    { rest := rfl
      running := running
      others := fun _ _ => rfl
      wellFormed := wellFormed.allocate object
      objects := wellFormed.extends_allocate object
      frames := rfl
      slots := fun _ _ => rfl }

theorem newArray_prepares (running : machine.context? machine.current = some context)
    (wellFormed : machine.heap.WellFormed) (items : List Value) (first : Nat) :
    ∃ value next, newArray items.toArray machine = .ok value next ∧
      next.heap.HoldsArray value items ∧ machine.Prepares first context next context := by
  obtain ⟨handle, object, next, created, found, isArray, prepares⟩ :=
    newCore_prepares running wellFormed .array (.array items.toArray) first
  exact ⟨.object handle, next, created,
    ⟨handle, object, rfl, found, by rw [Object.array?, isArray]⟩, prepares⟩

/-- Pairs with different keys are the pairs of the hash that is made of them. -/
theorem newHashOfPairs_prepares (running : machine.context? machine.current = some context)
    (wellFormed : machine.heap.WellFormed) {digest : Value → KeyDigest}
    (isDigest : Query.digest machine = .ok digest) {pairs : List (Value × Value)}
    (distinct : (pairs.map (digest ·.1)).Nodup) (first : Nat) :
    ∃ value next, newHashOfPairs pairs machine = .ok value next ∧
      next.heap.HoldsHash value pairs ∧ machine.Prepares first context next context := by
  obtain ⟨handle, object, next, created, found, isHash, prepares⟩ :=
    newCore_prepares running wellFormed .hash (.hash (.ofPairs digest pairs)) first
  exact ⟨.object handle, next, (bind_of_ok (liftM_of_ok isDigest)).trans created,
    ⟨handle, object, _, rfl, found, by rw [Object.hash?, isHash],
      OrderedHash.pairs_ofPairs distinct⟩, prepares⟩

theorem setSlots_prepares (running : machine.context? machine.current = some context)
    (wellFormed : machine.heap.WellFormed) (first : Nat) (values : List Value) :
    ∃ next context', setSlots first values machine = .ok () next ∧ next.heap = machine.heap ∧
      machine.Prepares first context next context' ∧
      (List.range' first values.length).map context'.slot = values := by
  induction values generalizing machine context first with
  | nil => exact ⟨machine, context, rfl, rfl, .refl running wellFormed first, rfl⟩
  | cons value rest inductionHypothesis =>
      obtain ⟨next, stored, sameHeap, prepares⟩ := setSlot_prepares running wellFormed first value
      obtain ⟨last, context', storedRest, sameHeap', preparesRest, isRest⟩ :=
        inductionHypothesis prepares.running prepares.wellFormed (first + 1)
      refine ⟨last, context', (bind_of_ok stored).trans storedRest, sameHeap'.trans sameHeap,
        prepares.trans preparesRest (by omega), ?_⟩
      rw [List.length_cons, List.range'_succ, List.map_cons, isRest,
        preparesRest.slots first (by omega), Context.slot_setSlot]

end VM

/-! ### Call sites -/

/-- A call site holds arguments in the slots of a stack. -/
structure CallSite.Holds (site : CallSite) (heap : Heap) (context : Context) (args : Args) :
    Prop where
  positional :
    if site.argCount = packedCount then
      heap.HoldsArray (context.slot (site.receiverAt + 1)) args.positional
    else
      (List.range' (site.receiverAt + 1) site.argCount).map context.slot = args.positional
  keywords :
    if site.hasKeywords then heap.HoldsHash (context.slot site.keywordsAt) args.keywords
    else args.keywords = []
  block : context.slot site.blockAt = args.block

namespace CallSite

variable {machine : Machine} {context : Context} {site : CallSite} {args : Args}

theorem receiverAt_lt_blockAt (site : CallSite) : site.receiverAt < site.blockAt := by
  rw [blockAt, keywordsAt]
  omega

/-- Positional arguments are held by a call site without keywords. -/
theorem exists_holds {heap : Heap} {receiverAt : Nat} {items : List Value} (argCount : Nat)
    (positional :
      if argCount = packedCount then heap.HoldsArray (context.slot (receiverAt + 1)) items
      else (List.range' (receiverAt + 1) argCount).map context.slot = items) :
    ∃ block, (CallSite.mk receiverAt argCount false).Holds heap context
      { positional := items, block } :=
  ⟨_, positional, rfl, rfl⟩

/-- A call site goes on holding its arguments, with another block. -/
theorem Holds.withBlock {heap heap' : Heap} {context' : Context} {block : Value}
    (holds : site.Holds heap context args) (keeps : heap.KeepsObjects heap')
    (same : ∀ index, site.receiverAt < index → index < site.blockAt →
      context'.slot index = context.slot index)
    (isBlock : context'.slot site.blockAt = block) :
    site.Holds heap' context' { args with block } where
  positional := by
    have positional := holds.positional
    split at positional
    · rename_i isPacked
      rw [if_pos isPacked, same (site.receiverAt + 1) (by omega)]
      · exact positional.mono keeps
      · rw [blockAt, keywordsAt, argSlots, if_pos isPacked]
        omega
    · rename_i notPacked
      rw [if_neg notPacked, ← positional]
      refine List.map_congr_left fun index member => same index ?_ ?_
      · have := List.mem_range'_1.mp member
        omega
      · have := List.mem_range'_1.mp member
        rw [blockAt, keywordsAt, argSlots, if_neg notPacked]
        omega
  keywords := by
    have keywords := holds.keywords
    split at keywords
    · rename_i hasKeywords
      rw [if_pos hasKeywords, same site.keywordsAt]
      · exact keywords.mono keeps
      · rw [keywordsAt]
        omega
      · rw [blockAt, if_pos hasKeywords]
        omega
    · rename_i noKeywords
      rwa [if_neg noKeywords]
  block := isBlock

/-- A call site goes on holding its positional arguments, with keywords behind them. -/
theorem Holds.withKeywords {heap heap' : Heap} {context' : Context}
    {keywords : List (Value × Value)} (plain : site.hasKeywords = false)
    (holds : site.Holds heap context args) (keeps : heap.KeepsObjects heap')
    (same : ∀ index < site.keywordsAt, context'.slot index = context.slot index)
    (isHash : heap'.HoldsHash (context'.slot site.keywordsAt) keywords) :
    ({ site with hasKeywords := true } : CallSite).Holds heap' context'
      { positional := args.positional, keywords
        block := context'.slot ({ site with hasKeywords := true } : CallSite).blockAt } := by
  have isBehind : site.blockAt = site.keywordsAt := by
    rw [blockAt, plain]
    rfl
  have moved := holds.withBlock keeps (fun index _ below => same index (isBehind ▸ below)) rfl
  exact ⟨moved.positional, isHash, rfl⟩

/-- What a query reads in a slot of the running stack. -/
theorem slot_of_running (running : machine.context? machine.current = some context)
    (index : Nat) : Query.slot index machine = .ok (context.slot index) :=
  Query.bind_of_ok (VM.context_eq_ok_iff.mpr running)

theorem Holds.positionalAt (holds : site.Holds machine.heap context args)
    (running : machine.context? machine.current = some context) :
    Query.positionalAt site machine = .ok args.positional := by
  have positional := holds.positional
  rw [Query.positionalAt]
  split at positional
  · rename_i isPacked
    rw [if_pos isPacked, Query.bind_of_ok (slot_of_running running _),
      Query.bind_of_ok (Query.array?_of_holds positional)]
    rfl
  · rename_i notPacked
    rw [if_neg notPacked, Query.slots, Query.bind_of_ok (VM.context_eq_ok_iff.mpr running),
      positional]
    rfl

theorem Holds.keywordsOf (holds : site.Holds machine.heap context args)
    (running : machine.context? machine.current = some context) :
    Query.keywordsOf site machine = .ok args.keywords := by
  have keywords := holds.keywords
  rw [Query.keywordsOf]
  split at keywords
  · rename_i hasKeywords
    rw [if_pos hasKeywords, Query.bind_of_ok (slot_of_running running _),
      Query.bind_of_ok (Query.hashPairs?_of_holds keywords)]
    rfl
  · rename_i noKeywords
    rw [if_neg noKeywords, keywords]
    rfl

/-- All arguments can be read back. -/
theorem Holds.argsAt (holds : site.Holds machine.heap context args)
    (running : machine.context? machine.current = some context) :
    Query.argsAt site machine = .ok args := by
  rw [Query.argsAt, Query.bind_of_ok (holds.positionalAt running),
    Query.bind_of_ok (holds.keywordsOf running), Query.bind_of_ok (slot_of_running running _),
    holds.block]
  rfl

end CallSite

end RiteVm
