import RiteVm.Proofs.Arguments.CallSites

/-!
Contract: bringing arguments into the form of a call site loses none of them.

Owns:
- the registers that a calling instruction names, with the arguments in them;
- the call sites that are made of such registers, of a call site for `method_missing`, and of
  the arguments that a host passes.

Source and target slots overlap: keywords are collected where they stand, and the block moves
next to them.
-/

namespace RiteVm

/-- What tells keys apart in the present state of their strings. -/
def Machine.digest (machine : Machine) : Value → KeyDigest :=
  KeyDigest.ofValue fun handle => (machine.heap.get? handle).bind Object.string?

/-- Keywords have different keys. -/
def Machine.Distinct (machine : Machine) (keywords : List (Value × Value)) : Prop :=
  (keywords.map fun keyword => machine.digest keyword.1).Nodup

/-- The values of pairs in a row, in which keys and values alternate. -/
def flatPairs (pairs : List (Value × Value)) : List Value :=
  pairs.flatMap fun (key, value) => [key, value]

theorem pairUp_flatPairs (pairs : List (Value × Value)) : pairUp (flatPairs pairs) = pairs := by
  induction pairs with
  | nil => rfl
  | cons pair rest inductionHypothesis =>
      rw [flatPairs, List.flatMap_cons]
      exact congrArg (pair :: ·) inductionHypothesis

theorem length_flatPairs (pairs : List (Value × Value)) :
    (flatPairs pairs).length = 2 * pairs.length := by
  induction pairs with
  | nil => rfl
  | cons pair rest inductionHypothesis =>
      rw [flatPairs, List.flatMap_cons, List.length_append, List.length_cons]
      rw [flatPairs] at inductionHypothesis
      simp only [List.length_cons, List.length_nil, inductionHypothesis]
      omega

/-- Number of registers with keywords that an operand names. -/
def keywordSlots (operand : Nat) : Nat :=
  if operand / 16 % 16 = packedCount then 1 else 2 * (operand / 16 % 16)

/-- The arguments in the registers of a calling instruction: the low four bits of the operand
count positional arguments and the next four bits keywords, and either count may stand for a
packed array or hash. -/
structure Machine.Offers (machine : Machine) (context : Context) (receiverAt operand : Nat)
    (withBlock : Bool) (args : Args) : Prop where
  positional :
    if operand % 16 = packedCount then
      machine.heap.HoldsArray (context.slot (receiverAt + 1)) args.positional
    else (List.range' (receiverAt + 1) (operand % 16)).map context.slot = args.positional
  keywords :
    if operand / 16 % 16 = packedCount then
      machine.heap.HoldsHash (context.slot (CallSite.mk receiverAt (operand % 16) false).keywordsAt)
        args.keywords
    else
      (List.range' (CallSite.mk receiverAt (operand % 16) false).keywordsAt
        (2 * (operand / 16 % 16))).map context.slot = flatPairs args.keywords ∧
        machine.Distinct args.keywords
  block :
    args.block =
      if withBlock then
        context.slot ((CallSite.mk receiverAt (operand % 16) false).keywordsAt + keywordSlots operand)
      else .nil
  isBlock : args.block = .nil ∨ machine.heap.HoldsProc args.block

theorem Machine.digest_of_heap {machine next : Machine} (same : next.heap = machine.heap) :
    next.digest = machine.digest := by
  rw [Machine.digest, Machine.digest, same]

/-- What is written at the receiver leaves the arguments alone. -/
theorem Machine.Offers.of_same {machine next : Machine} {context context' : Context}
    {receiverAt operand : Nat} {withBlock : Bool} {args : Args}
    (offers : machine.Offers context receiverAt operand withBlock args)
    (keeps : machine.heap.KeepsObjects next.heap) (sameDigest : next.digest = machine.digest)
    (same : ∀ index, receiverAt < index → context'.slot index = context.slot index) :
    next.Offers context' receiverAt operand withBlock args := by
  have behind : receiverAt < (CallSite.mk receiverAt (operand % 16) false).keywordsAt := by
    rw [CallSite.keywordsAt]
    dsimp only
    omega
  have sameSlots (first count : Nat) (isBehind : receiverAt < first) :
      (List.range' first count).map context'.slot = (List.range' first count).map context.slot := by
    refine List.map_congr_left fun index member => same index ?_
    have := List.mem_range'_1.mp member
    omega
  refine ⟨?_, ?_, ?_, ?_⟩
  · have positional := offers.positional
    rw [same _ (Nat.lt_succ_self _), sameSlots _ _ (Nat.lt_succ_self _)]
    split at positional
    · rename_i isPacked
      rw [if_pos isPacked]
      exact positional.mono keeps
    · rename_i notPacked
      rwa [if_neg notPacked]
  · have keywords := offers.keywords
    rw [same _ behind, sameSlots _ _ behind, Machine.Distinct, sameDigest]
    split at keywords
    · rename_i isPacked
      rw [if_pos isPacked]
      exact keywords.mono keeps
    · rename_i notPacked
      rwa [if_neg notPacked]
  · rw [same _ (by omega)]
    exact offers.block
  · exact offers.isBlock.imp_right (·.mono keeps)

namespace VM

variable {machine : Machine} {context : Context} {args : Args} {receiverAt operand : Nat}
  {withBlock : Bool} {site : CallSite}

theorem expectProc_of_holds {value : Value} (holds : machine.heap.HoldsProc value) :
    ∃ handle, expectProc value machine = .ok handle machine := by
  obtain ⟨handle, object, rfl, found, isProc⟩ := holds
  refine ⟨handle, ?_⟩
  rw [expectProc]
  refine (bind_of_ok (liftM_of_ok (Query.object_eq_ok_iff.mpr found))).trans ?_
  rw [if_pos isProc]
  rfl

/-! ### Calling instructions -/

/-- Collects the keywords of a calling instruction in a hash. -/
def collectKeywords (site : CallSite) (operand : Nat) : VM Bool := do
  if operand / 16 % 16 = 0 then return false
  if operand / 16 % 16 = packedCount then
    return !(← Query.hasNoEntries (← Query.slot site.keywordsAt))
  let flat ← Query.slots site.keywordsAt (keywordSlots operand)
  setSlot site.keywordsAt (← newHashOfPairs (pairUp flat))
  return true

/-- Stores the block of a call behind the other arguments. -/
def storeBlock (site : CallSite) (block : Value) : VM CallSite := do
  if !block.isNil then
    let _ ← expectProc block
  setSlot site.blockAt block
  return site

theorem normalizeArgs_eq (receiverAt operand : Nat) (withBlock : Bool) :
    normalizeArgs receiverAt operand withBlock = (do
      let site : CallSite := { receiverAt, argCount := operand % 16 }
      let block ←
        if withBlock then Query.slot (site.keywordsAt + keywordSlots operand) else pure .nil
      let hasKeywords ← collectKeywords site operand
      storeBlock { site with hasKeywords } block) := by
  have sameSlots : (if operand / 16 % 16 = 0 then 0
      else if operand / 16 % 16 = packedCount then 1 else 2 * (operand / 16 % 16)) =
        keywordSlots operand := by
    rw [keywordSlots]
    split
    · rename_i isZero
      rw [isZero]
      rfl
    · rfl
  unfold normalizeArgs collectKeywords storeBlock
  dsimp only
  rw [sameSlots]
  by_cases isZero : operand / 16 % 16 = 0
  · simp only [isZero, ↓reduceIte, pure_bind]
  · by_cases isPacked : operand / 16 % 16 = packedCount
    · have notZero : packedCount ≠ 0 := by decide
      simp only [isPacked, notZero, ↓reduceIte, pure_bind, bind_assoc]
    · simp only [isZero, isPacked, ↓reduceIte, pure_bind, bind_assoc]

/-- The block comes behind the arguments that a call site holds. -/
theorem setBlock_prepares (running : machine.context? machine.current = some context)
    (wellFormed : machine.heap.WellFormed) (holds : site.Holds machine.heap context args)
    (block : Value) :
    ∃ next context', setSlot site.blockAt block machine = .ok () next ∧
      machine.Prepares (site.receiverAt + 1) context next context' ∧
      site.Holds next.heap context' { args with block } := by
  obtain ⟨next, stored, sameHeap, prepares⟩ := setSlot_prepares running wellFormed site.blockAt block
  refine ⟨next, _, stored, (Machine.Prepares.refl running wellFormed _).trans prepares
    site.receiverAt_lt_blockAt, ?_⟩
  exact holds.withBlock (sameHeap ▸ .refl _) (fun index _ below => prepares.slots index below)
    (Context.slot_setSlot _ _ _)

/-- Keywords come behind the positional arguments that a call site holds. -/
theorem setKeywords_prepares (running : machine.context? machine.current = some context)
    (wellFormed : machine.heap.WellFormed) (holds : site.Holds machine.heap context args)
    (plain : site.hasKeywords = false) {hash : Value} {keywords : List (Value × Value)}
    (isHash : machine.heap.HoldsHash hash keywords) :
    ∃ next context' block, setSlot site.keywordsAt hash machine = .ok () next ∧
      machine.Prepares (site.receiverAt + 1) context next context' ∧
      ({ site with hasKeywords := true } : CallSite).Holds next.heap context'
        { positional := args.positional, keywords, block } := by
  obtain ⟨next, stored, sameHeap, prepares⟩ :=
    setSlot_prepares running wellFormed site.keywordsAt hash
  have isHash' : next.heap.HoldsHash ((context.setSlot site.keywordsAt hash).slot site.keywordsAt)
      keywords := by
    rw [Context.slot_setSlot, sameHeap]
    exact isHash
  exact ⟨next, _, _, stored, (Machine.Prepares.refl running wellFormed _).trans prepares
    (Nat.le_add_right _ _), holds.withKeywords plain (sameHeap ▸ .refl _) prepares.slots isHash'⟩

theorem storeBlock_prepares (running : machine.context? machine.current = some context)
    (wellFormed : machine.heap.WellFormed) (holds : site.Holds machine.heap context args)
    {block : Value} (isBlock : block = .nil ∨ machine.heap.HoldsProc block) :
    ∃ next context', storeBlock site block machine = .ok site next ∧
      machine.Prepares (site.receiverAt + 1) context next context' ∧
      site.Holds next.heap context' { args with block } := by
  obtain ⟨next, context', stored, prepares, holds⟩ :=
    setBlock_prepares running wellFormed holds block
  have isSite : (do
      setSlot site.blockAt block
      return site : VM CallSite) machine = .ok site next := bind_of_ok stored
  refine ⟨next, context', ?_, prepares, holds⟩
  rcases isBlock with rfl | isProc
  · exact isSite
  · obtain ⟨_, expected⟩ := expectProc_of_holds isProc
    obtain ⟨handle, object, rfl, -, -⟩ := isProc
    exact (bind_of_ok expected).trans isSite

/-- The keywords are collected in place, behind the positional arguments. -/
theorem collectKeywords_prepares (running : machine.context? machine.current = some context)
    (wellFormed : machine.heap.WellFormed)
    (offers : machine.Offers context receiverAt operand withBlock args) :
    ∃ hasKeywords next context' block,
      collectKeywords { receiverAt, argCount := operand % 16 } operand machine =
        .ok hasKeywords next ∧
      machine.Prepares (receiverAt + 1) context next context' ∧
      ({ receiverAt, argCount := operand % 16, hasKeywords } : CallSite).Holds next.heap context'
        { args with block } := by
  have keywords := offers.keywords
  by_cases isPacked : operand / 16 % 16 = packedCount
  · rw [if_pos isPacked] at keywords
    refine ⟨!args.keywords.isEmpty, machine, context,
      context.slot (CallSite.mk receiverAt (operand % 16) (!args.keywords.isEmpty)).blockAt, ?_,
      .refl running wellFormed _, offers.positional, ?_, rfl⟩
    · rw [collectKeywords, if_neg (by rw [isPacked]; decide), if_pos isPacked]
      refine (bind_of_ok (liftM_of_ok (CallSite.slot_of_running running _))).trans ?_
      exact bind_of_ok (liftM_of_ok (Query.hasNoEntries_of_holds keywords))
    · by_cases isEmpty : args.keywords = []
      · simp [isEmpty]
      · have hasKeywords : (!args.keywords.isEmpty) = true := by simpa using isEmpty
        rw [if_pos hasKeywords]
        exact keywords
  · rw [if_neg isPacked] at keywords
    obtain ⟨isFlat, distinct⟩ := keywords
    by_cases isZero : operand / 16 % 16 = 0
    · have noKeywords : args.keywords = [] := by
        have := congrArg List.length isFlat
        rw [length_flatPairs, isZero, List.length_map, List.length_range'] at this
        exact List.length_eq_zero_iff.mp (by omega)
      refine ⟨false, machine, context,
        context.slot (CallSite.mk receiverAt (operand % 16) false).blockAt, ?_,
        .refl running wellFormed _, offers.positional, noKeywords, rfl⟩
      rw [collectKeywords, if_pos isZero]
      rfl
    · obtain ⟨_, plain⟩ := CallSite.exists_holds _ offers.positional
      obtain ⟨hash, created, isNew, isHash, allocates⟩ :=
        newHashOfPairs_prepares running wellFormed rfl distinct (receiverAt + 1)
      have plain' := plain.withBlock allocates.objects.keepsObjects (fun _ _ _ => rfl) rfl
      obtain ⟨next, context', block, stored, stores, holds⟩ :=
        setKeywords_prepares allocates.running allocates.wellFormed plain' rfl isHash
      refine ⟨true, next, context', block, ?_, allocates.trans stores (Nat.le_refl _), holds⟩
      have read : Query.slots (CallSite.mk receiverAt (operand % 16) false).keywordsAt
          (keywordSlots operand) machine = .ok (flatPairs args.keywords) := by
        rw [Query.slots, Query.bind_of_ok (context_eq_ok_iff.mpr running), keywordSlots,
          if_neg isPacked, isFlat]
        rfl
      rw [collectKeywords, if_neg isZero, if_neg isPacked]
      refine (bind_of_ok (liftM_of_ok read)).trans ?_
      rw [pairUp_flatPairs]
      exact (bind_of_ok isNew).trans (bind_of_ok stored)

/-- The arguments that a calling instruction finds in registers are those of its call site. -/
theorem normalizeArgs_prepares (running : machine.context? machine.current = some context)
    (wellFormed : machine.heap.WellFormed)
    (offers : machine.Offers context receiverAt operand withBlock args) :
    ∃ site next context', normalizeArgs receiverAt operand withBlock machine = .ok site next ∧
      machine.Prepares (receiverAt + 1) context next context' ∧ site.receiverAt = receiverAt ∧
      site.Holds next.heap context' args := by
  obtain ⟨hasKeywords, collected, context', _, collects, prepares, holds⟩ :=
    collectKeywords_prepares running wellFormed offers
  have isBlock : args.block = .nil ∨ collected.heap.HoldsProc args.block :=
    offers.isBlock.imp_right (·.mono prepares.objects.keepsObjects)
  obtain ⟨next, context'', stored, stores, holds'⟩ :=
    storeBlock_prepares prepares.running prepares.wellFormed holds isBlock
  refine ⟨_, next, context'', ?_, prepares.trans stores (Nat.le_refl _), rfl, holds'⟩
  rw [normalizeArgs_eq]
  have block := offers.block
  cases withBlock with
  | true =>
      rw [if_pos rfl] at block ⊢
      refine (bind_of_ok (liftM_of_ok (CallSite.slot_of_running running _))).trans ?_
      rw [← block]
      exact (bind_of_ok collects).trans stored
  | false =>
      rw [if_neg Bool.false_ne_true] at block ⊢
      refine (bind_of_ok rfl).trans ?_
      rw [← block]
      exact (bind_of_ok collects).trans stored

/-! ### Calls of `method_missing` -/

/-- The array that `method_missing` receives begins with the missing name. -/
theorem packForMissing_prepares (running : machine.context? machine.current = some context)
    (wellFormed : machine.heap.WellFormed) (holds : site.Holds machine.heap context args)
    (name : Symbol) :
    ∃ packed next context', packForMissing site name machine = .ok packed next ∧
      machine.Prepares (site.receiverAt + 1) context next context' ∧
      packed.receiverAt = site.receiverAt ∧
      packed.Holds next.heap context' (args.prepend (.symbol name)) := by
  obtain ⟨array, created, isNew, isArray, allocates⟩ :=
    newArray_prepares running wellFormed (.symbol name :: args.positional) (site.receiverAt + 1)
  obtain ⟨packed, stored, sameHeap, stores⟩ :=
    setSlot_prepares allocates.running allocates.wellFormed (site.receiverAt + 1) array
  have isPacked : packed.heap.HoldsArray
      ((context.setSlot (site.receiverAt + 1) array).slot (site.receiverAt + 1))
      (.symbol name :: args.positional) := by
    rw [Context.slot_setSlot, sameHeap]
    exact isArray
  obtain ⟨_, plain⟩ := CallSite.exists_holds packedCount isPacked
  have prepares := allocates.trans stores (Nat.le_refl _)
  have packs (rest : List Value → Value → Value → Value → VM CallSite) :
      (do
        let positional ← Query.positionalAt site
        let keywords ← Query.slot site.keywordsAt
        let block ← Query.slot site.blockAt
        let packed ← newArray (.symbol name :: positional).toArray
        rest positional keywords block packed : VM CallSite) machine =
      rest args.positional (context.slot site.keywordsAt) args.block array created := by
    refine (bind_of_ok (liftM_of_ok (holds.positionalAt running))).trans ?_
    refine (bind_of_ok (liftM_of_ok (CallSite.slot_of_running running _))).trans ?_
    refine (bind_of_ok (liftM_of_ok (CallSite.slot_of_running running _))).trans ?_
    rw [holds.block]
    exact bind_of_ok isNew
  unfold packForMissing
  rw [packs]
  dsimp only
  rw [bind_of_ok stored]
  have keywords := holds.keywords
  by_cases hasKeywords : site.hasKeywords
  · rw [if_pos hasKeywords] at keywords
    obtain ⟨keyed, context₁, _, keyStored, keyStores, keyHolds⟩ := setKeywords_prepares
      prepares.running prepares.wellFormed plain rfl (keywords.mono prepares.objects.keepsObjects)
    obtain ⟨next, context₂, blockStored, blockStores, blockHolds⟩ :=
      setBlock_prepares keyStores.running keyStores.wellFormed keyHolds args.block
    rw [if_pos hasKeywords, hasKeywords]
    exact ⟨_, next, context₂, (bind_of_ok keyStored).trans (bind_of_ok blockStored),
      (prepares.trans keyStores (Nat.le_refl _)).trans blockStores (Nat.le_refl _), rfl, blockHolds⟩
  · rw [if_neg hasKeywords] at keywords
    obtain ⟨next, context₁, blockStored, blockStores, blockHolds⟩ :=
      setBlock_prepares prepares.running prepares.wellFormed plain args.block
    rw [if_neg hasKeywords, Bool.eq_false_of_not_eq_true hasKeywords]
    refine ⟨_, next, context₁, bind_of_ok blockStored,
      prepares.trans blockStores (Nat.le_refl _), rfl, ?_⟩
    rw [Args.prepend, keywords]
    exact blockHolds

/-! ### Calls by name -/

/-- A new array is no string, so it tells no keys apart. -/
theorem digest_newArray (wellFormed : machine.heap.WellFormed) {items : Array Value} {value : Value}
    {next : Machine} (created : newArray items machine = .ok value next) :
    next.digest = machine.digest := by
  cases created
  funext key
  cases key with
  | object handle =>
      have sameBytes : ((machine.heap.allocate
          { classHandle := machine.coreClass .array, content := .array items }).1.get? handle).bind
            Object.string? = (machine.heap.get? handle).bind Object.string? := by
        rw [wellFormed.get?_allocate]
        split
        · rename_i isNew
          rw [isNew, wellFormed.get?_allocate_snd]
          rfl
        · rfl
      exact congrArg (fun bytes? => KeyDigest.ofValue (fun _ => bytes?) (.object handle)) sameBytes
  | _ => rfl

/-- The positional arguments that a host passes, one after the other or packed. -/
theorem layPositional_prepares (running : machine.context? machine.current = some context)
    (wellFormed : machine.heap.WellFormed) (items : List Value) (receiverAt : Nat) :
    ∃ next context', (if packedCount ≤ items.length then
        newArray items.toArray >>= setSlot (receiverAt + 1)
      else setSlots (receiverAt + 1) items) machine = .ok () next ∧
      machine.Prepares (receiverAt + 1) context next context' ∧ next.digest = machine.digest ∧
      if (if packedCount ≤ items.length then packedCount else items.length) = packedCount then
        next.heap.HoldsArray (context'.slot (receiverAt + 1)) items
      else
        (List.range' (receiverAt + 1)
          (if packedCount ≤ items.length then packedCount else items.length)).map context'.slot =
            items := by
  by_cases isPacked : packedCount ≤ items.length
  · obtain ⟨array, created, isNew, isArray, allocates⟩ :=
      newArray_prepares running wellFormed items (receiverAt + 1)
    obtain ⟨next, stored, sameHeap, stores⟩ :=
      setSlot_prepares allocates.running allocates.wellFormed (receiverAt + 1) array
    refine ⟨next, _, ?_, allocates.trans stores (Nat.le_refl _), ?_, ?_⟩
    · rw [if_pos isPacked]
      exact (bind_of_ok isNew).trans stored
    · rw [Machine.digest_of_heap sameHeap, digest_newArray wellFormed isNew]
    · rw [if_pos isPacked, if_pos rfl, Context.slot_setSlot, sameHeap]
      exact isArray
  · obtain ⟨next, context', stored, sameHeap, stores, areItems⟩ :=
      setSlots_prepares running wellFormed (receiverAt + 1) items
    refine ⟨next, context', ?_, stores, Machine.digest_of_heap sameHeap, ?_⟩
    · rw [if_neg isPacked]
      exact stored
    · rw [if_neg isPacked, if_neg (by omega)]
      exact areItems

/-- The arguments that a host passes are those of the call site. -/
theorem layOutArgs_prepares (running : machine.context? machine.current = some context)
    (wellFormed : machine.heap.WellFormed) (receiver : Value)
    (distinct : machine.Distinct args.keywords) (receiverAt : Nat) :
    ∃ site next context', layOutArgs receiverAt receiver args machine = .ok site next ∧
      machine.Prepares receiverAt context next context' ∧ site.receiverAt = receiverAt ∧
      context'.slot receiverAt = receiver ∧ site.Holds next.heap context' args := by
  obtain ⟨received, stored, sameHeap, stores⟩ :=
    setSlot_prepares running wellFormed receiverAt receiver
  obtain ⟨laid, context₁, lays, laysOut, sameDigest, positional⟩ :=
    layPositional_prepares stores.running stores.wellFormed args.positional receiverAt
  obtain ⟨_, plain⟩ := CallSite.exists_holds _ positional
  have prepares := stores.trans laysOut (Nat.le_succ _)
  have lay (rest : VM CallSite) : (do
      setSlot receiverAt receiver
      if packedCount ≤ args.size then
        setSlot (receiverAt + 1) (← newArray args.positional.toArray)
      else setSlots (receiverAt + 1) args.positional
      rest : VM CallSite) machine = rest laid := by
    refine (bind_of_ok stored).trans ?_
    rw [Args.size]
    by_cases isPacked : packedCount ≤ args.positional.length
    · rw [if_pos isPacked] at lays ⊢
      rw [← bind_assoc]
      exact bind_of_ok lays
    · rw [if_neg isPacked] at lays ⊢
      exact bind_of_ok lays
  have isReceiver : context₁.slot receiverAt = receiver := by
    rw [laysOut.slots receiverAt (Nat.lt_succ_self _), Context.slot_setSlot]
  unfold layOutArgs
  dsimp only
  rw [lay]
  cases isEmpty : args.keywords.isEmpty with
  | true =>
      obtain ⟨next, context₂, blockStored, blockStores, blockHolds⟩ :=
        setBlock_prepares laysOut.running laysOut.wellFormed plain args.block
      refine ⟨_, next, context₂, bind_of_ok blockStored,
        prepares.trans blockStores (Nat.le_succ _), rfl, ?_, ?_⟩
      · rw [blockStores.slots receiverAt (Nat.lt_succ_self _), isReceiver]
      · obtain ⟨positional, -, isBlock⟩ := blockHolds
        exact ⟨positional, List.isEmpty_iff.mp isEmpty, isBlock⟩
  | false =>
      have distinct' : laid.Distinct args.keywords := by
        rw [Machine.Distinct, sameDigest, Machine.digest_of_heap sameHeap]
        exact distinct
      obtain ⟨hash, created, isNew, isHash, allocates⟩ :=
        newHashOfPairs_prepares laysOut.running laysOut.wellFormed rfl distinct' (receiverAt + 1)
      have plain' := plain.withBlock allocates.objects.keepsObjects (fun _ _ _ => rfl) rfl
      obtain ⟨keyed, context₂, _, keyStored, keyStores, keyHolds⟩ :=
        setKeywords_prepares allocates.running allocates.wellFormed plain' rfl isHash
      obtain ⟨next, context₃, blockStored, blockStores, blockHolds⟩ :=
        setBlock_prepares keyStores.running keyStores.wellFormed keyHolds args.block
      have more := (allocates.trans keyStores (Nat.le_refl _)).trans blockStores (Nat.le_refl _)
      refine ⟨_, next, context₃,
        (bind_of_ok isNew).trans ((bind_of_ok keyStored).trans (bind_of_ok blockStored)),
        prepares.trans more (Nat.le_succ _), rfl, ?_, blockHolds⟩
      rw [more.slots receiverAt (Nat.lt_succ_self _), isReceiver]

end VM

end RiteVm
