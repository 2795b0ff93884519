import RiteVm.Proofs.Parameters.Dictionaries
import RiteVm.Proofs.Parameters.Distribution
import RiteVm.Proofs.Soundness.Steady

/-!
Contract: the registers of a frame whose parameters are bound.

Owns:
- machines that differ from an earlier one in new objects, in slots of the running stack from
  some index on, and in the frame on top;
- the layout of parameters, dictionary, block and other variables in the registers of a frame;
- placing bound arguments, which gives this layout.

Registers are written from the first parameter upward, so each keeps its value while those
behind it are written.
-/

namespace RiteVm

open RiteVm.Bytecode

/-! ### Filling registers -/

/-- New objects have been allocated, slots of the running stack from an index on have been
written, and the frame on top has been changed. -/
structure Machine.Fills (first : Nat) (change : Frame → Frame) (machine : Machine)
    (context : Context) (next : Machine) (context' : Context) : Prop where
  rest : next = { machine with heap := next.heap, contexts := next.contexts }
  runs : next.RunsOn context'
  others : ∀ id, id ≠ machine.current → next.context? id = machine.context? id
  objects : machine.heap.Extends next.heap
  frames : ∀ frame below, context.activations = frame :: below →
    context'.activations = change frame :: below
  pending : context'.pending = context.pending
  slots : ∀ index < first, context'.slot index = context.slot index

namespace Machine.Fills

variable {machine next last : Machine} {context context' context'' : Context} {first second : Nat}
  {change change' : Frame → Frame}

theorem current (fills : machine.Fills first change context next context') :
    next.current = machine.current := by
  rw [fills.rest]

theorem trans (fills : machine.Fills first change context next context')
    (more : next.Fills second change' context' last context'') (inside : first ≤ second) :
    machine.Fills first (change' ∘ change) context last context'' where
  rest := by
    rw [more.rest, fills.rest]
  runs := more.runs
  others id isOther := by
    rw [more.others id (fills.current ▸ isOther), fills.others id isOther]
  objects := fills.objects.trans more.objects
  frames frame below top := more.frames _ below (fills.frames frame below top)
  pending := more.pending.trans fills.pending
  slots index below := by
    rw [more.slots index (by omega), fills.slots index below]

/-- Only what becomes of the frame on top matters. -/
theorem congr_change {frame : Frame} {below : List Frame}
    (fills : machine.Fills first change context next context')
    (top : context.activations = frame :: below) (same : change frame = change' frame) :
    machine.Fills first change' context next context' :=
  { fills with
    frames := fun other rest isTop => by
      obtain ⟨rfl, rfl⟩ := List.cons.inj (top.symm.trans isTop)
      rw [← same]
      exact fills.frames _ _ top }

/-- Slots that follow each other below what has been written. -/
theorem map_slot (fills : machine.Fills first change context next context') {start count : Nat}
    (inside : start + count ≤ first) :
    (List.range' start count).map context'.slot = (List.range' start count).map context.slot := by
  refine List.map_congr_left fun index member => fills.slots index ?_
  have := List.mem_range'_1.mp member
  omega

/-- A change of the heap alone. -/
theorem of_alters (runs : machine.RunsOn context) (alters : machine.Alters none next)
    (first : Nat) : machine.Fills first id context next context := by
  exact
    { rest := by rw [alters.rest]
      runs := alters.runsOn runs
      others := fun id _ => alters.context?_eq id
      objects := fun handle object found => alters.others handle object nofun found
      frames := fun _ _ top => top
      pending := rfl
      slots := fun _ _ => rfl }

/-- A change of the frame on top alone. -/
theorem modifyTop {frame : Frame} {below : List Frame} (runs : machine.RunsOn context)
    (top : context.activations = frame :: below) (change : Frame → Frame)
    (sameProc : (change frame).proc = frame.proc) (sameEnv : (change frame).env = frame.env)
    (first : Nat) :
    machine.Fills first change context
      (machine.modifyContext machine.current (Context.modifyTop · change))
      (context.modifyTop change) where
  rest := rfl
  runs := (runs.modifyTop top (movesTo_modifyContext runs.running (Context.modifyTop · change))
    sameProc sameEnv).1
  others other isOther := by
    rw [Machine.context?_of_modifyContext, if_neg isOther.symm]
  objects := .refl _
  frames _ _ isTop := Context.activations_modify isTop change
  pending := rfl
  slots _ _ := rfl

end Machine.Fills

namespace VM

variable {machine : Machine} {context : Context}

theorem setSlot_fills (runs : machine.RunsOn context) (index : Nat) (value : Value) :
    ∃ next, setSlot index value machine = .ok () next ∧ next.heap = machine.heap ∧
      machine.Fills index id context next (context.setSlot index value) := by
  obtain ⟨storedRuns, sameFrames, -⟩ := runs.setSlot index value
  refine ⟨_, rfl, rfl, ?_⟩
  exact
    { rest := rfl
      runs := storedRuns
      others := fun other isOther => by
        rw [Machine.context?_of_modifyContext, if_neg isOther.symm]
      objects := .refl _
      frames := fun _ _ top => sameFrames.trans top
      pending := Context.setSlot_pending _ _ _
      slots := fun other below => Context.slot_setSlot_of_ne _ _ (by omega) }

theorem setSlots_fills (runs : machine.RunsOn context) (first : Nat) (values : List Value) :
    ∃ next context', setSlots first values machine = .ok () next ∧ next.heap = machine.heap ∧
      machine.Fills first id context next context' ∧
      (List.range' first values.length).map context'.slot = values := by
  induction values generalizing machine context first with
  | nil => exact ⟨machine, context, rfl, rfl, .of_alters runs (.refl none machine) first, rfl⟩
  | cons value rest inductionHypothesis =>
      obtain ⟨next, stored, sameHeap, fills⟩ := setSlot_fills runs first value
      obtain ⟨last, context', storedRest, sameHeap', fillsRest, isRest⟩ :=
        inductionHypothesis fills.runs (first + 1)
      refine ⟨last, context', (bind_of_ok stored).trans storedRest, sameHeap'.trans sameHeap,
        fills.trans fillsRest (by omega), ?_⟩
      rw [List.length_cons, List.range'_succ, List.map_cons, isRest,
        fillsRest.slots first (by omega), Context.slot_setSlot]

/-- Changing the frame on top writes no slot. -/
theorem modifyFrame_fills {frame : Frame} {below : List Frame} (runs : machine.RunsOn context)
    (top : context.activations = frame :: below) (change : Frame → Frame)
    (sameProc : (change frame).proc = frame.proc) (sameEnv : (change frame).env = frame.env)
    (first : Nat) :
    ∃ next, modifyFrame change machine = .ok () next ∧ next.heap = machine.heap ∧
      machine.Fills first change context next (context.modifyTop change) :=
  ⟨_, modifyFrame_ok change, rfl, .modifyTop runs top change sameProc sameEnv first⟩

theorem newArray_alters (wellFormed : machine.heap.WellFormed) (items : List Value) :
    ∃ value next, newArray items.toArray machine = .ok value next ∧ machine.Alters none next ∧
      next.heap.HoldsArray value items := by
  let object : Object :=
    { classHandle := machine.coreClass .array, content := .array items.toArray }
  exact ⟨.object (machine.heap.allocate object).2, machine.allocate object, rfl,
    .allocate wellFormed rfl, _, object, rfl, (wellFormed.get?_allocate object _).trans (if_pos rfl),
    rfl⟩

end VM

/-! ### The layout of parameters -/

namespace Bytecode.ArgSpec

/-- The register behind the positional parameters, which holds the dictionary if there is one. -/
def behindParameters (spec : ArgSpec) : Nat := 1 + spec.parameterCount

/-- The register of the block. -/
def blockRegister (spec : ArgSpec) : Nat :=
  spec.behindParameters + (if spec.takesKeywords then 1 else 0)

end Bytecode.ArgSpec

/-- The registers of a frame hold parameters: first the required and the optional ones, then the
array of the rest parameter, those behind it, the dictionary and the block. The other variables
of the frame are nil. -/
structure Machine.HoldsParameters (machine : Machine) (context : Context) (base localCount : Nat)
    (spec : ArgSpec) (shares : Shares) (entries : Entries) (block : Value) : Prop where
  leading : (List.range' (base + 1) (spec.required + spec.optional)).map context.slot =
    shares.leading spec
  rest : spec.rest = true →
    machine.heap.HoldsArray (context.slot (base + 1 + (spec.required + spec.optional))) shares.rest
  post : (List.range' (base + spec.behindParameters - spec.post) spec.post).map context.slot =
    padNil shares.post spec.post
  dictionary : spec.takesKeywords = true → ∃ dictionary,
    context.slot (base + spec.behindParameters) = .object dictionary ∧
      machine.HoldsEntries dictionary entries
  block : context.slot (base + spec.blockRegister) = block
  locals : ∀ index, base + spec.blockRegister < index → index < base + localCount →
    context.slot index = .nil

/-- What binding parameters makes of a frame. -/
def Frame.binding (frame : Frame) (spec : ArgSpec) (optionalCount : Nat) : Frame :=
  { frame with
    keywordRegister :=
      if spec.takesKeywords then some spec.behindParameters else frame.keywordRegister
    top := max frame.top (frame.base + spec.blockRegister + 1)
    pc := frame.pc + optionalCount * 3 }

namespace VM

variable {machine : Machine} {context : Context} {frame : Frame} {below : List Frame}

/-- The rest parameter is a new array. -/
theorem mapM_newArray (wellFormed : machine.heap.WellFormed) (items? : Option (List Value)) :
    ∃ rest next, (items?.mapM fun items => newArray items.toArray) machine = .ok rest next ∧
      machine.Alters none next ∧ rest.toList.length = items?.toList.length ∧
      ∀ items, items? = some items → ∃ value, rest = some value ∧ next.heap.HoldsArray value items := by
  cases items? with
  | none => exact ⟨none, machine, rfl, .refl _ _, rfl, fun _ => nofun⟩
  | some items =>
      obtain ⟨value, next, created, alters, holdsArray⟩ := newArray_alters wellFormed items
      have mapped : (some <$> newArray items.toArray) machine = .ok (some value) next := by
        rw [map_eq_pure_bind, bind_of_ok created]
        rfl
      refine ⟨some value, next, mapped, alters, rfl, ?_⟩
      rintro other ⟨⟩
      exact ⟨value, rfl, holdsArray⟩

/-- The block and the nil of the variables behind it complete the registers of a frame. -/
theorem setSlot_block (runs : machine.RunsOn context) (top : context.activations = frame :: below)
    (index count : Nat) (block : Value) (change : Frame → Frame)
    (sameProc : (change frame).proc = frame.proc) (sameEnv : (change frame).env = frame.env) :
    ∃ next context', (do
        setSlot index block
        setSlots (index + 1) (List.replicate count .nil)
        modifyFrame change) machine = .ok () next ∧
      next.heap = machine.heap ∧ machine.Fills index change context next context' ∧
      context'.slot index = block ∧
      ∀ other, index < other → other < index + 1 + count → context'.slot other = .nil := by
  obtain ⟨stored, isStored, sameHeap, fills⟩ := setSlot_fills runs index block
  obtain ⟨cleared, clearedContext, isCleared, sameHeap', fills', areNil⟩ :=
    setSlots_fills fills.runs (index + 1) (List.replicate count .nil)
  have clearedTop := fills'.frames _ _ (fills.frames _ _ top)
  obtain ⟨next, changed, sameHeap'', fills''⟩ :=
    modifyFrame_fills fills'.runs clearedTop change sameProc sameEnv (index + 1 + count)
  refine ⟨next, _, (bind_of_ok isStored).trans ((bind_of_ok isCleared).trans changed),
    sameHeap''.trans (sameHeap'.trans sameHeap),
    (fills.trans fills' (by omega)).trans fills'' (by omega), ?_, ?_⟩
  · rw [fills''.slots _ (by omega), fills'.slots _ (by omega), Context.slot_setSlot]
  · intro other above inside
    rw [List.length_replicate] at areNil
    have member : other ∈ List.range' (index + 1) count := List.mem_range'_1.mpr ⟨above, inside⟩
    rw [fills''.slots _ inside]
    exact (List.eq_replicate_iff.mp areNil).2 _ (List.mem_map_of_mem member)

/-- The dictionary is written behind the positional parameters, if the spec takes keywords. -/
theorem setSlot_newDictionary (runs : machine.RunsOn context)
    (top : context.activations = frame :: below) (takesKeywords : Bool) (index register : Nat)
    {keywords? : Option Value} {keywords : List (Value × Value)}
    (standsFor : machine.heap.StandsFor keywords? keywords)
    (resolve : ∀ pair ∈ keywords, machine.heap.Resolves pair.1) :
    ∃ next context', (∀ complete : Nat → VM Unit, (if takesKeywords then do
          setSlot index (← newDictionary keywords?)
          modifyFrame ({ · with keywordRegister := some register })
          let behind ← pure (index + 1)
          complete behind
        else do
          let behind ← pure index
          complete behind) machine = complete (index + if takesKeywords then 1 else 0) next) ∧
      machine.Fills index (fun frame =>
        { frame with
          keywordRegister := if takesKeywords then some register else frame.keywordRegister })
        context next context' ∧
      (takesKeywords = true → ∃ dictionary, context'.slot index = .object dictionary ∧
        machine.heap.get? dictionary = none ∧
        next.HoldsEntries dictionary (Entries.storeAll [] (machine.entries keywords))) := by
  cases takesKeywords with
  | false => exact ⟨machine, context, fun _ => rfl, .of_alters runs (.refl none machine) index, nofun⟩
  | true =>
      obtain ⟨dictionary, created, creates, alters, isNew, holds⟩ :=
        newDictionary_of_standsFor runs.wellFormed standsFor resolve
      have fills := Machine.Fills.of_alters runs alters index
      obtain ⟨stored, isStored, sameHeap, fills'⟩ :=
        setSlot_fills fills.runs index (.object dictionary)
      obtain ⟨next, changed, sameHeap', fills''⟩ := modifyFrame_fills fills'.runs
        (fills'.frames _ _ (fills.frames _ _ top)) ({ · with keywordRegister := some register })
        rfl rfl index
      refine ⟨next, _, fun complete => ?_, (fills.trans fills' (by omega)).trans fills'' (by omega),
        fun _ => ⟨dictionary, Context.slot_setSlot _ _ _, isNew,
          holds.of_heap (sameHeap'.trans sameHeap)⟩⟩
      rw [if_pos rfl, bind_of_ok creates, bind_of_ok isStored, bind_of_ok changed]
      rfl

/-- The part of placing arguments behind the creation of the rest parameter. -/
def placeValues (base localCount : Nat) (takesKeywords : Bool) (values : List Value)
    (optionalCount : Nat) (keywords? : Option Value) (block : Value) : VM Unit := do
  setSlots (base + 1) values
  let next := base + 1 + values.length
  let next ←
    if takesKeywords then do
      setSlot next (← newDictionary keywords?)
      modifyFrame ({ · with keywordRegister := some (1 + values.length) })
      pure (next + 1)
    else pure next
  setSlot next block
  setSlots (next + 1) (List.replicate (base + localCount - (next + 1)) .nil)
  modifyFrame fun frame =>
    { frame with
      top := max frame.top (next + 1)
      pc := frame.pc + optionalCount * 3 }

theorem placeArgs_eq (base : Nat) (frame : Frame) (spec : ArgSpec) (bound : BoundArgs)
    (keywords? : Option Value) (block : Value) :
    placeArgs base frame spec bound keywords? block = (do
      let rest ← bound.rest.mapM fun items => newArray items.toArray
      placeValues base ((frame.unit.map (·.localCount.toNat)).getD 0) spec.takesKeywords
        (bound.leading ++ rest.toList ++ bound.post) bound.optionalCount keywords? block) := rfl

/-- Values, dictionary, block and nil follow each other in the registers. -/
theorem placeValues_of_runsOn (runs : machine.RunsOn context)
    (top : context.activations = frame :: below) (takesKeywords : Bool) (values : List Value)
    {keywords? : Option Value} {keywords : List (Value × Value)}
    (standsFor : machine.heap.StandsFor keywords? keywords)
    (resolve : ∀ pair ∈ keywords, machine.heap.Resolves pair.1)
    (localCount optionalCount : Nat) (block : Value) (behind blockAt : Nat)
    (isBehind : frame.base + 1 + values.length = behind)
    (isBlockAt : behind + (if takesKeywords then 1 else 0) = blockAt) :
    ∃ next context', placeValues frame.base localCount takesKeywords values optionalCount keywords?
        block machine = .ok () next ∧
      machine.Fills (frame.base + 1) (fun frame =>
        { frame with
          keywordRegister := if takesKeywords then some (1 + values.length) else frame.keywordRegister
          top := max frame.top (blockAt + 1)
          pc := frame.pc + optionalCount * 3 }) context next context' ∧
      (List.range' (frame.base + 1) values.length).map context'.slot = values ∧
      (takesKeywords = true → ∃ dictionary, context'.slot behind = .object dictionary ∧
        machine.heap.get? dictionary = none ∧
        next.HoldsEntries dictionary (Entries.storeAll [] (machine.entries keywords))) ∧
      context'.slot blockAt = block ∧
      ∀ index, blockAt < index → index < frame.base + localCount → context'.slot index = .nil := by
  obtain ⟨stored, storedContext, stores, sameHeap, fills, areStored⟩ :=
    setSlots_fills runs (frame.base + 1) values
  subst isBehind isBlockAt
  have storedTop := fills.frames _ _ top
  obtain ⟨filled, filledContext, fillsIn, fillsDictionary, isDictionary⟩ :=
    setSlot_newDictionary fills.runs storedTop takesKeywords (frame.base + 1 + values.length)
      (1 + values.length) (sameHeap ▸ standsFor) (sameHeap ▸ resolve)
  obtain ⟨next, context', completes, sameHeap', fillsBlock, isBlock, areNil⟩ :=
    setSlot_block fillsDictionary.runs (fillsDictionary.frames _ _ storedTop)
      (frame.base + 1 + values.length + if takesKeywords then 1 else 0)
      (frame.base + localCount -
        (frame.base + 1 + values.length + (if takesKeywords then 1 else 0) + 1))
      block (fun changed => { changed with
        top := max changed.top
          (frame.base + 1 + values.length + (if takesKeywords then 1 else 0) + 1)
        pc := changed.pc + optionalCount * 3 }) rfl rfl
  refine ⟨next, context', ?_, ?_, ?_, ?_, ?_, ?_⟩
  · rw [placeValues, bind_of_ok stores]
    exact (fillsIn _).trans completes
  · exact (fills.trans fillsDictionary (by omega)).trans fillsBlock (by omega)
  · rw [fillsBlock.map_slot (by omega), fillsDictionary.map_slot (by omega), areStored]
  · intro takes
    obtain ⟨dictionary, isDictionary, isNew, holds⟩ := isDictionary takes
    refine ⟨dictionary, ?_, ?_, ?_⟩
    · rw [fillsBlock.slots _ (by rw [takes]; exact Nat.lt_succ_self _), isDictionary]
    · exact sameHeap ▸ isNew
    · have sameEntries : stored.entries keywords = machine.entries keywords := by
        simp only [Machine.entries, Machine.digest_of_heap sameHeap]
      rw [← sameEntries]
      exact holds.of_heap sameHeap'
  · exact isBlock
  · intro index above inside
    exact areNil index above (by omega)

end VM

section Placing

variable {machine : Machine} {context : Context} {frame : Frame} {below : List Frame}
  {spec : ArgSpec} {args : List Value} {shares : Shares} {keywords? : Option Value}
  {keywords : List (Value × Value)}

theorem Bytecode.ArgSpec.Cuts.length_leading (cuts : spec.Cuts args shares) :
    (shares.leading spec).length = spec.required + spec.optional := by
  have required := cuts.required_length
  have optional := cuts.optional_length
  rw [Shares.leading, List.length_append, length_padNil (by omega), length_padNil (by omega)]

/-- Values at slots that follow each other are those of the parts, one behind the other. -/
theorem map_range'_append {slot : Nat → Value} {first : Nat} {front back : List Value}
    (areStored : (List.range' first (front ++ back).length).map slot = front ++ back) :
    (List.range' first front.length).map slot = front ∧
      (List.range' (first + front.length) back.length).map slot = back := by
  rw [List.length_append, ← List.range'_append_1, List.map_append] at areStored
  exact List.append_inj areStored (by simp)

/-- Placing bound arguments gives every parameter its register. -/
theorem VM.placeArgs_of_cuts (runs : machine.RunsOn context)
    (top : context.activations = frame :: below) (cuts : spec.Cuts args shares)
    (standsFor : machine.heap.StandsFor keywords? keywords)
    (resolve : ∀ pair ∈ keywords, machine.heap.Resolves pair.1) (block : Value) :
    ∃ next context', placeArgs frame.base frame spec (shares.bound spec) keywords? block machine =
        .ok () next ∧
      machine.Fills (frame.base + 1) (·.binding spec shares.optional.length) context next context' ∧
      next.HoldsParameters context' frame.base ((frame.unit.map (·.localCount.toNat)).getD 0) spec
        shares (Entries.storeAll [] (machine.entries keywords)) block ∧
      (spec.takesKeywords = true → ∀ dictionary,
        context'.slot (frame.base + spec.behindParameters) = .object dictionary →
        machine.heap.get? dictionary = none) := by
  obtain ⟨rest, created, creates, alters, restLength, isRest⟩ :=
    mapM_newArray runs.wellFormed (shares.bound spec).rest
  have fills := Machine.Fills.of_alters runs alters (frame.base + 1)
  have isPost : (padNil shares.post spec.post).length = spec.post :=
    length_padNil (by have := cuts.post_length; omega)
  have isRestCount : rest.toList.length = if spec.rest then 1 else 0 := by
    rw [restLength, Shares.bound]
    cases spec.rest <;> rfl
  have isFront : (shares.leading spec ++ rest.toList).length =
      spec.required + spec.optional + if spec.rest then 1 else 0 := by
    rw [List.length_append, cuts.length_leading, isRestCount]
  have isCount : (shares.leading spec ++ rest.toList ++ padNil shares.post spec.post).length =
      spec.parameterCount := by
    rw [List.length_append, isFront, isPost, ArgSpec.parameterCount]
  have behind : spec.behindParameters = 1 + spec.parameterCount := rfl
  have parameterCount : spec.parameterCount =
    spec.required + spec.optional + (if spec.rest then 1 else 0) + spec.post := rfl
  obtain ⟨next, context', places, fills', areStored, isDictionary, isBlock, areNil⟩ :=
    placeValues_of_runsOn fills.runs (fills.frames _ _ top) spec.takesKeywords
      (shares.leading spec ++ rest.toList ++ padNil shares.post spec.post)
      (standsFor.mono fills.objects.keepsObjects)
      (fun pair member => alters.resolves (resolve pair member))
      ((frame.unit.map (·.localCount.toNat)).getD 0) shares.optional.length block
      (frame.base + spec.behindParameters) (frame.base + spec.blockRegister)
      (by rw [isCount]; exact Nat.add_assoc _ _ _) (Nat.add_assoc _ _ _)
  obtain ⟨areFront, arePost⟩ := map_range'_append areStored
  obtain ⟨areLeading, areRest⟩ := map_range'_append areFront
  rw [cuts.length_leading] at areLeading areRest
  rw [isFront, isPost] at arePost
  refine ⟨next, context', ?_, ?_, ?_, ?_⟩
  · rw [placeArgs_eq, bind_of_ok creates]
    exact places
  · refine (fills.trans fills' (Nat.le_refl _)).congr_change top ?_
    rw [isCount]
    rfl
  · exact
      { leading := areLeading
        rest := fun hasRest => by
          have isItems : (shares.bound spec).rest = some shares.rest := by
            rw [Shares.bound, if_pos hasRest]
          obtain ⟨array, rfl, holdsArray⟩ := isRest shares.rest isItems
          have isSlot : context'.slot (frame.base + 1 + (spec.required + spec.optional)) = array :=
            (List.cons.inj areRest).1
          rw [isSlot]
          exact holdsArray.mono fills'.objects.keepsObjects
        post := by
          rw [show frame.base + spec.behindParameters - spec.post =
            frame.base + 1 + (spec.required + spec.optional + if spec.rest then 1 else 0) by omega]
          exact arePost
        dictionary := fun takes => by
          obtain ⟨dictionary, isSlot, -, holds⟩ := isDictionary takes
          rw [alters.entries_eq resolve] at holds
          exact ⟨dictionary, isSlot, holds⟩
        block := isBlock
        locals := areNil }
  · intro takes dictionary isSlot
    obtain ⟨other, isOther, isNew, -⟩ := isDictionary takes
    obtain rfl := Value.object.inj (isSlot.symm.trans isOther)
    cases found : machine.heap.get? dictionary with
    | none => rfl
    | some object =>
        have noneChanged : some dictionary ≠ none := Option.some_ne_none dictionary
        rw [alters.others dictionary object noneChanged found] at isNew
        cases isNew

end Placing

end RiteVm
