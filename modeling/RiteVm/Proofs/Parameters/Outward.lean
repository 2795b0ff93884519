import RiteVm.Proofs.Parameters.Scopes
import RiteVm.Proofs.Unwinding.Exits

/-!
Contract: code inside a method finds the parameters where they were bound.

Owns:
- the operand that says where the parameters of a spec are, and its decoding;
- frames inside a method none of whose parameters has been assigned;
- the block that such a frame loads, and the arguments that it collects.

Does not own: what passes the collected arguments on.
-/

namespace RiteVm

open RiteVm.Bytecode

/-! ### The operand -/

namespace Outward

/-- Where the parameters of a spec are, seen from some scopes inside. -/
def ofSpec (spec : ArgSpec) (level : Nat) : Outward :=
  { leading := spec.required + spec.optional, rest := spec.rest, post := spec.post
    dictionary := spec.takesKeywords, level }

/-- The operand that says so. -/
def operand (spec : ArgSpec) (level : Nat) : Nat :=
  (spec.required + spec.optional) * 2048 + (if spec.rest then 1 else 0) * 1024 + spec.post * 32 +
    (if spec.takesKeywords then 1 else 0) * 16 + level

end Outward

theorem Bytecode.ArgSpec.post_lt (spec : ArgSpec) : spec.post < 32 := by
  have masked : (spec.word >>> 7 &&& 31).toNat ≤ 31 := by
    rw [UInt32.toNat_and]
    exact Nat.and_le_right
  exact Nat.lt_succ_of_le masked

namespace Outward

variable {spec : ArgSpec} {level : Nat}

/-- The operand is decoded as it was meant. -/
theorem ofOperand_operand (few : spec.required + spec.optional ≤ 31) (near : level < 16) :
    ofOperand (operand spec level) = ofSpec spec level := by
  have post := spec.post_lt
  simp only [ofOperand, operand, ofSpec, mk.injEq, Nat.shiftRight_eq_div_pow]
  refine ⟨?_, ?_, ?_, ?_, ?_⟩
  · split <;> split <;> omega
  · cases spec.rest <;> simp only [Bool.false_eq_true, if_true, if_false, beq_iff_eq,
      Bool.eq_false_iff, ne_eq] <;> split <;> omega
  · split <;> split <;> omega
  · cases spec.takesKeywords <;> simp only [Bool.false_eq_true, if_true, if_false, beq_iff_eq,
      Bool.eq_false_iff, ne_eq] <;> split <;> omega
  · split <;> split <;> omega

/-- It fits an operand of two bytes. -/
theorem operand_lt (few : spec.required + spec.optional ≤ 31) (near : level < 16) :
    operand spec level < 65536 := by
  have post := spec.post_lt
  rw [operand]
  split <;> split <;> omega

/-- The dictionary is behind the positional parameters. -/
theorem size_ofSpec : 1 + (ofSpec spec level).size = spec.behindParameters := rfl

theorem block_ofSpec : 1 + (ofSpec spec level).block = spec.blockRegister :=
  (Nat.add_assoc _ _ _).symm

end Outward

/-! ### Frames inside a method -/

/-- The registers that parameters, dictionary and block are bound to. -/
def Bytecode.ArgSpec.Binds (spec : ArgSpec) (register : Nat) : Prop :=
  1 ≤ register ∧ register ≤ spec.blockRegister

/-- The frame on top runs code some scopes inside a method whose parameters still have the contents
that they were bound to. -/
structure Machine.SeesParameters (machine : Machine) (context : Context) (inner : Frame)
    (below : List Frame) (spec : ArgSpec) (contents : Nat → Value) (size level : Nat)
    (place : Option Nat) : Prop where
  runs : machine.RunsOn context
  top : context.activations = inner :: below
  covers : spec.blockRegister < size
  inside : machine.Inside context inner size spec.Binds contents level place

section Reading

variable {machine : Machine} {context : Context} {inner : Frame} {below : List Frame}
  {spec : ArgSpec} {contents : Nat → Value} {size level : Nat} {place : Option Nat}

namespace Machine.SeesParameters

/-- Reading the next instruction assigns no parameter. -/
theorem fetched (sees : machine.SeesParameters context inner below spec contents size level place)
    (pc : Nat) :
    (machine.fetched pc).SeesParameters (context.modifyTop fun frame => { frame with pc })
      { inner with pc } below spec contents size level place where
  runs := (sees.runs.fetched sees.top pc).1
  top := (sees.runs.fetched sees.top pc).2
  covers := sees.covers
  inside := sees.inside.fills sees.runs
    (.modifyTop sees.runs sees.top ({ · with pc }) rfl rfl 0) rfl rfl fun _ _ _ _ => rfl

theorem outwardArg (sees : machine.SeesParameters context inner below spec contents size level place)
    (index : Nat) (isBound : 1 + index ≤ spec.blockRegister) :
    VM.outwardArg inner.base level index machine = .ok (contents (1 + index)) machine :=
  VM.outwardArg_of_inside sees.runs sees.top sees.inside
    (fun _ wanted => Nat.lt_of_le_of_lt wanted.2 sees.covers) index ⟨Nat.le_add_right _ _, isBound⟩

end Machine.SeesParameters

/-- Reading one thing after the other changes nothing. -/
theorem VM.mapM_eq_ok {α β : Type} {action : α → VM β} {value : α → β} {items : List α}
    (reads : ∀ item ∈ items, action item machine = .ok (value item) machine) :
    items.mapM action machine = .ok (items.map value) machine := by
  induction items with
  | nil => rfl
  | cons item rest inductionHypothesis =>
      rw [List.mapM_cons, bind_of_ok (reads item List.mem_cons_self),
        bind_of_ok (inductionHypothesis fun other member => reads other (List.mem_cons_of_mem _ member))]
      rfl

/-- The block of the method is loaded, if there is one. -/
theorem VM.pushBlock_of_sees
    (sees : machine.SeesParameters context inner below spec contents size level place)
    (register : Nat) {operand : Nat} (encoded : Outward.ofOperand operand = .ofSpec spec level) :
    if (contents spec.blockRegister).isNil = true then
      ∃ exception next, pushBlock inner.base register operand machine =
          .error (.raised exception) next ∧
        next.Reports .localJumpError "no block given (yield)" exception
    else
      ∃ next, pushBlock inner.base register operand machine = .ok () next ∧
        next.RunsOn (context.setSlot (inner.base + register) (contents spec.blockRegister)) := by
  have read : outwardArg inner.base (Outward.ofSpec spec level).level (Outward.ofSpec spec level).block
      machine = .ok (contents spec.blockRegister) machine := by
    have read := sees.outwardArg (Outward.ofSpec spec level).block
      (Nat.le_of_eq Outward.block_ofSpec)
    rwa [Outward.block_ofSpec] at read
  rw [pushBlock, encoded]
  dsimp only
  rw [bind_of_ok read]
  split
  · obtain ⟨exception, next, raises, reports, -⟩ := raise_of_runsOn (α := PUnit) sees.runs
      .localJumpError "no block given (yield)"
    exact ⟨exception, next, bind_of_error raises, reports⟩
  · obtain ⟨next, stored, -, fills⟩ :=
      setSlot_fills sees.runs (inner.base + register) (contents spec.blockRegister)
    exact ⟨next, stored, fills.runs⟩

/-- Positional arguments that the registers of the method stand for, with the items that the array of
the rest parameter has now. -/
def Machine.Collects (machine : Machine) (spec : ArgSpec) (contents : Nat → Value)
    (rest : List Value) : Prop :=
  if spec.rest then machine.heap.HoldsArray (contents (1 + (spec.required + spec.optional))) rest
  else rest = []

/-- The values of the positional parameters in order, with given items for the rest parameter. -/
def Bytecode.ArgSpec.spelledOut (spec : ArgSpec) (contents : Nat → Value) (rest : List Value) :
    List Value :=
  (List.range' 1 (spec.required + spec.optional)).map contents ++ rest ++
    (List.range' (spec.behindParameters - spec.post) spec.post).map contents

namespace VM

/-- Reads the items for the rest parameter of an enclosing method. -/
def outwardRest (base : Nat) (outward : Outward) : VM (List Value) := do
  if outward.rest then
    let rest ← outwardArg base outward.level outward.leading
    return ((← Query.array? rest).map (·.toList)).toList.flatten
  else return []

/-- Reads the positional arguments of an enclosing method. -/
def outwardArgs (base : Nat) (outward : Outward) : VM (List Value) := do
  let leading ← (List.range outward.leading).mapM (outwardArg base outward.level)
  let rest ← outwardRest base outward
  let post ← (List.range outward.post).mapM fun index =>
    outwardArg base outward.level (outward.postStart + index)
  return leading ++ rest ++ post

/-- Puts the dictionary and the block of an enclosing method behind a register. -/
def placeOutward (base register : Nat) (outward : Outward) : VM Unit := do
  let argAt := outwardArg base outward.level
  if outward.dictionary then
    let dictionary ← argAt outward.size
    let block ← argAt outward.block
    setRegister base (register + 1) dictionary
    setRegister base (register + 2) block
  else
    setRegister base (register + 1) (← argAt outward.block)

/-- Arguments are read, collected in an array and completed. -/
theorem argArray_eq (base register operand : Nat) :
    argArray base register operand = (do
      if (← Query.frame).method.isNone then
        raise .noMethodError "super called outside of method"
      let args ← outwardArgs base (.ofOperand operand)
      setRegister base register (← newArray args.toArray)
      placeOutward base register (.ofOperand operand)) := by
  cases hasRest : (Outward.ofOperand operand).rest <;>
    simp only [argArray, outwardArgs, outwardRest, placeOutward, bind_assoc, pure_bind, hasRest, if_true,
      Bool.false_eq_true, if_false]

/-- Parameters that follow each other are read in order. -/
theorem mapM_outwardArg
    (sees : machine.SeesParameters context inner below spec contents size level place)
    (first count : Nat) (isBound : first + count ≤ spec.blockRegister) :
    (List.range count).mapM (fun index => outwardArg inner.base level (first + index)) machine =
      .ok ((List.range' (1 + first) count).map contents) machine := by
  rw [List.range'_eq_map_range, List.map_map]
  refine mapM_eq_ok fun index member => ?_
  have inside := List.mem_range.mp member
  rw [sees.outwardArg _ (by omega), ← Nat.add_assoc]
  rfl

theorem outwardRest_of_sees
    (sees : machine.SeesParameters context inner below spec contents size level place)
    {rest : List Value} (collects : machine.Collects spec contents rest) :
    outwardRest inner.base (.ofSpec spec level) machine = .ok rest machine := by
  have behind : spec.behindParameters = 1 + (spec.required + spec.optional +
    (if spec.rest then 1 else 0) + spec.post) := rfl
  have block : spec.blockRegister = spec.behindParameters + if spec.takesKeywords then 1 else 0 :=
    rfl
  have unfolded : outwardRest inner.base (.ofSpec spec level) =
      if spec.rest then do
        let rest ← outwardArg inner.base level (spec.required + spec.optional)
        return ((← Query.array? rest).map (·.toList)).toList.flatten
      else return [] := rfl
  rw [Machine.Collects] at collects
  rw [unfolded]
  split at collects
  · rename_i hasRest
    rw [hasRest, if_pos rfl] at behind
    rw [if_pos hasRest, bind_of_ok (sees.outwardArg _ (by omega)),
      bind_of_ok (liftM_of_ok (Query.array?_of_holds collects))]
    exact congrArg (EStateM.Result.ok · machine) (List.append_nil rest)
  · rename_i noRest
    rw [if_neg noRest, collects]
    rfl

theorem outwardArgs_of_sees
    (sees : machine.SeesParameters context inner below spec contents size level place)
    {rest : List Value} (collects : machine.Collects spec contents rest) :
    outwardArgs inner.base (.ofSpec spec level) machine =
      .ok (spec.spelledOut contents rest) machine := by
  have behind : spec.behindParameters = 1 + (spec.required + spec.optional +
    (if spec.rest then 1 else 0) + spec.post) := rfl
  have block : spec.blockRegister = spec.behindParameters + if spec.takesKeywords then 1 else 0 :=
    rfl
  have leading := mapM_outwardArg sees 0 (spec.required + spec.optional) (by omega)
  simp only [Nat.zero_add, Nat.add_zero] at leading
  have post := mapM_outwardArg sees (spec.required + spec.optional + if spec.rest then 1 else 0)
    spec.post (by omega)
  have postStart : spec.behindParameters - spec.post =
    1 + (spec.required + spec.optional + if spec.rest then 1 else 0) := by omega
  rw [ArgSpec.spelledOut, postStart]
  exact (bind_of_ok leading).trans
    ((bind_of_ok (outwardRest_of_sees sees collects)).trans (bind_of_ok post))

/-- The dictionary and the block are placed side by side. -/
theorem placeOutward_of_reads (runs : machine.RunsOn context) (register : Nat)
    (dictionary : spec.takesKeywords = true →
      outwardArg inner.base level (Outward.ofSpec spec level).size machine =
        .ok (contents spec.behindParameters) machine)
    (block : outwardArg inner.base level (Outward.ofSpec spec level).block machine =
      .ok (contents spec.blockRegister) machine) :
    ∃ next context', placeOutward inner.base register (.ofSpec spec level) machine = .ok () next ∧
      next.heap = machine.heap ∧ next.RunsOn context' ∧
      context'.slot (inner.base + register) = context.slot (inner.base + register) ∧
      (spec.takesKeywords = true →
        context'.slot (inner.base + register + 1) = contents spec.behindParameters) ∧
      context'.slot (inner.base + register + if spec.takesKeywords then 2 else 1) =
        contents spec.blockRegister := by
  have unfolded : placeOutward inner.base register (.ofSpec spec level) =
      (if spec.takesKeywords then do
        let dictionary ← outwardArg inner.base level (Outward.ofSpec spec level).size
        let block ← outwardArg inner.base level (Outward.ofSpec spec level).block
        setRegister inner.base (register + 1) dictionary
        setRegister inner.base (register + 2) block
      else do
        let block ← outwardArg inner.base level (Outward.ofSpec spec level).block
        setRegister inner.base (register + 1) block) := rfl
  rw [unfolded]
  cases takes : spec.takesKeywords with
  | false =>
      obtain ⟨next, stored, sameHeap, fills⟩ :=
        setSlot_fills runs (inner.base + (register + 1)) (contents spec.blockRegister)
      refine ⟨next, _, (bind_of_ok block).trans stored, sameHeap, fills.runs,
        fills.slots _ (by omega), nofun, Context.slot_setSlot _ _ _⟩
  | true =>
      obtain ⟨middle, stored, sameHeap, fills⟩ :=
        setSlot_fills runs (inner.base + (register + 1)) (contents spec.behindParameters)
      obtain ⟨next, stored', sameHeap', fills'⟩ :=
        setSlot_fills fills.runs (inner.base + (register + 2)) (contents spec.blockRegister)
      refine ⟨next, _, ?_, sameHeap'.trans sameHeap, fills'.runs, ?_, fun _ => ?_,
        Context.slot_setSlot _ _ _⟩
      · exact (bind_of_ok (dictionary takes)).trans
          ((bind_of_ok block).trans ((bind_of_ok stored).trans stored'))
      · rw [fills'.slots _ (by omega), fills.slots _ (by omega)]
      · rw [fills'.slots _ (by omega)]
        exact Context.slot_setSlot _ _ _

/-- The arguments of the method are collected in an array, with the dictionary and the block behind
it. -/
theorem argArray_of_sees
    (sees : machine.SeesParameters context inner below spec contents size level place)
    (register : Nat) {operand : Nat} (encoded : Outward.ofOperand operand = .ofSpec spec level)
    (inMethod : inner.method.isSome) {rest : List Value}
    (collects : machine.Collects spec contents rest)
    (apart : ∀ base, place = some base → inner.base + register ≠ base + spec.blockRegister ∧
      (spec.takesKeywords = true → inner.base + register ≠ base + spec.behindParameters)) :
    ∃ next context' array, argArray inner.base register operand machine = .ok () next ∧
      next.RunsOn context' ∧ context'.slot (inner.base + register) = array ∧
      next.heap.HoldsArray array (spec.spelledOut contents rest) ∧
      (spec.takesKeywords = true →
        context'.slot (inner.base + register + 1) = contents spec.behindParameters) ∧
      context'.slot (inner.base + register + if spec.takesKeywords then 2 else 1) =
        contents spec.blockRegister := by
  have block : spec.blockRegister = spec.behindParameters + if spec.takesKeywords then 1 else 0 :=
    rfl
  obtain ⟨array, created, creates, alters, holds⟩ :=
    newArray_alters sees.runs.wellFormed (spec.spelledOut contents rest)
  obtain ⟨stored, stores, sameHeap, fills⟩ :=
    setSlot_fills (Machine.Fills.of_alters sees.runs alters (inner.base + register)).runs
      (inner.base + register) array
  have both := (Machine.Fills.of_alters sees.runs alters (inner.base + register)).trans fills
    (Nat.le_refl _)
  -- What is still to be read is not in the register that has just been written.
  let fewer (other : Nat) : Prop := other = spec.blockRegister ∨
    spec.takesKeywords = true ∧ other = spec.behindParameters
  have inside : stored.Inside (context.setSlot (inner.base + register) array) inner size fewer
      contents level place := by
    refine (sees.inside.mono ?_).fills sees.runs both rfl rfl fun base isPlace other isFewer => ?_
    · rintro other (rfl | ⟨takes, rfl⟩)
      · exact ⟨by rw [block, ArgSpec.behindParameters]; omega, Nat.le_refl _⟩
      · exact ⟨by rw [ArgSpec.behindParameters]; omega, by omega⟩
    · rcases isFewer with rfl | ⟨takes, rfl⟩
      · exact Context.slot_setSlot_of_ne _ _ (apart base isPlace).1.symm
      · exact Context.slot_setSlot_of_ne _ _ ((apart base isPlace).2 takes).symm
  have covers : ∀ other, fewer other → other < size := by
    have within := sees.covers
    rintro other (rfl | ⟨-, rfl⟩) <;> omega
  have top : (context.setSlot (inner.base + register) array).activations = inner :: below :=
    both.frames _ _ sees.top
  have readBlock := outwardArg_of_inside both.runs top inside covers
    (Outward.ofSpec spec level).block (.inl Outward.block_ofSpec)
  rw [Outward.block_ofSpec] at readBlock
  have readDictionary (takes : spec.takesKeywords = true) := outwardArg_of_inside both.runs top inside
    covers (Outward.ofSpec spec level).size (.inr ⟨takes, Outward.size_ofSpec⟩)
  obtain ⟨next, context', places, sameHeap', runs, sameSlot, isDictionary, isBlock⟩ :=
    placeOutward_of_reads both.runs register readDictionary readBlock
  refine ⟨next, context', array, ?_, runs, ?_, ?_, isDictionary, isBlock⟩
  · have method : inner.method.isNone = false := by
      cases isMethod : inner.method with
      | none => rw [isMethod] at inMethod; cases inMethod
      | some method => rfl
    rw [argArray_eq, encoded, bind_of_ok (liftM_of_ok (Query.frame_of_runsOn sees.runs sees.top)),
      method, if_neg Bool.false_ne_true]
    exact (bind_of_ok (outwardArgs_of_sees sees collects)).trans
      ((bind_of_ok creates).trans ((bind_of_ok stores).trans places))
  · rw [sameSlot, Context.slot_setSlot]
  · rw [sameHeap', sameHeap]
    exact holds

end VM

end Reading

/-! ### What the parameters stand for -/

namespace Bytecode.ArgSpec

variable {spec : ArgSpec} {args : List Value} {shares : Shares}

/-- Accepted arguments are the shares in order, if there is one for each optional parameter. -/
theorem Cuts.inOrder_of_accepted (cuts : spec.Cuts args shares)
    (accepted : spec.accepts args.length = true) (supplied : shares.optional.length = spec.optional) :
    shares.leading spec ++ shares.rest ++ padNil shares.post spec.post = args := by
  have notRefused : ¬ (args.length < spec.required + spec.post ∨
      spec.rest = false ∧ spec.required + spec.optional + spec.post < args.length) := by
    rw [← accepts_eq_false_iff, accepted]
    exact nofun
  have required := cuts.required_length
  have post := cuts.post_length
  have noExtra : shares.extra = [] := by
    refine cuts.extra_eq_nil ?_
    cases hasRest : spec.rest with
    | true => exact .inl rfl
    | false => exact .inr (Nat.le_of_not_lt fun more => notRefused (.inr ⟨hasRest, more⟩))
  rw [Shares.leading, padNil_of_length (by omega), padNil_of_length supplied,
    padNil_of_length (by omega)]
  have inOrder := cuts.inOrder
  rw [noExtra, List.append_nil] at inOrder
  exact inOrder.symm

end Bytecode.ArgSpec

theorem Machine.HoldsParameters.spelledOut {machine : Machine} {context : Context}
    {base localCount : Nat} {spec : ArgSpec} {shares : Shares} {entries : Entries} {block : Value}
    (holds : machine.HoldsParameters context base localCount spec shares entries block)
    (rest : List Value) :
    spec.spelledOut (fun register => context.slot (base + register)) rest =
      shares.leading spec ++ rest ++ padNil shares.post spec.post := by
  have shifted (first count : Nat) :
      (List.range' first count).map (fun register => context.slot (base + register)) =
        (List.range' (base + first) count).map context.slot := by
    rw [List.range'_eq_map_range, List.range'_eq_map_range, List.map_map, List.map_map]
    exact List.map_congr_left fun index _ => congrArg context.slot (Nat.add_assoc _ _ _).symm
  have behind : spec.post ≤ spec.behindParameters := by
    rw [ArgSpec.behindParameters, ArgSpec.parameterCount]
    omega
  rw [ArgSpec.spelledOut, shifted, shifted, holds.leading, ← Nat.add_sub_assoc behind, holds.post]

/-! ### One step -/

/-- One step loads a block into a register of the frame on top, or raises if there is none. -/
def Machine.LoadsBlock (machine : Machine) (context : Context) (inner : Frame)
    (instruction : Instruction) (engine : Engine) (stop : Nat) (block : Value) : Prop :=
  if block.isNil = true then
    ∃ exception next, VM.step engine stop machine = .error (.raised exception) next ∧
      next.Reports .localJumpError "no block given (yield)" exception
  else
    ∃ next, VM.step engine stop machine = .ok none next ∧
      next.RunsOn ((context.modifyTop fun frame => { frame with pc := instruction.next }).setSlot
        (inner.base + instruction.operands.a) block)

/-- One step puts an array of arguments into a register of the frame on top, and behind it the
dictionary, if there is one, and the block. -/
def Machine.CollectsArgs (machine : Machine) (inner : Frame) (instruction : Instruction)
    (engine : Engine) (stop : Nat) (args : List Value) (dictionary? : Option Value) (block : Value) :
    Prop :=
  ∃ next context array, VM.step engine stop machine = .ok none next ∧ next.RunsOn context ∧
    (List.range' (inner.base + instruction.operands.a) (dictionary?.toList.length + 2)).map
      context.slot = array :: dictionary?.toList ++ [block] ∧
    next.heap.HoldsArray array args

section Executions

variable {engine : Engine} {stop : Nat} {frame : Frame} {unit : CodeUnit} {instruction : Instruction}

theorem VM.execute_pushBlock (isOp : instruction.op = .pushBlock) :
    VM.execute { engine, stop, frame, unit } instruction = (do
      VM.pushBlock frame.base instruction.operands.a instruction.operands.b
      return none) := by
  obtain ⟨op, ⟨a, b, c⟩, address, next⟩ := instruction
  obtain rfl : op = .pushBlock := isOp
  rfl

theorem VM.execute_argArray (isOp : instruction.op = .argArray) :
    VM.execute { engine, stop, frame, unit } instruction = (do
      VM.argArray frame.base instruction.operands.a instruction.operands.b
      return none) := by
  obtain ⟨op, ⟨a, b, c⟩, address, next⟩ := instruction
  obtain rfl : op = .argArray := isOp
  rfl

end Executions

section Stepping

variable {machine : Machine} {context : Context} {inner : Frame} {below : List Frame}
  {spec : ArgSpec} {contents : Nat → Value} {size level : Nat} {place : Option Nat} {unit : CodeUnit}
  {instruction : Instruction}

theorem Machine.SeesParameters.loadsBlock
    (sees : machine.SeesParameters context inner below spec contents size level place)
    (executes : inner.Executes unit instruction .pushBlock)
    (encoded : Outward.ofOperand instruction.operands.b = .ofSpec spec level) (engine : Engine)
    (stop : Nat) :
    machine.LoadsBlock context inner instruction engine stop (contents spec.blockRegister) := by
  have stepped : VM.step engine stop machine = _ :=
    VM.step_eq sees.runs sees.top executes.isUnit executes.decoded
  rw [VM.execute_pushBlock executes.isOp] at stepped
  have pushes := VM.pushBlock_of_sees (sees.fetched instruction.next) instruction.operands.a encoded
  rw [LoadsBlock]
  split at pushes
  · rename_i isNil
    obtain ⟨exception, next, raises, reports⟩ := pushes
    rw [if_pos isNil]
    exact ⟨exception, next, stepped.trans (VM.bind_of_error raises), reports⟩
  · rename_i isBlock
    obtain ⟨next, loads, runs⟩ := pushes
    rw [if_neg isBlock]
    exact ⟨next, stepped.trans (VM.bind_of_ok loads), runs⟩

theorem Machine.SeesParameters.collectsArgs
    (sees : machine.SeesParameters context inner below spec contents size level place)
    (executes : inner.Executes unit instruction .argArray)
    (encoded : Outward.ofOperand instruction.operands.b = .ofSpec spec level)
    (inMethod : inner.method.isSome) {rest : List Value}
    (collects : machine.Collects spec contents rest)
    (apart : ∀ base, place = some base →
      inner.base + instruction.operands.a ≠ base + spec.blockRegister ∧
      (spec.takesKeywords = true →
        inner.base + instruction.operands.a ≠ base + spec.behindParameters))
    (engine : Engine) (stop : Nat) :
    machine.CollectsArgs inner instruction engine stop (spec.spelledOut contents rest)
      (if spec.takesKeywords then some (contents spec.behindParameters) else none)
      (contents spec.blockRegister) := by
  have stepped : VM.step engine stop machine = _ :=
    VM.step_eq sees.runs sees.top executes.isUnit executes.decoded
  rw [VM.execute_argArray executes.isOp] at stepped
  obtain ⟨next, context', array, collected, runs, isArray, holds, isDictionary, isBlock⟩ :=
    VM.argArray_of_sees (sees.fetched instruction.next) instruction.operands.a encoded inMethod
      collects apart
  refine ⟨next, context', array, stepped.trans (VM.bind_of_ok collected), runs, ?_, holds⟩
  cases takes : spec.takesKeywords with
  | false =>
      rw [takes] at isBlock
      exact congrArg₂ (fun first second => [first, second]) isArray isBlock
  | true =>
      rw [takes] at isBlock
      have dictionary := isDictionary takes
      simp only [Option.toList, List.length_singleton, if_true, List.range'_succ, List.map_cons,
        List.range'_zero, List.map_nil]
      rw [isArray, dictionary]
      exact congrArg (fun last => [array, contents spec.behindParameters, last]) isBlock

end Stepping

/-- Code inside a method finds what was bound to the parameters. Once the arguments of a call have
been bound, take any frame on any level inside the method, while the frame of the method is live or
after it was left, and let no parameter have been assigned. With the operand for the spec, the block
that was passed is loaded, or its absence raises. Likewise the values of the positional parameters
are collected in order, with the items of the rest parameter, and the dictionary and the block are
placed behind the array, unless the array itself is put where one of them is. If the arguments were
accepted and all optional parameters have got one, the array has the effective arguments as long as
the rest parameter has its items. -/
theorem outward_finds_parameters {machine entered : Machine} {context bound : Context}
    {frame : Frame} {below : List Frame} {strict : Bool} {args : Args} {unit : CodeUnit}
    {instruction : Instruction} {engine : Engine} {stop : Nat}
    (receives : machine.Receives context frame below strict args)
    (executes : frame.Executes unit instruction .enter)
    (stepped : VM.step engine stop machine = .ok none entered)
    (running : entered.context? entered.current = some bound)
    (few : (ArgSpec.ofOperand instruction.operands.a).required +
      (ArgSpec.ofOperand instruction.operands.a).optional ≤ 31) :
    let spec := ArgSpec.ofOperand instruction.operands.a
    let contents := fun register => bound.slot (frame.base + register)
    let dictionary? := if spec.takesKeywords then some (contents spec.behindParameters) else none
    ∃ effective shares, machine.heap.Effective spec strict (frame.given context spec args) effective ∧
      spec.Cuts effective shares ∧
      (∀ value, dictionary? = some value → ∃ dictionary, value = .object dictionary ∧
        machine.heap.get? dictionary = none ∧
        entered.HoldsEntries dictionary (machine.copiedEntries args.keywords)) ∧
      ∀ (later : Machine) (laterContext : Context) (inner : Frame) (outer : List Frame)
        (laterUnit : CodeUnit) (reading : Instruction) (level : Nat) (place : Option Nat)
        (laterEngine : Engine) (laterStop : Nat),
        later.SeesParameters laterContext inner outer spec contents unit.localCount.toNat level place →
        level < 16 → reading.operands.b = Outward.operand spec level →
        (inner.Executes laterUnit reading .pushBlock →
          later.LoadsBlock laterContext inner reading laterEngine laterStop args.block) ∧
        (inner.Executes laterUnit reading .argArray → inner.method.isSome = true →
          (∀ base, place = some base →
            inner.base + reading.operands.a ≠ base + spec.blockRegister ∧
            (spec.takesKeywords = true →
              inner.base + reading.operands.a ≠ base + spec.behindParameters)) →
          ∀ rest, later.Collects spec contents rest →
            later.CollectsArgs inner reading laterEngine laterStop
              (shares.leading spec ++ rest ++ padNil shares.post spec.post) dictionary? args.block ∧
            (spec.accepts effective.length = true → shares.optional.length = spec.optional →
              rest = shares.rest →
              shares.leading spec ++ rest ++ padNil shares.post spec.post = effective)) := by
  intro spec contents dictionary?
  obtain ⟨effective, isEffective, outcome⟩ := VM.step_enter_of_receives receives executes.isUnit
    executes.decoded executes.isOp engine stop rfl
  split at outcome
  · obtain ⟨exception, next, raises, -⟩ := outcome
    exact nomatch stepped.symm.trans raises
  obtain ⟨shares, next, after, entersNow, cuts, enters⟩ := outcome
  obtain rfl : entered = next := (EStateM.Result.ok.inj (stepped.symm.trans entersNow)).2
  obtain rfl : bound = after := Option.some.inj (running.symm.trans enters.fills.runs.running)
  refine ⟨effective, shares, isEffective, cuts, ?_, ?_⟩
  · intro value isValue
    by_cases takes : spec.takesKeywords = true
    · obtain ⟨dictionary, isSlot, holds⟩ := enters.holds.dictionary takes
      obtain rfl : contents spec.behindParameters = value :=
        Option.some.inj ((if_pos takes).symm.trans isValue)
      exact ⟨dictionary, isSlot, enters.isNew takes dictionary isSlot, holds⟩
    · exact nomatch (if_neg takes).symm.trans isValue
  · intro later laterContext inner outer laterUnit reading level place engine stop sees near isOperand
    have encoded : Outward.ofOperand reading.operands.b = .ofSpec spec level := by
      rw [isOperand, Outward.ofOperand_operand few near]
    have block : contents spec.blockRegister = args.block := enters.holds.block
    refine ⟨fun pushes => ?_, fun collects inMethod apart rest isRest => ⟨?_, ?_⟩⟩
    · rw [← block]
      exact sees.loadsBlock pushes encoded engine stop
    · rw [← block, ← enters.holds.spelledOut rest]
      exact sees.collectsArgs collects encoded inMethod isRest apart engine stop
    · rintro accepted supplied rfl
      exact cuts.inOrder_of_accepted accepted supplied

/-! ### A method that takes everything -/

/-- A method with a rest parameter, a dictionary and a block. Its code pushes something onto the
array of the rest parameter and collects its arguments in the register of the dictionary. -/
def takingUnit : CodeUnit :=
  { localCount := 4, registerCount := 8
    code := #[Opcode.enter.toByte, 0, 16, 2, Opcode.move.toByte, 4, 1, Opcode.loadByte.toByte, 5, 9,
      Opcode.arrayPush.toByte, 4, 1, Opcode.argArray.toByte, 2, 4, 16]
    handlers := [], pool := #[], symbols := #[], children := [] }

/-- The frame of a call with one argument, one keyword and a block. -/
def takingFrame : Frame :=
  { base := 0, top := 8, proc := some ⟨1, 1⟩, unit := some takingUnit, argCount := 1
    hasKeywords := true, method := some ⟨8⟩, owner := none, targetClass := .null, boundary := true
    block := .nil }

def takingContext : Context :=
  { stack := #[.nil, .int 7, .object ⟨2, 1⟩, .object ⟨3, 1⟩], frames := #[takingFrame] }

/-- What the call passes. -/
def takingArgs : Args :=
  { positional := [.int 7], keywords := [(.symbol ⟨7⟩, .int 6)], block := .object ⟨3, 1⟩ }

/-- The method, its keyword hash and its block. -/
def takingObjects : List Object :=
  [{ classHandle := .null
     content := .proc { unit := takingUnit, upper := none, env := none, targetClass := .null,
                        strict := true } },
    { classHandle := .null, content := .hash (.ofPairs (fun _ => .symbol ⟨7⟩) takingArgs.keywords) },
    { classHandle := .null
      content := .proc { unit := takingUnit, upper := none, env := none, targetClass := .null,
                         strict := false } }]

def takingMachine : Machine := .ofObjects takingObjects takingContext

/-- The machine after a number of instructions. -/
def takingAfter : Nat → Machine
  | 0 => takingMachine
  | count + 1 => (continued? (VM.step (.ofHosts #[] 0) 0 (takingAfter count))).getD default

theorem takingMachine_receives :
    takingMachine.Receives takingContext takingFrame [] true takingArgs where
  runs := by
    refine Machine.ofObjects_runsOn (by decide) fun frame member handle holds => ?_
    obtain rfl := List.mem_singleton.mp member
    rcases holds with isProc | isEnv
    · cases isProc
      exact ⟨_, rfl⟩
    · cases isEnv
  top := rfl
  strictness := rfl
  holds := ⟨rfl, ⟨⟨2, 1⟩, _, _, rfl, rfl, rfl, by decide⟩, rfl⟩
  positional value member := by
    obtain rfl := List.mem_singleton.mp member
    exact fun handle => nofun
  keys pair member := by
    obtain rfl := List.mem_singleton.mp member
    exact fun handle => nofun

theorem takingAfter_succ (count : Nat) (inside : count < 5) :
    VM.step (.ofHosts #[] 0) 0 (takingAfter count) = .ok none (takingAfter (count + 1)) := by
  have continues : ∀ count < 5,
      (continued? (VM.step (.ofHosts #[] 0) 0 (takingAfter count))).isSome = true := by
    decide +kernel
  exact eq_ok_of_continued? (continues count inside)

/-- What the code of the method collects is neither the effective arguments nor followed by the
dictionary, though no register of a parameter is assigned before: something has been pushed onto the
array of the rest parameter, and the array takes the place of the dictionary before this is read. -/
theorem collecting_may_miss_parameters :
    takingMachine.Receives takingContext takingFrame [] true takingArgs ∧
      takingFrame.given takingContext (.ofOperand 4098) takingArgs = [.int 7] ∧
      (∀ count < 5,
        VM.step (.ofHosts #[] 0) 0 (takingAfter count) = .ok none (takingAfter (count + 1))) ∧
      Outward.operand (.ofOperand 4098) 0 = 1040 ∧
      (∀ register < 4, (takingAfter 4).slot? register = (takingAfter 1).slot? register) ∧
      (takingAfter 4).slot? 2 = some (.object ⟨5, 1⟩) ∧
      (takingAfter 5).slot? 2 = some (.object ⟨6, 1⟩) ∧
      (takingAfter 5).slot? 3 = some (.object ⟨6, 1⟩) ∧
      ((takingAfter 5).heap.get? ⟨6, 1⟩).bind Object.array? = some #[.int 7, .int 9] := by
  refine ⟨takingMachine_receives, rfl, takingAfter_succ, ?_, ?_, ?_, ?_, ?_, ?_⟩ <;> decide +kernel

/-- The registers of the method once its arguments are bound. -/
def takingBound : Context :=
  ((takingAfter 1).context? (takingAfter 1).current).getD takingContext

theorem takingAfter_running :
    (takingAfter 1).context? (takingAfter 1).current = some takingBound := by
  have isSome : ((takingAfter 1).context? (takingAfter 1).current).isSome = true := by
    decide +kernel
  obtain ⟨context, running⟩ := Option.isSome_iff_exists.mp isSome
  rw [takingBound, running]
  rfl

/-- A block inside the method that collects the arguments. -/
def collectingUnit : CodeUnit :=
  { localCount := 1, registerCount := 4
    code := #[Opcode.argArray.toByte, 1, 4, 17]
    handlers := [], pool := #[], symbols := #[], children := [] }

def collectingFrame : Frame :=
  { base := 0, top := 4, proc := some ⟨7, 1⟩, unit := some collectingUnit, argCount := 0
    hasKeywords := false, method := some ⟨8⟩, owner := none, targetClass := .null, boundary := true
    block := .nil }

def collectingContext : Context := { stack := #[], frames := #[collectingFrame] }

/-- The variables that the method left behind. -/
def collectingVariables : Array Value := #[.nil, .object ⟨4, 1⟩, .object ⟨5, 1⟩, .object ⟨3, 1⟩]

/-- A machine that runs the block after the method was left. -/
def collectingMachine : Machine :=
  .ofObjects (takingObjects ++
    [{ classHandle := .null, content := .array #[.int 7] },
      { classHandle := .null
        content := .hash (.ofPairs (fun _ => .symbol ⟨7⟩) takingArgs.keywords) },
      { classHandle := .null
        content := .env { storage := .detached collectingVariables, method := some ⟨8⟩
                          owner := none } },
      { classHandle := .null
        content := .proc { unit := collectingUnit, upper := some ⟨1, 1⟩, env := some ⟨6, 1⟩
                           targetClass := .null, strict := false } }])
    collectingContext

theorem collectingMachine_seesParameters :
    collectingMachine.SeesParameters collectingContext collectingFrame [] (.ofOperand 4098)
      (fun register => takingBound.slot (takingFrame.base + register)) 4 1 none where
  runs := by
    refine Machine.ofObjects_runsOn (by decide) fun frame member handle holds => ?_
    obtain rfl := List.mem_singleton.mp member
    rcases holds with isProc | isEnv
    · cases isProc
      exact ⟨_, rfl⟩
    · cases isEnv
  top := rfl
  covers := by decide
  inside := by
    have same : ∀ register < 4, collectingVariables.getD register .nil =
        takingBound.slot (takingFrame.base + register) := by
      decide +kernel
    exact .block rfl (.own rfl rfl rfl) (.left rfl rfl rfl (fun register wanted =>
      same register (Nat.lt_succ_of_le wanted.2)) rfl)

/-- After the method was left, a block inside it collects the argument in an array, and behind it the
dictionary and the block that the method was given. -/
theorem outward_finds_parameters_left :
    (takingMachine.Receives takingContext takingFrame [] true takingArgs ∧
      VM.step (.ofHosts #[] 0) 0 takingMachine = .ok none (takingAfter 1)) ∧
    collectingMachine.SeesParameters collectingContext collectingFrame [] (.ofOperand 4098)
      (fun register => takingBound.slot (takingFrame.base + register)) 4 1 none ∧
    collectingMachine.CollectsArgs collectingFrame
      { op := .argArray, operands := { a := 1, b := 1041 }, address := 0, next := 4 }
      (.ofHosts #[] 0) 0 [.int 7] (some (takingBound.slot 2)) (.object ⟨3, 1⟩) := by
  have executes : takingFrame.Executes takingUnit
      { op := .enter, operands := { a := 4098 }, address := 0, next := 4 } .enter := ⟨rfl, rfl, rfl⟩
  have collects : collectingFrame.Executes collectingUnit
      { op := .argArray, operands := { a := 1, b := 1041 }, address := 0, next := 4 } .argArray :=
    ⟨rfl, rfl, rfl⟩
  have stepped := takingAfter_succ 0 (by decide)
  obtain ⟨effective, shares, isEffective, cuts, -, finds⟩ := outward_finds_parameters
    takingMachine_receives executes stepped takingAfter_running (by decide)
  obtain ⟨-, collected⟩ := finds collectingMachine collectingContext collectingFrame [] collectingUnit
    { op := .argArray, operands := { a := 1, b := 1041 }, address := 0, next := 4 } 1 none
    (.ofHosts #[] 0) 0 collectingMachine_seesParameters (by decide) (by decide)
  obtain rfl : effective = [.int 7] := by
    rcases isEffective with ⟨counts, -⟩ | ⟨isGiven, -⟩
    · cases counts
    · exact isGiven
  have isRest : [.int 7] = shares.rest := by
    have inOrder := cuts.inOrder
    rw [List.eq_nil_of_length_eq_zero cuts.required_length,
      List.eq_nil_of_length_eq_zero cuts.optional_length,
      List.eq_nil_of_length_eq_zero cuts.post_length, cuts.extra_eq (by decide)] at inOrder
    simpa using inOrder
  have isArray : collectingMachine.Collects (.ofOperand 4098)
      (fun register => takingBound.slot (takingFrame.base + register)) [.int 7] := by
    have isSlot : takingBound.slot 1 = .object ⟨4, 1⟩ := by decide +kernel
    exact ⟨⟨4, 1⟩, _, isSlot, rfl, rfl⟩
  obtain ⟨collects, isEffective⟩ := collected collects rfl nofun [.int 7] isArray
  rw [isEffective (by decide) (cuts.optional_length.trans (by decide)) isRest] at collects
  exact ⟨⟨takingMachine_receives, stepped⟩, collectingMachine_seesParameters, collects⟩

end RiteVm
