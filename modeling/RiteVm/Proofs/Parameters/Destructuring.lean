import RiteVm.Proofs.Parameters.Bodies

/-!
Contract: taking a value apart loses no item and repeats none.

Owns:
- the items of a value, and how they fall on targets in front, on an array and on targets behind;
- code that reads the items in front one by one and then takes the value apart;
- the registers that such code leaves, for every value and every number of targets.

The two instructions decide on their own where an item belongs, so that they agree is a theorem
about lists. The second one overwrites its source before it writes the targets behind it. Between
two instructions the collector may run.
-/

namespace RiteVm

open RiteVm.Bytecode

/-! ### Items and targets -/

/-- The items that a value is taken apart into. A value that is no array is a single item. -/
inductive Heap.Lists (heap : Heap) : Value → List Value → Prop where
  | array {value : Value} {items : List Value} (holds : heap.HoldsArray value items) :
      Lists heap value items
  | single {value : Value} (resolves : heap.Resolves value)
      (noArray : ∀ items, ¬ heap.HoldsArray value items) : Lists heap value [value]

/-- Targets in front, an array and targets behind it hold the items in order. Where there are too few
items, the array is empty and the last targets are nil. -/
structure Distributes (items front middle back : List Value) : Prop where
  enough : front.length + back.length ≤ items.length → front ++ middle ++ back = items
  tooFew : items.length < front.length + back.length →
    middle = [] ∧ front ++ back = padNil items (front.length + back.length)

/-- The items from a position on, one for each target; nil where there is none. -/
def itemsFrom (items : List Value) (position count : Nat) : List Value :=
  (List.range' position count).map fun index => items.getD index .nil

section Splitting

variable (items : List Value) (position before after : Nat)

theorem length_itemsFrom : (itemsFrom items position after).length = after := by
  rw [itemsFrom, List.length_map, List.length_range']

theorem itemsFrom_eq :
    itemsFrom items position after = padNil ((items.drop position).take after) after := by
  refine List.ext_getElem? fun index => ?_
  rw [itemsFrom, padNil, List.getElem?_map, List.getElem?_append, List.length_take, List.length_drop]
  by_cases inside : index < after
  · rw [List.getElem?_range' inside, Option.map_some, Nat.one_mul]
    split
    · rename_i isItem
      rw [List.getElem?_take, if_pos inside, List.getElem?_drop,
        List.getD_eq_getElem?_getD, List.getElem?_eq_getElem (by omega), Option.getD_some]
    · rename_i notItem
      rw [List.getElem?_replicate, if_pos (by omega), List.getD_eq_getElem?_getD,
        List.getElem?_eq_none (by omega), Option.getD_none]
  · rw [List.getElem?_eq_none (by simp; omega), if_neg (by omega), List.getElem?_replicate,
      if_neg (by omega)]
    rfl

/-- The two instructions agree on where each item belongs. -/
theorem distributes_splitRest :
    Distributes items (itemsFrom items 0 before) (VM.splitRest items before after).1
      (VM.splitRest items before after).2 := by
  have isFront := itemsFrom_eq items 0 before
  rw [List.drop_zero] at isFront
  rw [VM.splitRest]
  split
  · rename_i more
    have isBack : (items.drop (items.length - after)).length = after := by
      rw [List.length_drop]
      omega
    have full : itemsFrom items 0 before = items.take before :=
      isFront.trans (padNil_of_length (by rw [List.length_take]; omega))
    have isStart : items.take before = (items.take (items.length - after)).take before := by
      rw [List.take_take, Nat.min_eq_left (by omega)]
    refine ⟨fun _ => ?_, fun tooFew => ?_⟩
    · rw [full, isStart, List.take_append_drop, List.take_append_drop]
    · rw [length_itemsFrom, isBack] at tooFew
      omega
  · rename_i few
    have isBack : (List.range after).map (fun offset => items.getD (before + offset) .nil) =
        itemsFrom items before after := by
      rw [itemsFrom, List.range'_eq_map_range, List.map_map]
      rfl
    have rest : (items.drop before).take after = items.drop before :=
      List.take_of_length_le (by rw [List.length_drop]; omega)
    have whole : itemsFrom items 0 before ++ itemsFrom items before after =
        padNil items (before + after) := by
      rw [isFront, itemsFrom_eq, rest, ← padNil_append, List.take_append_drop]
      · rw [List.length_take]
        omega
      · intro isShort
        rw [List.length_take] at isShort
        exact List.drop_eq_nil_of_le (by omega)
    rw [isBack]
    refine ⟨fun enough => ?_, fun _ => ⟨rfl, ?_⟩⟩
    · rw [length_itemsFrom, length_itemsFrom] at enough
      rw [List.append_nil, whole, padNil_of_length (by omega)]
    · rw [whole, length_itemsFrom, length_itemsFrom]

theorem length_splitRest_snd : (VM.splitRest items before after).2.length = after := by
  rw [VM.splitRest]
  split
  · rw [List.length_drop]
    omega
  · rw [List.length_map, List.length_range]

end Splitting

/-! ### Reading items -/

namespace Heap.Lists

variable {heap after : Heap} {value : Value} {items : List Value}

theorem exists_of_resolves (resolves : heap.Resolves value) : ∃ items, heap.Lists value items := by
  by_cases isArray : ∃ items, heap.HoldsArray value items
  · obtain ⟨items, holds⟩ := isArray
    exact ⟨items, .array holds⟩
  · exact ⟨[value], .single resolves fun items holds => isArray ⟨items, holds⟩⟩

/-- The items depend on the object of the value alone. -/
theorem of_kept (lists : heap.Lists value items)
    (kept : ∀ handle, value = .object handle → after.get? handle = heap.get? handle) :
    after.Lists value items := by
  cases lists with
  | array holds =>
      obtain ⟨handle, object, rfl, found, isArray⟩ := holds
      exact .array ⟨handle, object, rfl, (kept handle rfl).trans found, isArray⟩
  | single resolves noArray =>
      refine .single (fun handle isValue => ?_) ?_
      · obtain ⟨object, found⟩ := resolves handle isValue
        exact ⟨object, (kept handle isValue).trans found⟩
      · rintro items ⟨handle, object, isValue, found, isArray⟩
        exact noArray items ⟨handle, object, isValue, (kept handle isValue).symm.trans found, isArray⟩

end Heap.Lists

namespace VM

variable {machine next : Machine} {context context' : Context} {value : Value} {items : List Value}

theorem itemsOf_of_lists (lists : machine.heap.Lists value items) :
    itemsOf value machine = .ok items := by
  cases lists with
  | array holds =>
      rw [itemsOf, Query.bind_of_ok (Query.array?_of_holds holds)]
      rfl
  | single resolves noArray =>
      obtain ⟨items?, read, isArray⟩ := Query.array?_of_resolves resolves
      rw [itemsOf, Query.bind_of_ok read]
      cases items? with
      | none => rfl
      | some array => exact absurd ((isArray array.toList).mpr rfl) (noArray _)

theorem destructuredItem_of_lists (lists : machine.heap.Lists value items) (index : Nat) :
    destructuredItem value index machine = .ok (items.getD index .nil) := by
  rw [destructuredItem, Query.bind_of_ok (itemsOf_of_lists lists)]
  rfl

/-- Slots behind those that are written stay as they are. -/
theorem slot_of_setSlots {values : List Value} {first index : Nat} (runs : machine.RunsOn context)
    (stored : setSlots first values machine = .ok () next)
    (running : next.context? machine.current = some context')
    (behind : first + values.length ≤ index) : context'.slot index = context.slot index := by
  induction values generalizing machine context first with
  | nil =>
      obtain rfl := (EStateM.Result.ok.inj stored).2
      rw [Option.some.inj (runs.running.symm.trans running)]
  | cons value rest inductionHypothesis =>
      obtain ⟨middle, isStored, -, fills⟩ := setSlot_fills runs first value
      have storedRest : setSlots (first + 1) rest middle = .ok () next :=
        (bind_of_ok isStored).symm.trans stored
      rw [List.length_cons] at behind
      rw [inductionHypothesis fills.runs storedRest (fills.current ▸ running) (by omega),
        Context.slot_setSlot_of_ne _ _ (by omega)]

/-- Taking a value apart writes its register with a new array, and the registers behind it with the last
items. -/
theorem executeDestructure_of_lists {base register : Nat} (runs : machine.RunsOn context)
    (isRegister : context.slot (base + register) = value) (lists : machine.heap.Lists value items)
    (before after : Nat) :
    ∃ next context' created, executeDestructure base register before after machine = .ok () next ∧
      machine.Fills (base + register) id context next context' ∧
      machine.Alters none created ∧ next.heap = created.heap ∧
      next.heap.HoldsArray (context'.slot (base + register)) (splitRest items before after).1 ∧
      (List.range' (base + register + 1) after).map context'.slot =
        (splitRest items before after).2 ∧
      ∀ index, base + register + after < index → context'.slot index = context.slot index := by
  obtain ⟨middle, created, creates, alters, holdsMiddle⟩ := newArray_alters runs.wellFormed
    (splitRest items before after).1
  have fills := Machine.Fills.of_alters runs alters (base + register)
  obtain ⟨placed, isPlaced, samePlaced, fillsOne⟩ := setSlot_fills fills.runs (base + register) middle
  obtain ⟨next, context', isStored, sameStored, fillsRest, isBack⟩ := setSlots_fills fillsOne.runs
    (base + register + 1) (splitRest items before after).2
  have sameHeap := sameStored.trans samePlaced
  have isRead := liftM_of_ok (Query.register_of_runsOn runs base register)
  rw [isRegister] at isRead
  have executes : executeDestructure base register before after machine = .ok () next := by
    rw [executeDestructure, bind_of_ok isRead, bind_of_ok (liftM_of_ok (itemsOf_of_lists lists))]
    dsimp only
    rw [bind_of_ok creates, setRegister, bind_of_ok isPlaced, isStored]
  refine ⟨next, context', created, executes,
    (fills.trans fillsOne (Nat.le_refl _)).trans fillsRest (by omega), alters, sameHeap, ?_, ?_, ?_⟩
  · rw [fillsRest.slots _ (by omega), Context.slot_setSlot, sameHeap]
    exact holdsMiddle
  · rwa [length_splitRest_snd] at isBack
  · intro index behind
    rw [slot_of_setSlots fillsOne.runs isStored (fillsRest.current ▸ fillsRest.runs.running)
      (by rw [length_splitRest_snd]; omega), Context.slot_setSlot_of_ne _ _ (by omega)]

section Executions

variable {engine : Engine} {stop : Nat} {frame : Frame} {unit : CodeUnit} {instruction : Instruction}

theorem execute_arrayRef (isOp : instruction.op = .arrayRef) :
    execute { engine, stop, frame, unit } instruction = (do
      let value ← Query.register frame.base instruction.operands.b
      let item ← destructuredItem value instruction.operands.c
      setRegister frame.base instruction.operands.a item
      return none) := by
  obtain ⟨op, ⟨a, b, c⟩, address, next⟩ := instruction
  obtain rfl : op = .arrayRef := isOp
  rfl

theorem execute_arrayPost (isOp : instruction.op = .arrayPost) :
    execute { engine, stop, frame, unit } instruction = (do
      executeDestructure frame.base instruction.operands.a instruction.operands.b
        instruction.operands.c
      return none) := by
  obtain ⟨op, ⟨a, b, c⟩, address, next⟩ := instruction
  obtain rfl : op = .arrayPost := isOp
  rfl

end Executions

end VM

/-! ### Frames that take a value apart -/

/-- The frame on top has a value in two registers, which may be the same. The object of the value is as
it was in an earlier heap, and the other objects of that heap have been spared. -/
structure Machine.TakesApart (machine : Machine) (start : Heap) (context : Context) (frame : Frame)
    (below : List Frame) (source register : Nat) (value : Value) (items : List Value) : Prop where
  runs : machine.RunsOn context
  top : context.activations = frame :: below
  inside : frame.base + register < frame.top
  isSource : context.slot (frame.base + source) = value
  isRegister : context.slot (frame.base + register) = value
  lists : machine.heap.Lists value items
  kept : ∀ handle, value = .object handle → machine.heap.get? handle = start.get? handle
  spares : start.Spares machine.heap

namespace Machine.TakesApart

variable {machine next : Machine} {start : Heap} {context : Context} {frame : Frame}
  {below : List Frame} {source register : Nat} {value : Value} {items : List Value} {unit : CodeUnit}
  {instruction : Instruction}

/-- A collection finds the value in use. -/
theorem collectedIfDue
    (takes : machine.TakesApart start context frame below source register value items) :
    machine.collectedIfDue.TakesApart start context frame below source register value items := by
  have same : ∀ handle, value = .object handle →
      machine.collectedIfDue.heap.get? handle = machine.heap.get? handle := by
    intro handle isValue
    rw [Machine.collectedIfDue]
    split
    · exact takes.runs.get?_collect (Context.refersTo_slot (by simp [takes.top]) takes.inside
        (takes.isRegister.trans isValue))
    · rfl
  exact
    { takes with
      runs := takes.runs.collectedIfDue
      lists := takes.lists.of_kept same
      kept := fun handle isValue => (same handle isValue).trans (takes.kept handle isValue)
      spares := takes.spares.collectedIfDue }

theorem fetched (takes : machine.TakesApart start context frame below source register value items)
    (pc : Nat) :
    (machine.fetched pc).TakesApart start (context.modifyTop fun frame => { frame with pc })
      { frame with pc } below source register value items :=
  { takes with
    runs := (takes.runs.fetched takes.top pc).1
    top := (takes.runs.fetched takes.top pc).2 }

theorem withArena (takes : machine.TakesApart start context frame below source register value items)
    (arena : Array Handle) :
    (machine.withArena arena).TakesApart start context frame below source register value items :=
  { takes with
    runs := takes.runs.withArena arena
    lists := takes.lists.of_kept fun _ _ => rfl }

/-- Another register is written. -/
theorem setSlot (takes : machine.TakesApart start context frame below source register value items)
    (index : Nat) (notSource : index ≠ frame.base + source)
    (notRegister : index ≠ frame.base + register) (stored : Value) :
    ∃ next, VM.setSlot index stored machine = .ok () next ∧
      next.TakesApart start (context.setSlot index stored) frame below source register value
        items := by
  obtain ⟨next, isStored, sameHeap, fills⟩ := VM.setSlot_fills takes.runs index stored
  refine ⟨next, isStored,
    { takes with
      runs := fills.runs
      top := fills.frames _ _ takes.top
      isSource := (Context.slot_setSlot_of_ne _ _ notSource.symm).trans takes.isSource
      isRegister := (Context.slot_setSlot_of_ne _ _ notRegister.symm).trans takes.isRegister
      lists := sameHeap ▸ takes.lists
      kept := sameHeap ▸ takes.kept
      spares := sameHeap ▸ takes.spares }⟩

/-- An item is read into a register, and nothing else changes. -/
theorem step_arrayRef
    (takes : machine.TakesApart start context frame below source register value items)
    (executes : frame.Executes unit instruction .arrayRef)
    (isSource : instruction.operands.b = source) (notSource : instruction.operands.a ≠ source)
    (notRegister : instruction.operands.a ≠ register) (engine : Engine) (stop : Nat) :
    ∃ next context', VM.step engine stop machine = .ok none next ∧
      next.TakesApart start context' { frame with pc := instruction.next } below source register value
        items ∧
      context'.slot (frame.base + instruction.operands.a) =
        items.getD instruction.operands.c .nil ∧
      ∀ index, index ≠ frame.base + instruction.operands.a →
        context'.slot index = context.slot index := by
  have stepped : VM.step engine stop machine = _ :=
    VM.step_eq takes.runs takes.top executes.isUnit executes.decoded
  have fetched := takes.fetched instruction.next
  have isRead := VM.liftM_of_ok
    (Query.register_of_runsOn fetched.runs frame.base instruction.operands.b)
  rw [isSource, show Context.slot _ (frame.base + source) = value from fetched.isSource] at isRead
  have isItem := VM.liftM_of_ok
    (VM.destructuredItem_of_lists fetched.lists instruction.operands.c)
  obtain ⟨next, stored, takesNext⟩ := fetched.setSlot (frame.base + instruction.operands.a)
    (by dsimp only; omega) (by dsimp only; omega) (items.getD instruction.operands.c .nil)
  rw [VM.execute_arrayRef executes.isOp, isSource, VM.bind_of_ok isRead, VM.bind_of_ok isItem] at stepped
  refine ⟨next, _, stepped.trans (VM.bind_of_ok stored), takesNext, Context.slot_setSlot _ _ _, ?_⟩
  intro index isOther
  exact Context.slot_setSlot_of_ne _ _ isOther

/-- The items in the middle replace the value, and the last ones follow. -/
theorem step_arrayPost
    (takes : machine.TakesApart start context frame below source register value items)
    (executes : frame.Executes unit instruction .arrayPost)
    (isRegister : instruction.operands.a = register) (engine : Engine) (stop : Nat) :
    ∃ next context', VM.step engine stop machine = .ok none next ∧ next.RunsOn context' ∧
      context'.activations = { frame with pc := instruction.next } :: below ∧
      next.heap.HoldsArray (context'.slot (frame.base + register))
        (VM.splitRest items instruction.operands.b instruction.operands.c).1 ∧
      (List.range' (frame.base + register + 1) instruction.operands.c).map context'.slot =
        (VM.splitRest items instruction.operands.b instruction.operands.c).2 ∧
      (∀ index, index < frame.base + register ∨
          frame.base + register + instruction.operands.c < index →
        context'.slot index = context.slot index) ∧
      (∀ handle object, value = .object handle → start.get? handle = some object →
        next.heap.get? handle = some object) ∧
      start.Spares next.heap := by
  have stepped : VM.step engine stop machine = _ :=
    VM.step_eq takes.runs takes.top executes.isUnit executes.decoded
  have fetched := takes.fetched instruction.next
  obtain ⟨next, context', created, destructures, fills, alters, sameHeap, holdsMiddle, isBack, behind⟩ :=
    VM.executeDestructure_of_lists fetched.runs fetched.isRegister fetched.lists
      instruction.operands.b instruction.operands.c
  rw [VM.execute_arrayPost executes.isOp, isRegister] at stepped
  refine ⟨next, context', stepped.trans (VM.bind_of_ok destructures), fills.runs,
    fills.frames _ _ fetched.top, holdsMiddle, isBack, ?_, ?_, ?_⟩
  · rintro index (isBefore | isBehind)
    · exact fills.slots index isBefore
    · exact behind index isBehind
  · intro handle object isValue found
    rw [sameHeap]
    exact alters.others handle object nofun ((fetched.kept handle isValue).trans found)
  · rw [sameHeap]
    exact fetched.spares.alters_none alters

end Machine.TakesApart

/-! ### Code that takes a value apart -/

/-- From an address on, code reads the items of a register from a position on, one into each target, and
then takes a register apart into an array and the registers behind it. -/
inductive Bytecode.CodeUnit.Destructures (unit : CodeUnit) (source register after behind : Nat) :
    Nat → Nat → List Nat → Prop where
  | item {pc position target : Nat} {instruction : Instruction} {targets : List Nat}
      (decoded : instructionAt? unit.code pc = some instruction) (isOp : instruction.op = .arrayRef)
      (operands : instruction.operands = { a := target, b := source, c := position })
      (rest : Destructures unit source register after behind instruction.next (position + 1)
        targets) :
      Destructures unit source register after behind pc position (target :: targets)
  | rest {pc position : Nat} {instruction : Instruction}
      (decoded : instructionAt? unit.code pc = some instruction) (isOp : instruction.op = .arrayPost)
      (operands : instruction.operands = { a := register, b := position, c := after })
      (isBehind : instruction.next = behind) :
      Destructures unit source register after behind pc position []

/-- As many cycles pass, one after the other. -/
inductive VM.PassesTimes (engine : Engine) (stop : Nat) : Nat → Machine → Machine → Prop where
  | none (machine : Machine) : PassesTimes engine stop 0 machine machine
  | next {count : Nat} {machine next last : Machine} (first : Passes engine stop machine next)
      (rest : PassesTimes engine stop count next last) :
      PassesTimes engine stop (count + 1) machine last

/-- What the registers of a frame hold when a value has been taken apart. -/
structure Machine.HoldsParts (machine : Machine) (context : Context) (base : Nat) (targets : List Nat)
    (register after : Nat) (front middle back : List Value) : Prop where
  front : targets.map (fun target => context.slot (base + target)) = front
  middle : machine.heap.HoldsArray (context.slot (base + register)) middle
  back : (List.range' (base + register + 1) after).map context.slot = back

/-- A frame has taken a value apart. No other slots were written, the object of the value is as it
was, and the other objects have been spared. -/
structure Machine.TookApart (machine : Machine) (start : Heap) (before : Context) (frame : Frame)
    (below : List Frame) (targets : List Nat) (register after : Nat) (value : Value)
    (context : Context) (front middle back : List Value) : Prop where
  runs : machine.RunsOn context
  top : context.activations = frame :: below
  parts : machine.HoldsParts context frame.base targets register after front middle back
  others : ∀ index, (∀ target ∈ targets, index ≠ frame.base + target) →
    index < frame.base + register ∨ frame.base + register + after < index →
    context.slot index = before.slot index
  kept : ∀ handle object, value = .object handle → start.get? handle = some object →
    machine.heap.get? handle = some object
  spares : start.Spares machine.heap

section Runs

variable {machine : Machine} {start : Heap} {context : Context} {frame : Frame} {below : List Frame}
  {unit : CodeUnit} {source register after behind pc position : Nat} {targets : List Nat}
  {value : Value} {items : List Value}

/-- By induction on the code: each item that is read stays in its target. -/
theorem VM.passes_destructures
    (code : unit.Destructures source register after behind pc position targets)
    (takes : machine.TakesApart start context frame below source register value items)
    (isUnit : frame.unit = some unit) (isPc : frame.pc = pc) (distinct : targets.Nodup)
    (notSource : source ∉ targets)
    (apart : ∀ target ∈ targets, target < register ∨ register + after < target) (engine : Engine)
    (stop : Nat) :
    ∃ last context', PassesTimes engine stop (targets.length + 1) machine last ∧
      last.TookApart start context { frame with pc := behind } below targets register after value
        context' (itemsFrom items position targets.length)
        (splitRest items (position + targets.length) after).1
        (splitRest items (position + targets.length) after).2 := by
  induction code generalizing machine context frame with
  | @rest pc position instruction decoded isOp operands isBehind =>
      have executes : frame.Executes unit instruction .arrayPost := ⟨isUnit, isPc ▸ decoded, isOp⟩
      obtain ⟨next, context', stepped, runs, top, middle, back, others, kept, spares⟩ :=
        takes.collectedIfDue.step_arrayPost executes (congrArg Operands.a operands) engine stop
      obtain ⟨arena, passes⟩ := VM.passes_of_step stepped
      rw [operands] at middle back others
      subst isBehind
      refine ⟨next.withArena arena, context', .next passes (.none _), ?_⟩
      exact
        { runs := runs.withArena arena
          top
          parts := ⟨rfl, middle, back⟩
          others := fun index _ => others index
          kept
          spares }
  | @item pc position target instruction targets decoded isOp operands _ inductionHypothesis =>
      have executes : frame.Executes unit instruction .arrayRef := ⟨isUnit, isPc ▸ decoded, isOp⟩
      obtain ⟨isNew, distinct⟩ := List.nodup_cons.mp distinct
      obtain ⟨isOther, notSource⟩ := not_or.mp (mt List.mem_cons.mpr notSource)
      have beside := apart target List.mem_cons_self
      obtain ⟨next, read, stepped, takesNext, isItem, sameOthers⟩ :=
        takes.collectedIfDue.step_arrayRef executes (congrArg Operands.b operands)
          (by rw [operands]; exact Ne.symm isOther) (by rw [operands]; dsimp only; omega) engine stop
      rw [operands] at isItem sameOthers
      obtain ⟨arena, passes⟩ := VM.passes_of_step stepped
      obtain ⟨last, context', passesRest, took⟩ := inductionHypothesis (takesNext.withArena arena)
        isUnit rfl distinct notSource
        (fun other member => apart other (List.mem_cons_of_mem _ member))
      have isTarget : context'.slot (frame.base + target) = items.getD position .nil := by
        refine (took.others (frame.base + target) (fun other member same => ?_) ?_).trans isItem
        · dsimp only at same
          obtain rfl : target = other := by omega
          exact isNew member
        · dsimp only
          omega
      have isCount : position + (target :: targets).length = position + 1 + targets.length := by
        rw [List.length_cons]
        omega
      refine ⟨last, context', .next passes passesRest, ?_⟩
      rw [isCount]
      refine { took with parts := { took.parts with front := ?_ }, others := ?_ }
      · rw [List.map_cons, isTarget, took.parts.front, List.length_cons, itemsFrom, itemsFrom,
          List.range'_succ, List.map_cons]
      · intro index notTarget outside
        rw [took.others index (fun other member => notTarget other (List.mem_cons_of_mem _ member))
          outside]
        exact sameOthers index (notTarget target List.mem_cons_self)

/-- Destructuring loses no item and repeats none. Whatever a value is, and however many targets there are in
front and behind, code that reads the items in front and then takes the value apart passes. If there
are enough items, the targets in front, the new array and the targets behind it hold all of them in order.
Otherwise the array is empty, the items fill the targets from the left, and the other targets are nil.
The value itself is not modified. -/
theorem destructuring_distributes_items (runs : machine.RunsOn context)
    (top : context.activations = frame :: below) (isUnit : frame.unit = some unit)
    (code : unit.Destructures source register after behind frame.pc 0 targets)
    (inside : frame.base + register < frame.top)
    (isSource : context.slot (frame.base + source) = value)
    (isRegister : context.slot (frame.base + register) = value)
    (resolves : machine.heap.Resolves value) (distinct : targets.Nodup)
    (notSource : source ∉ targets)
    (apart : ∀ target ∈ targets, target < register ∨ register + after < target) (engine : Engine)
    (stop : Nat) :
    ∃ items front middle back last context', machine.heap.Lists value items ∧
      VM.PassesTimes engine stop (targets.length + 1) machine last ∧
      last.TookApart machine.heap context { frame with pc := behind } below targets register after
        value context' front middle back ∧
      front.length = targets.length ∧ back.length = after ∧
      Distributes items front middle back := by
  obtain ⟨items, lists⟩ := Heap.Lists.exists_of_resolves resolves
  have takes : machine.TakesApart machine.heap context frame below source register value items :=
    { runs, top, inside, isSource, isRegister, lists
      kept := fun _ _ => rfl
      spares := .of_extends (.refl _) }
  obtain ⟨last, context', passes, took⟩ :=
    VM.passes_destructures code takes isUnit rfl distinct notSource apart engine stop
  rw [Nat.zero_add] at took
  exact ⟨items, _, _, _, last, context', lists, passes, took, length_itemsFrom _ _ _,
    length_splitRest_snd _ _ _, distributes_splitRest _ _ _⟩

end Runs

/-- Code with one target in front of the array and two behind it. -/
def partingUnit : CodeUnit :=
  { localCount := 1, registerCount := 6
    code := #[Opcode.arrayRef.toByte, 4, 1, 0, Opcode.arrayPost.toByte, 1, 1, 2]
    handlers := [], pool := #[], symbols := #[], children := [] }

theorem partingUnit_destructures : partingUnit.Destructures 1 1 2 8 0 0 [4] := by
  have reads : instructionAt? partingUnit.code 0 =
    some { op := .arrayRef, operands := { a := 4, b := 1, c := 0 }, address := 0, next := 4 } := rfl
  have parts : instructionAt? partingUnit.code 4 =
    some { op := .arrayPost, operands := { a := 1, b := 1, c := 2 }, address := 4, next := 8 } := rfl
  exact .item reads rfl rfl (.rest parts rfl rfl rfl)

def partingFrame : Frame :=
  { base := 0, top := 6, proc := some ⟨1, 1⟩, unit := some partingUnit, argCount := 0
    hasKeywords := false, method := none, owner := none, targetClass := .null, boundary := true
    block := .nil }

def partingContext : Context := { stack := #[.nil, .object ⟨2, 1⟩], frames := #[partingFrame] }

/-- A machine with the code and an array of items. -/
def partingMachine (items : Array Value) : Machine :=
  .ofObjects
    [{ classHandle := .null
       content := .proc { unit := partingUnit, upper := none, env := none, targetClass := .null,
                          strict := true } },
      { classHandle := .null, content := .array items }]
    partingContext

theorem partingMachine_runsOn (items : Array Value) :
    (partingMachine items).RunsOn partingContext := by
  refine Machine.ofObjects_runsOn (by simp [Object.fiber?]) fun frame member handle holds => ?_
  obtain rfl := List.mem_singleton.mp member
  rcases holds with isProc | isEnv
  · cases isProc
    exact ⟨_, rfl⟩
  · cases isEnv

/-- Four items leave one for the array. -/
theorem destructuring_distributes_items_four :
    (partingMachine #[.int 5, .int 6, .int 7, .int 8]).RunsOn partingContext ∧
      partingUnit.Destructures 1 1 2 8 0 0 [4] ∧
      ∃ front middle back last context',
        VM.PassesTimes (.ofHosts #[] 0) 0 2 (partingMachine #[.int 5, .int 6, .int 7, .int 8]) last ∧
        last.HoldsParts context' 0 [4] 1 2 front middle back ∧
        front ++ middle ++ back = [.int 5, .int 6, .int 7, .int 8] := by
  have runs := partingMachine_runsOn #[.int 5, .int 6, .int 7, .int 8]
  have isArray : (partingMachine #[.int 5, .int 6, .int 7, .int 8]).heap.HoldsArray (.object ⟨2, 1⟩)
      [.int 5, .int 6, .int 7, .int 8] := ⟨_, _, rfl, rfl, rfl⟩
  refine ⟨runs, partingUnit_destructures, ?_⟩
  obtain ⟨items, front, middle, back, last, context', lists, passes, took, isFront, isBack,
    distributes⟩ := destructuring_distributes_items runs rfl rfl partingUnit_destructures (by decide)
      rfl rfl (by rintro handle ⟨⟩; exact ⟨_, rfl⟩) (by decide) (by decide) (by decide)
      (.ofHosts #[] 0) 0
  obtain rfl : items = [.int 5, .int 6, .int 7, .int 8] := by
    cases lists with
    | array holds => exact holds.unique isArray
    | single _ noArray => exact absurd isArray (noArray _)
  exact ⟨front, middle, back, last, context', passes, took.parts,
    distributes.enough (by rw [isFront, isBack]; decide)⟩

end RiteVm
