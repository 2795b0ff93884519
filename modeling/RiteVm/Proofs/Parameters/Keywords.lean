import RiteVm.Proofs.Custody.Steps
import RiteVm.Proofs.Parameters.Entry
import RiteVm.Proofs.Symbols.Interning

/-!
Contract: taking keywords out of the dictionary of a frame.

Owns:
- keywords by name, and what is left of them when some names are taken;
- dictionaries whose keys are the symbols of names;
- frames that wait to take keywords, with objects around them that stay as they are;
- the instructions that take a keyword, ask for one and check that none is left.

Does not own: in which order the instructions of a body come.
-/

namespace RiteVm

open RiteVm.Bytecode

/-! ### Keywords by name -/

/-- The values of keywords in order. -/
abbrev Keywords := List (Bytes × Value)

namespace Keywords

variable {keywords : Keywords} {name : Bytes} {taken : List Bytes}

/-- The value of a keyword. -/
def value? (keywords : Keywords) (name : Bytes) : Option Value :=
  (keywords.find? (·.1 = name)).map Prod.snd

/-- The keywords with other names. -/
def without (keywords : Keywords) (names : List Bytes) : Keywords :=
  keywords.filter (·.1 ∉ names)

/-- The keywords without one. -/
def erase (keywords : Keywords) (name : Bytes) : Keywords := keywords.eraseP (·.1 = name)

theorem without_nil (keywords : Keywords) : keywords.without [] = keywords :=
  List.filter_eq_self.mpr fun _ _ => rfl

theorem value?_eq_none_iff : keywords.value? name = none ↔ name ∉ keywords.map Prod.fst := by
  rw [value?, Option.map_eq_none_iff, List.find?_eq_none]
  constructor
  · rintro absent member
    obtain ⟨keyword, isKeyword, rfl⟩ := List.mem_map.mp member
    exact absent keyword isKeyword (by simp)
  · intro absent keyword isKeyword same
    exact absent (of_decide_eq_true same ▸ List.mem_map_of_mem isKeyword)

/-- A name that is not taken has the value that it had. -/
theorem value?_without (notTaken : name ∉ taken) :
    (keywords.without taken).value? name = keywords.value? name := by
  rw [value?, value?, without, List.find?_filter]
  congr 2
  funext keyword
  by_cases same : keyword.1 = name
  · simp [same, notTaken]
  · simp [same]

/-- Keywords have different names, so one more is taken by erasing one. -/
theorem erase_without (distinct : (keywords.map Prod.fst).Nodup) (taken : List Bytes) (name : Bytes) :
    (keywords.without taken).erase name = keywords.without (taken ++ [name]) := by
  have kept (left : Keywords) (distinct : (left.map Prod.fst).Nodup) :
      left.erase name = left.filter (·.1 ≠ name) := by
    induction left with
    | nil => rfl
    | cons keyword rest inductionHypothesis =>
        obtain ⟨isNew, distinct⟩ := List.nodup_cons.mp distinct
        rw [erase, List.eraseP_cons, List.filter_cons]
        by_cases same : keyword.1 = name
        · have allKept : rest.filter (fun other => decide (¬ other.1 = name)) = rest := by
            refine List.filter_eq_self.mpr fun other member => decide_eq_true fun isName => isNew ?_
            rw [same, ← isName]
            exact List.mem_map_of_mem member
          simp only [same, decide_true, cond_true, ne_eq, not_true_eq_false, decide_false,
            Bool.false_eq_true, if_false]
          exact allKept.symm
        · simp only [same, decide_false, cond_false, ne_eq, not_false_eq_true, decide_true, if_true]
          exact congrArg _ (inductionHypothesis distinct)
  have fewer : ((keywords.without taken).map Prod.fst).Nodup :=
    distinct.sublist (List.filter_sublist.map _)
  rw [kept _ fewer, without, without, List.filter_filter]
  congr 1
  funext keyword
  by_cases isTaken : keyword.1 ∈ taken <;> by_cases same : keyword.1 = name <;>
    simp [isTaken, same]

end Keywords

/-- The message about a keyword that was not passed. -/
def missingMessage (name : Bytes) : String := s!"missing keyword: {Text.lossy name}"

/-- The message about a keyword that was passed for nothing. It shows the symbol. -/
def unknownMessage (name : Bytes) : String :=
  let shown := s!":{Text.lossy name}"
  s!"unknown keyword: {shown}"

/-! ### Dictionaries with symbols for keys -/

/-- The keys of pairs are the symbols of names. -/
def SymbolTable.Spells (table : SymbolTable) (pairs : List (Value × Value)) (keywords : Keywords) :
    Prop :=
  List.Forall₂ (fun pair keyword => ∃ symbol, table.lookup? keyword.1 = some symbol ∧
    pair = (.symbol symbol, keyword.2)) pairs keywords

namespace SymbolTable.Spells

variable {table : SymbolTable} {pairs : List (Value × Value)} {keywords : Keywords} {name : Bytes}
  {symbol : Symbol} {machine : Machine}

theorem intern (spells : table.Spells pairs keywords) (faithful : table.Faithful) (name : Bytes) :
    (table.intern name).1.Spells pairs keywords := by
  refine List.Forall₂.imp ?_ spells
  rintro pair keyword ⟨symbol, isSymbol, rfl⟩
  exact ⟨symbol, faithful.lookup?_intern_of_some isSymbol name, rfl⟩

/-- Such keys have the same digest in every machine. -/
theorem digest_eq (spells : table.Spells pairs keywords) (machine other : Machine) :
    ∀ pair ∈ pairs, machine.digest pair.1 = other.digest pair.1 := by
  induction spells with
  | nil => exact fun _ => nofun
  | cons head _ inductionHypothesis =>
      obtain ⟨symbol, -, rfl⟩ := head
      rintro pair (_ | ⟨_, member⟩)
      · rfl
      · exact inductionHypothesis pair member

/-- Key and name agree on which pair is meant. -/
theorem hasDigest_eq (faithful : table.Faithful) (isSymbol : table.lookup? name = some symbol)
    {other : Bytes} {otherSymbol : Symbol} (isOther : table.lookup? other = some otherSymbol)
    (machine : Machine) :
    OrderedHash.hasDigest machine.digest (machine.digest (.symbol symbol)) (.symbol otherSymbol) =
      decide (other = name) := by
  have sameDigest : machine.digest (.symbol otherSymbol) = machine.digest (.symbol symbol) ↔
      otherSymbol = symbol := by
    constructor
    · exact fun same => KeyDigest.symbol.inj same
    · exact congrArg _
  rw [OrderedHash.hasDigest, decide_eq_decide, sameDigest]
  constructor
  · rintro rfl
    exact faithful.eq_of_lookup? isOther isSymbol
  · rintro rfl
    exact Option.some.inj (isOther.symm.trans isSymbol)

theorem lookup_eq (spells : table.Spells pairs keywords) (faithful : table.Faithful)
    (isSymbol : table.lookup? name = some symbol) (machine : Machine) :
    Association.lookup (OrderedHash.hasDigest machine.digest (machine.digest (.symbol symbol))) pairs =
      keywords.value? name := by
  induction spells with
  | nil => rfl
  | @cons pair keyword pairs keywords head _ inductionHypothesis =>
      obtain ⟨otherSymbol, isOther, rfl⟩ := head
      have same := hasDigest_eq faithful isSymbol isOther machine
      rw [Association.lookup, Keywords.value?, List.find?_cons, List.find?_cons, same]
      cases decide (keyword.1 = name) with
      | true => rfl
      | false => exact inductionHypothesis

theorem erase (spells : table.Spells pairs keywords) (faithful : table.Faithful)
    (isSymbol : table.lookup? name = some symbol) (machine : Machine) :
    table.Spells (Association.erase
      (OrderedHash.hasDigest machine.digest (machine.digest (.symbol symbol))) pairs)
      (keywords.erase name) := by
  induction spells with
  | nil => exact .nil
  | @cons pair keyword pairs keywords head rest inductionHypothesis =>
      obtain ⟨otherSymbol, isOther, rfl⟩ := head
      have same := hasDigest_eq faithful isSymbol isOther machine
      rw [Association.erase, Keywords.erase, List.eraseP_cons, List.eraseP_cons, same]
      cases decide (keyword.1 = name) with
      | true => exact rest
      | false => exact .cons ⟨otherSymbol, isOther, rfl⟩ inductionHypothesis

end SymbolTable.Spells

/-- An object is a hash with keywords. -/
def Machine.HoldsKeywords (machine : Machine) (dictionary : Handle) (keywords : Keywords) : Prop :=
  ∃ object table, machine.heap.get? dictionary = some object ∧ object.content = .hash table ∧
    table.Sound machine.digest ∧ machine.symbols.Spells table.pairs keywords

section Dictionary

variable {machine next : Machine} {dictionary : Handle} {keywords : Keywords} {name : Bytes}
  {symbol : Symbol}

theorem Machine.HoldsKeywords.mono (holds : machine.HoldsKeywords dictionary keywords)
    (kept : ∀ object, machine.heap.get? dictionary = some object →
      next.heap.get? dictionary = some object)
    (spelled : ∀ pairs, machine.symbols.Spells pairs keywords → next.symbols.Spells pairs keywords) :
    next.HoldsKeywords dictionary keywords := by
  obtain ⟨object, table, found, isHash, sound, spells⟩ := holds
  exact ⟨object, table, kept object found, isHash, sound.congr (spells.digest_eq next machine),
    spelled _ spells⟩

/-- Taking a keyword answers its value and takes it out. -/
theorem VM.withHash_remove (holds : machine.HoldsKeywords dictionary keywords)
    (faithful : machine.symbols.Faithful) (isSymbol : machine.symbols.lookup? name = some symbol) :
    ∃ next, withHash dictionary (·.remove machine.digest (.symbol symbol)) machine =
        .ok (keywords.value? name) next ∧
      machine.Alters (some dictionary) next ∧
      next.HoldsKeywords dictionary (keywords.erase name) := by
  obtain ⟨object, table, found, isHash, sound, spells⟩ := holds
  obtain ⟨next, changes, alters, isChanged⟩ :=
    withHash_of_found found isHash (·.remove machine.digest (.symbol symbol))
  rw [sound.removed_eq, spells.lookup_eq faithful isSymbol] at changes
  have spellsLeft := spells.erase faithful isSymbol machine
  rw [← sound.pairs_remove] at spellsLeft
  refine ⟨next, changes, alters, _, _, isChanged, rfl,
    (sound.remove _).congr (spellsLeft.digest_eq next machine), ?_⟩
  rw [alters.rest]
  exact spellsLeft

theorem Query.digest_eq (machine : Machine) : digest machine = .ok machine.digest := rfl

theorem Query.symbolText_eq (symbol : Symbol) (machine : Machine) :
    symbolText symbol machine = .ok (machine.symbols.text symbol) := rfl

theorem Query.hashGet?_of_holds (holds : machine.HoldsKeywords dictionary keywords)
    (faithful : machine.symbols.Faithful) (isSymbol : machine.symbols.lookup? name = some symbol) :
    hashGet? (.object dictionary) (.symbol symbol) machine = .ok (keywords.value? name) := by
  obtain ⟨object, table, found, isHash, sound, spells⟩ := holds
  have isTable : object.hash? = some table := by rw [Object.hash?, isHash]
  have read : hash? (.object dictionary) machine = .ok (some table) :=
    (part?_of_found found _).trans (congrArg _ isTable)
  rw [hashGet?, bind_of_ok (digest_eq machine), bind_of_ok read, ← spells.lookup_eq faithful isSymbol machine,
    ← sound.get?_eq]
  rfl

theorem Query.hashPairs?_of_keywords (holds : machine.HoldsKeywords dictionary keywords) :
    ∃ pairs, hashPairs? (.object dictionary) machine = .ok (some pairs) ∧
      machine.symbols.Spells pairs keywords := by
  obtain ⟨object, table, found, isHash, sound, spells⟩ := holds
  have isTable : object.hash? = some table := by rw [Object.hash?, isHash]
  exact ⟨table.pairs, hashPairs?_of_holds ⟨dictionary, object, table, rfl, found, isTable, rfl⟩, spells⟩

theorem Query.inspect_symbol (symbol : Symbol) (machine : Machine) :
    inspect (.symbol symbol) machine = .ok s!":{machine.symbols.text symbol}" := by
  have isBound : heapBound machine = .ok (machine.heap.cells.size + 1) := rfl
  rw [inspect, bind_of_ok isBound, inspectWithin]
  rfl

end Dictionary

/-! ### Objects around a frame -/

/-- Every object is as it was, or is gone for good. -/
def Heap.Spares (before after : Heap) : Prop :=
  ∀ handle object, before.get? handle = some object →
    after.get? handle = some object ∨ after.Passed handle

namespace Heap.Spares

variable {before : Heap} {machine next : Machine} {changed : Option Handle}

theorem of_extends {after : Heap} (objects : before.Extends after) : before.Spares after :=
  fun handle object found => .inl (objects handle object found)

/-- An object that came later may change. -/
theorem alters (spares : before.Spares machine.heap) (alters : machine.Alters changed next)
    (isNew : ∀ handle, changed = some handle → before.get? handle = none) :
    before.Spares next.heap := by
  intro handle object found
  rcases spares handle object found with kept | passed
  · refine .inl (alters.others handle object ?_ kept)
    rintro rfl
    exact nomatch (isNew handle rfl).symm.trans found
  · exact .inr (alters.passed handle passed)

/-- If nothing is changed, nothing that is spared is. -/
theorem alters_none (spares : before.Spares machine.heap) (alters : machine.Alters none next) :
    before.Spares next.heap :=
  spares.alters alters fun handle isChanged => absurd isChanged (Option.some_ne_none handle).symm

theorem collectedIfDue (spares : before.Spares machine.heap) :
    before.Spares machine.collectedIfDue.heap := by
  rw [Machine.collectedIfDue]
  split
  · intro handle object found
    rcases spares handle object found with kept | passed
    · exact (Machine.passed_collect_or_get?_eq kept).symm
    · exact .inr (Machine.passed_foldl_reclaim machine.unreachable passed)
  · exact spares

end Heap.Spares

/-- A collection leaves names alone. -/
theorem Machine.symbols_collectedIfDue (machine : Machine) :
    machine.collectedIfDue.symbols = machine.symbols := by
  have reclaimed (dead : List Handle) (machine : Machine) :
      (dead.foldl reclaim machine).symbols = machine.symbols := by
    induction dead generalizing machine with
    | nil => rfl
    | cons first rest inductionHypothesis =>
        rw [List.foldl_cons, inductionHypothesis, reclaim]
        split
        · rename_i object _
          cases isContent : object.content <;> rfl
        · rfl
  rw [collectedIfDue]
  split
  · exact reclaimed machine.unreachable machine
  · rfl

/-- The exception that is raised is the only thing that is new. -/
theorem VM.raise_alters {α : Type} {machine : Machine} {context : Context}
    (runs : machine.RunsOn context) (core : CoreClass) (message : String) :
    ∃ exception next, (raise core message : VM α) machine = .error (.raised exception) next ∧
      next.Reports core message exception ∧ machine.Alters none next := by
  obtain ⟨exception, next, raises, reports, -⟩ := raise_of_runsOn (α := α) runs core message
  refine ⟨exception, next, raises, reports, ?_⟩
  obtain ⟨lines, created⟩ := exceptionHere_eq runs core message
  have computed : (raise core message : VM α) machine = .error (.raised _) _ := bind_of_ok created
  obtain ⟨-, rfl⟩ := EStateM.Result.error.inj (raises.symm.trans computed)
  have textAlters : machine.Alters none (machine.withMessage message) :=
    .allocate runs.wellFormed rfl
  have textRuns := runs.withMessage message
  have both : machine.Alters none ((machine.withMessage message).allocate
      (machine.exceptionObject core message)) :=
    textAlters.trans (.allocate textRuns.wellFormed rfl)
  have isNew : machine.heap.get? (machine.exceptionHandle core message) = none := by
    cases isOld : machine.heap.get? (machine.exceptionHandle core message) with
    | none => rfl
    | some old =>
        have stays := textAlters.others _ old (Option.some_ne_none _) isOld
        have isFree := textRuns.wellFormed.get?_allocate_snd (machine.exceptionObject core message)
        cases isFree.symm.trans stays
  exact both.rewrite (.inr isNew) (runs.get?_exceptionHandle core message) _
    (fun _ isExit => nomatch isExit) (fun _ => rfl) (fun _ isFiber => nomatch isFiber) rfl

/-! ### Frames that wait for keywords -/

/-- The machine with one more name interned. -/
def Machine.interned (machine : Machine) (name : Bytes) : Machine :=
  { machine with symbols := (machine.symbols.intern name).1 }

/-- What a frame has in the register of its dictionary. -/
theorem VM.dictionary?_of_runsOn {machine : Machine} {context : Context} {frame : Frame}
    {below : List Frame} {register : Nat} (runs : machine.RunsOn context)
    (top : context.activations = frame :: below) (isRegister : frame.keywordRegister = some register) :
    dictionary? frame.base machine = .ok (some (context.slot (frame.base + register))) := by
  rw [dictionary?, Query.bind_of_ok (Query.frame_of_runsOn runs top), isRegister]
  change (some <$> Query.register frame.base register) machine = _
  rw [map_eq_pure_bind, Query.bind_of_ok (Query.register_of_runsOn runs _ _)]
  rfl

/-- The frame on top has a dictionary with some keywords in a register. The dictionary came after the
objects of an earlier heap, and these have been spared. -/
structure Machine.AwaitsKeywords (machine : Machine) (before : Heap) (context : Context) (frame : Frame)
    (below : List Frame) (register : Nat) (dictionary : Handle) (left : Keywords) : Prop where
  runs : machine.RunsOn context
  top : context.activations = frame :: below
  isRegister : frame.keywordRegister = some register
  inside : frame.base + register < frame.top
  isSlot : context.slot (frame.base + register) = .object dictionary
  isNew : before.get? dictionary = none
  faithful : machine.symbols.Faithful
  holds : machine.HoldsKeywords dictionary left
  spares : before.Spares machine.heap

namespace Machine.AwaitsKeywords

variable {machine next : Machine} {before : Heap} {context : Context} {frame : Frame}
  {below : List Frame} {register : Nat} {dictionary : Handle} {left : Keywords} {name : Bytes}
  {symbol : Symbol}

/-- A collection finds the dictionary in use. -/
theorem collectedIfDue
    (awaits : machine.AwaitsKeywords before context frame below register dictionary left) :
    machine.collectedIfDue.AwaitsKeywords before context frame below register dictionary left :=
  { awaits with
    runs := awaits.runs.collectedIfDue
    faithful := machine.symbols_collectedIfDue ▸ awaits.faithful
    holds := by
      refine awaits.holds.mono (fun object found => ?_) fun pairs spells =>
        machine.symbols_collectedIfDue ▸ spells
      rw [Machine.collectedIfDue]
      split
      · have refers := Context.refersTo_slot (by simp [awaits.top]) awaits.inside awaits.isSlot
        rw [awaits.runs.get?_collect refers, found]
      · exact found
    spares := awaits.spares.collectedIfDue }

/-- Changing where the frame goes on, or which objects a host holds, is no concern of keywords. -/
theorem fetched (awaits : machine.AwaitsKeywords before context frame below register dictionary left)
    (pc : Nat) :
    (machine.fetched pc).AwaitsKeywords before (context.modifyTop fun frame => { frame with pc })
      { frame with pc } below register dictionary left :=
  { awaits with
    runs := (awaits.runs.fetched awaits.top pc).1
    top := (awaits.runs.fetched awaits.top pc).2 }

theorem withArena
    (awaits : machine.AwaitsKeywords before context frame below register dictionary left)
    (arena : Array Handle) :
    (machine.withArena arena).AwaitsKeywords before context frame below register dictionary left :=
  { awaits with runs := awaits.runs.withArena arena }

theorem interned (awaits : machine.AwaitsKeywords before context frame below register dictionary left)
    (name : Bytes) :
    (machine.interned name).AwaitsKeywords before context frame below register dictionary left :=
  { awaits with
    runs := ⟨awaits.runs.running, awaits.runs.wellFormed, awaits.runs.held, awaits.runs.owned⟩
    faithful := awaits.faithful.intern name
    holds := awaits.holds.mono (fun _ => id) fun _ spells => spells.intern awaits.faithful name }

/-- Another register is written. -/
theorem setSlot (awaits : machine.AwaitsKeywords before context frame below register dictionary left)
    {index : Nat} (isOther : index ≠ frame.base + register) (value : Value) :
    ∃ next, VM.setSlot index value machine = .ok () next ∧
      next.AwaitsKeywords before (context.setSlot index value) frame below register dictionary left := by
  obtain ⟨next, stored, sameHeap, fills⟩ := VM.setSlot_fills awaits.runs index value
  have sameSymbols : next.symbols = machine.symbols := by rw [fills.rest]
  refine ⟨next, stored,
    { awaits with
      runs := fills.runs
      top := fills.frames _ _ awaits.top
      isSlot := (Context.slot_setSlot_of_ne _ _ isOther.symm).trans awaits.isSlot
      faithful := sameSymbols ▸ awaits.faithful
      holds := awaits.holds.mono (fun _ found => sameHeap ▸ found) fun _ spells =>
        sameSymbols ▸ spells
      spares := sameHeap ▸ awaits.spares }⟩

/-- The frame has its dictionary. -/
theorem dictionary?_eq
    (awaits : machine.AwaitsKeywords before context frame below register dictionary left) :
    VM.dictionary? frame.base machine = .ok (some (.object dictionary)) := by
  rw [VM.dictionary?_of_runsOn awaits.runs awaits.top awaits.isRegister, awaits.isSlot]

/-- Only the dictionary changes. -/
theorem alters (awaits : machine.AwaitsKeywords before context frame below register dictionary left)
    (alters : machine.Alters (some dictionary) next) {fewer : Keywords}
    (holds : next.HoldsKeywords dictionary fewer) :
    next.AwaitsKeywords before context frame below register dictionary fewer :=
  { awaits with
    runs := alters.runsOn awaits.runs
    faithful := by
      rw [alters.rest]
      exact awaits.faithful
    holds
    spares := awaits.spares.alters alters fun handle isHandle => by
      rw [← Option.some.inj isHandle]
      exact awaits.isNew }

/-- A keyword that is there is taken, and a missing one is an exception. -/
theorem takeKeyword
    (awaits : machine.AwaitsKeywords before context frame below register dictionary left)
    (isSymbol : machine.symbols.lookup? name = some symbol) :
    ∃ next, next.AwaitsKeywords before context frame below register dictionary (left.erase name) ∧
      VM.takeKeyword frame.base symbol machine =
        (match left.value? name with
          | some value => pure value
          | none => VM.raise .argumentError (missingMessage name) : VM Value) next := by
  obtain ⟨next, takes, alters, holds⟩ := VM.withHash_remove awaits.holds awaits.faithful isSymbol
  refine ⟨next, awaits.alters alters holds, ?_⟩
  rw [VM.takeKeyword, VM.bind_of_ok (VM.liftM_of_ok (Query.digest_eq machine)),
    VM.bind_of_ok (VM.liftM_of_ok awaits.dictionary?_eq)]
  dsimp only
  rw [VM.bind_of_ok takes]
  cases left.value? name with
  | some value => rfl
  | none =>
      have isText : next.symbols.text symbol = Text.lossy name := by
        rw [SymbolTable.text, alters.rest, awaits.faithful.bytes_of_lookup? isSymbol]
      dsimp only
      rw [VM.bind_of_ok (VM.liftM_of_ok (Query.symbolText_eq symbol next)), isText]
      rfl

/-- A keyword is there or not. -/
theorem hasKeyword
    (awaits : machine.AwaitsKeywords before context frame below register dictionary left)
    (isSymbol : machine.symbols.lookup? name = some symbol) :
    (liftM (VM.hasKeyword frame.base symbol) : VM Bool) machine =
      .ok (left.value? name).isSome machine := by
  have read : VM.hasKeyword frame.base symbol machine = .ok (left.value? name).isSome := by
    rw [VM.hasKeyword, Query.bind_of_ok awaits.dictionary?_eq]
    dsimp only
    rw [Query.bind_of_ok (Query.hashGet?_of_holds awaits.holds awaits.faithful isSymbol)]
    rfl
  exact VM.liftM_of_ok read

/-- Keywords that are left are an exception. -/
theorem checkKeywords
    (awaits : machine.AwaitsKeywords before context frame below register dictionary left) :
    VM.checkKeywords frame.base machine =
      (match left with
        | (name, _) :: _ => VM.raise .argumentError (unknownMessage name)
        | [] => pure () : VM Unit) machine := by
  obtain ⟨pairs, areRead, spells⟩ := Query.hashPairs?_of_keywords awaits.holds
  rw [VM.checkKeywords, VM.bind_of_ok (VM.liftM_of_ok awaits.dictionary?_eq)]
  dsimp only
  rw [VM.bind_of_ok (VM.liftM_of_ok areRead)]
  cases spells with
  | nil => rfl
  | @cons pair keyword pairs left head _ =>
      obtain ⟨symbol, isSymbol, rfl⟩ := head
      have shown := Query.inspect_symbol symbol machine
      rw [SymbolTable.text, awaits.faithful.bytes_of_lookup? isSymbol] at shown
      simp only [Option.getD_some]
      rw [VM.bind_of_ok (VM.liftM_of_ok shown)]
      rfl

end Machine.AwaitsKeywords

end RiteVm
