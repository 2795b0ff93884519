import RiteVm.Proofs.Provenance.Issue

/-!
Contract: actions of a told machine mention only what it has given out.

Owns:
- queries that read nothing but what is seen or what the machine mentions;
- actions that lead from a told machine to a told one, and hand over what it has given out;
- the rules for the ways in which queries and actions are put together;
- the queries and actions on objects, register stacks, values, containers and variables.

`Reads` and `Tells` are classes, so that the instances for the parts give the instance for the
whole. Behind each part, what it handed over is seen as well.
-/

namespace RiteVm

/-! ### Queries -/

namespace Query

variable {α β : Type} [Mentions α] [Mentions β] {seen : Set Mention}

/-- What a query hands over mentions only what is seen or what the machine mentions. -/
class Reads (seen : Set Mention) (query : Query α) : Prop where
  reads : ∀ machine value, query machine = .ok value → Within (seen ∪ Mentions.of machine) value

namespace Reads

instance plain [Plain α] (query : Query α) : Reads seen query := ⟨fun _ _ _ => inferInstance⟩

instance ofValue (value : α) [Within seen value] : Reads seen (pure value : Query α) where
  reads machine result read := by
    cases read
    infer_instance

instance seq {query : Query α} {rest : α → Query β} [first : Reads seen query]
    [second : ∀ value, Reads (seen ∪ Mentions.of value) (rest value)] : Reads seen (query >>= rest) where
  reads machine result read := by
    obtain ⟨value, known, read⟩ := bind_eq_ok_iff.mp read
    have within := (first.reads machine value known).subset
    refine ((second value).reads machine result read).mono ?_
    exact Set.union_subset (Set.union_subset Set.subset_union_left within) Set.subset_union_right

instance mapped {query : Query α} {change : α → β} [Reads seen query]
    [∀ value, Within (seen ∪ Mentions.of value) (change value)] : Reads seen (change <$> query) := by
  rw [map_eq_pure_bind]
  infer_instance

instance branch {condition : Prop} [Decidable condition] {yes no : Query α} [Reads seen yes]
    [Reads seen no] : Reads seen (if condition then yes else no) := by
  split <;> infer_instance

instance ofBreach (cause : Breach) : Reads seen (breach cause : Query α) := ⟨fun _ _ read => nomatch read⟩

/-- A query about the machine itself. -/
theorem of_machine {query : Query α} {read : Machine → α} (reads : ∀ machine, query machine = .ok (read machine))
    [within : ∀ machine, Within (seen ∪ Mentions.of machine) (read machine)] : Reads seen query where
  reads machine value known := by
    obtain rfl := Except.ok.inj ((reads machine).symm.trans known)
    exact within machine

theorem mono {query : Query α} (reads : Reads seen query) {more : Set Mention} (subset : seen ⊆ more) :
    Reads more query where
  reads machine value known := (reads.reads machine value known).mono (Set.union_subset_union_left _ subset)

/-- Data that are seen make no difference. -/
theorem absorb {query : Query α} (value : β) [within : Within seen value]
    (reads : Reads (seen ∪ Mentions.of value) query) : Reads seen query :=
  reads.mono (Set.union_subset subset_rfl within.subset)

omit [Mentions α] in
theorem listMapM_of {query : α → Query β} (list : List α)
    (reads : ∀ value ∈ list, Reads seen (query value)) : Reads seen (list.mapM query) := by
  induction list generalizing seen with
  | nil =>
      rw [List.mapM_nil]
      infer_instance
  | cons first rest inductionHypothesis =>
      have := reads first List.mem_cons_self
      have (value : β) : Reads (seen ∪ Mentions.of value) (rest.mapM query) :=
        inductionHypothesis fun value member =>
          (reads value (List.mem_cons_of_mem _ member)).mono Set.subset_union_left
      rw [List.mapM_cons]
      infer_instance

instance listMapM {query : α → Query β} [reads : ∀ value, Reads (seen ∪ Mentions.of value) (query value)]
    {list : List α} [Within seen list] : Reads seen (list.mapM query) :=
  listMapM_of list fun value member =>
    have : Within seen value := Within.of_mem member
    absorb value (reads value)

instance optionMapM {query : α → Query β} [reads : ∀ value, Reads (seen ∪ Mentions.of value) (query value)]
    {option : Option α} [within : Within seen option] : Reads seen (option.mapM query) := by
  cases option with
  | none => exact inferInstanceAs (Reads seen (pure none))
  | some value =>
      have : Within seen value := Within.option_iff.mp within value rfl
      have : Reads seen (query value) := absorb value (reads value)
      exact mapped

/-! ### Objects -/

section Objects

variable {handle : Handle} {value : Value}

instance object : Reads seen (Query.object handle) where
  reads machine _ found :=
    have : Within (seen ∪ Mentions.of machine) machine.heap := inferInstance
    Within.of_get? (object_eq_ok_iff.mp found)

instance object? : Reads seen (Query.object? value) := by
  rw [Query.object?]
  split <;> infer_instance

instance part? {select : Object → Option α} [∀ object : Object, Within (Mentions.of object) (select object)] :
    Reads seen (Query.part? select value) := by
  unfold Query.part?
  infer_instance

instance content? : Reads seen (Query.content? value) := by
  unfold Query.content?
  infer_instance

instance array? : Reads seen (Query.array? value) := part?

instance hash? : Reads seen (Query.hash? value) := part?

instance range? : Reads seen (Query.range? value) := part?

/-- A record that an object has to store. -/
theorem record {query : Query α} {select : Object → Option α} (selects : ∀ machine part, query machine = .ok part →
    (machine.heap.get? handle).bind select = some part)
    [∀ object : Object, Within (Mentions.of object) (select object)] : Reads seen query where
  reads machine part known := by
    obtain ⟨object, found, isPart⟩ := Option.bind_eq_some_iff.mp (selects machine part known)
    have : Within (seen ∪ Mentions.of machine) machine.heap := inferInstance
    have : Within (seen ∪ Mentions.of machine) object := Within.of_get? found
    have within : Within (Mentions.of object) (select object) := inferInstance
    exact (Within.option_iff.mp within part isPart).mono this.subset

instance classRecord : Reads seen (Query.classRecord handle) :=
  record fun _ _ => classRecord_eq_ok_iff.mp

instance envRecord : Reads seen (Query.envRecord handle) :=
  record fun _ _ => envRecord_eq_ok_iff.mp

instance fiberRecord : Reads seen (Query.fiberRecord handle) :=
  record fun _ _ => fiberRecord_eq_ok_iff.mp

instance procRecord : Reads seen (Query.procRecord handle) := by
  unfold Query.procRecord
  refine @seq _ _ _ _ _ _ _ _ fun object => ?_
  split
  · rename_i record found
    have : Within (seen ∪ Mentions.of object) record := .of_some found
    infer_instance
  · infer_instance

end Objects

/-! ### Register stacks -/

section Stacks

variable {base first count index offset : Nat}

instance coreClass (core : CoreClass) : Reads seen (Query.coreClass core) := of_machine fun _ => rfl

instance mainObject : Reads seen Query.mainObject := of_machine fun _ => rfl

instance context : Reads seen Query.context where
  reads machine context found := by
    rw [Query.context] at found
    split at found
    · rename_i stack isStack
      cases found
      have : Within (seen ∪ Mentions.of machine) (machine.context? machine.current) := inferInstance
      exact .of_some isStack
    · cases found

instance frame : Reads seen Query.frame := by
  unfold Query.frame
  refine @seq _ _ _ _ _ _ _ _ fun context => ?_
  split
  · rename_i frame found
    have : Within (seen ∪ Mentions.of context) frame := .of_some found
    infer_instance
  · infer_instance

instance slot : Reads seen (Query.slot index) := by
  unfold Query.slot
  infer_instance

instance register : Reads seen (Query.register base offset) := slot

instance registers : Reads seen (Query.registers base first count) := by
  unfold Query.registers
  infer_instance

end Stacks

/-! ### Containers and variables -/

section Containers

variable {value key : Value} {env : Handle} {name : Symbol}

instance arrayItem? {index : Int} : Reads seen (Query.arrayItem? value index) := by
  unfold Query.arrayItem?
  infer_instance

instance hashGet? : Reads seen (Query.hashGet? value key) := by
  unfold Query.hashGet?
  infer_instance

instance hashPairs? : Reads seen (Query.hashPairs? value) := by
  unfold Query.hashPairs?
  infer_instance

instance splat [Within seen value] : Reads seen (Query.splat value) := by
  unfold Query.splat
  refine @branch _ _ _ _ _ _ _ _ (@seq _ _ _ _ _ _ _ _ fun items? => ?_)
  split
  · infer_instance
  · refine @seq _ _ _ _ _ _ _ _ fun record? => ?_
    split <;> infer_instance

instance instanceVar : Reads seen (Query.instanceVar value name) := by
  unfold Query.instanceVar
  infer_instance

instance globalVar : Reads seen (Query.globalVar name) := of_machine fun _ => rfl

instance capturedVar {register : Nat} : Reads seen (Query.capturedVar env register) := by
  unfold Query.capturedVar
  refine @seq _ _ _ _ _ _ _ _ fun record => ?_
  split
  · exact of_machine fun _ => rfl
  · rename_i values found
    have : Within (seen ∪ Mentions.of record) values := .of_detached (.of_eq found)
    infer_instance

instance capturedValues {count : Nat} : Reads seen (Query.capturedValues env count) := by
  unfold Query.capturedValues
  infer_instance

end Containers

end Reads

end Query

/-! ### Actions -/

namespace VM

variable {α β : Type} [Mentions α] [Mentions β] {captures : Nat → Set Handle} {seen : Set Mention}
  {machine : Machine} {action : VM α} {rest : α → VM β}

/-- From a told machine an action leads to a told one, and hands over what that has given out. -/
structure TellsFrom (captures : Nat → Set Handle) (machine : Machine) (action : VM α) : Prop where
  told : (action.after machine).Told captures
  advances : machine.heap.Advances (action.after machine).heap
  value : ∀ value next, action machine = .ok value next → Within (next.heap.issued captures) value
  failure : ∀ failure next, action machine = .error failure next → Within (next.heap.issued captures) failure

/-- An action about data that are seen leads from told machines to told ones. -/
class Tells (captures : Nat → Set Handle) (seen : Set Mention) (action : VM α) : Prop where
  tellsFrom : ∀ machine : Machine, machine.Told captures → seen ⊆ machine.heap.issued captures →
    TellsFrom captures machine action

namespace TellsFrom

theorem of_ok {value : α} {next : Machine} (succeeded : action machine = .ok value next)
    (told : next.Told captures) (advances : machine.heap.Advances next.heap)
    (within : Within (next.heap.issued captures) value) : TellsFrom captures machine action where
  told := by
    rw [after_of_ok succeeded]
    exact told
  advances := by
    rw [after_of_ok succeeded]
    exact advances
  value result last result_eq := by
    cases succeeded.symm.trans result_eq
    exact within
  failure failure last failed := nomatch succeeded.symm.trans failed

theorem of_error {failure : Failure} {next : Machine} (failed : action machine = .error failure next)
    (told : next.Told captures) (advances : machine.heap.Advances next.heap)
    (within : Within (next.heap.issued captures) failure) : TellsFrom captures machine action where
  told := by
    rw [after_of_error failed]
    exact told
  advances := by
    rw [after_of_error failed]
    exact advances
  value result last succeeded := nomatch failed.symm.trans succeeded
  failure other last isOther := by
    cases failed.symm.trans isOther
    exact within

/-- What an action hands over lets the next one go on. -/
theorem bind {β : Type} [Mentions β] {rest : α → VM β} (first : TellsFrom captures machine action)
    (second : ∀ value next, action machine = .ok value next → next.Told captures →
      machine.heap.Advances next.heap → Within (next.heap.issued captures) value →
      TellsFrom captures next (rest value)) :
    TellsFrom captures machine (action >>= rest) := by
  obtain ⟨told, advances, isValue, isFailure⟩ := first
  cases result : action machine with
  | ok value next =>
      rw [after_of_ok result] at told advances
      obtain ⟨toldOn, advancesOn, isResult, isError⟩ :=
        second value next result told advances (isValue value next result)
      have goesOn : (action >>= rest) machine = rest value next := bind_of_ok result
      refine ⟨?_, ?_, fun value last ended => isResult value last (goesOn.symm.trans ended),
        fun failure last ended => isError failure last (goesOn.symm.trans ended)⟩
      · rw [after_bind_of_ok result]
        exact toldOn
      · rw [after_bind_of_ok result]
        exact advances.trans advancesOn
  | error failure next =>
      rw [after_of_error result] at told advances
      exact of_error (bind_of_error result) told advances (isFailure failure next result)

/-- An attempt leaves the machine that the action leaves. -/
theorem attempt (tells : TellsFrom captures machine action) : TellsFrom captures machine (attempt action) := by
  obtain ⟨toldOn, advances, isValue, isFailure⟩ := tells
  cases result : action machine with
  | ok value next =>
      rw [after_of_ok result] at toldOn advances
      have := isValue value next result
      have attempted : VM.attempt action machine = .ok (.ok value) next := by rw [VM.attempt, result]
      exact .of_ok attempted toldOn advances inferInstance
  | error failure next =>
      rw [after_of_error result] at toldOn advances
      have := isFailure failure next result
      have attempted : VM.attempt action machine = .ok (.error failure) next := by rw [VM.attempt, result]
      exact .of_ok attempted toldOn advances inferInstance

omit [Mentions α] in
/-- What was read holds of the machine in which the action goes on. -/
theorem query_bind {β : Type} [Mentions β] {query : Query α} {rest : α → VM β} (told : machine.Told captures)
    (second : ∀ value, query machine = .ok value → TellsFrom captures machine (rest value)) :
    TellsFrom captures machine (liftM query >>= rest) := by
  cases result : query machine with
  | ok value =>
      obtain ⟨toldOn, advancesOn, isResult, isError⟩ := second value result
      have goesOn : (liftM query >>= rest) machine = rest value machine := bind_of_ok (liftM_of_ok result)
      refine ⟨?_, ?_, fun value last ended => isResult value last (goesOn.symm.trans ended),
        fun failure last ended => isError failure last (goesOn.symm.trans ended)⟩
      · rw [after, goesOn]
        exact toldOn
      · rw [after, goesOn]
        exact advancesOn
  | error breach =>
      exact of_error (bind_of_error (liftM_of_error result)) told (.refl _) inferInstance

end TellsFrom

namespace Tells

/-! ### Composition -/

section Composition

theorem mono (tells : Tells captures seen action) {more : Set Mention} (subset : seen ⊆ more) :
    Tells captures more action where
  tellsFrom machine told isSeen := tells.tellsFrom machine told (subset.trans isSeen)

/-- Data that are seen make no difference. -/
theorem absorb {β : Type} [Mentions β] (value : β) [within : Within seen value]
    (tells : Tells captures (seen ∪ Mentions.of value) action) : Tells captures seen action :=
  tells.mono (Set.union_subset subset_rfl within.subset)

instance ofValue (value : α) [within : Within seen value] : Tells captures seen (pure value : VM α) where
  tellsFrom _ told isSeen := .of_ok rfl told (.refl _) (within.mono isSeen)

instance ofFailure (failure : Failure) [within : Within seen failure] :
    Tells captures seen (throw failure : VM α) where
  tellsFrom _ told isSeen := .of_error rfl told (.refl _) (within.mono isSeen)

instance ofBreach (cause : Breach) : Tells captures seen (breach cause : VM α) :=
  inferInstanceAs (Tells captures seen (throw _ : VM α))

instance ofFatal (cause : FatalCause) : Tells captures seen (fatal cause : VM α) :=
  inferInstanceAs (Tells captures seen (throw _ : VM α))

instance ofQuery {query : Query α} [reads : Query.Reads seen query] : Tells captures seen (liftM query : VM α) where
  tellsFrom machine told isSeen := by
    cases result : query machine with
    | ok value =>
        refine .of_ok (liftM_of_ok result) told (.refl _) ?_
        exact (reads.reads machine value result).mono (Set.union_subset isSeen told.within.subset)
    | error breach => exact .of_error (liftM_of_error result) told (.refl _) inferInstance

instance ofMachine : Tells captures seen (MonadState.get : VM Machine) where
  tellsFrom _ told _ := .of_ok rfl told (.refl _) told.within

instance seq [first : Tells captures seen action]
    [second : ∀ value, Tells captures (seen ∪ Mentions.of value) (rest value)] :
    Tells captures seen (action >>= rest) where
  tellsFrom machine told isSeen :=
    (first.tellsFrom machine told isSeen).bind fun value next _ toldOn advances within =>
      (second value).tellsFrom next toldOn
        (Set.union_subset (isSeen.trans advances.issued_subset) within.subset)

/-- The action behind a part of it whose value it depends on. -/
theorem behind [Tells captures seen action]
    (others : ∀ value, Tells captures (seen ∪ Mentions.of value) (rest value)) :
    Tells captures seen (action >>= rest) :=
  seq

instance mapped {change : α → β} [Tells captures seen action]
    [∀ value, Within (seen ∪ Mentions.of value) (change value)] :
    Tells captures seen (change <$> action) := by
  rw [map_eq_pure_bind]
  infer_instance

instance branch {condition : Prop} [Decidable condition] {yes no : VM α} [Tells captures seen yes]
    [Tells captures seen no] : Tells captures seen (if condition then yes else no) := by
  split <;> infer_instance

instance attempted [tells : Tells captures seen action] : Tells captures seen (attempt action) :=
  ⟨fun machine told isSeen => (tells.tellsFrom machine told isSeen).attempt⟩

instance resolve {result : Except Failure α} [within : Within seen result] :
    Tells captures seen (resolve result) := by
  cases result with
  | ok value =>
      have : Within seen value := ⟨within.subset⟩
      exact ofValue value
  | error failure =>
      have : Within seen failure := ⟨within.subset⟩
      exact ofFailure failure

end Composition

/-! ### Repetition -/

section Repetition

omit [Mentions α] in
theorem listMapM_of {step : α → VM β} (list : List α) (tells : ∀ value ∈ list, Tells captures seen (step value)) :
    Tells captures seen (list.mapM step) := by
  induction list generalizing seen with
  | nil =>
      rw [List.mapM_nil]
      infer_instance
  | cons first rest inductionHypothesis =>
      have := tells first List.mem_cons_self
      have (value : β) : Tells captures (seen ∪ Mentions.of value) (rest.mapM step) :=
        inductionHypothesis fun value member =>
          (tells value (List.mem_cons_of_mem _ member)).mono Set.subset_union_left
      rw [List.mapM_cons]
      infer_instance

instance listMapM {step : α → VM β} [tells : ∀ value, Tells captures (seen ∪ Mentions.of value) (step value)]
    {list : List α} [Within seen list] : Tells captures seen (list.mapM step) :=
  listMapM_of list fun value member =>
    have : Within seen value := .of_mem member
    absorb value (tells value)

omit [Mentions α] in
theorem listForM_of {step : α → VM PUnit} (list : List α)
    (tells : ∀ value ∈ list, Tells captures seen (step value)) : Tells captures seen (list.forM step) := by
  induction list generalizing seen with
  | nil => exact ofValue _
  | cons first rest inductionHypothesis =>
      have := tells first List.mem_cons_self
      refine @behind _ _ _ _ _ _ _ _ this fun _ => inductionHypothesis fun value member => ?_
      exact (tells value (List.mem_cons_of_mem _ member)).mono Set.subset_union_left

instance listForM {step : α → VM PUnit} [tells : ∀ value, Tells captures (seen ∪ Mentions.of value) (step value)]
    {list : List α} [Within seen list] : Tells captures seen (list.forM step) :=
  listForM_of list fun value member =>
    have : Within seen value := .of_mem member
    absorb value (tells value)

instance listForIn {step : α → PUnit → VM (ForInStep PUnit)}
    [tells : ∀ value state, Tells captures (seen ∪ Mentions.of value) (step value state)]
    {list : List α} [within : Within seen list] : Tells captures seen (forIn list () step) := by
  have goesOn (list : List α) {seen : Set Mention}
      (tells : ∀ value ∈ list, ∀ state, Tells captures seen (step value state)) :
      Tells captures seen (forIn list () step) := by
    induction list generalizing seen with
    | nil => exact ofValue _
    | cons first rest inductionHypothesis =>
        rw [List.forIn_cons]
        refine @behind _ _ _ _ _ _ _ _ (tells first List.mem_cons_self ()) fun next => ?_
        cases next with
        | done => infer_instance
        | yield => exact inductionHypothesis fun value member state =>
            (tells value (List.mem_cons_of_mem _ member) state).mono Set.subset_union_left
  refine goesOn list fun value member state => ?_
  have : Within seen value := .of_mem member
  exact absorb value (tells value state)

omit [Mentions α] in
theorem listFoldlM_of {step : β → α → VM β} (list : List α)
    (tells : ∀ value ∈ list, ∀ state, Tells captures (seen ∪ Mentions.of state) (step state value))
    (initial : β) [Within seen initial] : Tells captures seen (list.foldlM step initial) := by
  induction list generalizing initial seen with
  | nil => exact ofValue _
  | cons first rest inductionHypothesis =>
      have := absorb initial (tells first List.mem_cons_self initial)
      refine behind fun state => inductionHypothesis (fun value member other => ?_) state
      refine (tells value (List.mem_cons_of_mem _ member) other).mono ?_
      exact Set.union_subset_union_left _ Set.subset_union_left

instance listFilterM {step : α → VM Bool} [tells : ∀ value, Tells captures (seen ∪ Mentions.of value) (step value)]
    {list : List α} [within : Within seen list] : Tells captures seen (list.filterM step) := by
  have goesOn (list : List α) {seen : Set Mention} (tells : ∀ value ∈ list, Tells captures seen (step value))
      (within : Within seen list) (kept : List α) (isKept : Within seen kept) :
      Tells captures seen (list.filterAuxM step kept) := by
    induction list generalizing seen kept with
    | nil => exact ofValue _
    | cons first rest inductionHypothesis =>
        have := tells first List.mem_cons_self
        have := within.head
        refine behind fun keeps => inductionHypothesis (fun value member => ?_)
          (within.tail.mono Set.subset_union_left) _ ?_
        · exact (tells value (List.mem_cons_of_mem _ member)).mono Set.subset_union_left
        · have := within.head
          cases keeps
          · exact isKept.mono Set.subset_union_left
          · exact inferInstanceAs (Within _ (first :: kept))
  have (value : α) (member : value ∈ list) : Tells captures seen (step value) :=
    have : Within seen value := .of_mem member
    absorb value (tells value)
  have := goesOn list this within [] inferInstance
  unfold List.filterM
  infer_instance

instance optionForM {step : α → VM PUnit} [tells : ∀ value, Tells captures (seen ∪ Mentions.of value) (step value)]
    {option : Option α} [within : Within seen option] : Tells captures seen (option.forM step) := by
  cases option with
  | none => exact ofValue _
  | some value =>
      have : Within seen value := Within.option_iff.mp within value rfl
      exact absorb value (tells value)

instance optionMapM {step : α → VM β} [tells : ∀ value, Tells captures (seen ∪ Mentions.of value) (step value)]
    {option : Option α} [within : Within seen option] : Tells captures seen (option.mapM step) := by
  cases option with
  | none => exact ofValue none
  | some value =>
      have : Within seen value := Within.option_iff.mp within value rfl
      have : Tells captures seen (step value) := absorb value (tells value)
      exact mapped

end Repetition

/-! ### Changes of the machine -/

section Changes

theorem of_heap {change : Heap → Heap} (cells : ∀ heap, (change heap).cells = heap.cells)
    (free : ∀ heap, (change heap).free = heap.free) : Tells captures seen (modifyHeap change) where
  tellsFrom machine told _ := by
    have advances : machine.heap.Advances (change machine.heap) := .of_cells (cells _)
    refine .of_ok rfl ⟨told.founded.of_cells (cells _) (free _), ?_⟩ advances inferInstance
    have within := told.within.mono advances.issued_subset
    have := Within.machine_iff.mp within
    exact Within.machine_iff.mpr ⟨@Within.of_cells _ machine.heap _ (cells _) this.1, this.2⟩

/-- A change of the machine outside its heap, to what is seen or what it mentions. -/
theorem of_outside {change : Machine → Machine} (heap : ∀ machine, (change machine).heap = machine.heap)
    (within : ∀ machine, Within (seen ∪ Mentions.of machine) machine →
      Within (seen ∪ Mentions.of machine) (change machine)) : Tells captures seen (modify change : VM PUnit) where
  tellsFrom machine told isSeen := by
    have advances : machine.heap.Advances (change machine).heap := .of_cells (congrArg Heap.cells (heap machine))
    refine .of_ok rfl (told.of_within ?_ advances isSeen (within machine inferInstance)) advances inferInstance
    rw [heap machine]
    exact told.founded

theorem within_modifyContext {id : ContextId} {change : Context → Context}
    (within : ∀ context, Within (seen ∪ Mentions.of context) (change context)) (machine : Machine) :
    Within (seen ∪ Mentions.of machine) (machine.modifyContext id change) := by
  have each (context? : Option Context) :
      Within (seen ∪ Mentions.of machine ∪ Mentions.of context?) (context?.map change) := by
    cases context? with
    | none => exact ⟨Set.empty_subset _⟩
    | some context =>
        exact ⟨((within context).mono (Set.union_subset_union_left _ Set.subset_union_left)).subset⟩
  have : Within (seen ∪ Mentions.of machine) (machine.contexts.modify id.index (·.map change)) := inferInstance
  have whole : Within (seen ∪ Mentions.of machine) machine := inferInstance
  obtain ⟨heap, -, others⟩ := Within.machine_iff.mp whole
  exact Within.machine_iff.mpr ⟨heap, this, others⟩

/-- A change of one register stack. -/
instance modifyStack {id : ContextId} {change : Context → Context}
    [within : ∀ context, Within (seen ∪ Mentions.of context) (change context)] :
    Tells captures seen (modify (·.modifyContext id change) : VM PUnit) :=
  of_outside (fun _ => rfl) fun machine _ => within_modifyContext within machine

instance modifyContext {change : Context → Context}
    [within : ∀ context, Within (seen ∪ Mentions.of context) (change context)] :
    Tells captures seen (VM.modifyContext change) :=
  of_outside (fun _ => rfl) fun machine _ => within_modifyContext within machine

instance modifyFrame {change : Frame → Frame}
    [within : ∀ frame, Within (seen ∪ Mentions.of frame) (change frame)] :
    Tells captures seen (VM.modifyFrame change) := by
  have (context : Context) (frame : Frame) :
      Within (seen ∪ Mentions.of context ∪ Mentions.of frame) (change frame) :=
    (within frame).mono (Set.union_subset_union_left _ Set.subset_union_left)
  exact modifyContext

variable {value : Value}

instance setSlot {index : Nat} [Within seen value] : Tells captures seen (VM.setSlot index value) :=
  modifyContext

instance setRegister {base register : Nat} [Within seen value] :
    Tells captures seen (VM.setRegister base register value) :=
  setSlot

instance intern {name : Bytes} : Tells captures seen (VM.intern name) where
  tellsFrom machine told _ := by
    have parts := Within.machine_iff.mp told.within
    exact .of_ok rfl ⟨told.founded, Within.machine_iff.mpr parts⟩ (.refl _) inferInstance

instance internText {name : String} : Tells captures seen (VM.internText name) := intern

instance grow {bytes : Nat} : Tells captures seen (VM.grow bytes) := of_heap (fun _ => rfl) (fun _ => rfl)

instance growHeap {bytes : Nat} : Tells captures seen (modifyHeap (·.grow bytes)) := grow

instance protectValue : Tells captures seen (modifyHeap (·.protect value)) := by
  refine of_heap (fun heap => ?_) (fun heap => ?_) <;> cases value <;> rfl

instance restoreArena {mark : Nat} : Tells captures seen (modifyHeap (·.restoreArena mark)) :=
  of_heap (fun _ => rfl) (fun _ => rfl)

instance unpin {pin : Pin} : Tells captures seen (modifyHeap (·.unpin pin)) := by
  refine of_heap (fun heap => ?_) (fun heap => ?_) <;> rw [Heap.unpin] <;> split <;> rfl

end Changes

/-! ### Objects -/

section Objects

variable {handle : Handle} {value : Value}

/-- Contents whose object is built on no other. -/
class Loose (content : Content) : Prop where
  anchors : ∀ anchor, ¬ content.Anchors anchor
  rooted : content.IsRooted

instance : Loose .plain := ⟨nofun, trivial⟩

instance {bytes : Bytes} : Loose (.string bytes) := ⟨nofun, trivial⟩

instance {items : Array Value} : Loose (.array items) := ⟨nofun, trivial⟩

instance {table : OrderedHash} : Loose (.hash table) := ⟨nofun, trivial⟩

instance {record : ProcRecord} : Loose (.proc record) := ⟨nofun, trivial⟩

instance {record : EnvRecord} : Loose (.env record) := ⟨nofun, trivial⟩

instance {record : FiberRecord} : Loose (.fiber record) := ⟨nofun, trivial⟩

instance {record : ExceptionRecord} : Loose (.exception record) := ⟨nofun, trivial⟩

instance {record : DataRecord} : Loose (.data record) := ⟨nofun, trivial⟩

instance {record : ExitRecord} : Loose (.exit record) := ⟨nofun, trivial⟩

theorem allocate_of {object : Object} (rooted : object.content.IsRooted) [within : Within seen object] :
    Tells captures seen (VM.allocate object) where
  tellsFrom _ told isSeen :=
    .of_ok rfl (told.allocate (within.mono isSeen) rooted) (Heap.advances_place _ _) (told.issued_allocate_snd object)

instance allocate {classHandle : Handle} {content : Content} {frozen : Bool} {fields : Table Symbol Value}
    [loose : Loose content] [Within seen classHandle] [Within seen content] [Within seen fields] :
    Tells captures seen (VM.allocate { classHandle, content, frozen, fields }) :=
  allocate_of loose.rooted

theorem modifyObject {change : Object → Object}
    (similar : ∀ object : Object, (∀ anchor, (change object).content.Anchors anchor → object.content.Anchors anchor) ∧
      (object.content.IsRooted → (change object).content.IsRooted))
    [within : ∀ object, Within (seen ∪ Mentions.of object) (change object)] :
    Tells captures seen (VM.modifyObject handle change) where
  tellsFrom machine told isSeen := by
    refine .of_ok rfl (told.rewrite fun object found => ⟨?_, similar object⟩) (Heap.advances_modify _ _ _) inferInstance
    exact (within object).mono (Set.union_subset isSeen (told.within_object found).subset)

instance setContent {content : Content} [loose : Loose content] [Within seen content] :
    Tells captures seen (VM.setContent handle content) :=
  modifyObject fun _ => ⟨fun anchor anchors => absurd anchors (loose.anchors anchor), fun _ => loose.rooted⟩

/-- An object stays as it is, or gets contents that are built on no other object and mention nothing
new. -/
inductive Refilled (seen : Set Mention) (object : Object) : Object → Prop where
  | same : Refilled seen object object
  | contents (content : Content) [Loose content] :
      Within (seen ∪ Mentions.of object) content → Refilled seen object { object with content }

theorem modifyObject_of_refilled {change : Object → Object}
    (refilled : ∀ object, Refilled seen object (change object)) :
    Tells captures seen (VM.modifyObject handle change) := by
  have (object : Object) : Within (seen ∪ Mentions.of object) (change object) := by
    have whole : Within (seen ∪ Mentions.of object) object := inferInstance
    obtain ⟨isClass, -, isFields⟩ := Within.object_iff.mp whole
    have changes := refilled object
    generalize change object = changed at changes
    cases changes with
    | same => exact whole
    | contents content isContent => exact Within.object_iff.mpr ⟨isClass, isContent, isFields⟩
  refine modifyObject fun object => ?_
  have changes := refilled object
  generalize change object = changed at changes
  cases changes with
  | same => exact ⟨fun _ => id, id⟩
  | contents _ _ => exact ⟨fun anchor anchors => absurd anchors (Loose.anchors anchor), fun _ => Loose.rooted⟩

instance modifyItems {change : Array Value → Array Value}
    [within : ∀ items, Within (seen ∪ Mentions.of items) (change items)] :
    Tells captures seen (VM.modifyItems handle change) := by
  refine modifyObject_of_refilled fun object => ?_
  have isContent : Within (seen ∪ Mentions.of object) object.content := inferInstance
  obtain ⟨classHandle, content, frozen, fields⟩ := object
  cases content with
  | array items =>
      have changed := (within items).mono (Set.union_subset Set.subset_union_left isContent.subset)
      exact .contents (.array (change items)) ⟨changed.subset⟩
  | _ => exact .same

instance modifyException {change : ExceptionRecord → ExceptionRecord}
    [within : ∀ record, Within (seen ∪ Mentions.of record) (change record)] :
    Tells captures seen (VM.modifyException handle change) := by
  refine modifyObject_of_refilled fun object => ?_
  have isContent : Within (seen ∪ Mentions.of object) object.content := inferInstance
  obtain ⟨classHandle, content, frozen, fields⟩ := object
  cases content with
  | exception record =>
      have changed := (within record).mono (Set.union_subset Set.subset_union_left isContent.subset)
      exact .contents (.exception (change record)) ⟨changed.subset⟩
  | _ => exact .same

end Objects

/-! ### New values and exceptions -/

section Values

variable {handle : Handle} {value : Value} {γ : Type} [Mentions γ]

theorem newCore_of {core : CoreClass} {content : Content} (rooted : content.IsRooted) [Within seen content] :
    Tells captures seen (VM.newCore core content) := by
  have (classHandle : Handle) : Tells captures (seen ∪ Mentions.of classHandle)
      (VM.allocate { classHandle, content }) :=
    allocate_of rooted
  unfold VM.newCore
  infer_instance

instance newString {bytes : Bytes} : Tells captures seen (VM.newString bytes) := newCore_of trivial

instance newText {text : String} : Tells captures seen (VM.newText text) := newString

instance newArray {items : Array Value} [Within seen items] : Tells captures seen (VM.newArray items) :=
  newCore_of trivial

instance newHash : Tells captures seen VM.newHash := newCore_of trivial

instance newHashOfPairs {pairs : List (Value × Value)} [Within seen pairs] :
    Tells captures seen (VM.newHashOfPairs pairs) := by
  have (digest : Value → KeyDigest) : Tells captures (seen ∪ Mentions.of digest)
      (VM.newCore .hash (.hash (.ofPairs digest pairs))) :=
    newCore_of trivial
  unfold VM.newHashOfPairs
  infer_instance

instance newRange {first last : Value} {exclusive : Bool} [Within seen first] [Within seen last] :
    Tells captures seen (VM.newRange first last exclusive) :=
  newCore_of trivial

instance newObject {classHandle : Handle} [Within seen classHandle] :
    Tells captures seen (VM.newObject classHandle) := by
  unfold VM.newObject
  infer_instance

instance fillBacktrace : Tells captures seen (VM.fillBacktrace handle) := by
  unfold VM.fillBacktrace
  refine behind fun object => ?_
  split <;> infer_instance

instance newException {classHandle : Handle} {message : Value} [Within seen classHandle]
    [Within seen message] : Tells captures seen (VM.newException classHandle message) := by
  unfold VM.newException
  infer_instance

instance exceptionHere {core : CoreClass} {message : String} :
    Tells captures seen (VM.exceptionHere core message) := by
  unfold VM.exceptionHere
  infer_instance

instance raise {core : CoreClass} {message : String} : Tells captures seen (VM.raise core message : VM γ) := by
  unfold VM.raise
  infer_instance

instance raiseNameError {message : String} {name : Symbol} :
    Tells captures seen (VM.raiseNameError message name : VM γ) := by
  unfold VM.raiseNameError
  infer_instance

instance raiseNoMethod {message : String} {name : Symbol} [Within seen value] :
    Tells captures seen (VM.raiseNoMethod message value name : VM γ) := by
  unfold VM.raiseNoMethod
  infer_instance

instance raiseStackError : Tells captures seen (VM.raiseStackError : VM γ) := raise

instance checkFrozen : Tells captures seen (VM.checkFrozen value) := by
  unfold VM.checkFrozen
  infer_instance

instance expectModule [Within seen value] : Tells captures seen (VM.expectModule value) := by
  unfold VM.expectModule
  split <;> dsimp only <;> infer_instance

instance expectProc [Within seen value] : Tells captures seen (VM.expectProc value) := by
  unfold VM.expectProc
  split <;> dsimp only <;> infer_instance

instance expectFiber [Within seen value] : Tells captures seen (VM.expectFiber value) := by
  unfold VM.expectFiber
  split <;> dsimp only <;> infer_instance

instance expectHash [Within seen value] : Tells captures seen (VM.expectHash value) := by
  unfold VM.expectHash
  split <;> dsimp only <;> infer_instance

end Values

/-! ### Containers and variables -/

section Containers

variable {handle env : Handle} {value key item : Value} {γ : Type} [Mentions γ]

instance freezeObject : Tells captures seen (VM.modifyObject handle ({ · with frozen := true })) :=
  modifyObject fun _ => ⟨fun _ => id, id⟩

instance freeze : Tells captures seen (VM.freeze value) := by
  unfold VM.freeze
  split <;> infer_instance

instance raiseNoArray : Tells captures seen (VM.raiseNoArray value : VM γ) := by
  unfold VM.raiseNoArray
  infer_instance

instance arrayPush [Within seen value] [Within seen item] : Tells captures seen (VM.arrayPush value item) := by
  unfold VM.arrayPush
  refine behind fun _ => behind fun isArray => ?_
  dsimp only
  split <;> infer_instance

instance arrayStore {index : Int} [Within seen value] [Within seen item] :
    Tells captures seen (VM.arrayStore value index item) := by
  unfold VM.arrayStore
  refine behind fun _ => behind fun items? => ?_
  dsimp only
  split <;> split <;> infer_instance

instance arrayExtend {more : List Value} [Within seen value] [Within seen more] :
    Tells captures seen (VM.arrayExtend value more) := by
  unfold VM.arrayExtend
  refine behind fun _ => behind fun isArray => ?_
  dsimp only
  split <;> infer_instance

instance withHash {change : OrderedHash → OrderedHash × γ}
    [within : ∀ table, Within (seen ∪ Mentions.of table) (change table)] :
    Tells captures seen (VM.withHash handle change) := by
  unfold VM.withHash
  refine behind fun object => ?_
  split
  · infer_instance
  · rename_i table found
    have isTable : Within (seen ∪ Mentions.of object) table := .of_some found
    have changed := (within table).mono (Set.union_subset Set.subset_union_left isTable.subset)
    generalize change table = outcome at changed
    have := changed.fst
    have := changed.snd
    infer_instance

instance storedKey [Within seen key] : Tells captures seen (VM.storedKey key) := by
  unfold VM.storedKey
  refine behind fun bytes? => behind fun frozen => ?_
  split <;> infer_instance

instance hashSet [Within seen value] [Within seen key] [Within seen item] :
    Tells captures seen (VM.hashSet value key item) := by
  unfold VM.hashSet
  infer_instance

instance hashDelete [Within seen value] : Tells captures seen (VM.hashDelete value key) := by
  unfold VM.hashDelete
  infer_instance

instance hashMerge {source : Value} [Within seen value] [Within seen source] :
    Tells captures seen (VM.hashMerge value source) := by
  unfold VM.hashMerge
  infer_instance

instance setField {name : Symbol} [Within seen item] : Tells captures seen
    (VM.modifyObject handle fun object => { object with fields := object.fields.insert name item }) :=
  modifyObject fun _ => ⟨fun _ => id, id⟩

instance setInstanceVar {name : Symbol} [Within seen value] [Within seen item] :
    Tells captures seen (VM.setInstanceVar value name item) := by
  unfold VM.setInstanceVar
  refine behind fun _ => ?_
  split <;> infer_instance

instance setGlobalVar {name : Symbol} [Within seen value] : Tells captures seen (VM.setGlobalVar name value) :=
  of_outside (fun _ => rfl) fun machine within => by
    have : Within (seen ∪ Mentions.of machine) (machine.globals.insert name value) := inferInstance
    obtain ⟨heap, contexts, fiber, resumers, yielded, -, others⟩ := Within.machine_iff.mp within
    exact Within.machine_iff.mpr ⟨heap, contexts, fiber, resumers, yielded, this, others⟩

instance setCapturedVar {register : Nat} [Within seen value] :
    Tells captures seen (VM.setCapturedVar env register value) := by
  unfold VM.setCapturedVar
  refine behind fun record => ?_
  split
  · infer_instance
  · rename_i values found
    have : Within (seen ∪ Mentions.of record) values := .of_detached (.of_eq found)
    infer_instance

instance detachEnv : Tells captures seen (VM.detachEnv env) := by
  unfold VM.detachEnv
  refine behind fun object => ?_
  split
  · rename_i context fiber base count method owner found
    have record : Within (seen ∪ Mentions.of object) (EnvRecord.mk (.onStack context fiber base count) method owner) :=
      .of_some found
    have : Within (seen ∪ Mentions.of object) owner := (Within.env_iff.mp record).2
    dsimp only
    infer_instance
  · infer_instance

end Containers

end Tells

end VM

end RiteVm
