import Mathlib.Data.Set.Basic
import RiteVm.Call.Binding
import RiteVm.Core.Containers
import RiteVm.Execution.Operators
import RiteVm.Machine.Failure
import RiteVm.Proofs.Hashes.Tables

/-!
Contract: which objects the data of a machine mention.

Owns:
- the mentions of values, containers, records, objects, register stacks and whole machines;
- data whose mentions lie in a set, and one instance for each way in which data are taken
  apart and put together.

`Within` is a class, so that the mentions of a term are found along its structure. A set grows
to the right by the mentions of what was read last, and is searched from there. Data without an
instance of their own mention nothing.
-/

namespace RiteVm

open RiteVm.Bytecode

/-- What data can mention: an object, or a method of the host with all that its code captures. -/
inductive Mention where
  | object (handle : Handle)
  | host (index : Nat)

/-- Data that mention objects. -/
class Mentions (α : Type) where
  of : α → Set Mention

namespace Mentions

variable {α β κ : Type}

instance (priority := low) none : Mentions α := ⟨fun _ => ∅⟩

instance handle : Mentions Handle := ⟨fun handle => {.object handle}⟩

instance value : Mentions Value where
  of
    | .object handle => of handle
    | _ => ∅

instance native : Mentions NativeMethod where
  of
    | .host index => {.host index}
    | _ => ∅

instance option [Mentions α] : Mentions (Option α) where
  of
    | some value => of value
    | .none => ∅

instance list [Mentions α] : Mentions (List α) where
  of list := {mention | ∃ value ∈ list, mention ∈ of value}

instance array [Mentions α] : Mentions (Array α) := ⟨fun items => of items.toList⟩

instance prod [Mentions α] [Mentions β] : Mentions (α × β) := ⟨fun pair => of pair.1 ∪ of pair.2⟩

instance except [Mentions α] [Mentions β] : Mentions (Except α β) where
  of
    | .ok value => of value
    | .error failure => of failure

instance table [Mentions α] : Mentions (Table κ α) := ⟨fun table => of table.values⟩

instance orderedHash : Mentions OrderedHash := ⟨fun table => of table.pairs⟩

instance method : Mentions Method where
  of
    | .proc body => of body
    | .native body => of body
    | .undefined => ∅

instance found : Mentions FoundMethod := ⟨fun found => of found.method ∪ of found.owner⟩

instance superMethod : Mentions VM.SuperMethod where
  of
    | .found method => of method
    | _ => ∅

instance ancestors : Mentions CachedAncestors := ⟨fun cached => of cached.list⟩

instance classRecord : Mentions ClassRecord where
  of record :=
    of record.superclass ∪ of record.includes ∪ of record.methods ∪ of record.constants
      ∪ of record.classVars ∪ of record.outer ∪ of record.attached ∪ of record.ancestors

instance range : Mentions RangeRecord := ⟨fun record => of record.first ∪ of record.last⟩

instance proc : Mentions ProcRecord where
  of record := of record.upper ∪ of record.env ∪ of record.targetClass

instance storage : Mentions EnvStorage where
  of
    | .onStack _ fiber _ _ => of fiber
    | .detached values => of values

instance env : Mentions EnvRecord := ⟨fun record => of record.storage ∪ of record.owner⟩

instance fiber : Mentions FiberRecord := ⟨fun record => of record.body⟩

instance exception : Mentions ExceptionRecord where
  of record := of record.message ∪ of record.cause ∪ of record.receiver

instance exit : Mentions ExitRecord := ⟨fun record => of record.value⟩

instance content : Mentions Content where
  of
    | .array items => of items
    | .hash table => of table
    | .range record => of record
    | .classOrModule record => of record
    | .proc record => of record
    | .env record => of record
    | .fiber record => of record
    | .exception record => of record
    | .exit record => of record
    | .plain | .string _ | .data _ => ∅

instance object : Mentions Object where
  of object := of object.classHandle ∪ of object.content ∪ of object.fields

instance heap : Mentions Heap where
  of heap := {mention | ∃ handle object, heap.get? handle = some object ∧ mention ∈ of object}

instance frame : Mentions Frame where
  of frame :=
    of frame.proc ∪ of frame.owner ∪ of frame.targetClass ∪ of frame.env ∪ of frame.ensuring
      ∪ of frame.block

instance pending : Mentions Pending := ⟨fun pending => of pending.record⟩

instance context : Mentions Context where
  of context := of context.stack ∪ of context.frames ∪ of context.pending ∪ of context.owner

instance cachedMethod : Mentions CachedMethod := ⟨fun cached => of cached.method ∪ of cached.owner⟩

instance methodCache : Mentions MethodCache where
  of cache :=
    {mention | ∃ (key : Handle × Symbol) (entry : CachedMethod),
      cache.entries[key]? = some entry ∧ mention ∈ of entry}

instance machine : Mentions Machine where
  of machine :=
    of machine.heap ∪ of machine.contexts ∪ of machine.currentFiber ∪ of machine.resumers
      ∪ of machine.yielded ∪ of machine.globals
      ∪ {mention | ∃ core, mention ∈ of (machine.coreClass core)} ∪ of machine.mainObject
      ∪ of machine.methodCache

instance failure : Mentions Failure where
  of
    | .raised exception => of exception
    | .unwinding _ value => of value
    | _ => ∅

instance loopExit : Mentions Exit := ⟨fun exit => of exit.value⟩

instance args : Mentions Args := ⟨fun args => of args.positional ∪ of args.keywords ∪ of args.block⟩

instance boundArgs : Mentions BoundArgs := ⟨fun bound => of bound.leading ∪ of bound.rest ∪ of bound.post⟩

instance passedArgs : Mentions PassedArgs where
  of passed := of passed.args ∪ of passed.keywords? ∪ of passed.block

instance pin : Mentions Pin := ⟨fun pin => of pin.value⟩

end Mentions

/-- Data of a type that mention nothing. -/
class Plain (α : Type) [Mentions α] : Prop where
  of_eq : ∀ value : α, Mentions.of value = ∅

/-- The mentions of data lie in a set. -/
class Within {α : Type} [Mentions α] (seen : Set Mention) (value : α) : Prop where
  subset : Mentions.of value ⊆ seen

namespace Plain

variable {α β : Type}

instance none : @Plain α Mentions.none := @Plain.mk α Mentions.none fun _ => rfl

instance option [Mentions α] [Plain α] : Plain (Option α) where
  of_eq
    | some value => of_eq value
    | .none => rfl

instance list [Mentions α] [Plain α] : Plain (List α) where
  of_eq list := by
    refine Set.eq_empty_of_forall_notMem fun mention => ?_
    rintro ⟨value, -, isIn⟩
    rw [of_eq value] at isIn
    exact isIn

instance array [Mentions α] [Plain α] : Plain (Array α) := ⟨fun items => of_eq items.toList⟩

instance prod [Mentions α] [Mentions β] [Plain α] [Plain β] : Plain (α × β) where
  of_eq pair := Set.union_empty_iff.mpr ⟨of_eq pair.1, of_eq pair.2⟩

end Plain

namespace Within

variable {α β : Type} {seen other : Set Mention}

theorem iff [Mentions α] {value : α} : Within seen value ↔ Mentions.of value ⊆ seen :=
  ⟨fun within => within.subset, fun subset => ⟨subset⟩⟩

theorem mono [Mentions α] {value : α} (within : Within seen value) (subset : seen ⊆ other) :
    Within other value :=
  ⟨within.subset.trans subset⟩

/-- Data that are equal to those seen. -/
theorem of_eq [Mentions α] {value same : α} (equal : value = same) [within : Within seen value] :
    Within seen same :=
  equal ▸ within

/-! ### Sets -/

section Sets

variable [Mentions α] [Mentions β] {value : α} {part : β}

instance (priority := low) left [within : Within seen value] : Within (seen ∪ other) value :=
  within.mono Set.subset_union_left

instance (priority := low) right [within : Within other value] : Within (seen ∪ other) value :=
  within.mono Set.subset_union_right

instance self : Within (Mentions.of value) value := ⟨subset_rfl⟩

instance (priority := low) ofSome [within : Within (Mentions.of value) part] :
    Within (Mentions.of (some value)) part := within

instance (priority := low) ofOk {ε : Type} [Mentions ε] [within : Within (Mentions.of value) part] :
    Within (Mentions.of (.ok value : Except ε α)) part := within

instance (priority := low) ofError {ε : Type} [Mentions ε] [within : Within (Mentions.of value) part] :
    Within (Mentions.of (.error value : Except α ε)) part := within

instance (priority := low) ofObject {handle : Handle} [within : Within (Mentions.of handle) part] :
    Within (Mentions.of (Value.object handle)) part := within

instance (priority := low) ofFst {γ : Type} [Mentions γ] {second : γ}
    [within : Within (Mentions.of value) part] : Within (Mentions.of (value, second)) part :=
  within.mono Set.subset_union_left

instance (priority := low) ofSnd {γ : Type} [Mentions γ] {first : γ}
    [within : Within (Mentions.of value) part] : Within (Mentions.of (first, value)) part :=
  within.mono Set.subset_union_right

end Sets

/-! ### Values -/

section Values

variable [Mentions α]

instance plain [Plain α] {value : α} : Within seen value :=
  ⟨(Plain.of_eq value).trans_subset (Set.empty_subset _)⟩

instance {handle : Handle} [within : Within seen handle] : Within seen (Value.object handle) :=
  ⟨within.subset⟩

instance (priority := low) of_object {handle : Handle} [within : Within seen (Value.object handle)] :
    Within seen handle :=
  ⟨within.subset⟩

theorem of_handle? {value : Value} {handle : Handle} (found : value.handle? = some handle)
    [within : Within seen value] : Within seen handle := by
  cases value <;> cases found
  exact of_object

/-- Everything but the handle of an object mentions nothing. -/
theorem of_isImmediate {value : Value} (immediate : ∀ handle, value ≠ .object handle) :
    Within seen value := by
  cases value with
  | object handle => exact absurd rfl (immediate handle)
  | _ => exact ⟨Set.empty_subset _⟩

instance : Within seen Value.nil := ⟨Set.empty_subset _⟩

instance : Within seen Value.true := ⟨Set.empty_subset _⟩

instance : Within seen Value.false := ⟨Set.empty_subset _⟩

instance {number : Int64} : Within seen (Value.int number) := ⟨Set.empty_subset _⟩

instance {number : Float} : Within seen (Value.float number) := ⟨Set.empty_subset _⟩

instance {name : Symbol} : Within seen (Value.symbol name) := ⟨Set.empty_subset _⟩

instance {condition : Bool} : Within seen (Value.ofBool condition) := by
  cases condition
  · exact ⟨Set.empty_subset _⟩
  · exact ⟨Set.empty_subset _⟩

instance branch {condition : Prop} [Decidable condition] {yes no : α} [Within seen yes]
    [Within seen no] : Within seen (if condition then yes else no) := by
  split <;> infer_instance

end Values

/-! ### Options and results -/

section Options

variable [Mentions α] [Mentions β]

instance : Within seen (none : Option α) := ⟨Set.empty_subset _⟩

instance {value : α} [within : Within seen value] : Within seen (some value) := ⟨within.subset⟩

theorem of_some {value? : Option α} {value : α} (found : value? = some value)
    [within : Within seen value?] : Within seen value := by
  subst found
  exact ⟨within.subset⟩

theorem option_iff {value? : Option α} :
    Within seen value? ↔ ∀ value, value? = some value → Within seen value := by
  refine ⟨fun within value found => of_some found, fun each => ?_⟩
  cases value? with
  | none => infer_instance
  | some value =>
      have := each value rfl
      infer_instance

instance getD {value? : Option α} {other : α} [Within seen value?] [Within seen other] :
    Within seen (value?.getD other) := by
  cases found : value? with
  | none => exact ‹Within seen other›
  | some value => exact of_some found

instance orElse {first second : Option α} [isFirst : Within seen first] [isSecond : Within seen second] :
    Within seen (first.or second) := by
  cases first
  · exact isSecond
  · exact isFirst

instance optionMap {value? : Option α} {change : α → β} [Within seen value?]
    [within : ∀ value, Within (seen ∪ Mentions.of value) (change value)] :
    Within seen (value?.map change) := by
  refine option_iff.mpr fun result found => ?_
  obtain ⟨value, isValue, rfl⟩ := Option.map_eq_some_iff.mp found
  exact (within value).mono (Set.union_subset subset_rfl (of_some isValue).subset)

instance optionBind {value? : Option α} {rest : α → Option β} [Within seen value?]
    [within : ∀ value, Within (seen ∪ Mentions.of value) (rest value)] :
    Within seen (value?.bind rest) := by
  refine option_iff.mpr fun result found => ?_
  obtain ⟨value, isValue, isResult⟩ := Option.bind_eq_some_iff.mp found
  have := within value
  exact (of_some isResult).mono (Set.union_subset subset_rfl (of_some isValue).subset)

instance {ε : Type} [Mentions ε] {value : α} [within : Within seen value] :
    Within seen (.ok value : Except ε α) := ⟨within.subset⟩

instance {failure : α} [within : Within seen failure] :
    Within seen (.error failure : Except α β) := ⟨within.subset⟩

theorem prod_iff {pair : α × β} : Within seen pair ↔ Within seen pair.1 ∧ Within seen pair.2 := by
  simp only [iff, ← Set.union_subset_iff]
  exact Iff.rfl

instance {first : α} {second : β} [Within seen first] [Within seen second] :
    Within seen (first, second) :=
  prod_iff.mpr ⟨inferInstance, inferInstance⟩

instance fst {pair : α × β} [within : Within seen pair] : Within seen pair.1 := (prod_iff.mp within).1

instance snd {pair : α × β} [within : Within seen pair] : Within seen pair.2 := (prod_iff.mp within).2

end Options

/-! ### Lists and arrays -/

section Lists

variable [Mentions α] [Mentions β]

theorem list_iff {list : List α} : Within seen list ↔ ∀ value ∈ list, Within seen value := by
  simp only [iff]
  exact ⟨fun subset value member mention isIn => subset ⟨value, member, isIn⟩,
    fun each mention ⟨value, member, isIn⟩ => each value member isIn⟩

/-- A list with no other members. -/
theorem of_list_subset {list more : List α} (subset : ∀ value ∈ more, value ∈ list)
    [within : Within seen list] : Within seen more :=
  list_iff.mpr fun value member => list_iff.mp within value (subset value member)

theorem of_mem {list : List α} {value : α} (member : value ∈ list) [within : Within seen list] :
    Within seen value :=
  list_iff.mp within value member

instance : Within seen ([] : List α) := list_iff.mpr nofun

instance {first : α} {rest : List α} [Within seen first] [Within seen rest] :
    Within seen (first :: rest) :=
  list_iff.mpr fun value member => by
    rcases List.mem_cons.mp member with rfl | inRest
    · infer_instance
    · exact of_mem inRest

theorem head {first : α} {rest : List α} (within : Within seen (first :: rest)) : Within seen first :=
  list_iff.mp within first List.mem_cons_self

theorem tail {first : α} {rest : List α} (within : Within seen (first :: rest)) : Within seen rest :=
  list_iff.mpr fun value member => list_iff.mp within value (List.mem_cons_of_mem _ member)

instance append {list more : List α} [Within seen list] [Within seen more] : Within seen (list ++ more) :=
  list_iff.mpr fun value member => by
    rcases List.mem_append.mp member with member | member <;> exact of_mem member

instance drop {list : List α} {count : Nat} [Within seen list] : Within seen (list.drop count) :=
  of_list_subset fun _ => List.mem_of_mem_drop

instance take {list : List α} {count : Nat} [Within seen list] : Within seen (list.take count) :=
  of_list_subset fun _ => List.mem_of_mem_take

instance dropLast {list : List α} [Within seen list] : Within seen list.dropLast :=
  of_list_subset fun _ member => (List.dropLast_sublist _).mem member

instance reverse {list : List α} [Within seen list] : Within seen list.reverse :=
  of_list_subset fun _ => List.mem_reverse.mp

instance dropWhile {list : List α} {condition : α → Bool} [Within seen list] :
    Within seen (list.dropWhile condition) :=
  of_list_subset fun _ member => (List.dropWhile_suffix _).subset member

instance filter {list : List α} {condition : α → Bool} [Within seen list] :
    Within seen (list.filter condition) :=
  of_list_subset fun _ member => (List.mem_filter.mp member).1

instance replicate {count : Nat} {value : α} [Within seen value] :
    Within seen (List.replicate count value) :=
  list_iff.mpr fun _ member => by
    rw [List.eq_of_mem_replicate member]
    infer_instance

instance listMap {list : List α} {change : α → β} [Within seen list]
    [within : ∀ value, Within (seen ∪ Mentions.of value) (change value)] :
    Within seen (list.map change) :=
  list_iff.mpr fun result member => by
    obtain ⟨value, isValue, rfl⟩ := List.mem_map.mp member
    exact (within value).mono (Set.union_subset subset_rfl (of_mem isValue).subset)

instance flatten {lists : List (List α)} [Within seen lists] : Within seen lists.flatten :=
  list_iff.mpr fun value member => by
    obtain ⟨list, isList, isValue⟩ := List.mem_flatten.mp member
    have : Within seen list := of_mem isList
    exact of_mem isValue

instance zip {list : List α} {more : List β} [Within seen list] [Within seen more] :
    Within seen (list.zip more) :=
  list_iff.mpr fun _ member =>
    prod_iff.mpr ⟨of_mem (List.of_mem_zip member).1, of_mem (List.of_mem_zip member).2⟩

instance listGet {list : List α} {index : Nat} [Within seen list] : Within seen list[index]? :=
  option_iff.mpr fun _ found => of_mem (List.mem_of_getElem? found)

instance listGetD {list : List α} {index : Nat} {other : α} [Within seen list] [Within seen other] :
    Within seen (list.getD index other) := by
  rw [List.getD_eq_getElem?_getD]
  infer_instance

instance getLast {list : List α} [Within seen list] : Within seen list.getLast? :=
  option_iff.mpr fun _ found => of_mem (List.mem_of_getLast? found)

instance find {list : List α} {condition : α → Bool} [Within seen list] :
    Within seen (list.find? condition) :=
  option_iff.mpr fun _ found => of_mem (List.mem_of_find?_eq_some found)

instance toOptionList {value? : Option α} [Within seen value?] : Within seen value?.toList := by
  cases found : value? with
  | none => exact inferInstanceAs (Within seen [])
  | some value =>
      have : Within seen value := of_some found
      exact inferInstanceAs (Within seen [value])

instance toList {items : Array α} [within : Within seen items] : Within seen items.toList := ⟨within.subset⟩

instance toArray {list : List α} [within : Within seen list] : Within seen list.toArray := ⟨within.subset⟩

/-- An array whose list is known. -/
theorem of_toList {items : Array α} (within : Within seen items.toList) : Within seen items :=
  ⟨within.subset⟩

theorem of_array_mem {items : Array α} {value : α} (member : value ∈ items) [Within seen items] :
    Within seen value :=
  of_mem (Array.mem_toList_iff.mpr member)

theorem array_iff {items : Array α} : Within seen items ↔ ∀ value ∈ items, Within seen value :=
  ⟨fun _ _ member => of_array_mem member, fun each =>
    of_toList (list_iff.mpr fun value member => each value (Array.mem_toList_iff.mp member))⟩

instance arrayGet {items : Array α} {index : Nat} [Within seen items] : Within seen items[index]? :=
  option_iff.mpr fun _ found => of_array_mem (Array.mem_of_getElem? found)

instance arrayGetD {items : Array α} {index : Nat} {other : α} [Within seen items]
    [Within seen other] : Within seen (items.getD index other) := by
  rw [Array.getD_eq_getD_getElem?]
  infer_instance

instance back {items : Array α} [Within seen items] : Within seen items.back? := by
  rw [Array.back?]
  infer_instance

instance push {items : Array α} {value : α} [Within seen items] [Within seen value] :
    Within seen (items.push value) :=
  array_iff.mpr fun other member => by
    rcases Array.mem_push.mp member with member | rfl
    · exact of_array_mem member
    · infer_instance

instance pop {items : Array α} [Within seen items] : Within seen items.pop :=
  of_toList (by rw [Array.toList_pop]; infer_instance)

instance arrayAppend {items more : Array α} [Within seen items] [Within seen more] :
    Within seen (items ++ more) :=
  of_toList (by rw [Array.toList_append]; infer_instance)

instance arrayAppendList {items : Array α} {more : List α} [Within seen items] [Within seen more] :
    Within seen (items ++ more) :=
  of_toList (by rw [Array.toList_appendList]; infer_instance)

instance arrayReplicate {count : Nat} {value : α} [Within seen value] :
    Within seen (Array.replicate count value) :=
  of_toList (by rw [Array.toList_replicate]; infer_instance)

instance extract {items : Array α} {first last : Nat} [Within seen items] :
    Within seen (items.extract first last) :=
  of_toList (by rw [Array.toList_extract, List.extract_eq_take_drop]; infer_instance)

instance arrayTake {items : Array α} {count : Nat} [Within seen items] : Within seen (items.take count) :=
  extract

instance set {items : Array α} {index : Nat} {value : α} [Within seen items] [Within seen value] :
    Within seen (items.setIfInBounds index value) :=
  array_iff.mpr fun other member => by
    rcases Array.mem_or_eq_of_mem_setIfInBounds member with member | rfl
    · exact of_array_mem member
    · infer_instance

instance modify {items : Array α} {index : Nat} {change : α → α} [Within seen items]
    [within : ∀ value, Within (seen ∪ Mentions.of value) (change value)] :
    Within seen (items.modify index change) :=
  array_iff.mpr fun other member => by
    obtain ⟨place, isOther⟩ := Array.mem_iff_getElem?.mp member
    rw [Array.getElem?_modify] at isOther
    have each : Within seen (items[place]?.map change) := inferInstance
    split at isOther
    · exact of_some isOther
    · exact of_some isOther

end Lists

/-! ### Tables -/

section Tables

variable {κ : Type} [Mentions α]

theorem table_iff {table : Table κ α} : Within seen table ↔ ∀ entry ∈ table.entries, Within seen entry.2 := by
  have values : Within seen table ↔ Within seen table.values :=
    ⟨fun within => ⟨within.subset⟩, fun within => ⟨within.subset⟩⟩
  rw [values, list_iff, Table.values]
  exact List.forall_mem_map

instance tableGet [DecidableEq κ] {table : Table κ α} {key : κ} [within : Within seen table] :
    Within seen (table.get? key) :=
  option_iff.mpr fun _ found => table_iff.mp within _ (Table.mem_entries_of_get? found)

instance tableValues {table : Table κ α} [within : Within seen table] : Within seen table.values :=
  ⟨within.subset⟩

instance noEntries : Within seen ({} : Table κ α) := table_iff.mpr nofun

omit [Mentions α] in
theorem mem_store [DecidableEq κ] {key : κ} {value : α} {entries : List (κ × α)} {entry : κ × α}
    (member : entry ∈ Table.store key value entries) : entry ∈ entries ∨ entry.2 = value := by
  induction entries with
  | nil =>
      obtain rfl := List.mem_singleton.mp member
      exact .inr rfl
  | cons first rest inductionHypothesis =>
      rw [Table.store] at member
      split at member
      · rcases List.mem_cons.mp member with rfl | inRest
        · exact .inr rfl
        · exact .inl (List.mem_cons_of_mem _ inRest)
      · rcases List.mem_cons.mp member with rfl | inRest
        · exact .inl List.mem_cons_self
        · exact (inductionHypothesis inRest).imp_left (List.mem_cons_of_mem _)

omit [Mentions α] in
theorem mem_of_mem_discard [DecidableEq κ] {key : κ} {entries : List (κ × α)} {entry : κ × α}
    (member : entry ∈ Table.discard key entries) : entry ∈ entries := by
  induction entries with
  | nil => exact member
  | cons first rest inductionHypothesis =>
      rw [Table.discard] at member
      split at member
      · exact List.mem_cons_of_mem _ (inductionHypothesis member)
      · rcases List.mem_cons.mp member with rfl | inRest
        · exact List.mem_cons_self
        · exact List.mem_cons_of_mem _ (inductionHypothesis inRest)

instance tableInsert [DecidableEq κ] {table : Table κ α} {key : κ} {value : α}
    [within : Within seen table] [isValue : Within seen value] : Within seen (table.insert key value) :=
  table_iff.mpr fun entry member => by
    rcases mem_store member with isOld | isNew
    · exact table_iff.mp within entry isOld
    · exact isNew ▸ isValue

instance tableErase [DecidableEq κ] {table : Table κ α} {key : κ} [within : Within seen table] :
    Within seen (table.erase key) :=
  table_iff.mpr fun entry member => table_iff.mp within entry (mem_of_mem_discard member)

theorem hash_iff {table : OrderedHash} :
    Within seen table ↔ ∀ entry ∈ table.entries, Within seen entry.key ∧ Within seen entry.value := by
  have pairs : Within seen table ↔ Within seen table.pairs :=
    ⟨fun within => ⟨within.subset⟩, fun within => ⟨within.subset⟩⟩
  rw [pairs, list_iff, OrderedHash.pairs, List.forall_mem_map]
  exact forall₂_congr fun _ _ => prod_iff

theorem hash_of_slots {table : OrderedHash}
    (each : ∀ entry, some entry ∈ table.slots → Within seen entry.key ∧ Within seen entry.value) :
    Within seen table :=
  hash_iff.mpr fun entry member => by
    obtain ⟨slot, found⟩ := OrderedHash.mem_entries.mp member
    exact each entry (Array.mem_of_getElem? found)

theorem of_slot {table : OrderedHash} {entry : OrderedHash.Entry} (member : some entry ∈ table.slots)
    [within : Within seen table] : Within seen entry.key ∧ Within seen entry.value :=
  hash_iff.mp within entry
    (OrderedHash.mem_entries.mpr (Array.mem_iff_getElem?.mp member))

instance pairs {table : OrderedHash} [within : Within seen table] : Within seen table.pairs := ⟨within.subset⟩

instance noPairs : Within seen OrderedHash.empty := hash_of_slots nofun

section Digests

variable {digest : Value → KeyDigest} {table : OrderedHash} {key value : Value}

theorem of_matching {digestOfKey : KeyDigest} {slot : Nat} {entry : OrderedHash.Entry}
    (found : table.matching? digest digestOfKey slot = some entry) [Within seen table] :
    Within seen entry.value := by
  rw [OrderedHash.matching?] at found
  split at found
  · rename_i other isOther
    split at found <;> cases found
    exact (of_slot (Array.mem_of_getElem? (Option.join_eq_some_iff.mp isOther))).2
  · cases found

instance hashMatching {digestOfKey : KeyDigest} {slot : Nat} [Within seen table] :
    Within seen ((table.matching? digest digestOfKey slot).map (·.value)) :=
  option_iff.mpr fun _ found => by
    obtain ⟨entry, isEntry, rfl⟩ := Option.map_eq_some_iff.mp found
    exact of_matching isEntry

instance hashGet [Within seen table] : Within seen (table.get? digest key) :=
  option_iff.mpr fun _ found => by
    obtain ⟨slot, -, found⟩ := Option.bind_eq_some_iff.mp found
    obtain ⟨entry, isEntry, isValue⟩ := Option.bind_eq_some_iff.mp found
    cases isValue
    exact of_matching isEntry

instance hashInsert [Within seen table] [isKey : Within seen key] [isValue : Within seen value] :
    Within seen (table.insert digest key value) := by
  rw [OrderedHash.insert, OrderedHash.replace]
  split
  · refine hash_of_slots fun entry member => ?_
    obtain ⟨place, found⟩ := Array.mem_iff_getElem?.mp member
    rw [Array.getElem?_modify] at found
    split at found
    · obtain ⟨slot, isSlot, isEntry⟩ := Option.map_eq_some_iff.mp found
      obtain ⟨old, rfl, rfl⟩ := Option.map_eq_some_iff.mp isEntry
      exact ⟨(of_slot (Array.mem_of_getElem? isSlot)).1, isValue⟩
    · exact of_slot (Array.mem_of_getElem? found)
  · refine hash_of_slots fun entry member => ?_
    rcases Array.mem_push.mp member with member | isNew
    · exact of_slot member
    · cases isNew
      exact ⟨isKey, isValue⟩

instance hashRemove [within : Within seen table] : Within seen (table.remove digest key) := by
  rw [OrderedHash.remove]
  split
  · infer_instance
  · rename_i slot isFound
    have vacated (isEntry : ∃ entry, table.slots[slot]? = some (some entry)) :
        Within seen (table.vacate (digest key).hash slot isEntry).tidy := by
      refine hash_iff.mpr fun entry member => ?_
      rw [OrderedHash.entries_tidy] at member
      obtain ⟨place, found⟩ := OrderedHash.mem_entries.mp member
      rcases Array.mem_or_eq_of_mem_setIfInBounds (Array.mem_of_getElem? found) with member | isNone
      · exact of_slot member
      · cases isNone
    have := vacated
    infer_instance

instance hashOfPairs {pairs : List (Value × Value)} [Within seen pairs] :
    Within seen (OrderedHash.ofPairs digest pairs) := by
  have stored (table : OrderedHash) [Within seen table] (pairs : List (Value × Value))
      (within : Within seen pairs) :
      Within seen (pairs.foldl (fun table (key, value) => table.insert digest key value) table) := by
    induction pairs generalizing table with
    | nil => exact ‹Within seen table›
    | cons first rest inductionHypothesis =>
        have := head within
        rw [List.foldl_cons]
        exact inductionHypothesis _ (tail within)
  exact stored _ pairs inferInstance

end Digests

end Tables

/-! ### Methods and classes -/

section Classes

variable {superclass outer attached : Option Handle} {includes : Array Handle}
  {methods : Table Symbol Method} {constants classVars : Table Symbol Value}
  {ancestors : Option CachedAncestors} {kind : ClassKind} {instances : InstanceKind}
  {name : Option String} {list : List Handle} {owner : Handle} {generation : Nat}

instance {body : Handle} [within : Within seen body] : Within seen (Method.proc body) := ⟨within.subset⟩

instance {body : NativeMethod} [within : Within seen body] : Within seen (Method.native body) :=
  ⟨within.subset⟩

instance : Within seen Method.undefined := ⟨Set.empty_subset _⟩

theorem of_proc {body : Handle} (within : Within seen (Method.proc body)) : Within seen body :=
  ⟨within.subset⟩

theorem of_native {body : NativeMethod} (within : Within seen (Method.native body)) : Within seen body :=
  ⟨within.subset⟩

theorem found_iff {found : FoundMethod} :
    Within seen found ↔ Within seen found.method ∧ Within seen found.owner := by
  simp only [iff, ← Set.union_subset_iff]
  exact Iff.rfl

instance {method : Method} [Within seen method] [Within seen owner] :
    Within seen (FoundMethod.mk method owner) :=
  found_iff.mpr ⟨inferInstance, inferInstance⟩

instance {found : FoundMethod} [within : Within seen found] : Within seen found.method :=
  (found_iff.mp within).1

instance {found : FoundMethod} [within : Within seen found] : Within seen found.owner :=
  (found_iff.mp within).2

instance {found : FoundMethod} [within : Within seen found] : Within seen (VM.SuperMethod.found found) :=
  ⟨within.subset⟩

instance (priority := low) ofFound [Mentions α] {found : FoundMethod} {part : α}
    [within : Within (Mentions.of found) part] : Within (Mentions.of (VM.SuperMethod.found found)) part :=
  within

instance : Within seen VM.SuperMethod.missing := ⟨Set.empty_subset _⟩

instance : Within seen VM.SuperMethod.unrelated := ⟨Set.empty_subset _⟩

instance [within : Within seen list] : Within seen (CachedAncestors.mk generation list) :=
  ⟨within.subset⟩

instance {cached : CachedAncestors} [within : Within seen cached] : Within seen cached.list :=
  ⟨within.subset⟩

theorem classRecord_iff {record : ClassRecord} :
    Within seen record ↔ Within seen record.superclass ∧ Within seen record.includes ∧
        Within seen record.methods ∧ Within seen record.constants ∧ Within seen record.classVars ∧
        Within seen record.outer ∧ Within seen record.attached ∧ Within seen record.ancestors := by
  simp only [iff, ← Set.union_subset_iff, ← Set.union_assoc]
  exact Iff.rfl

instance [Within seen superclass] [Within seen includes] [Within seen methods] [Within seen constants]
    [Within seen classVars] [Within seen outer] [Within seen attached] [Within seen ancestors] :
    Within seen (ClassRecord.mk kind superclass instances name includes methods constants classVars
        outer attached ancestors) :=
  classRecord_iff.mpr ⟨inferInstance, inferInstance, inferInstance, inferInstance, inferInstance,
    inferInstance, inferInstance, inferInstance⟩

instance {record : ClassRecord} [within : Within seen record] : Within seen record.superclass :=
  (classRecord_iff.mp within).1

instance {record : ClassRecord} [within : Within seen record] : Within seen record.includes :=
  (classRecord_iff.mp within).2.1

instance {record : ClassRecord} [within : Within seen record] : Within seen record.methods :=
  (classRecord_iff.mp within).2.2.1

instance {record : ClassRecord} [within : Within seen record] : Within seen record.constants :=
  (classRecord_iff.mp within).2.2.2.1

instance {record : ClassRecord} [within : Within seen record] : Within seen record.classVars :=
  (classRecord_iff.mp within).2.2.2.2.1

instance {record : ClassRecord} [within : Within seen record] : Within seen record.outer :=
  (classRecord_iff.mp within).2.2.2.2.2.1

instance {record : ClassRecord} [within : Within seen record] : Within seen record.attached :=
  (classRecord_iff.mp within).2.2.2.2.2.2.1

instance {record : ClassRecord} [within : Within seen record] : Within seen record.ancestors :=
  (classRecord_iff.mp within).2.2.2.2.2.2.2

end Classes

/-! ### Other objects -/

section Objects

variable {upper env owner cause fiber : Option Handle} {first last value message : Value}
  {exclusive strict frozen : Bool} {unit : CodeUnit} {classHandle targetClass body : Handle}
  {context : ContextId} {base count signals : Nat} {values : Array Value} {storage : EnvStorage}
  {method name : Option Symbol} {state : FiberState} {backtrace : Option (List String)}
  {receiver : Option Value} {target : ExitTarget} {content : Content} {fields : Table Symbol Value}
  {object : Object}

theorem range_iff {record : RangeRecord} :
    Within seen record ↔ Within seen record.first ∧ Within seen record.last := by
  simp only [iff, ← Set.union_subset_iff]
  exact Iff.rfl

instance [Within seen first] [Within seen last] :
    Within seen (RangeRecord.mk first last exclusive) :=
  range_iff.mpr ⟨inferInstance, inferInstance⟩

instance {record : RangeRecord} [within : Within seen record] : Within seen record.first :=
  (range_iff.mp within).1

instance {record : RangeRecord} [within : Within seen record] : Within seen record.last :=
  (range_iff.mp within).2

theorem proc_iff {record : ProcRecord} :
    Within seen record ↔ Within seen record.upper ∧ Within seen record.env ∧ Within seen record.targetClass := by
  simp only [iff, ← Set.union_subset_iff, ← Set.union_assoc]
  exact Iff.rfl

instance [Within seen upper] [Within seen env] [Within seen targetClass] :
    Within seen (ProcRecord.mk unit upper env targetClass strict) :=
  proc_iff.mpr ⟨inferInstance, inferInstance, inferInstance⟩

instance {record : ProcRecord} [within : Within seen record] : Within seen record.upper :=
  (proc_iff.mp within).1

instance {record : ProcRecord} [within : Within seen record] : Within seen record.env :=
  (proc_iff.mp within).2.1

instance {record : ProcRecord} [within : Within seen record] : Within seen record.targetClass :=
  (proc_iff.mp within).2.2

instance [within : Within seen fiber] : Within seen (EnvStorage.onStack context fiber base count) :=
  ⟨within.subset⟩

instance [within : Within seen values] : Within seen (EnvStorage.detached values) := ⟨within.subset⟩

theorem of_detached (within : Within seen (EnvStorage.detached values)) : Within seen values :=
  ⟨within.subset⟩

theorem env_iff {record : EnvRecord} :
    Within seen record ↔ Within seen record.storage ∧ Within seen record.owner := by
  simp only [iff, ← Set.union_subset_iff]
  exact Iff.rfl

instance [Within seen storage] [Within seen owner] :
    Within seen (EnvRecord.mk storage method owner) :=
  env_iff.mpr ⟨inferInstance, inferInstance⟩

instance {record : EnvRecord} [within : Within seen record] : Within seen record.storage :=
  (env_iff.mp within).1

instance {record : EnvRecord} [within : Within seen record] : Within seen record.owner :=
  (env_iff.mp within).2

instance [within : Within seen body] : Within seen (FiberRecord.mk context body state signals) :=
  ⟨within.subset⟩

instance {record : FiberRecord} [within : Within seen record] : Within seen record.body :=
  ⟨within.subset⟩

theorem exception_iff {record : ExceptionRecord} :
    Within seen record ↔ Within seen record.message ∧ Within seen record.cause ∧ Within seen record.receiver := by
  simp only [iff, ← Set.union_subset_iff, ← Set.union_assoc]
  exact Iff.rfl

instance [Within seen message] [Within seen cause] [Within seen receiver] :
    Within seen (ExceptionRecord.mk message cause backtrace receiver name) :=
  exception_iff.mpr ⟨inferInstance, inferInstance, inferInstance⟩

instance {record : ExceptionRecord} [within : Within seen record] : Within seen record.message :=
  (exception_iff.mp within).1

instance {record : ExceptionRecord} [within : Within seen record] : Within seen record.cause :=
  (exception_iff.mp within).2.1

instance {record : ExceptionRecord} [within : Within seen record] : Within seen record.receiver :=
  (exception_iff.mp within).2.2

instance [within : Within seen value] : Within seen (ExitRecord.mk target value) := ⟨within.subset⟩

section Contents

instance : Within seen Content.plain := ⟨Set.empty_subset _⟩

instance {bytes : Bytes} : Within seen (Content.string bytes) := ⟨Set.empty_subset _⟩

instance {record : DataRecord} : Within seen (Content.data record) := ⟨Set.empty_subset _⟩

instance {stored : Array Value} [within : Within seen stored] : Within seen (Content.array stored) := ⟨within.subset⟩

instance {stored : OrderedHash} [within : Within seen stored] : Within seen (Content.hash stored) := ⟨within.subset⟩

instance {stored : RangeRecord} [within : Within seen stored] : Within seen (Content.range stored) := ⟨within.subset⟩

instance {stored : ClassRecord} [within : Within seen stored] :
    Within seen (Content.classOrModule stored) := ⟨within.subset⟩

instance {stored : ProcRecord} [within : Within seen stored] : Within seen (Content.proc stored) := ⟨within.subset⟩

instance {stored : EnvRecord} [within : Within seen stored] : Within seen (Content.env stored) := ⟨within.subset⟩

instance {stored : FiberRecord} [within : Within seen stored] : Within seen (Content.fiber stored) := ⟨within.subset⟩

instance {stored : ExceptionRecord} [within : Within seen stored] :
    Within seen (Content.exception stored) := ⟨within.subset⟩

instance {stored : ExitRecord} [within : Within seen stored] : Within seen (Content.exit stored) := ⟨within.subset⟩

end Contents

theorem object_iff {object : Object} :
    Within seen object ↔ Within seen object.classHandle ∧ Within seen object.content ∧ Within seen object.fields := by
  simp only [iff, ← Set.union_subset_iff, ← Set.union_assoc]
  exact Iff.rfl

instance [Within seen classHandle] [Within seen content] [Within seen fields] :
    Within seen (Object.mk classHandle content frozen fields) :=
  object_iff.mpr ⟨inferInstance, inferInstance, inferInstance⟩

instance {object : Object} [within : Within seen object] : Within seen object.classHandle :=
  (object_iff.mp within).1

instance {object : Object} [within : Within seen object] : Within seen object.content :=
  (object_iff.mp within).2.1

instance {object : Object} [within : Within seen object] : Within seen object.fields :=
  (object_iff.mp within).2.2

section Parts

variable [Mentions α] {select : Object → Option α}

/-- A part that an object stores as its content. -/
theorem of_select (store : α → Content)
    (stores : ∀ object part, select object = some part → object.content = store part)
    (same : ∀ part, Mentions.of (store part) = Mentions.of part) [within : Within seen object] :
    Within seen (select object) :=
  option_iff.mpr fun part found =>
    have stored : Within seen (store part) := of_eq (stores object part found)
    ⟨(same part).symm.subset.trans stored.subset⟩

instance [Within seen object] : Within seen object.array? := by
  refine of_select .array (fun object part found => ?_) fun _ => rfl
  obtain ⟨classHandle, content, frozen, fields⟩ := object
  cases content <;> cases found
  rfl

instance [Within seen object] : Within seen object.hash? := by
  refine of_select .hash (fun object part found => ?_) fun _ => rfl
  obtain ⟨classHandle, content, frozen, fields⟩ := object
  cases content <;> cases found
  rfl

instance [Within seen object] : Within seen object.range? := by
  refine of_select .range (fun object part found => ?_) fun _ => rfl
  obtain ⟨classHandle, content, frozen, fields⟩ := object
  cases content <;> cases found
  rfl

instance [Within seen object] : Within seen object.class? := by
  refine of_select .classOrModule (fun object part found => ?_) fun _ => rfl
  obtain ⟨classHandle, content, frozen, fields⟩ := object
  cases content <;> cases found
  rfl

instance [Within seen object] : Within seen object.proc? := by
  refine of_select .proc (fun object part found => ?_) fun _ => rfl
  obtain ⟨classHandle, content, frozen, fields⟩ := object
  cases content <;> cases found
  rfl

instance [Within seen object] : Within seen object.env? := by
  refine of_select .env (fun object part found => ?_) fun _ => rfl
  obtain ⟨classHandle, content, frozen, fields⟩ := object
  cases content <;> cases found
  rfl

instance [Within seen object] : Within seen object.fiber? := by
  refine of_select .fiber (fun object part found => ?_) fun _ => rfl
  obtain ⟨classHandle, content, frozen, fields⟩ := object
  cases content <;> cases found
  rfl

instance [Within seen object] : Within seen object.exception? := by
  refine of_select .exception (fun object part found => ?_) fun _ => rfl
  obtain ⟨classHandle, content, frozen, fields⟩ := object
  cases content <;> cases found
  rfl

end Parts

end Objects

/-! ### Register stacks -/

section Contexts

variable {proc owner env ensuring fiber : Option Handle} {unit : Option CodeUnit} {frame : Frame}
  {base top pc argCount index size first last : Nat} {hasKeywords boundary : Bool}
  {method : Option Symbol} {targetClass record : Handle} {keywordRegister : Option Nat}
  {block value : Value} {kind : CatchKind} {stack : Array Value} {frames : Array Frame}
  {pending : Option Pending} {context : Context}

theorem frame_iff {frame : Frame} :
    Within seen frame ↔ Within seen frame.proc ∧ Within seen frame.owner ∧
        Within seen frame.targetClass ∧ Within seen frame.env ∧ Within seen frame.ensuring ∧
        Within seen frame.block := by
  simp only [iff, ← Set.union_subset_iff, ← Set.union_assoc]
  exact Iff.rfl

instance [Within seen proc] [Within seen owner] [Within seen targetClass] [Within seen env]
    [Within seen ensuring] [Within seen block] :
    Within seen (Frame.mk base top proc unit pc argCount hasKeywords method owner targetClass env
        boundary ensuring keywordRegister block) :=
  frame_iff.mpr ⟨inferInstance, inferInstance, inferInstance, inferInstance, inferInstance, inferInstance⟩

instance {frame : Frame} [within : Within seen frame] : Within seen frame.proc :=
  (frame_iff.mp within).1

instance {frame : Frame} [within : Within seen frame] : Within seen frame.owner :=
  (frame_iff.mp within).2.1

instance {frame : Frame} [within : Within seen frame] : Within seen frame.targetClass :=
  (frame_iff.mp within).2.2.1

instance {frame : Frame} [within : Within seen frame] : Within seen frame.env :=
  (frame_iff.mp within).2.2.2.1

instance {frame : Frame} [within : Within seen frame] : Within seen frame.ensuring :=
  (frame_iff.mp within).2.2.2.2.1

instance {frame : Frame} [within : Within seen frame] : Within seen frame.block :=
  (frame_iff.mp within).2.2.2.2.2

instance [within : Within seen record] : Within seen (Pending.mk record kind) := ⟨within.subset⟩

instance {pending : Pending} [within : Within seen pending] : Within seen pending.record :=
  ⟨within.subset⟩

theorem context_iff {context : Context} :
    Within seen context ↔ Within seen context.stack ∧ Within seen context.frames ∧
        Within seen context.pending ∧ Within seen context.owner := by
  simp only [iff, ← Set.union_subset_iff, ← Set.union_assoc]
  exact Iff.rfl

instance [Within seen stack] [Within seen frames] [Within seen pending] [Within seen owner] :
    Within seen (Context.mk stack frames pending owner) :=
  context_iff.mpr ⟨inferInstance, inferInstance, inferInstance, inferInstance⟩

instance {context : Context} [within : Within seen context] : Within seen context.stack :=
  (context_iff.mp within).1

instance {context : Context} [within : Within seen context] : Within seen context.frames :=
  (context_iff.mp within).2.1

instance {context : Context} [within : Within seen context] : Within seen context.pending :=
  (context_iff.mp within).2.2.1

instance {context : Context} [within : Within seen context] : Within seen context.owner :=
  (context_iff.mp within).2.2.2

instance [Within seen context] : Within seen (context.ensureSize size) := by
  rw [Context.ensureSize]
  infer_instance

instance [Within seen context] : Within seen (context.slot index) := by
  rw [Context.slot]
  infer_instance

instance [Within seen context] [Within seen value] : Within seen (context.setSlot index value) := by
  rw [Context.setSlot]
  infer_instance

instance [Within seen context] : Within seen (context.clear first last) := by
  have cleared (stack : Array Value) [Within seen stack] (indices : List Nat) :
      Within seen (indices.foldl (fun stack index => stack.setIfInBounds index .nil) stack) := by
    induction indices generalizing stack with
    | nil => exact ‹Within seen stack›
    | cons index rest inductionHypothesis => exact inductionHypothesis _
  rw [Context.clear]
  have := cleared (context.ensureSize last).stack (List.range' first (last - first))
  infer_instance

end Contexts

/-! ### Machines -/

section Machines

variable {heap : Heap} {contexts : Array (Option Context)} {currentFiber : Option Handle}
  {resumers : List (ContextId × Option Handle)} {yielded : Option Value} {globals : Table Symbol Value}
  {coreClasses : Table CoreClass Handle} {mainObject owner : Handle} {methodCache : MethodCache}
  {machine changed : Machine} {method : Method} {generation : Nat}

theorem heap_iff : Within seen heap ↔ ∀ handle object, heap.get? handle = some object → Within seen object :=
  iff.trans ⟨fun subset handle object found => ⟨fun _ isIn => subset ⟨handle, object, found, isIn⟩⟩,
    fun each _ ⟨handle, object, found, isIn⟩ => (each handle object found).subset isIn⟩

theorem of_get? {handle : Handle} {object : Object} (found : heap.get? handle = some object)
    [within : Within seen heap] : Within seen object :=
  heap_iff.mp within handle object found

/-- A heap with the same objects. -/
theorem of_cells (heap : Heap) {changed : Heap} (same : changed.cells = heap.cells) [within : Within seen heap] :
    Within seen changed :=
  heap_iff.mpr fun handle object found => by
    rw [Heap.get?, same] at found
    exact heap_iff.mp within handle object found

instance {bytes : Nat} [Within seen heap] : Within seen (heap.grow bytes) := of_cells heap rfl

instance {mark : Nat} [Within seen heap] : Within seen (heap.restoreArena mark) := of_cells heap rfl

theorem machine_iff :
    Within seen machine ↔ Within seen machine.heap ∧ Within seen machine.contexts ∧
      Within seen machine.currentFiber ∧ Within seen machine.resumers ∧ Within seen machine.yielded ∧
      Within seen machine.globals ∧ (∀ core, Within seen (machine.coreClass core)) ∧
      Within seen machine.mainObject ∧ Within seen machine.methodCache := by
  have classes : (∀ core, Within seen (machine.coreClass core)) ↔
      {mention | ∃ core, mention ∈ Mentions.of (machine.coreClass core)} ⊆ seen :=
    ⟨fun each mention ⟨core, isIn⟩ => (each core).subset isIn,
      fun subset core => ⟨fun mention isIn => subset ⟨core, isIn⟩⟩⟩
  rw [classes]
  simp only [iff, ← Set.union_subset_iff, ← Set.union_assoc]
  exact Iff.rfl

instance [within : Within seen machine] : Within seen machine.heap :=
  (machine_iff.mp within).1

instance [within : Within seen machine] : Within seen machine.contexts :=
  (machine_iff.mp within).2.1

instance [within : Within seen machine] : Within seen machine.currentFiber :=
  (machine_iff.mp within).2.2.1

instance [within : Within seen machine] : Within seen machine.resumers :=
  (machine_iff.mp within).2.2.2.1

instance [within : Within seen machine] : Within seen machine.yielded :=
  (machine_iff.mp within).2.2.2.2.1

instance [within : Within seen machine] : Within seen machine.globals :=
  (machine_iff.mp within).2.2.2.2.2.1

instance {core : CoreClass} [within : Within seen machine] : Within seen (machine.coreClass core) :=
  (machine_iff.mp within).2.2.2.2.2.2.1 core

instance [within : Within seen machine] : Within seen machine.mainObject :=
  (machine_iff.mp within).2.2.2.2.2.2.2.1

instance [within : Within seen machine] : Within seen machine.methodCache :=
  (machine_iff.mp within).2.2.2.2.2.2.2.2

instance {id : ContextId} [within : Within seen machine] : Within seen (machine.context? id) := by
  have : Within seen machine.contexts[id.index]? := inferInstance
  rw [Machine.context?]
  cases found : machine.contexts[id.index]? with
  | none => exact inferInstanceAs (Within seen (none : Option Context))
  | some context? => exact of_some found

theorem cachedMethod_iff {entry : CachedMethod} :
    Within seen entry ↔ Within seen entry.method ∧ Within seen entry.owner := by
  simp only [iff, ← Set.union_subset_iff]
  exact Iff.rfl

theorem methodCache_iff : Within seen methodCache ↔ ∀ (key : Handle × Symbol) (entry : CachedMethod),
    methodCache.entries[key]? = some entry → Within seen entry :=
  iff.trans ⟨fun subset key entry found => ⟨fun _ isIn => subset ⟨key, entry, found, isIn⟩⟩,
    fun each _ ⟨key, entry, found, isIn⟩ => (each key entry found).subset isIn⟩

end Machines

/-! ### Failures, exits and arguments -/

section Calls

variable {handle : Handle} {value block : Value} {target : Nat} {positional : List Value}
  {keywords : List (Value × Value)} {args : Args} {leading post : List Value}
  {rest : Option (List Value)} {optionalCount : Nat} {strict : Bool} {keywords? : Option Value}

instance [within : Within seen handle] : Within seen (Failure.raised handle) := ⟨within.subset⟩

instance {error : Binary.LoadError} : Within seen (Failure.load error) := ⟨Set.empty_subset _⟩

instance {cause : FatalCause} : Within seen (Failure.fatal cause) := ⟨Set.empty_subset _⟩

instance {breach : Breach} : Within seen (Failure.breach breach) := ⟨Set.empty_subset _⟩

instance : Within seen Failure.outOfFuel := ⟨Set.empty_subset _⟩

instance [within : Within seen value] : Within seen (Failure.unwinding target value) := ⟨within.subset⟩

instance [within : Within seen value] : Within seen (Exit.returned value) := ⟨within.subset⟩

instance [within : Within seen value] : Within seen (Exit.yielded value) := ⟨within.subset⟩

instance {exit : Exit} [within : Within seen exit] : Within seen exit.value := ⟨within.subset⟩

theorem args_iff {args : Args} :
    Within seen args ↔ Within seen args.positional ∧ Within seen args.keywords ∧ Within seen args.block := by
  simp only [iff, ← Set.union_subset_iff, ← Set.union_assoc]
  exact Iff.rfl

instance [Within seen positional] [Within seen keywords] [Within seen block] :
    Within seen (Args.mk positional keywords block) :=
  args_iff.mpr ⟨inferInstance, inferInstance, inferInstance⟩

instance {args : Args} [within : Within seen args] : Within seen args.positional :=
  (args_iff.mp within).1

instance {args : Args} [within : Within seen args] : Within seen args.keywords :=
  (args_iff.mp within).2.1

instance {args : Args} [within : Within seen args] : Within seen args.block :=
  (args_iff.mp within).2.2

theorem boundArgs_iff {bound : BoundArgs} :
    Within seen bound ↔ Within seen bound.leading ∧ Within seen bound.rest ∧ Within seen bound.post := by
  simp only [iff, ← Set.union_subset_iff, ← Set.union_assoc]
  exact Iff.rfl

instance [Within seen leading] [Within seen rest] [Within seen post] :
    Within seen (BoundArgs.mk leading rest post optionalCount) :=
  boundArgs_iff.mpr ⟨inferInstance, inferInstance, inferInstance⟩

instance {bound : BoundArgs} [within : Within seen bound] : Within seen bound.leading :=
  (boundArgs_iff.mp within).1

instance {bound : BoundArgs} [within : Within seen bound] : Within seen bound.rest :=
  (boundArgs_iff.mp within).2.1

instance {bound : BoundArgs} [within : Within seen bound] : Within seen bound.post :=
  (boundArgs_iff.mp within).2.2

theorem passedArgs_iff {passed : PassedArgs} :
    Within seen passed ↔ Within seen passed.args ∧ Within seen passed.keywords? ∧ Within seen passed.block := by
  simp only [iff, ← Set.union_subset_iff, ← Set.union_assoc]
  exact Iff.rfl

instance [Within seen positional] [Within seen keywords?] [Within seen block] :
    Within seen (PassedArgs.mk strict positional keywords? block) :=
  passedArgs_iff.mpr ⟨inferInstance, inferInstance, inferInstance⟩

instance {passed : PassedArgs} [within : Within seen passed] : Within seen passed.args :=
  (passedArgs_iff.mp within).1

instance {passed : PassedArgs} [within : Within seen passed] : Within seen passed.keywords? :=
  (passedArgs_iff.mp within).2.1

instance {passed : PassedArgs} [within : Within seen passed] : Within seen passed.block :=
  (passedArgs_iff.mp within).2.2

instance {pin : Pin} [within : Within seen pin] : Within seen pin.value := ⟨within.subset⟩

instance {id : Option Nat} [within : Within seen value] : Within seen (Pin.mk id value) := ⟨within.subset⟩

end Calls

/-! ### Functions of the machine -/

section Functions

variable {args : Args} {index : Nat} {value : Value} {items : Array Value} {list : List Value}
  {spec : ArgSpec} {strict : Bool}

instance [Within seen args] : Within seen (args.get index) := by
  rw [Args.get]
  infer_instance

instance [Within seen args] : Within seen args.rest := by
  rw [Args.rest]
  infer_instance

instance [Within seen args] [Within seen value] : Within seen (args.prepend value) := by
  rw [Args.prepend]
  infer_instance

instance [Within seen list] : Within seen (Args.ofList list) := by
  rw [Args.ofList]
  infer_instance

instance [Within seen args] : Within seen args.block? := by
  rw [Args.block?]
  infer_instance

instance {length : Nat} [Within seen list] : Within seen (padNil list length) := by
  rw [padNil]
  infer_instance

instance {items? : Option (Array Value)} [within : Within seen items?] [Within seen list] :
    Within seen (spec.spread strict list items?) := by
  unfold ArgSpec.spread
  split
  · have : Within seen _ := option_iff.mp within _ rfl
    infer_instance
  · infer_instance

instance [Within seen list] : Within seen (spec.bind list) := by
  rw [ArgSpec.bind]
  infer_instance

instance {before after : Nat} [Within seen list] : Within seen (VM.splitRest list before after) := by
  unfold VM.splitRest
  split <;> infer_instance

instance [within : Within seen list] : Within seen (pairUp list) := by
  revert within
  fun_induction pairUp list with
  | case1 key value rest inductionHypothesis =>
      intro within
      have := head within
      have := head (tail within)
      have := @inductionHypothesis (tail (tail within))
      infer_instance
  | case2 =>
      intro
      infer_instance

instance {index : Int} [Within seen items] : Within seen (itemAt? items index) := by
  rw [itemAt?]
  infer_instance

instance {position : Nat} [Within seen items] [Within seen value] :
    Within seen (storeAt items position value) := by
  rw [storeAt]
  infer_instance

instance {start count : Int} [Within seen items] : Within seen (sliceOf? items start count) := by
  rw [sliceOf?]
  infer_instance

instance {first last : Int64} : Within seen (integersBelow first last) := by
  rw [integersBelow]
  infer_instance

end Functions

end Within

end RiteVm
