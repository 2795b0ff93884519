import RiteVm.Machine.Basic

/-!
Contract: which references an object and a register stack store.

Owns:
- one relation for each kind of record, with a constructor for every place that stores a
  reference;
- the agreement of these relations with the lists that the collector follows.

Does not own: what can be reached along the references.
-/

namespace RiteVm

/-- A value refers to the object whose handle it is. -/
inductive Value.RefersTo : Value → Node → Prop where
  | object (handle : Handle) : RefersTo (.object handle) (.object handle)

/-- The references that a class or module stores. -/
inductive ClassRecord.RefersTo (record : ClassRecord) : Node → Prop where
  | superclass {parent : Handle} :
      record.superclass = some parent → RefersTo record (.object parent)
  | included {module : Handle} : module ∈ record.includes → RefersTo record (.object module)
  | outer {scope : Handle} : record.outer = some scope → RefersTo record (.object scope)
  | attached {owner : Handle} : record.attached = some owner → RefersTo record (.object owner)
  | method {name : Symbol} {body : Handle} :
      (name, Method.proc body) ∈ record.methods.entries → RefersTo record (.object body)
  | constant {name : Symbol} {value : Value} {node : Node} :
      (name, value) ∈ record.constants.entries → value.RefersTo node → RefersTo record node
  | classVariable {name : Symbol} {value : Value} {node : Node} :
      (name, value) ∈ record.classVars.entries → value.RefersTo node → RefersTo record node

/-- The references that the scope of a closure stores. -/
inductive EnvStorage.RefersTo : EnvStorage → Node → Prop where
  | context (context : ContextId) (fiber : Option Handle) (base count : Nat) :
      RefersTo (.onStack context fiber base count) (.context context)
  | fiber (context : ContextId) (fiber : Handle) (base count : Nat) :
      RefersTo (.onStack context (some fiber) base count) (.object fiber)
  | captured {values : Array Value} {value : Value} {node : Node} :
      value ∈ values → value.RefersTo node → RefersTo (.detached values) node

/-- The references that a content stores. -/
inductive Content.RefersTo : Content → Node → Prop where
  | item {items : Array Value} {value : Value} {node : Node} :
      value ∈ items → value.RefersTo node → RefersTo (.array items) node
  | key {table : OrderedHash} {entry : OrderedHash.Entry} {node : Node} :
      some entry ∈ table.slots → entry.key.RefersTo node → RefersTo (.hash table) node
  | value {table : OrderedHash} {entry : OrderedHash.Entry} {node : Node} :
      some entry ∈ table.slots → entry.value.RefersTo node → RefersTo (.hash table) node
  | rangeFirst {record : RangeRecord} {node : Node} :
      record.first.RefersTo node → RefersTo (.range record) node
  | rangeLast {record : RangeRecord} {node : Node} :
      record.last.RefersTo node → RefersTo (.range record) node
  | classOrModule {record : ClassRecord} {node : Node} :
      record.RefersTo node → RefersTo (.classOrModule record) node
  | upper {record : ProcRecord} {proc : Handle} :
      record.upper = some proc → RefersTo (.proc record) (.object proc)
  | scope {record : ProcRecord} {env : Handle} :
      record.env = some env → RefersTo (.proc record) (.object env)
  | target (record : ProcRecord) : RefersTo (.proc record) (.object record.targetClass)
  | storage {record : EnvRecord} {node : Node} :
      record.storage.RefersTo node → RefersTo (.env record) node
  | envOwner {record : EnvRecord} {owner : Handle} :
      record.owner = some owner → RefersTo (.env record) (.object owner)
  | fiberBody (record : FiberRecord) : RefersTo (.fiber record) (.object record.body)
  | fiberContext (record : FiberRecord) : RefersTo (.fiber record) (.context record.context)
  | message {record : ExceptionRecord} {node : Node} :
      record.message.RefersTo node → RefersTo (.exception record) node
  | cause {record : ExceptionRecord} {exception : Handle} :
      record.cause = some exception → RefersTo (.exception record) (.object exception)
  | receiver {record : ExceptionRecord} {value : Value} {node : Node} :
      record.receiver = some value → value.RefersTo node → RefersTo (.exception record) node
  | exitValue {record : ExitRecord} {node : Node} :
      record.value.RefersTo node → RefersTo (.exit record) node

/-- The references that an object stores. -/
inductive Object.RefersTo (object : Object) : Node → Prop where
  | class : RefersTo object (.object object.classHandle)
  | field {name : Symbol} {value : Value} {node : Node} :
      (name, value) ∈ object.fields.entries → value.RefersTo node → RefersTo object node
  | content {node : Node} : object.content.RefersTo node → RefersTo object node

/-- The references that a frame stores. -/
inductive Frame.RefersTo (frame : Frame) : Node → Prop where
  | proc {proc : Handle} : frame.proc = some proc → RefersTo frame (.object proc)
  | owner {owner : Handle} : frame.owner = some owner → RefersTo frame (.object owner)
  | target : RefersTo frame (.object frame.targetClass)
  | scope {env : Handle} : frame.env = some env → RefersTo frame (.object env)
  | ensuring {exception : Handle} :
      frame.ensuring = some exception → RefersTo frame (.object exception)
  | block {node : Node} : frame.block.RefersTo node → RefersTo frame node

/-- The references that a register stack stores. A slot counts if it lies below the top
of some frame. -/
inductive Context.RefersTo (context : Context) : Node → Prop where
  | slot {frame : Frame} {index : Nat} {value : Value} {node : Node} :
      frame ∈ context.frames → index < frame.top → context.stack[index]? = some value →
      value.RefersTo node → RefersTo context node
  | frame {frame : Frame} {node : Node} :
      frame ∈ context.frames → frame.RefersTo node → RefersTo context node
  | pending {pending : Pending} :
      context.pending = some pending → RefersTo context (.object pending.record)
  | owner {fiber : Handle} : context.owner = some fiber → RefersTo context (.object fiber)

/-! ### Agreement with the lists that the collector follows -/

namespace Node

theorem mem_ofValue {value : Value} {node : Node} :
    node ∈ ofValue value ↔ value.RefersTo node := by
  constructor
  · intro member
    cases value with
    | object handle =>
        rw [ofValue, List.mem_singleton] at member
        subst member
        exact .object handle
    | _ => simp [ofValue] at member
  · rintro ⟨handle⟩
    exact List.mem_singleton_self _

theorem mem_ofValues {values : List Value} {node : Node} :
    node ∈ ofValues values ↔ ∃ value ∈ values, value.RefersTo node := by
  simp only [ofValues, List.mem_flatMap, mem_ofValue]

theorem mem_ofOption {handle? : Option Handle} {node : Node} :
    node ∈ ofOption handle? ↔ ∃ handle, handle? = some handle ∧ node = .object handle := by
  cases handle? <;> simp [ofOption]

end Node

namespace Table

variable {κ α : Type}

theorem mem_values {table : Table κ α} {value : α} :
    value ∈ table.values ↔ ∃ key, (key, value) ∈ table.entries := by
  simp [values]

/-- The references in the values of a table. -/
theorem mem_ofValues_values {table : Table κ Value} {node : Node} :
    node ∈ Node.ofValues table.values ↔
      ∃ key value, (key, value) ∈ table.entries ∧ value.RefersTo node := by
  simp only [Node.mem_ofValues, mem_values]
  constructor
  · rintro ⟨value, ⟨key, stored⟩, reference⟩
    exact ⟨key, value, stored, reference⟩
  · rintro ⟨key, value, stored, reference⟩
    exact ⟨value, ⟨key, stored⟩, reference⟩

end Table

namespace OrderedHash

theorem mem_pairs_references {table : OrderedHash} {node : Node} :
    node ∈ (table.pairs.flatMap fun (key, value) => Node.ofValue key ++ Node.ofValue value) ↔
      ∃ entry, some entry ∈ table.slots ∧
        (entry.key.RefersTo node ∨ entry.value.RefersTo node) := by
  simp only [pairs, entries, List.mem_flatMap, List.mem_map, List.mem_filterMap, id,
    exists_eq_right, List.mem_append, Node.mem_ofValue, Array.mem_toList_iff]
  constructor
  · rintro ⟨pair, ⟨entry, stored, rfl⟩, reference⟩
    exact ⟨entry, stored, reference⟩
  · rintro ⟨entry, stored, reference⟩
    exact ⟨_, ⟨entry, stored, rfl⟩, reference⟩

end OrderedHash

theorem Method.mem_references {method : Method} {node : Node} :
    node ∈ method.references ↔ ∃ body, method = .proc body ∧ node = .object body := by
  cases method <;> simp [references]

theorem ClassRecord.mem_references {record : ClassRecord} {node : Node} :
    node ∈ (Content.classOrModule record).references ↔ record.RefersTo node := by
  simp only [Content.references, List.mem_append, Node.mem_ofOption, List.mem_map,
    List.mem_flatMap, Method.mem_references, Table.mem_values, Table.mem_ofValues_values]
  constructor
  · rintro ((((((superclass | outer) | attached) | included) | method) | constant) | classVar)
    · obtain ⟨parent, stored, rfl⟩ := superclass
      exact .superclass stored
    · obtain ⟨scope, stored, rfl⟩ := outer
      exact .outer stored
    · obtain ⟨owner, stored, rfl⟩ := attached
      exact .attached stored
    · obtain ⟨module, stored, rfl⟩ := included
      exact .included (Array.mem_toList_iff.mp stored)
    · obtain ⟨method, ⟨name, stored⟩, body, rfl, rfl⟩ := method
      exact .method stored
    · obtain ⟨name, value, stored, reference⟩ := constant
      exact .constant stored reference
    · obtain ⟨name, value, stored, reference⟩ := classVar
      exact .classVariable stored reference
  · intro reference
    cases reference with
    | superclass stored => simp [stored]
    | included stored => simp [stored]
    | outer stored => simp [stored]
    | attached stored => simp [stored]
    | method stored => exact .inl (.inl (.inr ⟨_, ⟨_, stored⟩, _, rfl, rfl⟩))
    | constant stored reference => exact .inl (.inr ⟨_, _, stored, reference⟩)
    | classVariable stored reference => exact .inr ⟨_, _, stored, reference⟩

theorem EnvRecord.mem_references {record : EnvRecord} {node : Node} :
    node ∈ (Content.env record).references ↔ (Content.env record).RefersTo node := by
  obtain ⟨storage, method, owner⟩ := record
  rw [Content.references, List.mem_append, Node.mem_ofOption]
  constructor
  · rintro (stored | ⟨owner, stored, rfl⟩)
    · refine .storage ?_
      cases storage with
      | onStack context fiber base count =>
          rcases List.mem_cons.mp stored with rfl | fiberStored
          · exact .context context fiber base count
          · obtain ⟨handle, rfl, rfl⟩ := Node.mem_ofOption.mp fiberStored
            exact .fiber context handle base count
      | detached values =>
          obtain ⟨value, captured, reference⟩ := Node.mem_ofValues.mp stored
          exact .captured (Array.mem_toList_iff.mp captured) reference
    · exact .envOwner stored
  · intro reference
    cases reference with
    | storage stored =>
        left
        cases stored with
        | context context fiber base count => exact List.mem_cons_self
        | fiber context fiber base count => simp [Node.ofOption]
        | captured captured reference =>
            exact Node.mem_ofValues.mpr ⟨_, Array.mem_toList_iff.mpr captured, reference⟩
    | envOwner stored => exact .inr ⟨_, stored, rfl⟩

/-- The list of a content holds exactly the references that the content stores. -/
theorem Content.mem_references {content : Content} {node : Node} :
    node ∈ content.references ↔ content.RefersTo node := by
  cases content with
  | plain => simp [references]; nofun
  | string bytes => simp [references]; nofun
  | data record => simp [references]; nofun
  | array items =>
      rw [references, Node.mem_ofValues]
      constructor
      · rintro ⟨value, stored, reference⟩
        exact .item (Array.mem_toList_iff.mp stored) reference
      · rintro ⟨stored, reference⟩
        exact ⟨_, Array.mem_toList_iff.mpr stored, reference⟩
  | hash table =>
      rw [references, OrderedHash.mem_pairs_references]
      constructor
      · rintro ⟨entry, stored, reference | reference⟩
        · exact .key stored reference
        · exact .value stored reference
      · intro reference
        cases reference with
        | key stored reference => exact ⟨_, stored, .inl reference⟩
        | value stored reference => exact ⟨_, stored, .inr reference⟩
  | range record =>
      rw [references, List.mem_append, Node.mem_ofValue, Node.mem_ofValue]
      constructor
      · rintro (reference | reference)
        · exact .rangeFirst reference
        · exact .rangeLast reference
      · intro reference
        cases reference with
        | rangeFirst reference => exact .inl reference
        | rangeLast reference => exact .inr reference
  | classOrModule record =>
      rw [ClassRecord.mem_references]
      constructor
      · exact .classOrModule
      · rintro ⟨reference⟩
        assumption
  | proc record =>
      simp only [references, List.mem_append, Node.mem_ofOption, List.mem_singleton]
      constructor
      · rintro ((⟨proc, stored, rfl⟩ | ⟨env, stored, rfl⟩) | rfl)
        · exact .upper stored
        · exact .scope stored
        · exact .target record
      · intro reference
        cases reference with
        | upper stored => exact .inl (.inl ⟨_, stored, rfl⟩)
        | scope stored => exact .inl (.inr ⟨_, stored, rfl⟩)
        | target => exact .inr rfl
  | env record => exact EnvRecord.mem_references
  | fiber record =>
      simp only [references, List.mem_cons, List.not_mem_nil, or_false]
      constructor
      · rintro (rfl | rfl)
        · exact .fiberBody record
        · exact .fiberContext record
      · intro reference
        cases reference with
        | fiberBody => exact .inl rfl
        | fiberContext => exact .inr rfl
  | exception record =>
      obtain ⟨message, cause, backtrace, receiver, name⟩ := record
      simp only [references, List.mem_append, Node.mem_ofOption, Node.mem_ofValue]
      constructor
      · rintro ((reference | ⟨exception, stored, rfl⟩) | reference)
        · exact .message reference
        · exact .cause stored
        · cases receiver with
          | none => simp at reference
          | some value => exact .receiver rfl (Node.mem_ofValue.mp reference)
      · intro reference
        cases reference with
        | message reference => exact .inl (.inl reference)
        | cause stored => exact .inl (.inr ⟨_, stored, rfl⟩)
        | receiver stored reference =>
            obtain rfl : receiver = some _ := stored
            exact .inr (Node.mem_ofValue.mpr reference)
  | exit record =>
      rw [references, Node.mem_ofValue]
      constructor
      · exact .exitValue
      · rintro ⟨reference⟩
        assumption

/-- The list of an object holds exactly the references that the object stores. -/
theorem Object.mem_references {object : Object} {node : Node} :
    node ∈ object.references ↔ object.RefersTo node := by
  simp only [references, List.cons_append, List.mem_cons, List.mem_append,
    Table.mem_ofValues_values, Content.mem_references]
  constructor
  · rintro (rfl | ⟨name, value, stored, reference⟩ | reference)
    · exact .class
    · exact .field stored reference
    · exact .content reference
  · intro reference
    cases reference with
    | «class» => exact .inl rfl
    | field stored reference => exact .inr (.inl ⟨_, _, stored, reference⟩)
    | content reference => exact .inr (.inr reference)

namespace Context

theorem mem_frameReferences {frame : Frame} {node : Node} :
    node ∈ frameReferences frame ↔ frame.RefersTo node := by
  simp only [frameReferences, List.mem_append, Node.mem_ofOption, List.mem_singleton,
    Node.mem_ofValue]
  constructor
  · rintro (((((⟨proc, stored, rfl⟩ | ⟨owner, stored, rfl⟩) | rfl) | ⟨env, stored, rfl⟩) |
      ⟨exception, stored, rfl⟩) | reference)
    · exact .proc stored
    · exact .owner stored
    · exact .target
    · exact .scope stored
    · exact .ensuring stored
    · exact .block reference
  · intro reference
    cases reference with
    | proc stored => simp [stored]
    | owner stored => simp [stored]
    | target => simp
    | scope stored => simp [stored]
    | ensuring stored => simp [stored]
    | block reference => exact .inr reference

theorem lt_stackTop {context : Context} {index : Nat} :
    index < context.stackTop ↔ ∃ frame ∈ context.frames, index < frame.top := by
  have bounded (frames : List Frame) (top : Nat) :
      index < frames.foldl (fun top frame => max top frame.top) top ↔
        index < top ∨ ∃ frame ∈ frames, index < frame.top := by
    induction frames generalizing top with
    | nil => simp
    | cons frame rest inductionHypothesis =>
        rw [List.foldl_cons, inductionHypothesis]
        have split : index < max top frame.top ↔ index < top ∨ index < frame.top := by omega
        simp only [split, List.mem_cons, exists_eq_or_imp, or_assoc]
  rw [stackTop, ← Array.foldl_toList, bounded]
  simp

/-- The list of a register stack holds exactly the references that the stack stores. -/
theorem mem_references {context : Context} {node : Node} :
    node ∈ context.references ↔ context.RefersTo node := by
  simp only [references, List.mem_append, Node.mem_ofValues, List.mem_flatMap,
    mem_frameReferences, Node.mem_ofOption]
  constructor
  · rintro (((⟨value, below, reference⟩ | ⟨frame, member, reference⟩) |
      ⟨record, stored, rfl⟩) | ⟨fiber, stored, rfl⟩)
    · obtain ⟨index, bound, rfl⟩ := Array.mem_iff_getElem.mp (Array.mem_toList_iff.mp below)
      have belowTop : index < context.stackTop := by
        have := bound
        simp only [Array.take_eq_extract, Array.size_extract] at this
        omega
      obtain ⟨frame, member, belowFrame⟩ := lt_stackTop.mp belowTop
      refine .slot member belowFrame ?_ reference
      simp
    · exact .frame (Array.mem_toList_iff.mp member) reference
    · obtain ⟨pending, isPending, rfl⟩ := Option.map_eq_some_iff.mp stored
      exact .pending isPending
    · exact .owner stored
  · intro reference
    cases reference with
    | @slot frame index value _ member belowFrame stored reference =>
        refine .inl (.inl (.inl ⟨value, ?_, reference⟩))
        have belowTop : index < context.stackTop := lt_stackTop.mpr ⟨frame, member, belowFrame⟩
        have kept : (context.stack.take context.stackTop)[index]? = some value := by
          obtain ⟨bound, _⟩ := Array.getElem?_eq_some_iff.mp stored
          rw [Array.take_eq_extract, Array.getElem?_extract, if_pos (by omega), Nat.zero_add,
            stored]
        exact Array.mem_toList_iff.mpr (Array.mem_of_getElem? kept)
    | frame member reference =>
        exact .inl (.inl (.inr ⟨_, Array.mem_toList_iff.mpr member, reference⟩))
    | pending stored => simp [stored]
    | owner stored => exact .inr ⟨_, stored, rfl⟩

end Context

end RiteVm
