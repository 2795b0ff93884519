import RiteVm.Proofs.Collector.Reachability
import RiteVm.Proofs.MethodCache.Hierarchy
import RiteVm.Proofs.Provenance.Issue
import RiteVm.Proofs.Unwinding.TopFrame

/-!
Contract: every class that can be named has a name.

Owns:
- values from which live objects only can be reached;
- ranks below the number of objects;
- the class of an object without singleton classes, and the names of classes.

A singleton class is named after its object, which may have a singleton class again. So the walk
goes down in rank. The walk to a class that is no singleton class goes along the superclasses.
-/

namespace RiteVm

/-! ### Values with live objects -/

theorem Query.exists_content_of_class? {machine : Machine} {handle : Handle} {record : ClassRecord}
    (known : machine.class? handle = some record) :
    ∃ object, machine.heap.get? handle = some object ∧ object.content = .classOrModule record := by
  obtain ⟨object, found, isClass⟩ := Option.bind_eq_some_iff.mp known
  refine ⟨object, found, ?_⟩
  rw [Object.class?] at isClass
  split at isClass
  · rename_i stored isStored
    rw [isStored, Option.some.inj isClass]
  · cases isClass

/-- An object keeps another one, apart from what it defines as a class. -/
inductive Machine.Keeps (machine : Machine) : Handle → Handle → Prop where
  | content {handle target : Handle} {object : Object} :
      machine.heap.get? handle = some object → object.class? = none →
      object.content.RefersTo (.object target) → Keeps machine handle target
  | field {handle target : Handle} {object : Object} {name : Symbol} :
      machine.heap.get? handle = some object → (name, Value.object target) ∈ object.fields.entries →
      Keeps machine handle target
  | attached {handle target : Handle} {record : ClassRecord} :
      machine.class? handle = some record → record.attached = some target → Keeps machine handle target

/-- Only live objects can be reached from a value, and their classes are live. -/
def Value.IsLive (machine : Machine) (value : Value) : Prop :=
  ∀ handle target, value = .object handle → Relation.ReflTransGen machine.Keeps handle target →
    ∃ object, machine.heap.get? target = some object ∧ (machine.heap.get? object.classHandle).isSome

namespace Value.IsLive

variable {machine : Machine} {handle target : Handle} {object : Object} {value : Value}

theorem exists_object (live : (Value.object handle).IsLive machine) :
    ∃ object, machine.heap.get? handle = some object ∧ (machine.heap.get? object.classHandle).isSome :=
  live handle handle rfl .refl

theorem of_keeps (live : (Value.object handle).IsLive machine) (keeps : machine.Keeps handle target) :
    (Value.object target).IsLive machine := by
  intro other last isTarget leads
  cases isTarget
  exact live handle last rfl (.head keeps leads)

/-- What a live object stores is live. -/
theorem of_content {content : Content} (live : (Value.object handle).IsLive machine)
    (found : machine.heap.get? handle = some object) (isContent : object.content = content)
    (isNoClass : ∀ record, content ≠ .classOrModule record)
    (stored : ∀ node, value.RefersTo node → content.RefersTo node) : value.IsLive machine := by
  have notClass : object.class? = none := by
    rw [Object.class?, isContent]
    split
    · rename_i record
      exact absurd rfl (isNoClass record)
    · rfl
  rintro other target rfl
  exact live.of_keeps (.content found notClass (isContent ▸ stored _ (.object other))) other target rfl

theorem of_field {name : Symbol} (live : (Value.object handle).IsLive machine)
    (found : machine.heap.get? handle = some object) (stored : (name, value) ∈ object.fields.entries) :
    value.IsLive machine := by
  rintro other target rfl
  exact live.of_keeps (.field found stored) other target rfl

/-- It is enough that whatever the collector would follow is live. -/
theorem of_refersTo (live : ∀ node handle, value.RefersTo node →
      Relation.ReflTransGen machine.RefersTo node (.object handle) → (machine.heap.get? handle).isSome) :
    value.IsLive machine := by
  rintro handle target rfl leads
  have reached : Relation.ReflTransGen machine.RefersTo (.object handle) (.object target) := by
    induction leads with
    | refl => exact .refl
    | tail _ keeps inductionHypothesis =>
        refine inductionHypothesis.tail ?_
        cases keeps with
        | content found _ stored => exact .object found (.content stored)
        | field found stored => exact .object found (.field stored (.object _))
        | attached known isAttached =>
            obtain ⟨object, found, isClass⟩ := Query.exists_content_of_class? known
            exact .object found (.content (isClass ▸ .classOrModule (.attached isAttached)))
  obtain ⟨object, found⟩ := Option.isSome_iff_exists.mp (live _ target (.object handle) reached)
  exact ⟨object, found, live _ _ (.object handle) (reached.tail (.object found .class))⟩

end Value.IsLive

/-! ### Ranks -/

namespace Heap

variable {heap : Heap} {rank : Handle → Nat} {bound : Nat}

/-- The number of objects with a lower rank is a rank, too. -/
theorem Ranked.below_size (ranked : heap.Ranked rank bound) : ∃ rank, heap.Ranked rank heap.cells.size := by
  refine ⟨fun handle => (heap.handles.filter (rank · < rank handle)).length, ?_, ?_⟩
  · intro handle object found
    refine Nat.lt_of_lt_of_le ?_ heap.length_handles_le
    refine List.length_filter_lt_length_iff_exists.mpr ⟨handle, mem_handles.mpr ⟨object, found⟩, ?_⟩
    simp
  · intro handle object anchor found anchors isLive
    have lower := ranked.anchors handle object anchor found anchors isLive
    have fewer : heap.handles.filter (rank · < rank anchor) =
        (heap.handles.filter (rank · < rank handle)).filter (rank · < rank anchor) := by
      rw [List.filter_filter]
      refine List.filter_congr fun other _ => ?_
      have (isLower : rank other < rank anchor) : rank other < rank handle := Nat.lt_trans isLower lower
      simpa using this
    have isAnchor : anchor ∈ heap.handles.filter (rank · < rank handle) :=
      List.mem_filter.mpr ⟨mem_handles.mpr (Option.isSome_iff_exists.mp isLive), decide_eq_true lower⟩
    rw [fewer]
    exact List.length_filter_lt_length_iff_exists.mpr ⟨anchor, isAnchor, by simp⟩

theorem Founded.exists_rank (founded : heap.Founded) : ∃ rank, heap.Ranked rank heap.cells.size := by
  obtain ⟨rank, bound, ranked⟩ := founded.ranked
  exact ranked.below_size

end Heap

/-! ### Names of classes -/

namespace Query

variable {machine : Machine} {handle : Handle} {record : ClassRecord} {list : List Handle} {fuel : Nat}

/-- From a class upward there is one that is no singleton class. -/
theorem nominalClass_of_lineage (founded : machine.heap.Founded) (lineage : machine.Lineage handle list)
    (enough : list.length ≤ fuel) :
    ∃ nominal record, nominalClass fuel handle machine = .ok nominal ∧
      machine.class? nominal = some record ∧ record.kind ≠ .singleton := by
  induction fuel generalizing handle list with
  | zero => exact absurd enough (Nat.not_le.mpr (List.length_pos_of_mem lineage.mem_self))
  | succ fuel inductionHypothesis =>
      obtain ⟨parents, hasParents⟩ := lineage.exists_parents?
      obtain ⟨record, known, rfl⟩ := Option.map_eq_some_iff.mp hasParents
      obtain ⟨object, found, isClass⟩ := exists_content_of_class? known
      have isSingleton : object.isSingletonClass = (record.kind == .singleton) := by
        rw [Object.isSingletonClass, isClass]
      rw [nominalClass, bind_of_ok (object_of_found found), isSingleton]
      split
      · rename_i singleton
        have rooted := founded.rooted handle object found
        rw [isClass] at rooted
        obtain ⟨superclass, isSuperclass⟩ := Option.isSome_iff_exists.mp (rooted (beq_iff_eq.mp singleton))
        have isParent : superclass ∈ record.parents := by simp [ClassRecord.parents, isSuperclass]
        obtain ⟨more, ofSuperclass, -⟩ := lineage.of_parent hasParents isParent
        have shorter := lineage.length_lt_of_parent hasParents isParent ofSuperclass
        rw [bind_of_ok (classRecord_eq_ok_iff.mpr known), isSuperclass]
        exact inductionHypothesis ofSuperclass (by omega)
      · rename_i ordinary
        exact ⟨handle, record, rfl, known, fun singleton => ordinary (beq_iff_eq.mpr singleton)⟩

/-- The name of a class that is no singleton class takes no walk. -/
theorem classNameWithin_of_nominal (known : machine.class? handle = some record) (ordinary : record.kind ≠ .singleton)
    (enough : 0 < fuel) : ∃ name, classNameWithin fuel handle machine = .ok name := by
  obtain ⟨fuel, rfl⟩ := Nat.exists_eq_add_one.mpr enough
  rw [classNameWithin, bind_of_ok (classRecord_eq_ok_iff.mpr known)]
  cases record.name with
  | some name => exact ⟨name, rfl⟩
  | none =>
      cases isKind : record.kind with
      | singleton => exact absurd isKind ordinary
      | module => exact ⟨_, rfl⟩
      | ordinary => exact ⟨_, rfl⟩

variable {object : Object} {rank : Handle → Nat} {value : Value}

/-- The class of a live object without singleton classes. -/
theorem exists_realClassOf (founded : machine.heap.Founded) (hierarchical : machine.Hierarchical)
    (live : (Value.object handle).IsLive machine) :
    ∃ nominal record, realClassOf (.object handle) machine = .ok nominal ∧
      machine.class? nominal = some record ∧ record.kind ≠ .singleton := by
  obtain ⟨object, found, isLive⟩ := live.exists_object
  have classOf : classOf (.object handle) machine = .ok object.classHandle := by
    rw [Query.classOf, bind_of_ok (object_of_found found)]
    rfl
  have hasClass : ∃ record, machine.class? object.classHandle = some record := by
    rcases hierarchical.classes handle object found with isNull | isClass
    · rw [isNull, founded.wellFormed.get?_null] at isLive
      cases isLive
    · exact isClass
  obtain ⟨record, known⟩ := hasClass
  obtain ⟨list, lineage⟩ := hierarchical.lineages _ record known
  have bounded : heapBound machine = .ok (machine.heap.cells.size + 1) := rfl
  rw [realClassOf, bind_of_ok bounded, bind_of_ok classOf]
  exact nominalClass_of_lineage founded lineage (Nat.le_succ_of_le lineage.length_le)

/-- A live class has a name, which is found by as many steps as its rank. -/
theorem classNameWithin_of_live (founded : machine.heap.Founded) (hierarchical : machine.Hierarchical)
    (ranked : machine.heap.Ranked rank machine.heap.cells.size) (live : (Value.object handle).IsLive machine)
    (known : machine.class? handle = some record) (enough : rank handle + 2 ≤ fuel) :
    ∃ name, classNameWithin fuel handle machine = .ok name := by
  induction fuel generalizing handle record with
  | zero => exact absurd enough (by omega)
  | succ fuel inductionHypothesis =>
      by_cases singleton : record.kind = .singleton
      case neg => exact classNameWithin_of_nominal known singleton (Nat.succ_pos fuel)
      rw [classNameWithin, bind_of_ok (classRecord_eq_ok_iff.mpr known), singleton]
      cases record.name with
      | some name => exact ⟨name, rfl⟩
      | none =>
          cases isAttached : record.attached with
          | none => exact ⟨_, rfl⟩
          | some attached =>
              obtain ⟨object, found, isClass⟩ := exists_content_of_class? known
              have liveOn : (Value.object attached).IsLive machine := live.of_keeps (.attached known isAttached)
              obtain ⟨target, isTarget, -⟩ := liveOn.exists_object
              dsimp only
              rw [bind_of_ok (object_of_found isTarget)]
              cases isClassToo : target.class? with
              | some upper =>
                have isUpper : machine.class? attached = some upper := by
                  rw [Machine.class?, isTarget, Option.bind_some, isClassToo]
                have anchors : object.content.Anchors attached := isClass ▸ .attached isAttached
                have lower := ranked.anchors handle object attached found anchors (Option.isSome_of_eq_some isTarget)
                obtain ⟨name, named⟩ := inductionHypothesis liveOn isUpper (by omega)
                dsimp only
                rw [bind_of_ok named]
                exact ⟨_, rfl⟩
              | none =>
                obtain ⟨nominal, upper, isNominal, isUpper, ordinary⟩ := exists_realClassOf founded hierarchical liveOn
                have isLeft : 0 < fuel := by omega
                obtain ⟨name, named⟩ := classNameWithin_of_nominal isUpper ordinary isLeft
                dsimp only
                rw [bind_of_ok isNominal, bind_of_ok named]
                exact ⟨_, rfl⟩

/-- A live class has a name. -/
theorem exists_className (founded : machine.heap.Founded) (hierarchical : machine.Hierarchical)
    (live : (Value.object handle).IsLive machine) (known : machine.class? handle = some record) :
    ∃ name, className handle machine = .ok name := by
  obtain ⟨rank, ranked⟩ := founded.exists_rank
  obtain ⟨object, found, -⟩ := exists_content_of_class? known
  have below := ranked.below handle object found
  have bounded : heapBound machine = .ok (machine.heap.cells.size + 1) := rfl
  rw [className, bind_of_ok bounded]
  exact classNameWithin_of_live founded hierarchical ranked live known (by omega)

/-- The name of the class of a value. -/
def nominalName (value : Value) : Query String := do
  className (← realClassOf value)

/-- The class of a live object has a name. -/
theorem exists_nominalName (founded : machine.heap.Founded) (hierarchical : machine.Hierarchical)
    (live : (Value.object handle).IsLive machine) : ∃ name, nominalName (.object handle) machine = .ok name := by
  obtain ⟨nominal, record, isNominal, known, ordinary⟩ := exists_realClassOf founded hierarchical live
  have bounded : heapBound machine = .ok (machine.heap.cells.size + 1) := rfl
  rw [nominalName, bind_of_ok isNominal, className, bind_of_ok bounded]
  exact classNameWithin_of_nominal known ordinary (Nat.succ_pos _)

end Query

end RiteVm
