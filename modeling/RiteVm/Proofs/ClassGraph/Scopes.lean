import RiteVm.Proofs.ClassGraph.Records

/-!
Contract: what code inside a class sees under the name of a constant, and when it is seen.

Owns:
- the enclosing classes of a class up to the outermost one, of which there are never more than
  objects;
- the look-up of a constant, which ends if there is an outermost class, and which only finds
  out that nothing has a name if there is one;
- what assignments of constants do to enclosing classes: they keep their outermost class,
  unless an anonymous class gets an outer class that it encloses already and so loses its own.

A class may enclose itself through others: an anonymous class gets its outer class with its
name, and nobody looks further than whether this is the class itself.
-/

namespace RiteVm

namespace Machine

variable {machine next : Machine} {handle outer member : Handle} {list more rest : List Handle}
  {record : ClassRecord} {name : Symbol} {fuel : Nat}

/-! ### Enclosing classes -/

/-- The class that encloses a class, if one does. -/
def outer? (machine : Machine) (handle : Handle) : Option (Option Handle) :=
  (machine.class? handle).map (·.outer)

/-- The classes from a class outward up to the outermost one. -/
inductive Scopes (machine : Machine) : Handle → List Handle → Prop where
  | outermost {handle : Handle} :
      machine.outer? handle = some none → Scopes machine handle [handle]
  | inside {handle outer : Handle} {rest : List Handle} :
      machine.outer? handle = some (some outer) → Scopes machine outer rest →
      Scopes machine handle (handle :: rest)

namespace Scopes

theorem mem_self (scopes : machine.Scopes handle list) : handle ∈ list := by
  cases scopes <;> exact List.mem_cons_self

/-- From one class there is only one way outward. -/
theorem unique (scopes : machine.Scopes handle list) (other : machine.Scopes handle more) :
    list = more := by
  induction scopes generalizing more with
  | outermost isOutermost =>
      cases other with
      | outermost => rfl
      | inside isInside => cases isOutermost.symm.trans isInside
  | inside isInside _ inductionHypothesis =>
      cases other with
      | outermost isOutermost => cases isInside.symm.trans isOutermost
      | inside isInside' others =>
          cases isInside.symm.trans isInside'
          rw [inductionHypothesis others]

/-- The way outward from a class on the way is the rest of it. -/
theorem of_mem (scopes : machine.Scopes handle list) (isMember : member ∈ list) :
    ∃ rest, machine.Scopes member rest ∧ rest <:+ list := by
  induction scopes with
  | outermost isOutermost =>
      cases List.mem_singleton.mp isMember
      exact ⟨_, .outermost isOutermost, List.suffix_refl _⟩
  | inside isInside others inductionHypothesis =>
      rcases List.mem_cons.mp isMember with rfl | inRest
      · exact ⟨_, .inside isInside others, List.suffix_refl _⟩
      · obtain ⟨rest, scopes, isSuffix⟩ := inductionHypothesis inRest
        exact ⟨rest, scopes, isSuffix.trans (List.suffix_cons ..)⟩

/-- A class with an outermost class does not enclose itself. -/
theorem not_mem_rest (scopes : machine.Scopes handle (handle :: rest)) : handle ∉ rest := by
  intro isMember
  cases scopes with
  | outermost => cases isMember
  | inside isInside others =>
      obtain ⟨again, scopes', isSuffix⟩ := others.of_mem isMember
      have longer := (Scopes.inside isInside others).unique scopes'
      have := isSuffix.length_le
      rw [← longer, List.length_cons] at this
      omega

theorem nodup (scopes : machine.Scopes handle list) : list.Nodup := by
  induction scopes with
  | outermost => exact List.nodup_cons.mpr ⟨List.not_mem_nil, List.nodup_nil⟩
  | inside isInside others inductionHypothesis =>
      exact List.nodup_cons.mpr ⟨(inside isInside others).not_mem_rest, inductionHypothesis⟩

/-- The way outward only depends on which class encloses which. -/
theorem of_same (scopes : machine.Scopes handle list)
    (same : ∀ other, next.outer? other = machine.outer? other) : next.Scopes handle list := by
  induction scopes with
  | outermost isOutermost => exact .outermost ((same _).trans isOutermost)
  | inside isInside _ inductionHypothesis =>
      exact .inside ((same _).trans isInside) inductionHypothesis

theorem class?_of_mem (scopes : machine.Scopes handle list) (isMember : member ∈ list) :
    ∃ record, machine.class? member = some record := by
  obtain ⟨rest, scopes', -⟩ := scopes.of_mem isMember
  cases scopes' with
  | outermost known | inside known =>
      obtain ⟨record, isClass, -⟩ := Option.map_eq_some_iff.mp known
      exact ⟨record, isClass⟩

/-- There are no more enclosing classes than objects. -/
theorem length_le (scopes : machine.Scopes handle list) :
    list.length ≤ machine.heap.cells.size := by
  refine Heap.length_le_size scopes.nodup fun member isMember => ?_
  obtain ⟨record, isClass⟩ := scopes.class?_of_mem isMember
  obtain ⟨object, found, -⟩ := Option.bind_eq_some_iff.mp isClass
  exact ⟨object, found⟩

end Scopes

/-! ### Look-ups -/

/-- The constant that a class itself has. -/
def constant? (machine : Machine) (name : Symbol) (handle : Handle) : Option Value :=
  (machine.class? handle).bind (·.constants.get? name)

theorem constant?_of_class? (known : machine.class? handle = some record) :
    machine.constant? name handle = record.constants.get? name := by
  rw [constant?, known, Option.bind_some]

theorem constant?_of_record? (same : next.record? handle = machine.record? handle) :
    next.constant? name handle = machine.constant? name handle := by
  have byMap (machine : Machine) : machine.constant? name handle =
      ((machine.class? handle).map (·.constants.get? name)).join := by
    rw [constant?]
    cases machine.class? handle <;> rfl
  rw [byMap, byMap, map_class?_of_record? (fun _ => rfl) same]

/-- If there is an outermost class, the look-up outward ends, with the constant of the first
class that has it. -/
theorem Scopes.constInScopes_eq (scopes : machine.Scopes handle list)
    (enough : list.length ≤ fuel) :
    Query.constInScopes name fuel handle machine =
      .ok (list.findSome? (machine.constant? name)) := by
  induction scopes generalizing fuel with
  | @outermost handle isOutermost =>
      obtain ⟨record, known, outermost⟩ := Option.map_eq_some_iff.mp isOutermost
      cases fuel with
      | zero => exact absurd enough (by simp)
      | succ fuel =>
          rw [Query.constInScopes, Query.bind_eq_ok_iff]
          refine ⟨record, Query.classRecord_eq_ok_iff.mpr known, ?_⟩
          rw [outermost, List.findSome?_cons, constant?_of_class? known]
          cases record.constants.get? name <;> rfl
  | @inside handle outer rest isInside _ inductionHypothesis =>
      obtain ⟨record, known, isOuter⟩ := Option.map_eq_some_iff.mp isInside
      cases fuel with
      | zero => exact absurd enough (by simp)
      | succ fuel =>
          rw [Query.constInScopes, Query.bind_eq_ok_iff]
          refine ⟨record, Query.classRecord_eq_ok_iff.mpr known, ?_⟩
          rw [isOuter, List.findSome?_cons, constant?_of_class? known]
          cases record.constants.get? name with
          | some value => rfl
          | none => exact inductionHypothesis (Nat.le_of_succ_le_succ enough)

/-- Nobody finds out that no enclosing class has a constant unless there is an outermost
class. -/
theorem exists_scopes_of_constInScopes
    (missing : Query.constInScopes name fuel handle machine = .ok none) :
    ∃ list, machine.Scopes handle list := by
  induction fuel generalizing handle with
  | zero => cases missing
  | succ fuel inductionHypothesis =>
      rw [Query.constInScopes] at missing
      obtain ⟨record, read, missing⟩ := Query.bind_eq_ok_iff.mp missing
      have known := Query.classRecord_eq_ok_iff.mp read
      cases isOuter : record.outer with
      | none => exact ⟨_, .outermost (by rw [outer?, known, Option.map_some, isOuter])⟩
      | some outer =>
          rw [isOuter] at missing
          cases isConstant : record.constants.get? name with
          | some value =>
              rw [isConstant] at missing
              cases missing
          | none =>
              rw [isConstant] at missing
              obtain ⟨rest, scopes⟩ := inductionHypothesis missing
              exact ⟨_, .inside (by rw [outer?, known, Option.map_some, isOuter]) scopes⟩

/-- The constant of the first class in a list that has it. -/
theorem firstEntry?_eq (classes : ∀ handle ∈ list, ∃ record, machine.class? handle = some record) :
    ∃ found?, Query.firstEntry? (·.constants) name list machine = .ok found? ∧
      found?.map (·.2) = list.findSome? (machine.constant? name) := by
  induction list with
  | nil => exact ⟨none, rfl, rfl⟩
  | cons first rest inductionHypothesis =>
      obtain ⟨record, known⟩ := classes first List.mem_cons_self
      have read := Query.classRecord_eq_ok_iff.mpr known
      rw [Query.firstEntry?, List.findSome?_cons, constant?_of_class? known]
      cases isConstant : record.constants.get? name with
      | some value =>
          refine ⟨some (first, value), Query.bind_eq_ok_iff.mpr ⟨record, read, ?_⟩, rfl⟩
          rw [isConstant]
          rfl
      | none =>
          obtain ⟨found?, isFirst, same⟩ :=
            inductionHypothesis fun other inRest => classes other (List.mem_cons_of_mem _ inRest)
          refine ⟨found?, Query.bind_eq_ok_iff.mpr ⟨record, read, ?_⟩, same⟩
          rw [isConstant]
          exact isFirst

/-- The look-up among the ancestors and in `Object` takes the first constant there. -/
theorem Lineage.constInAncestors_eq {scope : Handle} {ancestors : List Handle}
    (lineage : machine.Lineage scope ancestors) (coherent : machine.Coherent)
    (isObject : ∃ record, machine.class? (machine.coreClass .object) = some record) :
    ∃ next, machine.SameButLists next ∧
      VM.constInAncestors scope name machine =
        .ok ((ancestors ++ [machine.coreClass .object]).findSome? (machine.constant? name))
          next := by
  have lists := VM.caches_ancestors coherent lineage
  obtain ⟨next, listed⟩ := lists.returns trivial
  have same := lists.same
  have records := ((VM.KeepsRecords.ancestors scope).keeps machine
    coherent.hierarchical.wellFormed).2
  rw [VM.after_of_ok listed] at same records
  have sameObject : next.coreClass .object = machine.coreClass .object := by
    rw [coreClass, same.coreClasses, coreClass]
  have classes : ∀ handle ∈ ancestors ++ [next.coreClass .object],
      ∃ record, next.class? handle = some record := by
    intro handle isMember
    have wasClass : ∃ record, machine.class? handle = some record := by
      rcases List.mem_append.mp isMember with isAncestor | isLast
      · exact lineage.class?_of_mem isAncestor
      · rw [List.mem_singleton.mp isLast, sameObject]
        exact isObject
    obtain ⟨record, known⟩ := wasClass
    have isRecord := records handle
    rw [record?, record?, known, Option.map_some] at isRecord
    obtain ⟨record', known', -⟩ := Option.map_eq_some_iff.mp isRecord
    exact ⟨record', known'⟩
  obtain ⟨found?, isFirst, isFound⟩ := @firstEntry?_eq next _ name classes
  have constants : next.constant? name = machine.constant? name :=
    funext fun handle => constant?_of_record? (records handle)
  rw [constants, sameObject] at isFound
  refine ⟨next, same, ?_⟩
  rw [VM.constInAncestors, VM.bind_of_ok listed, ← isFound]
  exact (VM.bind_of_ok rfl).trans (VM.bind_of_ok (VM.liftM_of_ok isFirst))

/-- A look-up from a class with an outermost class ends: with the constant of the first
enclosing class that has it, else with that of the first ancestor or of `Object`, and else
with a NameError. -/
theorem Scopes.lexicalConst_eq {scope : Handle} {ancestors : List Handle}
    (scopes : machine.Scopes scope list) (coherent : machine.Coherent)
    (lineage : machine.Lineage scope ancestors)
    (isObject : ∃ record, machine.class? (machine.coreClass .object) = some record) :
    ∃ next, machine.SameButLists next ∧
      VM.lexicalConst scope name machine =
        match list.findSome? (machine.constant? name) with
        | some value => .ok value machine
        | none =>
          match (ancestors ++ [machine.coreClass .object]).findSome? (machine.constant? name) with
          | some value => .ok value next
          | none => (do
              VM.raiseNameError s!"uninitialized constant {← Query.symbolText name}" name :
              VM Value) next := by
  obtain ⟨next, same, inherited⟩ :=
    @Lineage.constInAncestors_eq _ name _ _ lineage coherent isObject
  refine ⟨next, same, ?_⟩
  have searched : Query.constInScopes name (machine.heap.cells.size + 1) scope machine =
      .ok (list.findSome? (machine.constant? name)) :=
    scopes.constInScopes_eq (Nat.le_succ_of_le scopes.length_le)
  have bound : (liftM Query.heapBound : VM Nat) machine =
      .ok (machine.heap.cells.size + 1) machine := rfl
  rw [VM.lexicalConst, VM.bind_of_ok bound, VM.bind_of_ok (VM.liftM_of_ok searched)]
  cases list.findSome? (machine.constant? name) with
  | some value => rfl
  | none =>
      dsimp only
      rw [VM.bind_of_ok inherited]
      cases (ancestors ++ [machine.coreClass .object]).findSome? (machine.constant? name) <;> rfl

/-! ### Naming a class -/

/-- A class that gets its name from a constant of another class, which then encloses it. -/
def named (machine : Machine) (outer handle : Handle) (record : ClassRecord) (name : String) :
    Machine :=
  machine.setClass handle
    { record with
      name := some name
      outer := if outer = handle then record.outer else some outer }

/-- The operation that names a class does so, or it leaves a class alone that has a name. -/
theorem named_of_nameClass (known : machine.class? handle = some record)
    (done : VM.nameClass outer handle name machine = .ok ⟨⟩ next) :
    (record.name ≠ none ∧ next = machine) ∨
      record.name = none ∧ ∃ text, next = machine.named outer handle record text := by
  rw [VM.nameClass] at done
  obtain ⟨_, _, read, done⟩ := VM.bind_eq_ok_iff.mp done
  obtain ⟨isRecord, rfl⟩ := VM.liftM_eq_ok_iff.mp read
  cases (Query.classRecord_eq_ok_iff.mpr known).symm.trans isRecord
  cases isNamed : record.name with
  | some text =>
      rw [isNamed] at done
      cases done
      exact .inl ⟨Option.some_ne_none text, rfl⟩
  | none =>
      rw [isNamed] at done
      refine .inr ⟨rfl, ?_⟩
      obtain ⟨text, _, read, done⟩ := VM.bind_eq_ok_iff.mp done
      obtain ⟨-, rfl⟩ := VM.liftM_eq_ok_iff.mp read
      obtain ⟨object, _, read, done⟩ := VM.bind_eq_ok_iff.mp done
      obtain ⟨-, rfl⟩ := VM.liftM_eq_ok_iff.mp read
      have reached : ∃ full, VM.modifyClass handle (fun record =>
          { record with
            name := some full
            outer := if outer = handle then record.outer else some outer }) machine =
          .ok ⟨⟩ next := by
        by_cases isTopLevel : outer = object
        · rw [if_pos isTopLevel] at done
          exact ⟨text, done⟩
        · rw [if_neg isTopLevel] at done
          obtain ⟨outerName, _, read, done⟩ := VM.bind_eq_ok_iff.mp done
          obtain ⟨-, rfl⟩ := VM.liftM_eq_ok_iff.mp read
          exact ⟨_, done⟩
      obtain ⟨full, changed⟩ := reached
      obtain ⟨_, known', rfl⟩ := VM.modifyClass_eq_ok_iff.mp changed
      cases known.symm.trans known'
      exact ⟨full, rfl⟩

section Named

variable {text : String} {start : Handle} {way : List Handle}

theorem outer?_named (known : machine.class? handle = some record) (other : Handle) :
    (machine.named outer handle record text).outer? other =
      if other = handle ∧ outer ≠ handle then some (some outer) else machine.outer? other := by
  rw [outer?, outer?, named, class?_setClass known]
  by_cases isHandle : other = handle
  · rw [if_pos isHandle, isHandle, known, Option.map_some, Option.map_some]
    by_cases isOuter : outer = handle <;> simp [isOuter]
  · rw [if_neg isHandle, if_neg (mt And.left isHandle)]

/-- Only the class that gets the name changes its outer class. -/
theorem outer?_named_of_ne (known : machine.class? handle = some record) {other : Handle}
    (isOther : other ≠ handle) :
    (machine.named outer handle record text).outer? other = machine.outer? other := by
  rw [outer?_named known, if_neg (mt And.left isOther)]

/-- The way outward from a class that the named class does not enclose stays the same. -/
theorem Scopes.named_of_not_mem (known : machine.class? handle = some record)
    (scopes : machine.Scopes member list) (apart : handle ∉ list) :
    (machine.named outer handle record text).Scopes member list := by
  induction scopes with
  | outermost isOutermost =>
      have isOther := List.ne_of_not_mem_cons apart
      exact .outermost ((outer?_named_of_ne known isOther.symm).trans isOutermost)
  | inside isInside _ inductionHypothesis =>
      have isOther := List.ne_of_not_mem_cons apart
      exact .inside ((outer?_named_of_ne known isOther.symm).trans isInside)
        (inductionHypothesis (List.not_mem_of_not_mem_cons apart))

/-- Every class keeps an outermost class if the class that gets the name keeps one. -/
theorem Scopes.exists_named (scopes : machine.Scopes member list)
    (known : machine.class? handle = some record)
    (ofHandle : (machine.named outer handle record text).Scopes handle way) :
    ∃ rest, (machine.named outer handle record text).Scopes member rest := by
  induction scopes with
  | @outermost member isOutermost =>
      by_cases isHandle : member = handle
      · rw [isHandle]
        exact ⟨way, ofHandle⟩
      · exact ⟨_, .outermost ((outer?_named_of_ne known isHandle).trans isOutermost)⟩
  | @inside member _ _ isInside _ inductionHypothesis =>
      by_cases isHandle : member = handle
      · rw [isHandle]
        exact ⟨way, ofHandle⟩
      · obtain ⟨rest, scopes⟩ := inductionHypothesis
        exact ⟨_, .inside ((outer?_named_of_ne known isHandle).trans isInside) scopes⟩

/-- A way outward that leads to the class that gets the name still leads there. -/
theorem Scopes.mem_of_named (known : machine.class? handle = some record)
    (scopes : machine.Scopes start list) (onWay : handle ∈ list)
    (scopes' : (machine.named outer handle record text).Scopes start way) : handle ∈ way := by
  induction scopes generalizing way with
  | outermost =>
      rw [List.mem_singleton.mp onWay]
      exact scopes'.mem_self
  | @inside start _ _ isInside _ inductionHypothesis =>
      by_cases isHandle : start = handle
      · rw [← isHandle]
        exact scopes'.mem_self
      · have still : (machine.named outer handle record text).outer? start = some (some _) :=
          (outer?_named_of_ne known isHandle).trans isInside
        have inRest := List.mem_of_ne_of_mem (Ne.symm isHandle) onWay
        cases scopes' with
        | outermost isOutermost => cases still.symm.trans isOutermost
        | inside isInside' others =>
            cases still.symm.trans isInside'
            exact List.mem_cons_of_mem _ (inductionHypothesis inRest others)

/-- The class that gets the name has an outermost class from then on unless it encloses its new
outer class: the check that it is not the outer class itself only excludes the shortest cycle. -/
theorem Scopes.exists_named_iff (known : machine.class? handle = some record)
    (ofOuter : machine.Scopes outer more) (isOther : outer ≠ handle) :
    (∃ list, (machine.named outer handle record text).Scopes handle list) ↔ handle ∉ more := by
  have isOuter : (machine.named outer handle record text).outer? handle = some (some outer) := by
    rw [outer?_named known, if_pos ⟨rfl, isOther⟩]
  constructor
  · rintro ⟨list, scopes⟩ encloses
    cases scopes with
    | outermost isOutermost => cases isOuter.symm.trans isOutermost
    | inside isInside others =>
        cases isOuter.symm.trans isInside
        exact (Scopes.inside isOuter others).not_mem_rest
          (ofOuter.mem_of_named known encloses others)
  · intro apart
    exact ⟨_, .inside isOuter (ofOuter.named_of_not_mem known apart)⟩

end Named

/-! ### Assignments of constants -/

/-- Every class has an outermost class around it. -/
def Nested (machine : Machine) : Prop :=
  ∀ handle around, machine.outer? handle = some around → ∃ list, machine.Scopes handle list

/-- An assignment of an anonymous class to a constant of a class inside it. -/
def Tangles (machine : Machine) (outer : Handle) (value : Value) : Prop :=
  ∃ handle record list, value = .object handle ∧ machine.class? handle = some record ∧
    record.name = none ∧ outer ≠ handle ∧ machine.Scopes outer list ∧ handle ∈ list

theorem nested_iff_of_same (same : ∀ other, next.outer? other = machine.outer? other) :
    next.Nested ↔ machine.Nested := by
  constructor
  · intro nested handle around isOuter
    obtain ⟨list, scopes⟩ := nested handle around ((same handle).trans isOuter)
    exact ⟨list, scopes.of_same fun other => (same other).symm⟩
  · intro nested handle around isOuter
    obtain ⟨list, scopes⟩ := nested handle around ((same handle).symm.trans isOuter)
    exact ⟨list, scopes.of_same same⟩

theorem outer?_of_enterConstant {value : Value}
    (entering : VM.modifyClass outer (fun record =>
      { record with constants := record.constants.insert name value }) machine = .ok ⟨⟩ next)
    (other : Handle) : next.outer? other = machine.outer? other := by
  obtain ⟨record, known, rfl⟩ := VM.modifyClass_eq_ok_iff.mp entering
  rw [outer?, outer?, class?_setClass known]
  by_cases isOuter : other = outer
  · rw [if_pos isOuter, isOuter, known]
    rfl
  · rw [if_neg isOuter]

/-- An assignment names the value if this is a class, and then enters it under the name. -/
theorem named_of_setConst {value : Value}
    (done : VM.setConst outer name value machine = .ok ⟨⟩ next) :
    ∃ outerRecord, machine.class? outer = some outerRecord ∧
      ∃ between,
        ((∀ handle, value = .object handle → machine.class? handle = none) ∧ between = machine ∨
          ∃ handle record, value = .object handle ∧ machine.class? handle = some record ∧
            VM.nameClass outer handle name machine = .ok ⟨⟩ between) ∧
        VM.modifyClass outer (fun record =>
          { record with constants := record.constants.insert name value }) between =
            .ok ⟨⟩ next := by
  rw [VM.setConst] at done
  obtain ⟨_, _, checked, done⟩ := VM.bind_eq_ok_iff.mp done
  obtain ⟨rfl, ⟨outerRecord, isClass⟩, -⟩ := VM.checkFrozenClass_eq_ok_iff.mp checked
  refine ⟨outerRecord, isClass, ?_⟩
  cases value with
  | object handle =>
      obtain ⟨object, _, read, done⟩ := VM.bind_eq_ok_iff.mp done
      obtain ⟨found, rfl⟩ := VM.liftM_eq_ok_iff.mp read
      have class?_eq : machine.class? handle = object.class? := by
        rw [class?, Query.object_eq_ok_iff.mp found, Option.bind_some]
      cases known : object.class? with
      | none =>
          rw [known] at done
          refine ⟨machine, .inl ⟨?_, rfl⟩, done⟩
          rintro _ ⟨⟩
          exact class?_eq.trans known
      | some record =>
          rw [known] at done
          obtain ⟨_, between, naming, entering⟩ := VM.bind_eq_ok_iff.mp done
          exact ⟨between, .inr ⟨handle, record, rfl, class?_eq.trans known, naming⟩, entering⟩
  | _ =>
      refine ⟨machine, .inl ⟨?_, rfl⟩, done⟩
      rintro _ ⟨⟩

namespace Nested

/-- The class that gets a name must not enclose its new outer class. -/
theorem nameClass_iff (nested : machine.Nested) (known : machine.class? handle = some record)
    (ofOuter : machine.Scopes outer more)
    (done : VM.nameClass outer handle name machine = .ok ⟨⟩ next) :
    next.Nested ↔ ¬ (record.name = none ∧ outer ≠ handle ∧ handle ∈ more) := by
  rcases named_of_nameClass known done with ⟨isNamed, rfl⟩ | ⟨isAnonymous, text, rfl⟩
  · exact iff_of_true nested fun tangled => isNamed tangled.1
  by_cases isOther : outer = handle
  · refine iff_of_true ((nested_iff_of_same fun other => ?_).mpr nested) fun tangled =>
      tangled.2.1 isOther
    rw [outer?_named known, if_neg fun holds => holds.2 isOther]
  have ofHandle := @Scopes.exists_named_iff _ _ _ _ _ text known ofOuter isOther
  constructor
  · rintro nested' ⟨-, -, encloses⟩
    refine ofHandle.mp (nested' handle (some outer) ?_) encloses
    rw [outer?_named known, if_pos ⟨rfl, isOther⟩]
  · intro apart member around isOuter
    obtain ⟨way, kept⟩ := ofHandle.mpr fun encloses => apart ⟨isAnonymous, isOther, encloses⟩
    by_cases isHandle : member = handle
    · rw [isHandle]
      exact ⟨way, kept⟩
    · rw [outer?_named_of_ne known isHandle] at isOuter
      obtain ⟨list, scopes⟩ := nested member around isOuter
      exact scopes.exists_named known kept

/-- An assignment leaves an outermost class around every class exactly if it does not give an
anonymous class an outer class inside it. -/
theorem setConst_iff (nested : machine.Nested) {value : Value}
    (done : VM.setConst outer name value machine = .ok ⟨⟩ next) :
    next.Nested ↔ ¬ machine.Tangles outer value := by
  obtain ⟨outerRecord, isClass, between, naming, entering⟩ := named_of_setConst done
  rw [nested_iff_of_same fun other => outer?_of_enterConstant entering other]
  have isOuter : machine.outer? outer = some outerRecord.outer := by
    rw [outer?, isClass, Option.map_some]
  obtain ⟨more, ofOuter⟩ := nested outer outerRecord.outer isOuter
  rcases naming with ⟨isNoClass, rfl⟩ | ⟨handle, record, rfl, known, naming⟩
  · refine iff_of_true nested ?_
    rintro ⟨handle, record, _, rfl, known, -⟩
    cases (isNoClass handle rfl).symm.trans known
  · rw [nested.nameClass_iff known ofOuter naming, not_iff_not]
    constructor
    · rintro ⟨isAnonymous, isOther, encloses⟩
      exact ⟨handle, record, more, rfl, known, isAnonymous, isOther, ofOuter, encloses⟩
    · rintro ⟨_, _, list, isHandle, known', isAnonymous, isOther, ofOuter', encloses⟩
      cases isHandle
      cases known.symm.trans known'
      exact ⟨isAnonymous, isOther, ofOuter.unique ofOuter' ▸ encloses⟩

/-- After any number of assignments there is an outermost class around every class, or one of
them was the first to give an anonymous class an outer class inside it. -/
theorem assignments (nested : machine.Nested) {assigned : List (Handle × Symbol × Value)}
    (done : (assigned.forM fun entry => VM.setConst entry.1 entry.2.1 entry.2.2) machine =
      .ok ⟨⟩ next) :
    next.Nested ∨ ∃ before entry after between, assigned = before ++ entry :: after ∧
      (before.forM fun entry => VM.setConst entry.1 entry.2.1 entry.2.2) machine =
        .ok ⟨⟩ between ∧
      between.Nested ∧ between.Tangles entry.1 entry.2.2 := by
  induction assigned generalizing machine with
  | nil =>
      cases done
      exact .inl nested
  | cons entry rest inductionHypothesis =>
      obtain ⟨_, between, first, done⟩ := VM.bind_eq_ok_iff.mp done
      by_cases tangles : machine.Tangles entry.1 entry.2.2
      · exact .inr ⟨[], entry, rest, machine, rfl, rfl, nested, tangles⟩
      · have nested' := (nested.setConst_iff first).mpr tangles
        refine (inductionHypothesis nested' done).imp_right ?_
        rintro ⟨before, later, after, last, rfl, run, holds⟩
        exact ⟨entry :: before, later, after, last, rfl,
          VM.bind_eq_ok_iff.mpr ⟨⟨⟩, between, first, run⟩, holds⟩

end Nested

end Machine

end RiteVm
