import RiteVm.Class.Definition
import RiteVm.Proofs.Evolution.Values

/-!
Contract: the actions on classes, and their creation, only evolve the machine.

Owns:
- the class record behind a changed class, and the cached list behind computed ancestors;
- one instance for each action on ancestors, methods and constants;
- one instance for each action that creates or opens a class or module.

Does not own: what the search for a singleton class does, which counts as one change.
-/

namespace RiteVm

/-! ### Reading a class -/

namespace Query

variable {machine : Machine} {handle : Handle}

theorem object?_eq_ok_iff {result : Option Object} :
    object? (.object handle) machine = .ok result ↔
      ∃ object, machine.heap.get? handle = some object ∧ some object = result := by
  change (some <$> object handle) machine = _ ↔ _
  rw [map_eq_pure_bind, bind_eq_ok_iff]
  refine exists_congr fun object => and_congr object_eq_ok_iff ?_
  exact ⟨Except.ok.inj, congrArg Except.ok⟩

/-- What is read to be a module is one. -/
theorem isModule_eq_ok_iff :
    isModule (.object handle) machine = .ok true ↔ machine.kind? handle = some .module := by
  have isModule_iff (object : Object) :
      object.isModule = true ↔ object.class?.map (·.kind) = some .module := by
    obtain ⟨classHandle, content, frozen, fields⟩ := object
    cases content <;> simp [Object.isModule, Object.class?]
  rw [isModule, bind_eq_ok_iff, Machine.kind?, Machine.class?, Option.map_bind,
    Option.bind_eq_some_iff]
  constructor
  · rintro ⟨_, read, found⟩
    obtain ⟨object, isObject, rfl⟩ := object?_eq_ok_iff.mp read
    exact ⟨object, isObject, (isModule_iff object).mp (Except.ok.inj found)⟩
  · rintro ⟨object, isObject, isModule⟩
    refine ⟨some object, object?_eq_ok_iff.mpr ⟨object, isObject, rfl⟩, ?_⟩
    exact congrArg Except.ok ((isModule_iff object).mpr isModule)

end Query

namespace VM

variable {α β : Type} {machine next : Machine}

/-! ### Successful parts -/

theorem bind_eq_ok_iff {action : VM α} {rest : α → VM β} {result : β} :
    (action >>= rest) machine = .ok result next ↔
      ∃ value between, action machine = .ok value between ∧
        rest value between = .ok result next := by
  cases first : action machine with
  | ok value between =>
      rw [bind_of_ok first]
      exact ⟨fun done => ⟨value, between, rfl, done⟩, fun ⟨_, _, same, done⟩ => by
        cases same
        exact done⟩
  | error failure between =>
      rw [bind_of_error first]
      exact ⟨nofun, nofun⟩

theorem pure_eq_ok_iff {value result : α} :
    (pure value : VM α) machine = .ok result next ↔ value = result ∧ machine = next :=
  ⟨fun done => by cases done; exact ⟨rfl, rfl⟩, fun ⟨same, isNext⟩ => by rw [same, isNext]; rfl⟩

theorem liftM_eq_ok_iff {query : Query α} {result : α} :
    (liftM query : VM α) machine = .ok result next ↔
      query machine = .ok result ∧ machine = next := by
  cases read : query machine with
  | ok value =>
      rw [liftM_of_ok read]
      exact ⟨fun done => by cases done; exact ⟨rfl, rfl⟩, fun ⟨same, isNext⟩ => by
        cases same
        rw [isNext]⟩
  | error breach =>
      rw [liftM_of_error read]
      exact ⟨nofun, nofun⟩

theorem map_liftM_eq_ok_iff {query : Query α} {change : α → β} {result : β} :
    (change <$> (liftM query : VM α)) machine = .ok result next ↔
      ∃ value, query machine = .ok value ∧ machine = next ∧ change value = result := by
  rw [map_eq_pure_bind, bind_eq_ok_iff]
  constructor
  · rintro ⟨value, between, read, returned⟩
    obtain ⟨isRead, rfl⟩ := liftM_eq_ok_iff.mp read
    obtain ⟨rfl, rfl⟩ := pure_eq_ok_iff.mp returned
    exact ⟨value, isRead, rfl, rfl⟩
  · rintro ⟨value, read, rfl, rfl⟩
    exact ⟨value, machine, liftM_of_ok read, rfl⟩

theorem raise_ne_ok {core : CoreClass} {message : String} {value : α} :
    raise core message machine ≠ .ok value next := by
  intro returned
  rw [raise] at returned
  obtain ⟨exception, between, _, thrown⟩ := bind_eq_ok_iff.mp returned
  exact nomatch thrown

theorem modifyObject_eq_ok_iff {handle : Handle} {change : Object → Object} :
    modifyObject handle change machine = .ok ⟨⟩ next ↔ machine.rewrite handle change = next :=
  ⟨fun done => by cases done; rfl, fun same => by cases same; rfl⟩

/-! ### Changing a class -/

section Class

variable {handle : Handle} {record : ClassRecord} {change : ClassRecord → ClassRecord}

theorem modifyClass_of_class? (known : machine.class? handle = some record) :
    modifyClass handle change machine =
      .ok ⟨⟩ (machine.setClass handle (change record)) := by
  rw [modifyClass, bind_of_ok (liftM_of_ok (Query.classRecord_eq_ok_iff.mpr known))]
  rfl

theorem modifyClass_of_class?_eq_none (unknown : machine.class? handle = none) :
    ∃ failure, modifyClass handle change machine = .error failure machine := by
  cases read : Query.classRecord handle machine with
  | ok record =>
      rw [Query.classRecord_eq_ok_iff, unknown] at read
      exact nomatch read
  | error breach => exact ⟨_, bind_of_error (liftM_of_error read)⟩

theorem modifyClass_eq_ok_iff :
    modifyClass handle change machine = .ok ⟨⟩ next ↔
      ∃ record, machine.class? handle = some record ∧
        machine.setClass handle (change record) = next := by
  cases known : machine.class? handle with
  | none =>
      obtain ⟨failure, failed⟩ := modifyClass_of_class?_eq_none known
      rw [failed]
      exact ⟨nofun, nofun⟩
  | some record =>
      rw [modifyClass_of_class? known]
      exact ⟨fun done => by cases done; exact ⟨record, rfl, rfl⟩, fun ⟨_, same, isNext⟩ => by
        cases same
        rw [isNext]⟩

/-- A change of a class and what follows it count as one change. -/
theorem EvolvesFrom.modifyClass_bind {rest : PUnit → VM α} {behind : Machine → Machine} {value : α}
    (succeeds : ∀ machine, rest ⟨⟩ machine = .ok value (behind machine))
    (step : ∀ record, machine.class? handle = some record →
      machine.Change (behind (machine.setClass handle (change record)))) :
    EvolvesFrom machine (modifyClass handle change >>= rest) := by
  cases known : machine.class? handle with
  | none =>
      obtain ⟨failure, failed⟩ := modifyClass_of_class?_eq_none known
      rw [EvolvesFrom, after_of_error (bind_of_error failed)]
  | some record =>
      exact .of_change ((bind_of_ok (modifyClass_of_class? known)).trans (succeeds _))
        (step record known)

theorem EvolvesFrom.modifyClass
    (step : ∀ record, machine.class? handle = some record →
      machine.Change (machine.setClass handle (change record))) :
    EvolvesFrom machine (modifyClass handle change) := by
  cases known : machine.class? handle with
  | none =>
      obtain ⟨failure, failed⟩ := modifyClass_of_class?_eq_none known
      rw [EvolvesFrom, after_of_error failed]
  | some record => exact .of_change (modifyClass_of_class? known) (step record known)

end Class

/-! ### Checking a class -/

section Checks

variable {handle : Handle}

theorem checkClass_eq_ok_iff :
    checkClass handle machine = .ok ⟨⟩ next ↔
      machine = next ∧ ∃ record, machine.class? handle = some record := by
  rw [checkClass, bind_eq_ok_iff]
  constructor
  · rintro ⟨object, between, read, passed⟩
    obtain ⟨isRead, rfl⟩ := liftM_eq_ok_iff.mp read
    cases isClass : object.class? with
    | none =>
        rw [isClass] at passed
        obtain ⟨_, _, _, raised⟩ := bind_eq_ok_iff.mp passed
        exact absurd raised raise_ne_ok
    | some record =>
        rw [isClass] at passed
        refine ⟨(pure_eq_ok_iff.mp passed).2, record, ?_⟩
        rw [Machine.class?, Query.object_eq_ok_iff.mp isRead, Option.bind_some, isClass]
  · rintro ⟨rfl, record, known⟩
    obtain ⟨object, found, isClass⟩ := Option.bind_eq_some_iff.mp known
    refine ⟨object, machine, liftM_of_ok (Query.object_eq_ok_iff.mpr found), ?_⟩
    rw [isClass]
    rfl

theorem checkFrozenClass_eq_ok_iff :
    checkFrozenClass handle machine = .ok ⟨⟩ next ↔
      machine = next ∧ (∃ record, machine.class? handle = some record) ∧
        ∀ object, machine.heap.get? handle = some object → object.frozen = false := by
  rw [checkFrozenClass, bind_eq_ok_iff]
  constructor
  · rintro ⟨_, between, checked, rest⟩
    obtain ⟨rfl, isClass⟩ := checkClass_eq_ok_iff.mp checked
    obtain ⟨object, _, read, passed⟩ := bind_eq_ok_iff.mp rest
    obtain ⟨isRead, rfl⟩ := liftM_eq_ok_iff.mp read
    split at passed
    · obtain ⟨_, _, _, raised⟩ := bind_eq_ok_iff.mp passed
      exact absurd raised raise_ne_ok
    · rename_i unfrozen
      refine ⟨(pure_eq_ok_iff.mp passed).2, isClass, fun other found => ?_⟩
      obtain rfl := Option.some.inj ((Query.object_eq_ok_iff.mp isRead).symm.trans found)
      exact eq_false_of_ne_true unfrozen
  · rintro ⟨rfl, ⟨record, known⟩, unfrozen⟩
    obtain ⟨object, found, isClass⟩ := Option.bind_eq_some_iff.mp known
    refine ⟨⟨⟩, machine, checkClass_eq_ok_iff.mpr ⟨rfl, record, known⟩, ?_⟩
    rw [bind_of_ok (liftM_of_ok (Query.object_eq_ok_iff.mpr found)), unfrozen object found]
    rfl

end Checks

/-! ### Ancestors -/

section Ancestors

variable {handle : Handle} {list : List Handle} {fuel : Nat}

/-- What each part of an action keeps, the whole keeps. -/
theorem kept_bind {γ : Type} {observe : Machine → γ} {action : VM α} {rest : α → VM β}
    (first : ∀ machine, observe (action.after machine) = observe machine)
    (second : ∀ value machine, observe ((rest value).after machine) = observe machine)
    (machine : Machine) : observe ((action >>= rest).after machine) = observe machine := by
  cases result : action machine with
  | ok value between =>
      rw [after, bind_of_ok result, ← first machine, after_of_ok result]
      exact second value between
  | error failure between =>
      rw [after_of_error (bind_of_error result), ← first machine, after_of_error result]

/-- Computing ancestors keeps what does not depend on the cached lists. -/
theorem kept_ancestorsWithin {γ : Type} {observe : Machine → γ}
    (same : ∀ (machine : Machine) (handle : Handle) (record : ClassRecord) (ancestors),
      machine.class? handle = some record →
      observe (machine.setClass handle { record with ancestors }) = observe machine)
    (fuel : Nat) (handle : Handle) (machine : Machine) :
    observe ((ancestorsWithin fuel handle).after machine) = observe machine := by
  have stored (handle : Handle) (ancestors : Option CachedAncestors) (machine : Machine) :
      observe ((modifyClass handle ({ · with ancestors })).after machine) = observe machine := by
    cases known : machine.class? handle with
    | none =>
        obtain ⟨failure, failed⟩ := modifyClass_of_class?_eq_none known
        rw [after_of_error failed]
    | some record =>
        rw [after_of_ok (modifyClass_of_class? known)]
        exact same machine handle record ancestors known
  induction fuel generalizing handle machine with
  | zero => rfl
  | succ fuel inductionHypothesis =>
      have collected (parents : List Handle) (initial : List Handle) (machine : Machine) :
          observe ((parents.foldlM (fun list parent => do
            return appendNew list (← ancestorsWithin fuel parent)) initial).after
              machine) = observe machine := by
        induction parents generalizing initial machine with
        | nil => rfl
        | cons parent rest restHypothesis =>
            rw [List.foldlM_cons]
            refine kept_bind ?_ (fun list => restHypothesis list) machine
            exact kept_bind (inductionHypothesis parent) fun _ _ => rfl
      rw [ancestorsWithin]
      refine kept_bind (fun _ => rfl) (fun start => ?_) machine
      refine kept_bind (fun machine => ?_) fun record machine => ?_
      · cases read : Query.classRecord handle machine with
        | ok record => rw [after_of_ok (liftM_of_ok read)]
        | error breach => rw [after_of_error (liftM_of_error read)]
      · split
        · rfl
        · refine kept_bind (collected _ _) (fun list => ?_) machine
          exact kept_bind (stored _ _) fun _ _ => rfl

/-- Computing ancestors counts no change of methods or of the hierarchy. -/
theorem methodCache_ancestorsWithin (fuel : Nat) (handle : Handle) (machine : Machine) :
    ((ancestorsWithin fuel handle).after machine).methodCache = machine.methodCache :=
  @kept_ancestorsWithin _ Machine.methodCache (fun _ _ _ _ _ => rfl) fuel handle machine

/-- Computing ancestors keeps what each class is. -/
theorem kind?_of_ancestors (computed : ancestors handle machine = .ok list next)
    (other : Handle) : next.kind? other = machine.kind? other := by
  rw [ancestors] at computed
  obtain ⟨bound, between, read, computed⟩ := bind_eq_ok_iff.mp computed
  obtain ⟨-, rfl⟩ := liftM_eq_ok_iff.mp read
  rw [← after_of_ok computed]
  refine @kept_ancestorsWithin _ (·.kind? other) (fun machine handle record list known => ?_)
    bound handle machine
  rw [Machine.kind?, Machine.class?_setClass known]
  split
  · rename_i isHandle
    rw [Machine.kind?, isHandle, known]
    rfl
  · rfl

/-- A list of ancestors is cached where it was asked for. -/
theorem cachedAncestors?_of_ancestorsWithin
    (computed : ancestorsWithin fuel handle machine = .ok list next) :
    next.cachedAncestors? handle = some list := by
  have sameCache : next.methodCache = machine.methodCache := by
    rw [← methodCache_ancestorsWithin fuel handle machine, after_of_ok computed]
  cases fuel with
  | zero => exact nomatch computed
  | succ fuel =>
      rw [ancestorsWithin] at computed
      obtain ⟨_, _, got, afterGet⟩ := bind_eq_ok_iff.mp computed
      cases got
      obtain ⟨record, between, read, afterRead⟩ := bind_eq_ok_iff.mp afterGet
      obtain ⟨known, rfl⟩ := liftM_eq_ok_iff.mp read
      rw [Query.classRecord_eq_ok_iff] at known
      cases cached : record.cachedAncestors? machine.methodCache.hierarchy with
      | some list =>
          simp only [cached] at afterRead
          cases afterRead
          rw [Machine.cachedAncestors?, known, Option.bind_some, cached]
      | none =>
          simp only [cached] at afterRead
          obtain ⟨_, _, collected, afterCollecting⟩ := bind_eq_ok_iff.mp afterRead
          obtain ⟨_, _, stored, returned⟩ := bind_eq_ok_iff.mp afterCollecting
          cases returned
          obtain ⟨record, isClass, rfl⟩ := modifyClass_eq_ok_iff.mp stored
          rw [Machine.cachedAncestors?, Machine.class?_setClass isClass, if_pos rfl,
            Option.bind_some, ClassRecord.cachedAncestors?, sameCache]
          simp

instance Evolves.ancestorsWithin (fuel : Nat) (handle : Handle) :
    Evolves (ancestorsWithin fuel handle) :=
  ⟨fun _ => Machine.Change.cacheAncestors.evolution⟩

instance Evolves.ancestors (handle : Handle) : Evolves (ancestors handle) := by
  unfold VM.ancestors
  infer_instance

theorem cachedAncestors?_of_ancestors (computed : ancestors handle machine = .ok list next) :
    next.cachedAncestors? handle = some list := by
  rw [ancestors] at computed
  obtain ⟨bound, between, _, computed⟩ := bind_eq_ok_iff.mp computed
  exact cachedAncestors?_of_ancestorsWithin computed

end Ancestors

namespace Evolves

instance isKindOf (value : Value) (handle : Handle) : Evolves (isKindOf value handle) := by
  unfold VM.isKindOf
  infer_instance

instance checkClass (handle : Handle) : Evolves (checkClass handle) := by
  unfold VM.checkClass
  infer_instance

instance checkFrozenClass (handle : Handle) : Evolves (checkFrozenClass handle) := by
  unfold VM.checkFrozenClass
  infer_instance

instance invalidateMethods : Evolves invalidateMethods :=
  ⟨fun _ => .of_change rfl (@Machine.Change.invalidate _ 1 0)⟩

instance invalidateHierarchy : Evolves invalidateHierarchy :=
  ⟨fun _ => .of_change rfl (@Machine.Change.invalidate _ 1 1)⟩

instance includeModule (handle module : Handle) : Evolves (includeModule handle module) := by
  refine ⟨fun machine => ?_⟩
  unfold VM.includeModule
  refine .bind .of_evolves fun refused start read => ?_
  dsimp only
  split
  · refine .query_bind fun _ _ => .query_bind fun given _ => ?_
    exact .bind .of_evolves fun _ _ raised => absurd raised raise_ne_ok
  · rename_i accepted
    -- the module is one from here on, whatever is cached meanwhile
    have isModule : start.kind? module = some .module := by
      obtain ⟨isModule, isRead, rfl, isRefused⟩ := map_liftM_eq_ok_iff.mp read
      cases isModule
      · exact absurd isRefused.symm accepted
      · exact Query.isModule_eq_ok_iff.mp isRead
    refine .bind .of_evolves fun _ checked isChecked => ?_
    obtain ⟨rfl, -⟩ := checkFrozenClass_eq_ok_iff.mp isChecked
    refine .bind .of_evolves fun list listed isListed => ?_
    rw [← kind?_of_ancestors isListed module] at isModule
    split
    · exact .of_evolves
    · refine .bind .of_evolves fun moduleList last isListed => ?_
      rw [← kind?_of_ancestors isListed module] at isModule
      split
      · exact .bind .of_evolves fun _ _ raised => absurd raised raise_ne_ok
      · rename_i outside
        exact .modifyClass_bind (fun _ => rfl) fun record known =>
          .include known isModule (cachedAncestors?_of_ancestors isListed) (by simpa using outside)

/-! ### Methods -/

instance findMethod (handle : Handle) (name : Symbol) : Evolves (findMethod handle name) := by
  unfold VM.findMethod
  refine @seq _ _ _ _ _ fun cached? => ?_
  split
  · infer_instance
  · refine ⟨fun machine => .bind .of_evolves fun list next computed => ?_⟩
    refine .query_bind fun found? looked => ?_
    split
    · have cached : next.cachedAncestors? handle = some list :=
        cachedAncestors?_of_ancestors computed
      exact .bind (Machine.Change.cacheMethod cached looked).evolution fun _ _ _ => .of_evolves
    · exact .of_evolves

instance findSuperMethod (handle owner : Handle) (name : Symbol) :
    Evolves (findSuperMethod handle owner name) := by
  unfold VM.findSuperMethod
  refine @seq _ _ _ _ _ fun list => ?_
  split
  · infer_instance
  · refine @seq _ _ _ _ _ fun found? => ?_
    split <;> infer_instance

instance addMethod (handle : Handle) (name : Symbol) (method : Method) :
    Evolves (addMethod handle name method) :=
  ⟨fun _ => .modifyClass_bind (fun _ => rfl) fun _ known => .defineMethod known⟩

instance setMethod (handle : Handle) (name : Symbol) (method : Method) :
    Evolves (setMethod handle name method) := by
  unfold VM.setMethod
  infer_instance

instance defineMethod (handle : Handle) (name : String) (body : NativeMethod) :
    Evolves (defineMethod handle name body) := by
  unfold VM.defineMethod
  infer_instance

instance raiseUndefinedMethod (handle : Handle) (name : Symbol) :
    Evolves (raiseUndefinedMethod handle name : VM α) := by
  unfold VM.raiseUndefinedMethod
  infer_instance

instance removeMethod (handle : Handle) (name : Symbol) : Evolves (removeMethod handle name) := by
  unfold VM.removeMethod
  refine @seq _ _ _ _ _ fun _ => ⟨fun machine => .query_bind fun record read => ?_⟩
  have known : machine.class? handle = some record := Query.classRecord_eq_ok_iff.mp read
  have discard (unused : ∀ method, record.methods.get? name = some method → method = .undefined) :
      EvolvesFrom machine (modifyClass handle fun record =>
        { record with methods := record.methods.erase name }) := by
    refine .modifyClass fun other isOther => ?_
    obtain rfl := Option.some.inj (known.symm.trans isOther)
    exact .discardMethod known unused
  dsimp only
  split
  · rename_i noEntry
    exact .bind (discard (by simp [noEntry])) fun _ _ _ => .of_evolves
  · rename_i noMethod
    exact .bind (discard (by simp [noMethod])) fun _ _ _ => .of_evolves
  · exact .modifyClass_bind (fun _ => rfl) fun _ known => .removeMethod known

instance undefMethod (handle : Handle) (name : Symbol) : Evolves (undefMethod handle name) := by
  unfold VM.undefMethod
  refine @seq _ _ _ _ _ fun _ => @seq _ _ _ _ _ fun found? => ?_
  split <;> infer_instance

instance aliasMethod (handle : Handle) (new old : Symbol) :
    Evolves (aliasMethod handle new old) := by
  unfold VM.aliasMethod
  refine @seq _ _ _ _ _ fun _ => @seq _ _ _ _ _ fun found? => ?_
  split <;> infer_instance

instance respondsTo (value : Value) (name : Symbol) : Evolves (respondsTo value name) := by
  unfold VM.respondsTo
  infer_instance

/-! ### Constants and class variables -/

instance nameClass (outer handle : Handle) (name : Symbol) :
    Evolves (nameClass outer handle name) := by
  refine ⟨fun machine => ?_⟩
  unfold VM.nameClass
  refine .query_bind fun record read => ?_
  split
  · rename_i unnamed
    have enter (full : String) : EvolvesFrom machine (modifyClass handle fun record =>
        { record with
          name := some full
          outer := if outer = handle then record.outer else some outer }) := by
      refine .modifyClass fun other isOther => ?_
      have known := Query.classRecord_eq_ok_iff.mp read
      obtain rfl := Option.some.inj (known.symm.trans isOther)
      exact .nameClass known (Option.isNone_iff_eq_none.mp unnamed)
    refine .query_bind fun text _ => .query_bind fun object _ => ?_
    dsimp only
    split
    · exact enter text
    · refine .query_bind fun outerName _ => ?_
      rw [pure_bind]
      exact enter _
  · exact .of_evolves

instance setConst (handle : Handle) (name : Symbol) (value : Value) :
    Evolves (setConst handle name value) := by
  have store : Evolves (modifyClass handle fun record =>
      { record with constants := record.constants.insert name value }) :=
    ⟨fun _ => .modifyClass fun _ known => .setConstant known⟩
  unfold VM.setConst
  refine @seq _ _ _ _ _ fun _ => ?_
  dsimp only
  split <;> infer_instance

instance defineConst (handle : Handle) (name : String) (value : Value) :
    Evolves (defineConst handle name value) := by
  unfold VM.defineConst
  infer_instance

instance constInAncestors (handle : Handle) (name : Symbol) :
    Evolves (constInAncestors handle name) := by
  unfold VM.constInAncestors
  infer_instance

instance getConst? (handle : Handle) (name : String) : Evolves (getConst? handle name) := by
  unfold VM.getConst?
  refine @seq _ _ _ _ _ fun object => ?_
  split
  · infer_instance
  · refine @seq _ _ _ _ _ fun machine => ?_
    split <;> infer_instance

instance lexicalConst (scope : Handle) (name : Symbol) : Evolves (lexicalConst scope name) := by
  unfold VM.lexicalConst
  refine @seq _ _ _ _ _ fun bound => @seq _ _ _ _ _ fun inScope? => ?_
  split
  · infer_instance
  · refine @seq _ _ _ _ _ fun inAncestors? => ?_
    split <;> infer_instance

instance getClassVar (handle : Handle) (name : Symbol) : Evolves (getClassVar handle name) := by
  unfold VM.getClassVar
  refine @seq _ _ _ _ _ fun list => @seq _ _ _ _ _ fun entry? => ?_
  split <;> infer_instance

instance setClassVar (handle : Handle) (name : Symbol) (value : Value) :
    Evolves (setClassVar handle name value) := by
  have store (owner : Handle) : Evolves (modifyClass owner fun record =>
      { record with classVars := record.classVars.insert name value }) :=
    ⟨fun _ => .modifyClass fun _ known => .setClassVar known⟩
  unfold VM.setClassVar
  infer_instance

end Evolves

end VM

end RiteVm

namespace RiteVm.VM

variable {machine : Machine}

/-! ### New classes -/

theorem EvolvesFrom.allocateClass {kind : ClassKind} {superclass : Option Handle}
    {instances : InstanceKind}
    (given : ∀ parent, superclass = some parent → machine.GivesSuperclass parent)
    (admitted : machine.Admits kind superclass) :
    EvolvesFrom machine (allocateClass kind superclass instances) := by
  unfold VM.allocateClass
  refine .query_bind fun classHandle read => ?_
  obtain rfl : machine.coreClass (if kind = .module then .module else .classClass) = classHandle :=
    Except.ok.inj read
  exact .of_change rfl (.allocateClass given admitted)

/-- The search for a singleton class is one change. -/
instance Evolves.singletonOf (fuel : Nat) (handle : Handle) : Evolves (singletonOf fuel handle) :=
  ⟨fun _ => Machine.Change.attachSingletons.evolution⟩

/-! ### Opening classes -/

namespace Evolves

instance singletonClass (value : Value) : Evolves (singletonClass value) := by
  unfold VM.singletonClass
  split <;> infer_instance

/-- A new ordinary class below one that was just read. -/
theorem allocateBelow {superclass : Handle} {record : ClassRecord} {instances : InstanceKind}
    (known : machine.class? superclass = some record) (isOrdinary : record.kind = .ordinary) :
    EvolvesFrom machine (allocateClass .ordinary (some superclass) instances) := by
  refine .allocateClass (fun parent same => ?_) fun parent same => ?_
  · obtain rfl := Option.some.inj same
    exact .known known
  · obtain rfl := Option.some.inj same
    rw [Machine.kind?, known, Option.map_some, isOrdinary]

instance allocateModule : Evolves (allocateClass .module none .special) :=
  ⟨fun _ => .allocateClass nofun rfl⟩

instance openClass (outer : Handle) (name : Symbol) (superclass? : Option Handle) :
    Evolves (openClass outer name superclass?) := by
  unfold VM.openClass
  refine @seq _ _ _ _ _ fun record => ?_
  split
  · refine @seq _ _ _ _ _ fun existing? => ?_
    split
    · infer_instance
    · dsimp only
      infer_instance
  · refine ⟨fun machine => .query_bind fun object _ => .query_bind fun superclass read => ?_⟩
    have known := Query.classRecord_eq_ok_iff.mp read
    dsimp only
    split
    · exact .bind .of_evolves fun _ _ raised => absurd raised raise_ne_ok
    · rename_i isOrdinary
      exact .bind (allocateBelow known (Decidable.not_not.mp isOrdinary)) fun _ _ _ => .of_evolves

instance openModule (outer : Handle) (name : Symbol) : Evolves (openModule outer name) := by
  unfold VM.openModule
  refine @seq _ _ _ _ _ fun record => ?_
  split
  · refine @seq _ _ _ _ _ fun isModule => ?_
    split <;> infer_instance
  · infer_instance

instance defineClassUnder (outer : Handle) (name : String) (superclass? : Option Handle) :
    Evolves (defineClassUnder outer name superclass?) := by
  unfold VM.defineClassUnder
  infer_instance

instance defineClass (name : String) (superclass? : Option Handle) :
    Evolves (defineClass name superclass?) := by
  unfold VM.defineClass
  infer_instance

instance defineModuleUnder (outer : Handle) (name : String) :
    Evolves (defineModuleUnder outer name) := by
  unfold VM.defineModuleUnder
  infer_instance

instance defineModule (name : String) : Evolves (defineModule name) := by
  unfold VM.defineModule
  infer_instance

instance defineSingletonMethod (value : Value) (name : String) (body : NativeMethod) :
    Evolves (defineSingletonMethod value name body) := by
  unfold VM.defineSingletonMethod
  infer_instance

end Evolves

end RiteVm.VM
