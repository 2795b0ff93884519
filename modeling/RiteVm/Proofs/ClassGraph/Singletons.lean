import RiteVm.Proofs.Evolution.Classes
import RiteVm.Proofs.MethodCache.Hierarchy

/-!
Contract: what the search for the singleton class of an object does.

Owns:
- the singleton class that an object has for itself, and which class belongs above it;
- the machine behind the attachment of one singleton class;
- that a search attaches singleton classes where they are missing, in an order in which the
  one above is always there, and that it returns the one of its object.

Does not own: what attachments preserve.
-/

namespace RiteVm

namespace Machine

variable {machine next last : Machine} {handle superclass singleton other : Handle}
  {object : Object} {record : ClassRecord}

/-! ### Own singleton classes -/

/-- The singleton class that an object has for itself. -/
def OwnSingleton (machine : Machine) (handle singleton : Handle) : Prop :=
  ∃ object record, machine.heap.get? handle = some object ∧ object.classHandle = singleton ∧
    machine.class? singleton = some record ∧ record.kind = .singleton ∧
    record.attached = some handle

/-- What belongs above the singleton class of a class: that of the superclass, or the class of
classes if there is none. Modules and objects that are no classes may have any class there. -/
def MirrorsAbove (machine : Machine) (handle parent : Handle) : Prop :=
  ∀ record, machine.class? handle = some record → record.kind ≠ .module →
    match record.superclass with
    | some superclass => machine.OwnSingleton superclass parent
    | none => parent = machine.coreClass .classClass

/-! ### One attachment -/

/-- A new singleton class that is not attached yet. -/
def newSingleton (machine : Machine) (superclass : Handle) : Object :=
  { classHandle := machine.coreClass .classClass
    content := .classOrModule
      { kind := .singleton, superclass := some superclass, instances := .special } }

/-- The record of a singleton class that is attached to an object. -/
def attachedRecord (handle superclass : Handle) : ClassRecord :=
  { kind := .singleton, superclass := some superclass, instances := .special
    attached := some handle }

/-- The handle that a new singleton class gets. -/
def nextSingleton (machine : Machine) (superclass : Handle) : Handle :=
  (machine.heap.place (machine.newSingleton superclass)).2

/-- The machine with a new singleton class of an object. -/
def withSingleton (machine : Machine) (handle superclass : Handle) : Machine :=
  (((machine.allocate (machine.newSingleton superclass)).setClass
      (machine.nextSingleton superclass) (attachedRecord handle superclass)).rewrite handle
    fun object => { object with classHandle := machine.nextSingleton superclass }).bump 1 1

theorem class?_allocate_newSingleton (wellFormed : machine.heap.WellFormed) (superclass : Handle) :
    (machine.allocate (machine.newSingleton superclass)).class?
      (machine.nextSingleton superclass) =
        some { kind := .singleton, superclass := some superclass, instances := .special } := by
  rw [nextSingleton, Hierarchical.class?_allocate wellFormed, if_pos rfl]
  rfl

/-- The attachment of a singleton class succeeds. -/
theorem attachSingleton_eq (wellFormed : machine.heap.WellFormed) (handle superclass : Handle) :
    VM.attachSingleton handle superclass machine =
      .ok (machine.nextSingleton superclass) (machine.withSingleton handle superclass) := by
  have allocated : VM.allocateClass .singleton (some superclass) .special machine =
    .ok (machine.nextSingleton superclass)
      (machine.allocate (machine.newSingleton superclass)) := rfl
  rw [VM.attachSingleton, VM.bind_of_ok allocated, VM.bind_of_ok
    (VM.modifyClass_of_class? (class?_allocate_newSingleton wellFormed superclass))]
  rfl

theorem class?_withSingleton (wellFormed : machine.heap.WellFormed)
    (handle superclass other : Handle) :
    (machine.withSingleton handle superclass).class? other =
      if other = machine.nextSingleton superclass then some (attachedRecord handle superclass)
      else machine.class? other := by
  rw [withSingleton, class?_bump, class?_reclass,
    class?_setClass (class?_allocate_newSingleton wellFormed superclass)]
  split
  · rfl
  · rename_i isOther
    rw [Hierarchical.class?_allocate wellFormed]
    exact if_neg isOther

theorem ne_nextSingleton (wellFormed : machine.heap.WellFormed)
    (found : machine.heap.get? other = some object) (superclass : Handle) :
    other ≠ machine.nextSingleton superclass :=
  Hierarchical.ne_place_snd wellFormed found

/-- Every other object stays what it is. -/
theorem get?_withSingleton_of_ne (wellFormed : machine.heap.WellFormed) (isOther : other ≠ handle)
    (isOld : other ≠ machine.nextSingleton superclass) :
    (machine.withSingleton handle superclass).heap.get? other = machine.heap.get? other := by
  rw [withSingleton, heap_bump, get?_rewrite, if_neg isOther, setClass, get?_rewrite, if_neg isOld,
    Hierarchical.get?_allocate wellFormed]
  exact if_neg isOld

theorem get?_withSingleton (wellFormed : machine.heap.WellFormed) (isOther : other ≠ handle)
    (found : machine.heap.get? other = some object) :
    (machine.withSingleton handle superclass).heap.get? other = some object := by
  rw [get?_withSingleton_of_ne wellFormed isOther (ne_nextSingleton wellFormed found superclass),
    found]

/-- The object gets the new class. -/
theorem get?_withSingleton_self (wellFormed : machine.heap.WellFormed)
    (found : machine.heap.get? handle = some object) :
    (machine.withSingleton handle superclass).heap.get? handle =
      some { object with classHandle := machine.nextSingleton superclass } := by
  rw [withSingleton, heap_bump, get?_rewrite, if_pos rfl, setClass, get?_rewrite,
    if_neg (ne_nextSingleton wellFormed found superclass),
    Hierarchical.get?_allocate_of_some wellFormed found]
  rfl

/-- The new singleton class is an instance of the class of classes. -/
theorem get?_withSingleton_new (wellFormed : machine.heap.WellFormed)
    (found : machine.heap.get? handle = some object) (superclass : Handle) :
    (machine.withSingleton handle superclass).heap.get? (machine.nextSingleton superclass) =
      some { machine.newSingleton superclass with
        content := .classOrModule (attachedRecord handle superclass) } := by
  have isOld := ne_nextSingleton wellFormed found superclass
  rw [withSingleton, heap_bump, get?_rewrite, if_neg isOld.symm, setClass, get?_rewrite, if_pos rfl,
    Hierarchical.get?_allocate wellFormed, nextSingleton, if_pos rfl]
  rfl

/-- The object has the new class for itself. -/
theorem ownSingleton_withSingleton (wellFormed : machine.heap.WellFormed)
    (found : machine.heap.get? handle = some object) :
    (machine.withSingleton handle superclass).OwnSingleton handle
      (machine.nextSingleton superclass) := by
  refine ⟨_, attachedRecord handle superclass, get?_withSingleton_self wellFormed found, rfl, ?_,
    rfl, rfl⟩
  rw [class?_withSingleton wellFormed, if_pos rfl]

theorem wellFormed_withSingleton (wellFormed : machine.heap.WellFormed)
    (handle superclass : Handle) :
    (machine.withSingleton handle superclass).heap.WellFormed :=
  ((wellFormed.allocate _).modify _ _).modify _ _

/-! ### Attachments -/

/-- A singleton class for an object that had none for itself, below the class that belongs
there. -/
inductive Attaches (machine : Machine) : Machine → Prop where
  | intro {handle superclass : Handle} {object : Object} :
      machine.heap.get? handle = some object →
      (∀ singleton, ¬ machine.OwnSingleton handle singleton) →
      machine.GivesSuperclass superclass → machine.MirrorsAbove handle superclass →
      Attaches machine (machine.withSingleton handle superclass)

/-- Any number of singleton classes, one after the other. -/
abbrev Attachments : Machine → Machine → Prop := Relation.ReflTransGen Attaches

/-- What attachments keep: all objects except for their classes, and the core classes. -/
structure KeepsContents (machine next : Machine) : Prop where
  wellFormed : next.heap.WellFormed
  coreClasses : next.coreClasses = machine.coreClasses
  objects : ∀ handle object, machine.heap.get? handle = some object →
    ∃ classHandle, next.heap.get? handle = some { object with classHandle }

theorem KeepsContents.class? (keeps : machine.KeepsContents next)
    (known : machine.class? handle = some record) : next.class? handle = some record := by
  obtain ⟨object, found, isClass⟩ := Option.bind_eq_some_iff.mp known
  obtain ⟨classHandle, isFound⟩ := keeps.objects handle object found
  rw [Machine.class?, isFound]
  exact isClass

theorem keepsContents_withSingleton (wellFormed : machine.heap.WellFormed)
    (handle superclass : Handle) :
    machine.KeepsContents (machine.withSingleton handle superclass) := by
  refine ⟨wellFormed_withSingleton wellFormed _ _, rfl, fun other otherObject isFound => ?_⟩
  rcases eq_or_ne other handle with rfl | isOther
  · exact ⟨_, get?_withSingleton_self wellFormed isFound⟩
  · exact ⟨otherObject.classHandle, get?_withSingleton wellFormed isOther isFound⟩

theorem Attachments.keepsContents (attachments : machine.Attachments next)
    (wellFormed : machine.heap.WellFormed) : machine.KeepsContents next := by
  induction attachments with
  | refl => exact ⟨wellFormed, rfl, fun _ object found => ⟨object.classHandle, found⟩⟩
  | tail _ attaches inductionHypothesis =>
      obtain @⟨changed, above, _, -, -, -, -⟩ := attaches
      have keeps := keepsContents_withSingleton inductionHypothesis.wellFormed changed above
      refine ⟨keeps.wellFormed, keeps.coreClasses.trans inductionHypothesis.coreClasses,
        fun handle object found => ?_⟩
      obtain ⟨_, between⟩ := inductionHypothesis.objects handle object found
      obtain ⟨classHandle, last⟩ := keeps.objects handle _ between
      exact ⟨classHandle, last⟩

end Machine

/-! ### Searches -/

theorem Object.isSingletonClass_iff {object : Object} :
    object.isSingletonClass = true ↔
      ∃ record, object.class? = some record ∧ record.kind = .singleton := by
  obtain ⟨classHandle, content, frozen, fields⟩ := object
  cases content <;> simp [isSingletonClass, class?]

namespace VM

/-- The search for the class above the singleton class that an object does not have yet. -/
def singletonParent (fuel : Nat) (object : Object) : VM Handle :=
  match object.class? with
  | none => pure object.classHandle
  | some record =>
    if record.kind = .module then pure object.classHandle
    else
      match record.superclass with
      | some superclass => singletonOf fuel superclass
      | none => liftM (Query.coreClass .classClass)

variable {machine next : Machine} {handle singleton : Handle} {object classObject : Object}
  {fuel : Nat}

theorem singletonOf_of_own (own : machine.OwnSingleton handle singleton) :
    singletonOf (fuel + 1) handle machine = .ok singleton machine := by
  obtain ⟨object, record, found, rfl, known, isSingleton, isAttached⟩ := own
  obtain ⟨classObject, live, isClass⟩ := Option.bind_eq_some_iff.mp known
  have isSingletonClass : classObject.isSingletonClass = true :=
    Object.isSingletonClass_iff.mpr ⟨record, isClass, isSingleton⟩
  rw [singletonOf, bind_of_ok (liftM_of_ok (Query.object_eq_ok_iff.mpr found)),
    bind_of_ok (liftM_of_ok (Query.object_eq_ok_iff.mpr live))]
  dsimp only
  rw [if_pos isSingletonClass,
    bind_of_ok (liftM_of_ok (Query.classRecord_eq_ok_iff.mpr known)), isAttached, pure_bind,
    if_pos (beq_self_eq_true _)]
  rfl

/-- Without a singleton class of its own, an object gets one. -/
theorem singletonOf_of_missing (found : machine.heap.get? handle = some object)
    (live : machine.heap.get? object.classHandle = some classObject)
    (missing : ∀ singleton, ¬ machine.OwnSingleton handle singleton) :
    singletonOf (fuel + 1) handle machine =
      (singletonParent fuel object >>= attachSingleton handle) machine := by
  have attach : (match object.class? with
      | none => attachSingleton handle object.classHandle
      | some record =>
        if record.kind = .module then attachSingleton handle object.classHandle
        else
          match record.superclass with
          | some superclass => singletonOf fuel superclass >>= attachSingleton handle
          | none => liftM (Query.coreClass .classClass) >>= attachSingleton handle) =
      singletonParent fuel object >>= attachSingleton handle := by
    unfold singletonParent
    split
    · rw [pure_bind]
    · split
      · rw [pure_bind]
      · split <;> rfl
  rw [singletonOf, bind_of_ok (liftM_of_ok (Query.object_eq_ok_iff.mpr found)),
    bind_of_ok (liftM_of_ok (Query.object_eq_ok_iff.mpr live)), ← attach]
  dsimp only
  by_cases isSingletonClass : classObject.isSingletonClass = true
  · obtain ⟨record, isClass, isSingleton⟩ := Object.isSingletonClass_iff.mp isSingletonClass
    have known : machine.class? object.classHandle = some record := by
      rw [Machine.class?, live, Option.bind_some, isClass]
    have notAttached : ¬ (record.attached == some handle) = true := fun isAttached =>
      missing _ ⟨object, record, found, rfl, known, isSingleton, eq_of_beq isAttached⟩
    rw [if_pos isSingletonClass,
      bind_of_ok (liftM_of_ok (Query.classRecord_eq_ok_iff.mpr known)), pure_bind]
    exact congrFun (if_neg notAttached) machine
  · rw [if_neg isSingletonClass, pure_bind]
    exact congrFun (if_neg Bool.false_ne_true) machine

/-- A search from a handle that leads nowhere, or to an object without a class, fails. -/
theorem after_singletonOf_of_dead
    (dead : ∀ object, machine.heap.get? handle = some object →
      machine.heap.get? object.classHandle = none) :
    (∀ singleton next, singletonOf fuel handle machine ≠ .ok singleton next) ∧
      (singletonOf fuel handle).after machine = machine := by
  obtain ⟨failure, failed⟩ : ∃ failure,
      singletonOf fuel handle machine = .error failure machine := by
    cases fuel with
    | zero => exact ⟨_, rfl⟩
    | succ fuel =>
        rw [singletonOf]
        cases found : machine.heap.get? handle with
        | none =>
            have read : Query.object handle machine = .error (.danglingHandle handle) := by
              rw [Query.object, found]
            exact ⟨_, bind_of_error (liftM_of_error read)⟩
        | some object =>
            have read : Query.object object.classHandle machine =
                .error (.danglingHandle object.classHandle) := by
              rw [Query.object, dead object found]
            rw [bind_of_ok (liftM_of_ok (Query.object_eq_ok_iff.mpr found))]
            exact ⟨_, bind_of_error (liftM_of_error read)⟩
  refine ⟨fun singleton next done => ?_, after_of_error failed⟩
  cases failed.symm.trans done

end VM

namespace Machine

/-- An object other than the given one and, if this is a class, its ancestors. -/
def Unrelated (machine : Machine) (handle other : Handle) : Prop :=
  other ≠ handle ∧ ∀ list, machine.Lineage handle list → other ∉ list

/-- What a search for the singleton class of an object has done where it succeeds. -/
structure FindsSingleton (machine : Machine) (handle singleton : Handle) (next : Machine) :
    Prop where
  own : next.OwnSingleton handle singleton
  others : ∀ other object, machine.Unrelated handle other →
    machine.heap.get? other = some object → next.heap.get? other = some object

/-- What a search for the singleton class of an object does. -/
structure Searches (machine : Machine) (fuel : Nat) (handle : Handle) : Prop where
  attachments : machine.Attachments ((VM.singletonOf fuel handle).after machine)
  finds : ∀ singleton next, VM.singletonOf fuel handle machine = .ok singleton next →
    machine.FindsSingleton handle singleton next

variable {machine between : Machine} {handle superclass parent other : Handle}
  {object classObject : Object} {record : ClassRecord} {fuel : Nat}

theorem Searches.keepsContents (searches : machine.Searches fuel handle)
    (wellFormed : machine.heap.WellFormed) {singleton : Handle}
    (done : VM.singletonOf fuel handle machine = .ok singleton between) :
    machine.KeepsContents between :=
  Attachments.keepsContents (VM.after_of_ok done ▸ searches.attachments) wellFormed

/-- A class is unrelated to its superclass, and so is whatever is unrelated to the class. -/
theorem Hierarchical.unrelated_superclass (hierarchical : machine.Hierarchical)
    (known : machine.class? handle = some record) (inherits : record.superclass = some superclass)
    (isApart : other = handle ∨ machine.Unrelated handle other) :
    machine.Unrelated superclass other := by
  obtain ⟨list, lineage⟩ := hierarchical.lineages handle record known
  have isParent : superclass ∈ record.parents := by simp [ClassRecord.parents, inherits]
  obtain ⟨more, ofSuperclass, within⟩ := lineage.of_parent (parents?_of_class? known) isParent
  have outside : other ∉ more := by
    rcases isApart with rfl | ⟨-, apart⟩
    · exact lineage.not_mem_of_parent (parents?_of_class? known) isParent ofSuperclass
    · exact fun isMember => apart list lineage (within isMember)
  refine ⟨fun isSuperclass => outside (isSuperclass ▸ ofSuperclass.mem_self), ?_⟩
  intro another lineageToo
  rw [lineageToo.unique ofSuperclass]
  exact outside

/-- What the search for the class above a missing singleton class does. -/
structure FindsParent (machine : Machine) (handle parent : Handle) (between : Machine) :
    Prop where
  given : between.GivesSuperclass parent
  mirrors : between.MirrorsAbove handle parent
  others : ∀ other object, other = handle ∨ machine.Unrelated handle other →
    machine.heap.get? other = some object → between.heap.get? other = some object

/-- What the search for the class above a missing singleton class does, and whether it succeeds
or not, it attaches singleton classes only. -/
structure SearchesParent (machine : Machine) (handle : Handle) (search : VM Handle) : Prop where
  attachments : machine.Attachments (search.after machine)
  finds : ∀ parent between, search machine = .ok parent between →
    machine.FindsParent handle parent between

theorem SearchesParent.keepsContents {search : VM Handle}
    (searches : machine.SearchesParent handle search) (wellFormed : machine.heap.WellFormed)
    (done : search machine = .ok parent between) : machine.KeepsContents between :=
  Attachments.keepsContents (VM.after_of_ok done ▸ searches.attachments) wellFormed

theorem SearchesParent.of_given {search : VM Handle} (read : search machine = .ok parent machine)
    (given : machine.GivesSuperclass parent) (mirrors : machine.MirrorsAbove handle parent) :
    machine.SearchesParent handle search := by
  refine ⟨by rw [VM.after_of_ok read], fun result between returned => ?_⟩
  obtain ⟨rfl, rfl⟩ := EStateM.Result.ok.inj (read.symm.trans returned)
  exact ⟨given, mirrors, fun _ _ _ found => found⟩

theorem FindsParent.of_superclass (hierarchical : machine.Hierarchical)
    (keeps : machine.KeepsContents between) (known : machine.class? handle = some record)
    (inherits : record.superclass = some superclass)
    (finds : machine.FindsSingleton superclass parent between) :
    machine.FindsParent handle parent between := by
  refine ⟨?_, fun otherRecord isKnown _ => ?_, fun other object isApart => ?_⟩
  · obtain ⟨_, _, -, -, isClass, -⟩ := finds.own
    exact .known isClass
  · obtain rfl := Option.some.inj ((keeps.class? known).symm.trans isKnown)
    rw [inherits]
    exact finds.own
  · exact finds.others other object (hierarchical.unrelated_superclass known inherits isApart)

theorem Hierarchical.searchesParent (hierarchical : machine.Hierarchical)
    (found : machine.heap.get? handle = some object)
    (live : machine.heap.get? object.classHandle = some classObject)
    (searches : ∀ other, machine.Searches fuel other) :
    machine.SearchesParent handle (VM.singletonParent fuel object) := by
  have given : machine.GivesSuperclass object.classHandle := .ofObject found live
  have isClass (record : ClassRecord) :
      machine.class? handle = some record ↔ object.class? = some record := by
    rw [Machine.class?, found, Option.bind_some]
  rw [VM.singletonParent]
  split
  · rename_i plain
    refine .of_given rfl given fun record known _ => ?_
    cases plain.symm.trans ((isClass record).mp known)
  · rename_i record known
    have isRecord {other : ClassRecord} (isKnown : machine.class? handle = some other) :
        other = record := Option.some.inj (((isClass other).mp isKnown).symm.trans known)
    split
    · rename_i isModule
      refine .of_given rfl given fun other isKnown notModule => absurd isModule ?_
      rwa [← isRecord isKnown]
    · split
      · rename_i superclass inherits
        refine ⟨(searches superclass).attachments, fun parent between done => ?_⟩
        have keeps := (searches superclass).keepsContents hierarchical.wellFormed done
        exact .of_superclass hierarchical keeps ((isClass record).mpr known) inherits
          ((searches superclass).finds parent between done)
      · rename_i noSuperclass
        refine .of_given rfl .classClass fun other isKnown _ => ?_
        rw [isRecord isKnown, noSuperclass]

/-- An attachment behind the search for the class above. -/
theorem FindsParent.attaches (finds : machine.FindsParent handle parent between)
    (keeps : machine.KeepsContents between) (found : machine.heap.get? handle = some object)
    (live : machine.heap.get? object.classHandle = some classObject)
    (missing : ∀ singleton, ¬ machine.OwnSingleton handle singleton) :
    between.Attaches (between.withSingleton handle parent) := by
  have isFound := finds.others handle object (.inl rfl) found
  refine .intro isFound (fun singleton own => ?_) finds.given finds.mirrors
  obtain ⟨sameObject, record, same, rfl, known, isSingleton, isAttached⟩ := own
  obtain rfl := Option.some.inj (isFound.symm.trans same)
  -- the class of the object was there before the search, and has not become another one
  refine missing _ ⟨object, record, found, rfl, ?_, isSingleton, isAttached⟩
  obtain ⟨classHandle, isLive⟩ := keeps.objects _ classObject live
  rw [Machine.class?, isLive] at known
  rw [Machine.class?, live]
  exact known

/-- A search for a missing singleton class attaches it behind the search for the one above. -/
theorem SearchesParent.searches
    (search : machine.SearchesParent handle (VM.singletonParent fuel object))
    (wellFormed : machine.heap.WellFormed) (found : machine.heap.get? handle = some object)
    (live : machine.heap.get? object.classHandle = some classObject)
    (missing : ∀ singleton, ¬ machine.OwnSingleton handle singleton) :
    machine.Searches (fuel + 1) handle := by
  have isSearch := @VM.singletonOf_of_missing _ _ _ _ fuel found live missing
  have attachments := search.attachments
  cases done : VM.singletonParent fuel object machine with
  | error failure between =>
      rw [VM.after_of_error done] at attachments
      have failed := isSearch.trans (VM.bind_of_error done)
      refine ⟨by rwa [VM.after_of_error failed], fun singleton next returned => ?_⟩
      cases failed.symm.trans returned
  | ok parent between =>
      rw [VM.after_of_ok done] at attachments
      have keeps := search.keepsContents wellFormed done
      have finds := search.finds parent between done
      have isFound := finds.others handle object (.inl rfl) found
      have attached := (isSearch.trans (VM.bind_of_ok done)).trans
        (attachSingleton_eq keeps.wellFormed handle parent)
      refine ⟨?_, fun singleton next returned => ?_⟩
      · rw [VM.after_of_ok attached]
        exact attachments.tail (finds.attaches keeps found live missing)
      · obtain ⟨rfl, rfl⟩ := EStateM.Result.ok.inj (attached.symm.trans returned)
        refine ⟨ownSingleton_withSingleton keeps.wellFormed isFound,
          fun other _ apart wasFound => ?_⟩
        exact get?_withSingleton keeps.wellFormed apart.1 (finds.others _ _ (.inr apart) wasFound)

/-- A search attaches singleton classes where they are missing, and finds the one of its
object. -/
theorem Hierarchical.searches (hierarchical : machine.Hierarchical) (fuel : Nat)
    (handle : Handle) : machine.Searches fuel handle := by
  induction fuel generalizing handle with
  | zero => exact ⟨.refl, fun _ _ done => nomatch done⟩
  | succ fuel inductionHypothesis =>
      have failing (dead : ∀ object, machine.heap.get? handle = some object →
          machine.heap.get? object.classHandle = none) : machine.Searches (fuel + 1) handle := by
        obtain ⟨fails, same⟩ := @VM.after_singletonOf_of_dead _ _ (fuel + 1) dead
        exact ⟨by rw [same], fun singleton next done => absurd done (fails singleton next)⟩
      cases found : machine.heap.get? handle with
      | none => exact failing fun _ isFound => nomatch found.symm.trans isFound
      | some object =>
          cases live : machine.heap.get? object.classHandle with
          | none =>
              refine failing fun other isFound => ?_
              rw [← Option.some.inj (found.symm.trans isFound), live]
          | some classObject =>
              by_cases exists_own : ∃ singleton, machine.OwnSingleton handle singleton
              · obtain ⟨singleton, own⟩ := exists_own
                have done := @VM.singletonOf_of_own _ _ _ fuel own
                refine ⟨by rw [VM.after_of_ok done], fun result next returned => ?_⟩
                obtain ⟨rfl, rfl⟩ := EStateM.Result.ok.inj (done.symm.trans returned)
                exact ⟨own, fun _ _ _ isFound => isFound⟩
              · have search := hierarchical.searchesParent found live inductionHypothesis
                exact search.searches hierarchical.wellFormed found live
                  (not_exists.mp exists_own)

end Machine

end RiteVm
