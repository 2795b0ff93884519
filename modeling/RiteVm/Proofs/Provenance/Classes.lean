import RiteVm.Proofs.ClassGraph.Singletons
import RiteVm.Proofs.Provenance.Actions

/-!
Contract: actions on classes mention only what a told machine has given out.

Owns:
- the queries about the class of a value, and the searches along classes;
- a change of a class that keeps what the class is built on;
- one instance for each action on ancestors, methods and constants;
- one instance for each action that creates or opens a class or module.
-/

namespace RiteVm

/-! ### Reading classes -/

namespace Query.Reads

variable {seen : Set Mention} {handle : Handle} {value : Value} {name : Symbol} {list : List Handle}
  {fuel : Nat}

instance classOf : Reads seen (Query.classOf value) := by
  unfold Query.classOf
  split <;> infer_instance

instance nominalClass [Within seen handle] : Reads seen (Query.nominalClass fuel handle) := by
  rename_i isHandle
  induction fuel generalizing handle seen with
  | zero => exact ofBreach _
  | succ fuel inductionHypothesis =>
      unfold Query.nominalClass
      refine @seq _ _ _ _ _ _ _ _ fun current => @branch _ _ _ _ _ _ _ ?_ _
      refine @seq _ _ _ _ _ _ _ _ fun record => ?_
      split
      · rename_i superclass found
        have : Within (seen ∪ Mentions.of current ∪ Mentions.of record) superclass := .of_some found
        exact inductionHypothesis
      · infer_instance

instance realClassOf : Reads seen (Query.realClassOf value) := by
  unfold Query.realClassOf
  infer_instance

instance firstEntry? {table : ClassRecord → Table Symbol Value}
    [∀ record, Within (Mentions.of record) (table record)] [Within seen list] :
    Reads seen (Query.firstEntry? table name list) := by
  rename_i isList
  induction list generalizing seen with
  | nil => exact ofValue none
  | cons first rest inductionHypothesis =>
      unfold Query.firstEntry?
      refine @seq _ _ _ _ _ _ _ _ fun record => ?_
      have := isList.head
      have : Within (seen ∪ Mentions.of record) rest := isList.tail.mono Set.subset_union_left
      have : Within (seen ∪ Mentions.of record) (table record) := .right
      split
      · rename_i value found
        have : Within (seen ∪ Mentions.of record) value := .of_some found
        infer_instance
      · exact inductionHypothesis

instance constInScopes : Reads seen (Query.constInScopes name fuel handle) := by
  induction fuel generalizing handle seen with
  | zero => exact ofBreach _
  | succ fuel inductionHypothesis =>
      unfold Query.constInScopes
      refine @seq _ _ _ _ _ _ _ _ fun record => ?_
      split
      · rename_i value found
        have : Within (seen ∪ Mentions.of record) value := .of_some found
        infer_instance
      · exact inductionHypothesis
      · infer_instance

instance lookupMethod [Within seen list] : Reads seen (Query.lookupMethod name list) := by
  rename_i isList
  induction list generalizing seen with
  | nil => exact ofValue none
  | cons owner rest inductionHypothesis =>
      unfold Query.lookupMethod
      refine @seq _ _ _ _ _ _ _ _ fun record => ?_
      have := isList.head
      have : Within (seen ∪ Mentions.of record) rest := isList.tail.mono Set.subset_union_left
      split
      · infer_instance
      · rename_i method _ found
        have : Within (seen ∪ Mentions.of record) method := .of_some found
        infer_instance
      · exact inductionHypothesis

instance cachedMethod? : Reads seen (Query.cachedMethod? handle name) := by
  refine @of_machine _ _ _ _ _ (fun _ => rfl) fun machine => ?_
  split
  · rename_i entry found
    have : Within (seen ∪ Mentions.of machine) machine.methodCache := inferInstance
    have within := Within.cachedMethod_iff.mp (Within.methodCache_iff.mp this _ entry found)
    have := within.1
    have := within.2
    split <;> infer_instance
  · infer_instance

instance ordinaryClass? [Within seen value] : Reads seen (VM.ordinaryClass? value) := by
  unfold VM.ordinaryClass?
  refine @seq _ _ _ _ _ _ _ _ fun record? => ?_
  split <;> infer_instance

end Query.Reads

namespace VM.Tells

-- long actions consist of many parts
set_option synthInstance.maxSize 3000

variable {α : Type} [Mentions α] {captures : Nat → Set Handle} {seen : Set Mention} {handle module : Handle}
  {value : Value} {name : Symbol} {text : String}

/-! ### Changing a class -/

/-- A change that keeps what a class is built on. -/
theorem modifyClass {change : ClassRecord → ClassRecord}
    (kept : ∀ record : ClassRecord, (change record).attached = record.attached ∧
      (change record).kind = record.kind ∧ (change record).superclass = record.superclass)
    [within : ∀ record, Within (seen ∪ Mentions.of record) (change record)] :
    Tells captures seen (VM.modifyClass handle change) where
  tellsFrom machine told isSeen := by
    unfold VM.modifyClass
    refine .query_bind told fun record read => ?_
    have isRecord : Within (machine.heap.issued captures) record :=
      (Query.Reads.classRecord.reads machine record read).mono (Set.union_subset subset_rfl told.within.subset)
    have isChanged := (within record).mono (Set.union_subset isSeen isRecord.subset)
    obtain ⟨isAttached, isKind, isSuperclass⟩ := kept record
    have known := Query.classRecord_eq_ok_iff.mp read
    refine .of_ok rfl (told.rewrite fun object found => ?_) (Heap.advances_modify _ _ _) inferInstance
    obtain ⟨same, sameObject, isClass⟩ := Option.bind_eq_some_iff.mp known
    obtain rfl := Option.some.inj (found.symm.trans sameObject)
    obtain ⟨classHandle, content, frozen, fields⟩ := object
    obtain ⟨isClassHandle, -, isFields⟩ := Within.object_iff.mp (told.within_object found)
    cases content <;> cases isClass
    refine ⟨Within.object_iff.mpr ⟨isClassHandle, ⟨isChanged.subset⟩, isFields⟩, fun anchor anchors => ?_,
      fun rooted isSingleton => ?_⟩
    · cases anchors with
      | attached found => exact .attached (isAttached.symm.trans found)
    · rw [isSuperclass]
      exact rooted (isKind.symm.trans isSingleton)

omit [Mentions α] in
theorem within_bump {machine : Machine} (within : Within seen machine) (methods hierarchy : Nat) :
    Within seen (machine.bump methods hierarchy) := by
  obtain ⟨heap, contexts, fiber, resumers, yielded, globals, core, main, methodCache⟩ := Within.machine_iff.mp within
  exact Within.machine_iff.mpr ⟨heap, contexts, fiber, resumers, yielded, globals, core, main, ⟨methodCache.subset⟩⟩

instance invalidateMethods : Tells captures seen VM.invalidateMethods :=
  of_outside (fun _ => rfl) fun _ within => within_bump within 1 0

instance invalidateHierarchy : Tells captures seen VM.invalidateHierarchy := by
  have count {seen : Set Mention} : Tells captures seen (modify fun machine : Machine =>
      { machine with methodCache.hierarchy := machine.methodCache.hierarchy + 1 } : VM PUnit) :=
    of_outside (fun _ => rfl) fun _ within => within_bump within 0 1
  unfold VM.invalidateHierarchy
  infer_instance

/-! ### Ancestors -/

instance within_appendNew {list more : List Handle} [Within seen list] [Within seen more] :
    Within seen (appendNew list more) :=
  Within.list_iff.mpr fun handle member => by
    rcases mem_appendNew.mp member with member | member <;> exact .of_mem member

instance within_parents {record : ClassRecord} [Within seen record] : Within seen record.parents := by
  rw [ClassRecord.parents]
  infer_instance

instance within_cachedAncestors? {record : ClassRecord} {generation : Nat} [Within seen record] :
    Within seen (record.cachedAncestors? generation) := by
  rw [ClassRecord.cachedAncestors?]
  split
  · rename_i cached found
    have : Within seen cached := .of_some found
    infer_instance
  · infer_instance

instance ancestorsWithin {fuel : Nat} [Within seen handle] :
    Tells captures seen (VM.ancestorsWithin fuel handle) := by
  rename_i isHandle
  induction fuel generalizing handle seen with
  | zero => exact ofBreach _
  | succ fuel inductionHypothesis =>
      unfold VM.ancestorsWithin
      refine behind fun machine => behind fun record => ?_
      split
      · rename_i list found
        have : Within (seen ∪ Mentions.of machine ∪ Mentions.of record) list := .of_some found
        infer_instance
      · have collect : Tells captures (seen ∪ Mentions.of machine ∪ Mentions.of record)
            (record.parents.foldlM (fun list parent => do
              return appendNew list (← VM.ancestorsWithin fuel parent)) [handle]) := by
          refine listFoldlM_of _ (fun parent isParent list => ?_) _
          have : Within (seen ∪ Mentions.of machine ∪ Mentions.of record ∪ Mentions.of list) parent :=
            .of_mem isParent
          have := @inductionHypothesis
          infer_instance
        have store {seen : Set Mention} {list : List Handle} [Within seen list] {generation : Nat} : Tells captures seen
            (VM.modifyClass handle ({ · with ancestors := some { generation, list } })) :=
          modifyClass fun _ => ⟨rfl, rfl, rfl⟩
        infer_instance

instance ancestors [Within seen handle] : Tells captures seen (VM.ancestors handle) := by
  unfold VM.ancestors
  infer_instance

instance isKindOf : Tells captures seen (VM.isKindOf value handle) := by
  unfold VM.isKindOf
  infer_instance

instance checkClass : Tells captures seen (VM.checkClass handle) := by
  unfold VM.checkClass
  infer_instance

instance checkFrozenClass : Tells captures seen (VM.checkFrozenClass handle) := by
  unfold VM.checkFrozenClass
  infer_instance

instance includeModule [Within seen handle] [Within seen module] :
    Tells captures seen (VM.includeModule handle module) := by
  have enter {seen : Set Mention} [Within seen module] : Tells captures seen
      (VM.modifyClass handle fun record => { record with includes := record.includes.push module }) :=
    modifyClass fun _ => ⟨rfl, rfl, rfl⟩
  unfold VM.includeModule
  infer_instance

/-! ### Methods -/

instance cacheMethod {found : FoundMethod} [Within seen found] :
    Tells captures seen (VM.cacheMethod handle name found) := by
  refine of_outside (fun _ => rfl) fun machine within => ?_
  obtain ⟨heap, contexts, fiber, resumers, yielded, globals, core, main, methodCache⟩ := Within.machine_iff.mp within
  refine Within.machine_iff.mpr ⟨heap, contexts, fiber, resumers, yielded, globals, core, main, ?_⟩
  refine Within.methodCache_iff.mpr fun key entry isEntry => ?_
  rw [Std.HashMap.getElem?_insert] at isEntry
  split at isEntry
  · cases isEntry
    exact Within.cachedMethod_iff.mpr ⟨inferInstance, inferInstance⟩
  · exact Within.methodCache_iff.mp methodCache key entry isEntry

instance findMethod [Within seen handle] : Tells captures seen (VM.findMethod handle name) := by
  unfold VM.findMethod
  refine behind fun cached? => ?_
  split
  · infer_instance
  · refine behind fun list => behind fun found? => ?_
    split <;> infer_instance

instance findSuperMethod {owner : Handle} [Within seen handle] :
    Tells captures seen (VM.findSuperMethod handle owner name) := by
  unfold VM.findSuperMethod
  refine behind fun list => ?_
  split
  · infer_instance
  · rename_i first rest found
    have : Within (seen ∪ Mentions.of list) (first :: rest) := .of_eq found
    have := this.tail
    refine behind fun found? => ?_
    split <;> infer_instance

instance addMethod {method : Method} [Within seen method] :
    Tells captures seen (VM.addMethod handle name method) := by
  have store : Tells captures seen
      (VM.modifyClass handle fun record => { record with methods := record.methods.insert name method }) :=
    modifyClass fun _ => ⟨rfl, rfl, rfl⟩
  unfold VM.addMethod
  infer_instance

instance setMethod {method : Method} [Within seen method] :
    Tells captures seen (VM.setMethod handle name method) := by
  unfold VM.setMethod
  infer_instance

instance defineMethod {body : NativeMethod} [Within seen body] :
    Tells captures seen (VM.defineMethod handle text body) := by
  unfold VM.defineMethod
  infer_instance

instance raiseUndefinedMethod : Tells captures seen (VM.raiseUndefinedMethod handle name : VM α) := by
  unfold VM.raiseUndefinedMethod
  infer_instance

instance removeMethod : Tells captures seen (VM.removeMethod handle name) := by
  have discard {seen : Set Mention} : Tells captures seen
      (VM.modifyClass handle fun record => { record with methods := record.methods.erase name }) :=
    modifyClass fun _ => ⟨rfl, rfl, rfl⟩
  unfold VM.removeMethod
  refine behind fun _ => behind fun record => behind fun _ => ?_
  split <;> infer_instance

instance undefMethod [Within seen handle] : Tells captures seen (VM.undefMethod handle name) := by
  unfold VM.undefMethod
  refine behind fun _ => behind fun found? => ?_
  split <;> infer_instance

instance aliasMethod {old : Symbol} [Within seen handle] :
    Tells captures seen (VM.aliasMethod handle name old) := by
  unfold VM.aliasMethod
  refine behind fun _ => behind fun found? => ?_
  split <;> infer_instance

instance respondsTo : Tells captures seen (VM.respondsTo value name) := by
  unfold VM.respondsTo
  infer_instance

/-! ### Constants and class variables -/

instance nameClass {outer : Handle} [Within seen outer] : Tells captures seen (VM.nameClass outer handle name) := by
  have enter {seen : Set Mention} [Within seen outer] (full : String) :
      Tells captures seen (VM.modifyClass handle fun record =>
        { record with
          name := some full
          outer := if outer = handle then record.outer else some outer }) :=
    modifyClass fun _ => ⟨rfl, rfl, rfl⟩
  unfold VM.nameClass
  refine behind fun record => ?_
  split
  · refine behind fun text => behind fun object => ?_
    dsimp only
    infer_instance
  · infer_instance

instance setConst [Within seen handle] [Within seen value] :
    Tells captures seen (VM.setConst handle name value) := by
  have store {seen : Set Mention} [Within seen value] : Tells captures seen (VM.modifyClass handle fun record =>
      { record with constants := record.constants.insert name value }) :=
    modifyClass fun _ => ⟨rfl, rfl, rfl⟩
  unfold VM.setConst
  refine behind fun _ => ?_
  dsimp only
  split <;> infer_instance

instance defineConst [Within seen handle] [Within seen value] :
    Tells captures seen (VM.defineConst handle text value) := by
  unfold VM.defineConst
  infer_instance

instance constInAncestors [Within seen handle] : Tells captures seen (VM.constInAncestors handle name) := by
  unfold VM.constInAncestors
  infer_instance

instance getConst? [Within seen handle] : Tells captures seen (VM.getConst? handle text) := by
  unfold VM.getConst?
  refine behind fun object => ?_
  split
  · infer_instance
  · refine behind fun machine => ?_
    split <;> infer_instance

instance lexicalConst [Within seen handle] : Tells captures seen (VM.lexicalConst handle name) := by
  unfold VM.lexicalConst
  refine behind fun bound => behind fun inScope? => ?_
  split
  · infer_instance
  · refine behind fun inAncestors? => ?_
    split <;> infer_instance

instance getClassVar [Within seen handle] : Tells captures seen (VM.getClassVar handle name) := by
  unfold VM.getClassVar
  refine behind fun list => behind fun entry? => ?_
  split <;> infer_instance

instance setClassVar [Within seen handle] [Within seen value] :
    Tells captures seen (VM.setClassVar handle name value) := by
  have store {seen : Set Mention} [Within seen value] {owner : Handle} :
      Tells captures seen (VM.modifyClass owner fun record =>
        { record with classVars := record.classVars.insert name value }) :=
    modifyClass fun _ => ⟨rfl, rfl, rfl⟩
  unfold VM.setClassVar
  infer_instance

/-! ### New classes -/

omit [Mentions α] in
theorem allocateClass {kind : ClassKind} {superclass : Option Handle} {instances : InstanceKind}
    (rooted : kind = .singleton → superclass.isSome) [Within seen superclass] :
    Tells captures seen (VM.allocateClass kind superclass instances) := by
  have create {seen : Set Mention} {classHandle : Handle} [Within seen superclass] [Within seen classHandle] :
      Tells captures seen
        (VM.allocate { classHandle, content := .classOrModule { kind, superclass, instances } }) :=
    allocate_of rooted
  unfold VM.allocateClass
  infer_instance

instance allocateOrdinary {superclass : Handle} {instances : InstanceKind} [Within seen superclass] :
    Tells captures seen (VM.allocateClass .ordinary (some superclass) instances) :=
  allocateClass nofun

instance allocateModule {instances : InstanceKind} :
    Tells captures seen (VM.allocateClass .module none instances) :=
  allocateClass nofun

/-- The object of a singleton class is there before it. -/
instance attachSingleton {superclass : Handle} [isHandle : Within seen handle]
    [isSuperclass : Within seen superclass] : Tells captures seen (VM.attachSingleton handle superclass) where
  tellsFrom machine told isSeen := by
    let singleton := machine.nextSingleton superclass
    let object : Object := { machine.newSingleton superclass with
      content := .classOrModule (Machine.attachedRecord handle superclass) }
    let created := (machine.allocate (machine.newSingleton superclass)).setClass singleton
      (Machine.attachedRecord handle superclass)
    let attached := created.rewrite handle fun object => { object with classHandle := singleton }
    have wellFormed := told.founded.wellFormed
    have isObject : Within (machine.heap.issued captures) object := by
      have := told.within
      have := isHandle.mono isSeen
      have := isSuperclass.mono isSeen
      have isRecord : Within (machine.heap.issued captures) (Machine.attachedRecord handle superclass) := by
        unfold Machine.attachedRecord
        infer_instance
      have isClass : Within (machine.heap.issued captures) (machine.coreClass .classClass) := inferInstance
      exact Within.object_iff.mpr ⟨isClass, ⟨isRecord.subset⟩, Within.noEntries⟩
    have look (other : Handle) : created.heap.get? other =
        if other = singleton then some object else machine.heap.get? other := by
      have placed := Machine.Hierarchical.get?_allocate wellFormed (machine.newSingleton superclass)
      refine (Machine.get?_rewrite _ _).trans ?_
      split
      · exact congrArg (Option.map _) ((placed singleton).trans (if_pos rfl))
      · rename_i isOther
        exact (placed other).trans (if_neg isOther)
    have advances : machine.heap.Advances created.heap :=
      (Heap.advances_place _ _).trans (Heap.advances_modify _ _ _)
    have advancesOn : created.heap.Advances attached.heap := Heap.advances_modify _ _ _
    have isCreated : created.Told captures :=
      told.enter (Heap.not_issued_place_snd _ _) ((wellFormed.allocate _).modify _ _) advances look rfl isObject
        fun _ => rfl
    have isSingleton : Within (created.heap.issued captures) singleton :=
      ⟨fun mention isMention => by
        obtain rfl : mention = .object singleton := isMention
        exact Heap.issued_of_get? ((look singleton).trans (if_pos rfl))⟩
    have isAttached : attached.Told captures :=
      isCreated.rewrite fun object found => by
        obtain ⟨-, isContent, isFields⟩ := Within.object_iff.mp (isCreated.within_object found)
        exact ⟨Within.object_iff.mpr ⟨isSingleton, isContent, isFields⟩, fun _ => id, id⟩
    exact .of_ok (Machine.attachSingleton_eq wellFormed handle superclass)
      ⟨isAttached.founded, within_bump isAttached.within 1 1⟩ (advances.trans advancesOn)
      (isSingleton.mono advancesOn.issued_subset)

instance singletonOf {fuel : Nat} [Within seen handle] :
    Tells captures seen (VM.singletonOf fuel handle) := by
  rename_i isHandle
  induction fuel generalizing handle seen with
  | zero => exact ofBreach _
  | succ fuel inductionHypothesis =>
      have := @inductionHypothesis
      unfold VM.singletonOf
      refine behind fun object => ?_
      extract_lets current finish
      have isFinish {seen : Set Mention} [Within seen handle] [Within seen object] (isOwn : Bool) :
          Tells captures seen (finish isOwn) := by
        dsimp only [finish, current]
        split
        · infer_instance
        · split
          · infer_instance
          · rename_i record found
            have : Within seen record := .of_some found
            split
            · infer_instance
            · split
              · rename_i superclass isSuperclass
                have : Within seen superclass := .of_some isSuperclass
                infer_instance
              · infer_instance
      infer_instance

instance singletonClass [Within seen value] : Tells captures seen (VM.singletonClass value) := by
  unfold VM.singletonClass
  split <;> infer_instance

instance openClass {superclass? : Option Handle} [Within seen handle] [Within seen superclass?] :
    Tells captures seen (VM.openClass handle name superclass?) := by
  unfold VM.openClass
  refine behind fun record => ?_
  split
  · rename_i existing found
    have : Within (seen ∪ Mentions.of record) existing := .of_some found
    refine behind fun existing? => ?_
    split
    · infer_instance
    · dsimp only
      infer_instance
  · dsimp only
    infer_instance

instance openModule [Within seen handle] : Tells captures seen (VM.openModule handle name) := by
  unfold VM.openModule
  refine behind fun record => ?_
  split
  · rename_i existing found
    have : Within (seen ∪ Mentions.of record) existing := .of_some found
    refine behind fun isModule => ?_
    split <;> infer_instance
  · infer_instance

instance defineClassUnder {superclass? : Option Handle} [Within seen handle] [Within seen superclass?] :
    Tells captures seen (VM.defineClassUnder handle text superclass?) := by
  unfold VM.defineClassUnder
  infer_instance

instance defineClass {superclass? : Option Handle} [Within seen superclass?] :
    Tells captures seen (VM.defineClass text superclass?) := by
  unfold VM.defineClass
  infer_instance

instance defineModuleUnder [Within seen handle] : Tells captures seen (VM.defineModuleUnder handle text) := by
  unfold VM.defineModuleUnder
  infer_instance

instance defineModule : Tells captures seen (VM.defineModule text) := by
  unfold VM.defineModule
  infer_instance

instance defineSingletonMethod {body : NativeMethod} [Within seen value] [Within seen body] :
    Tells captures seen (VM.defineSingletonMethod value text body) := by
  unfold VM.defineSingletonMethod
  infer_instance

end VM.Tells

end RiteVm
