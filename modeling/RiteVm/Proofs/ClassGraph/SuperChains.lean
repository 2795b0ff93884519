import RiteVm.Proofs.ClassGraph.Inclusion
import RiteVm.Proofs.Fibers.Asking

/-!
Contract: `super` walks the remaining definitions of a method.

Owns:
- the definitions of a name in a list of ancestors, up to the first entry that is undefined;
- that the search for a method finds the first one, and each search behind an owner the next one;
- chains of bodies, each of which is entered by `super` from the one before;
- that such a chain has one body for each ancestor at most, and what ends it.

The searches are repeated by owner in lists that are computed anew. They fit together because no
ancestor stands in a list twice. Bodies may do anything in between, as long as the class keeps its
ancestors and their definitions of the name.
-/

namespace RiteVm

/-! ### Definitions -/

namespace Machine

/-- The entries for a name in a list of classes, up to the first that is undefined. -/
def definitions (machine : Machine) (name : Symbol) (list : List Handle) : List FoundMethod :=
  (list.filterMap (machine.ownMethod? name)).takeWhile (·.method != .undefined)

variable {machine later next : Machine} {name : Symbol} {handle owner : Handle}
  {list rest : List Handle} {found : FoundMethod} {before behind : List FoundMethod}

theorem definitions_cons_of_none (entry : machine.ownMethod? name owner = none) :
    machine.definitions name (owner :: rest) = machine.definitions name rest := by
  rw [definitions, List.filterMap_cons_none entry]
  rfl

theorem definitions_cons_of_some (entry : machine.ownMethod? name owner = some found) :
    machine.definitions name (owner :: rest) =
      if found.method = .undefined then [] else found :: machine.definitions name rest := by
  rw [definitions, List.filterMap_cons_some entry, List.takeWhile_cons]
  by_cases isUndefined : found.method = .undefined <;> simp [isUndefined, definitions]

theorem owner_of_ownMethod? (entry : machine.ownMethod? name owner = some found) :
    found.owner = owner := by
  obtain ⟨record, -, stored⟩ := Option.bind_eq_some_iff.mp entry
  obtain ⟨method, -, rfl⟩ := Option.map_eq_some_iff.mp stored
  rfl

theorem definitions_congr
    (same : ∀ owner ∈ list, next.ownMethod? name owner = machine.ownMethod? name owner) :
    next.definitions name list = machine.definitions name list := by
  rw [definitions, definitions, List.filterMap_congr same]

/-- A search finds the first definition. -/
theorem resolve_eq_head? (machine : Machine) (name : Symbol) (list : List Handle) :
    machine.resolve name list = (machine.definitions name list).head? := by
  induction list with
  | nil => rfl
  | cons owner rest inductionHypothesis =>
      cases entry : machine.ownMethod? name owner with
      | none => rw [resolve_cons_of_none entry, definitions_cons_of_none entry, inductionHypothesis]
      | some found =>
          rw [resolve_cons_of_some entry, definitions_cons_of_some entry]
          split <;> rfl

/-- The owners of the definitions stand in the list, in the same order. -/
theorem sublist_owners (machine : Machine) (name : Symbol) (list : List Handle) :
    ((machine.definitions name list).map (·.owner)).Sublist list := by
  induction list with
  | nil => exact .slnil
  | cons owner rest inductionHypothesis =>
      cases entry : machine.ownMethod? name owner with
      | none =>
          rw [definitions_cons_of_none entry]
          exact inductionHypothesis.cons owner
      | some found =>
          rw [definitions_cons_of_some entry]
          split
          · exact List.nil_sublist _
          · rw [List.map_cons, owner_of_ownMethod? entry]
            exact inductionHypothesis.cons_cons owner

/-- A class defines a name in a list of classes: it has an entry, and neither this nor one in front
of it is undefined. -/
def Defines (machine : Machine) (name : Symbol) (list : List Handle) (found : FoundMethod) : Prop :=
  ∃ front rest, list = front ++ found.owner :: rest ∧
    machine.ownMethod? name found.owner = some found ∧ found.method ≠ .undefined ∧
    ∀ other ∈ front, ∀ entry, machine.ownMethod? name other = some entry → entry.method ≠ .undefined

/-- What is defined in a longer list is the first entry, or is defined behind it. -/
theorem defines_cons : machine.Defines name (owner :: rest) found ↔
    machine.ownMethod? name owner = some found ∧ found.method ≠ .undefined ∨
      (∀ entry, machine.ownMethod? name owner = some entry → entry.method ≠ .undefined) ∧
        machine.Defines name rest found := by
  constructor
  · rintro ⟨front, others, split, entry, isDefined, noneUndefined⟩
    cases front with
    | nil =>
        obtain ⟨rfl, rfl⟩ := List.cons.inj split
        exact .inl ⟨entry, isDefined⟩
    | cons first front =>
        obtain ⟨rfl, rfl⟩ := List.cons.inj split
        refine .inr ⟨noneUndefined owner List.mem_cons_self, front, others, rfl, entry, isDefined, ?_⟩
        exact fun other member => noneUndefined other (List.mem_cons_of_mem _ member)
  · rintro (⟨entry, isDefined⟩ | ⟨isOpen, front, others, rfl, entry, isDefined, noneUndefined⟩)
    · have isOwner := owner_of_ownMethod? entry
      exact ⟨[], rest, by rw [isOwner]; rfl, isOwner ▸ entry, isDefined, nofun⟩
    · refine ⟨owner :: front, others, rfl, entry, isDefined, ?_⟩
      intro other member
      rcases List.mem_cons.mp member with rfl | isLater
      · exact isOpen
      · exact noneUndefined other isLater

/-- The definitions are exactly what the classes in the list define. -/
theorem mem_definitions :
    found ∈ machine.definitions name list ↔ machine.Defines name list found := by
  induction list with
  | nil =>
      refine ⟨nofun, ?_⟩
      rintro ⟨front, others, split, -⟩
      exact absurd split.symm (List.append_ne_nil_of_right_ne_nil _ (List.cons_ne_nil _ _))
  | cons owner rest inductionHypothesis =>
      rw [defines_cons, ← inductionHypothesis]
      cases entry : machine.ownMethod? name owner with
      | none => simp [definitions_cons_of_none entry]
      | some first =>
          rw [definitions_cons_of_some entry]
          by_cases isUndefined : first.method = .undefined
          · simp only [isUndefined, ↓reduceIte, List.not_mem_nil, Option.some.injEq, false_iff]
            rintro (⟨rfl, isDefined⟩ | ⟨isOpen, -⟩)
            · exact isDefined isUndefined
            · exact isOpen first rfl isUndefined
          · simp only [isUndefined, ↓reduceIte, List.mem_cons, Option.some.injEq]
            constructor
            · rintro (rfl | isLater)
              · exact .inl ⟨rfl, isUndefined⟩
              · exact .inr ⟨fun _ same => same ▸ isUndefined, isLater⟩
            · rintro (⟨rfl, -⟩ | ⟨-, isLater⟩)
              · exact .inl rfl
              · exact .inr isLater

/-- Behind the owner of a definition stand the classes with the following definitions. -/
theorem exists_behind (defined : machine.definitions name list = before ++ found :: behind) :
    ∃ front rest, list = front ++ found.owner :: rest ∧ machine.definitions name rest = behind := by
  induction list generalizing before with
  | nil => exact absurd defined.symm (List.append_ne_nil_of_right_ne_nil _ (List.cons_ne_nil _ _))
  | cons owner others inductionHypothesis =>
      have later {before : List FoundMethod}
          (defined : machine.definitions name others = before ++ found :: behind) :
          ∃ front rest, owner :: others = front ++ found.owner :: rest ∧
            machine.definitions name rest = behind := by
        obtain ⟨front, rest, rfl, isRest⟩ := inductionHypothesis defined
        exact ⟨owner :: front, rest, rfl, isRest⟩
      cases entry : machine.ownMethod? name owner with
      | none =>
          rw [definitions_cons_of_none entry] at defined
          exact later defined
      | some first =>
          rw [definitions_cons_of_some entry] at defined
          split at defined
          · exact absurd defined.symm (List.append_ne_nil_of_right_ne_nil _ (List.cons_ne_nil _ _))
          · cases before with
            | nil =>
                obtain ⟨rfl, isRest⟩ := List.cons.inj defined
                exact ⟨[], others, by rw [owner_of_ownMethod? entry]; rfl, isRest⟩
            | cons _ before => exact later (List.cons.inj defined).2

end Machine

/-! ### Searches behind an owner -/

namespace VM

/-- What `super` finds if a search behind the owner finds this. -/
def SuperMethod.ofFound? : Option FoundMethod → SuperMethod
  | some method => .found method
  | none => .missing

/-- Searches behind an owner, each behind the owner that was found last, find these methods and
then no further one. -/
inductive FindsSupers (handle : Handle) (name : Symbol) :
    Machine → Handle → List FoundMethod → Prop where
  | missing {machine next : Machine} {owner : Handle} :
      findSuperMethod handle owner name machine = .ok .missing next →
      FindsSupers handle name machine owner []
  | found {machine next : Machine} {owner : Handle} {method : FoundMethod}
      {rest : List FoundMethod} :
      findSuperMethod handle owner name machine = .ok (.found method) next →
      FindsSupers handle name next method.owner rest →
      FindsSupers handle name machine owner (method :: rest)

instance KeepsRecords.findSuperMethod (handle owner : Handle) (name : Symbol) :
    KeepsRecords (findSuperMethod handle owner name) := by
  unfold VM.findSuperMethod
  refine @seq _ _ _ _ _ fun list => ?_
  split
  · infer_instance
  · refine @seq _ _ _ _ _ fun found? => ?_
    split <;> infer_instance

end VM

namespace Machine

variable {machine later next : Machine} {name : Symbol} {handle owner : Handle}
  {list rest : List Handle} {found : FoundMethod} {before behind : List FoundMethod}

/-- The search behind the owner of a definition finds the next one. -/
theorem Coherent.findSuperMethod_eq (coherent : machine.Coherent)
    (lineage : machine.Lineage handle list)
    (defined : machine.definitions name list = before ++ found :: behind) :
    ∃ next, VM.findSuperMethod handle found.owner name machine =
      .ok (VM.SuperMethod.ofFound? behind.head?) next := by
  obtain ⟨front, rest, split, isRest⟩ := exists_behind defined
  -- No ancestor stands in the list twice, so the owner is not in front of itself.
  have nodup := lineage.nodup
  rw [split] at nodup
  have isBehind : list.dropWhile (· != found.owner) = found.owner :: rest := by
    have inFront : ∀ other ∈ front, (other != found.owner) = true := by
      intro other member
      exact bne_iff_ne.mpr ((List.nodup_append.mp nodup).2.2 other member _ List.mem_cons_self)
    rw [split, List.dropWhile_append_of_pos inFront, List.dropWhile_cons_of_neg (by simp)]
  have caches := VM.caches_ancestors coherent lineage
  obtain ⟨next, computed⟩ := caches.returns trivial
  have same := caches.same
  rw [VM.after_of_ok computed] at same
  have searched : Query.lookupMethod name rest next = .ok behind.head? := by
    have within : rest ⊆ list := by
      rw [split]
      exact fun _ member => List.mem_append_right _ (List.mem_cons_of_mem _ member)
    rw [lookupMethod_eq fun owner isOwner => (same.lineage lineage).class?_of_mem (within isOwner),
      resolve_congr fun owner _ => same.entries name owner, resolve_eq_head?, isRest]
  refine ⟨next, ?_⟩
  rw [VM.findSuperMethod, VM.bind_of_ok computed, isBehind]
  dsimp only
  rw [VM.bind_of_ok (VM.liftM_of_ok searched)]
  cases behind <;> rfl

/-- A class still has these ancestors, and these define a name as they did, in a machine that has
evolved. -/
structure KeepsDefinitions (machine later : Machine) (handle : Handle) (name : Symbol)
    (list : List Handle) : Prop where
  evolution : machine.Evolution later
  lineage : later.Lineage handle list
  definitions : later.definitions name list = machine.definitions name list

namespace KeepsDefinitions

/-- Look-ups keep all definitions. -/
theorem of_ok {α : Type} {action : VM α} [VM.Evolves action] [VM.KeepsRecords action] {value : α}
    (keeps : machine.KeepsDefinitions later handle name list)
    (wellFormed : later.heap.WellFormed) (done : action later = .ok value next) :
    machine.KeepsDefinitions next handle name list := by
  have evolution : VM.EvolvesFrom later action := .of_evolves
  have keepsRecords : VM.KeepsRecords action := inferInstance
  have records := (keepsRecords.keeps later wellFormed).2
  rw [VM.EvolvesFrom, VM.after_of_ok done] at evolution
  rw [VM.after_of_ok done] at records
  refine ⟨keeps.evolution.trans evolution, ?_, ?_⟩
  · exact keeps.lineage.of_parents? fun member _ => parents?_of_record? (records member)
  · rw [definitions_congr fun owner _ => ownMethod?_of_record? (records owner), keeps.definitions]

/-- Behind the owner of a definition, searches find all the following ones. -/
theorem findsSupers (keeps : machine.KeepsDefinitions later handle name list)
    (sound : machine.Sound) (defined : machine.definitions name list = before ++ found :: behind) :
    VM.FindsSupers handle name later found.owner behind := by
  induction behind generalizing later before found with
  | nil =>
      have coherent := (sound.of_evolution keeps.evolution).coherent
      obtain ⟨next, done⟩ :=
        coherent.findSuperMethod_eq keeps.lineage (keeps.definitions.trans defined)
      exact .missing done
  | cons following rest inductionHypothesis =>
      have coherent := (sound.of_evolution keeps.evolution).coherent
      obtain ⟨next, done⟩ :=
        coherent.findSuperMethod_eq keeps.lineage (keeps.definitions.trans defined)
      have defined' := defined.trans (List.append_cons before found (following :: rest))
      exact .found done
        (inductionHypothesis (keeps.of_ok coherent.hierarchical.wellFormed done) defined')

end KeepsDefinitions

/-! ### Bodies that call `super` -/

/-- On top runs a body of a method that was found in this class, for an instance of a class. -/
structure InBody (machine : Machine) (handle : Handle) (name : Symbol) (owner : Handle)
    (frame : Frame) (receiver : Value) : Prop where
  onTop : Query.frame machine = .ok frame
  isMethod : frame.method = some name
  isOwner : frame.owner = some owner
  isSelf : Query.register frame.base 0 machine = .ok receiver
  isInstance : Query.classOf receiver machine = .ok handle

/-- Bodies of the owners follow, each of which is entered by `super` from a body of the owner
before. In between, bodies do what they like, but the class keeps its definitions. -/
inductive SuperChain (machine : Machine) (handle : Handle) (name : Symbol) (list : List Handle) :
    Handle → List Handle → Prop where
  | last (owner : Handle) : SuperChain machine handle name list owner []
  | super {later entered : Machine} {frame above : Frame} {receiver : Value}
      {register operand : Nat} {owner following : Handle} {rest : List Handle} :
      machine.KeepsDefinitions later handle name list →
      later.InBody handle name owner frame receiver →
      (∀ engine, VM.callSuper engine frame.base register operand later = .ok none entered) →
      Query.frame entered = .ok above → above.owner = some following →
      SuperChain machine handle name list following rest →
      SuperChain machine handle name list owner (following :: rest)

end Machine

namespace VM

/-- What `super` does with the method that it finds. -/
def continueSuper (engine : Engine) (base register operand : Nat) (receiver : Value)
    (name : Symbol) : Option FoundMethod → VM (Option Exit)
  | some found => do
    setRegister base register receiver
    let site ← normalizeArgs (base + register) operand true
    callMethod engine site found name
  | none => do
    raiseNoMethod s!"no superclass method '{← Query.symbolText name}'" receiver name

variable {machine next : Machine} {name : Symbol} {handle owner : Handle} {frame : Frame}
  {receiver : Value} {found : FoundMethod}

theorem callSuper_of_inBody (inBody : machine.InBody handle name owner frame receiver)
    {found? : Option FoundMethod}
    (looked : findSuperMethod handle owner name machine = .ok (SuperMethod.ofFound? found?) next)
    (engine : Engine) (register operand : Nat) :
    callSuper engine frame.base register operand machine =
      continueSuper engine frame.base register operand receiver name found? next := by
  rw [callSuper, bind_of_ok (liftM_of_ok inBody.onTop), inBody.isMethod, inBody.isOwner]
  dsimp only
  rw [bind_of_ok (liftM_of_ok inBody.isSelf), bind_of_ok (liftM_of_ok inBody.isInstance),
    bind_of_ok looked]
  cases found? <;> rfl

/-- The frame of a proc carries the owner that it was pushed with. -/
theorem frame_of_pushProcFrame {site : CallSite} {proc : Handle} {method : Option Symbol}
    {owner? : Option Handle} {block : Value} {boundary : Bool}
    (pushed : pushProcFrame site proc owner? method block boundary machine = .ok ⟨⟩ next)
    (onTop : Query.frame next = .ok frame) : frame.owner = owner? := by
  rw [pushProcFrame] at pushed
  obtain ⟨⟨⟩, _, -, pushed⟩ := bind_eq_ok_iff.mp pushed
  obtain ⟨record, _, -, pushed⟩ := bind_eq_ok_iff.mp pushed
  obtain ⟨⟨⟩, cleared, -, pushed⟩ := bind_eq_ok_iff.mp pushed
  cases pushed
  obtain ⟨context, running, below, isTop⟩ := frame_eq_ok_iff.mp onTop
  change (cleared.modifyContext cleared.current _).context? cleared.current = some context at running
  rw [Machine.context?_of_modifyContext, if_pos rfl] at running
  obtain ⟨_, -, rfl⟩ := Option.map_eq_some_iff.mp running
  simp only [Context.activations, Array.toList_push, List.reverse_append, List.reverse_singleton,
    List.singleton_append, List.cons.injEq] at isTop
  exact isTop.1 ▸ rfl

/-- An engine under which no method returns that is no bytecode. -/
def idle : Engine where
  loop _ := fatal .undefinedMethod
  native _ _ _ := fatal .undefinedMethod
  rounds := 0

/-- Whatever methods that are no bytecode do, `super` enters a body: that of the method it finds. -/
theorem owner_of_continueSuper {base register operand : Nat} {found? : Option FoundMethod}
    (entered : ∀ engine,
      continueSuper engine base register operand receiver name found? machine = .ok none next)
    (onTop : Query.frame next = .ok frame) :
    ∃ found, found? = some found ∧ frame.owner = some found.owner := by
  cases found? with
  | none =>
      have fails : Fails (continueSuper idle base register operand receiver name none) := by
        unfold continueSuper
        infer_instance
      exact absurd (entered idle) (fails.ne_ok _ _ _)
  | some found =>
      refine ⟨found, rfl, ?_⟩
      obtain ⟨method, owner⟩ := found
      obtain ⟨⟨⟩, stored, isStored, called⟩ := bind_eq_ok_iff.mp (entered idle)
      obtain ⟨site, prepared, -, called⟩ := bind_eq_ok_iff.mp called
      cases method with
      | proc proc =>
          obtain ⟨block, _, -, called⟩ := bind_eq_ok_iff.mp called
          obtain ⟨⟨⟩, last, pushed, done⟩ := bind_eq_ok_iff.mp called
          cases done
          exact frame_of_pushProcFrame pushed onTop
      | native body =>
          obtain ⟨⟨⟩, _, -, called⟩ := bind_eq_ok_iff.mp called
          obtain ⟨args, _, -, called⟩ := bind_eq_ok_iff.mp called
          obtain ⟨self, _, -, called⟩ := bind_eq_ok_iff.mp called
          obtain ⟨⟨⟩, _, -, called⟩ := bind_eq_ok_iff.mp called
          obtain ⟨value, _, returned, -⟩ := bind_eq_ok_iff.mp called
          cases returned
      | undefined => cases called

end VM

namespace Machine

variable {machine later : Machine} {name : Symbol} {handle owner : Handle} {list : List Handle}
  {frame : Frame} {receiver : Value} {found : FoundMethod} {before behind : List FoundMethod}

/-- In a body of a definition, `super` goes on with the next definition, and raises if there is
none. -/
theorem KeepsDefinitions.callSuper (keeps : machine.KeepsDefinitions later handle name list)
    (sound : machine.Sound) (defined : machine.definitions name list = before ++ found :: behind)
    (inBody : later.InBody handle name found.owner frame receiver) :
    ∃ next, ∀ engine register operand,
      VM.callSuper engine frame.base register operand later =
        VM.continueSuper engine frame.base register operand receiver name behind.head? next := by
  have coherent := (sound.of_evolution keeps.evolution).coherent
  obtain ⟨next, looked⟩ :=
    coherent.findSuperMethod_eq keeps.lineage (keeps.definitions.trans defined)
  exact ⟨next, VM.callSuper_of_inBody inBody looked⟩

/-- The bodies of a chain are those of the definitions that follow, one after the other. -/
theorem SuperChain.isPrefix {owners : List Handle} (sound : machine.Sound)
    (defined : machine.definitions name list = before ++ found :: behind)
    (chain : machine.SuperChain handle name list found.owner owners) :
    owners <+: behind.map (·.owner) := by
  generalize isOwner : found.owner = owner at chain
  induction chain generalizing before found behind with
  | last owner => exact List.nil_prefix
  | super keeps inBody entered onTop isOwner' chain inductionHypothesis =>
      subst isOwner
      obtain ⟨next, continues⟩ := keeps.callSuper sound defined inBody
      simp only [continues] at entered
      obtain ⟨following, isNext, ofFollowing⟩ := VM.owner_of_continueSuper entered onTop
      obtain rfl := Option.some.inj (isOwner'.symm.trans ofFollowing)
      obtain ⟨rest, rfl⟩ : ∃ rest, behind = following :: rest := by
        cases behind with
        | nil => cases isNext
        | cons first rest => exact ⟨rest, by rw [Option.some.inj isNext]⟩
      have defined' := defined.trans (List.append_cons before found (following :: rest))
      exact List.cons_prefix_cons.mpr ⟨rfl, inductionHypothesis defined' rfl⟩

/-! ### Walks -/

/-- What is right about `super` in methods of a name, for the instances of a class with these
ancestors. -/
structure WalksDefinitions (machine : Machine) (handle : Handle) (name : Symbol)
    (list : List Handle) : Prop where
  ancestors : machine.ListsAncestors handle list
  /-- the definitions are those of the ancestors that define the name, each of them once and in the
  order of the ancestors -/
  exact : ∀ found, found ∈ machine.definitions name list ↔ machine.Defines name list found
  ordered : ((machine.definitions name list).map (·.owner)).Sublist list
  once : ((machine.definitions name list).map (·.owner)).Nodup
  /-- the search for a method finds the first definition, those behind the owner that was found
  last find the others, and then there is none -/
  found : ∃ next, VM.findMethod handle name machine =
      .ok (machine.definitions name list).head? next ∧
    ∀ first rest, machine.definitions name list = first :: rest →
      VM.FindsSupers handle name next first.owner rest
  /-- in a body of a definition, `super` goes on with the next one, and raises behind the last -/
  continues : ∀ before found behind, machine.definitions name list = before ++ found :: behind →
    ∀ later frame receiver, machine.KeepsDefinitions later handle name list →
      later.InBody handle name found.owner frame receiver → ∃ next, ∀ engine register operand,
        VM.callSuper engine frame.base register operand later =
          VM.continueSuper engine frame.base register operand receiver name behind.head? next
  /-- a chain of bodies from the first definition on has different ancestors as its owners, so that
  it is no longer than the list of ancestors -/
  chains : ∀ first rest, machine.definitions name list = first :: rest →
    ∀ owners, machine.SuperChain handle name list first.owner owners →
      owners <+: rest.map (·.owner) ∧ (first.owner :: owners).Sublist list ∧
        (first.owner :: owners).Nodup

/-- In sound machines, `super` walks the definitions of any name. -/
theorem Sound.walksDefinitions (sound : machine.Sound) (graded : machine.Graded)
    (lineage : machine.Lineage handle list) (name : Symbol) :
    machine.WalksDefinitions handle name list := by
  have ordered := machine.sublist_owners name list
  have keeps : machine.KeepsDefinitions machine handle name list := ⟨.refl, lineage, rfl⟩
  refine
    { ancestors := sound.listsAncestors graded lineage
      exact := fun _ => mem_definitions
      ordered
      once := ordered.nodup lineage.nodup
      found := ?_
      continues := fun _ _ _ defined _ _ _ keeps inBody => keeps.callSuper sound defined inBody
      chains := ?_ }
  · obtain ⟨next, found⟩ := sound.coherent.findMethod_eq lineage name
    refine ⟨next, found.trans (by rw [resolve_eq_head?]), fun first rest defined => ?_⟩
    exact (keeps.of_ok sound.coherent.hierarchical.wellFormed found).findsSupers sound
      (show _ = [] ++ first :: rest from defined)
  · intro first rest defined owners chain
    have isPrefix := chain.isPrefix sound (show _ = [] ++ first :: rest from defined)
    have within : (first.owner :: owners).Sublist list := by
      rw [defined, List.map_cons] at ordered
      exact (List.cons_prefix_cons.mpr ⟨rfl, isPrefix⟩).sublist.trans ordered
    exact ⟨isPrefix, within, within.nodup lineage.nodup⟩

/-- In every machine that a host reaches, `super` walks the remaining definitions: for any class and
name, the search for a method and then the searches behind the owner found last visit each ancestor
that defines the name once and in order, up to an undefined entry, and then report that there is
none. A chain of bodies that call `super` has one body for each ancestor at most, and ends. -/
theorem super_walks_definitions {config : Config} {hosts : Array HostMethod}
    (reached : Reached config hosts machine) (regular : HostsAreRegular hosts)
    {record : ClassRecord} (known : machine.class? handle = some record) (name : Symbol) :
    ∃ list, machine.WalksDefinitions handle name list := by
  have sound := reached.sound regular
  obtain ⟨list, lineage⟩ := sound.coherent.hierarchical.lineages handle record known
  exact ⟨list, sound.walksDefinitions (reached.graded regular) lineage name⟩

/-- The methods that initialize the class of classes are walked in a new machine. -/
theorem super_walks_definitions_new :
    ∃ record, (new {}).class? ((new {}).coreClass .classClass) = some record ∧
      ∃ list, (new {}).WalksDefinitions ((new {}).coreClass .classClass) .initMethod list := by
  obtain ⟨record, known⟩ := (sound_new {}).classClass
  have regular : HostsAreRegular #[] := fun _ isHost => absurd isHost (Array.not_mem_empty _)
  exact ⟨record, known, super_walks_definitions (.new : Reached {} #[] _) regular known _⟩

end Machine

end RiteVm
