import RiteVm.Proofs.Parameters.Keywords
import RiteVm.Proofs.Unwinding.Exits

/-!
Contract: code may put anything into the register of its keyword dictionary.

Owns:
- what the instructions about keywords do with a value that is no hash;
- that taking a keyword is the only one of them for which a hash is required, and exactly when an
  object of another kind is in the register.

Validation does not see what an instruction writes. So nothing is assumed about the value.
-/

namespace RiteVm

open RiteVm.Bytecode

/-- The frame on top has a value in the register of its keyword dictionary. -/
structure Machine.HasInDictionary (machine : Machine) (context : Context) (frame : Frame)
    (below : List Frame) (value : Value) : Prop where
  runs : machine.RunsOn context
  top : context.activations = frame :: below
  isSlot : ∃ register, frame.keywordRegister = some register ∧
    context.slot (frame.base + register) = value

/-- A value that is no hash: an immediate one, or an object of another kind. -/
inductive Heap.HoldsNoHash (heap : Heap) : Value → Prop where
  | immediate {value : Value} (isImmediate : ∀ handle, value ≠ .object handle) :
      HoldsNoHash heap value
  | object {handle : Handle} {object : Object} (found : heap.get? handle = some object)
      (isOther : object.hash? = none) : HoldsNoHash heap (.object handle)

section Instructions

variable {machine next : Machine} {context : Context} {frame : Frame} {below : List Frame}
  {value : Value} {handle : Handle} {object : Object} {name : Symbol}

namespace VM

theorem dictionary?_eq (has : machine.HasInDictionary context frame below value) :
    dictionary? frame.base machine = .ok (some value) := by
  obtain ⟨runs, top, register, isRegister, rfl⟩ := has
  exact dictionary?_of_runsOn runs top isRegister

theorem hash?_of_holdsNoHash (noHash : machine.heap.HoldsNoHash value) :
    Query.hash? value machine = .ok none := by
  cases noHash with
  | immediate isImmediate =>
      cases value with
      | object handle => exact absurd rfl (isImmediate handle)
      | _ => rfl
  | object found isOther => exact (Query.part?_of_found found _).trans (congrArg _ isOther)

/-- In a value that is no hash there is no keyword, and none is left. -/
theorem keywords_of_holdsNoHash (has : machine.HasInDictionary context frame below value)
    (noHash : machine.heap.HoldsNoHash value) (name : Symbol) :
    hasKeyword frame.base name machine = .ok false ∧
      checkKeywords frame.base machine = .ok () machine := by
  have read := hash?_of_holdsNoHash noHash
  have notFound : Query.hashGet? value (.symbol name) machine = .ok none := by
    rw [Query.hashGet?, Query.bind_of_ok (Query.digest_eq machine), Query.bind_of_ok read]
    rfl
  have noPairs : Query.hashPairs? value machine = .ok none := by
    rw [Query.hashPairs?, Query.bind_of_ok read]
    rfl
  constructor
  · rw [hasKeyword, Query.bind_of_ok (dictionary?_eq has)]
    dsimp only
    rw [Query.bind_of_ok notFound]
    rfl
  · rw [checkKeywords, bind_of_ok (liftM_of_ok (dictionary?_eq has))]
    dsimp only
    rw [bind_of_ok (liftM_of_ok noPairs)]
    rfl

/-- Taking a keyword out of an immediate value fails like a missing keyword. -/
theorem takeKeyword_of_immediate (has : machine.HasInDictionary context frame below value)
    (isImmediate : ∀ handle, value ≠ .object handle) (name : Symbol) :
    takeKeyword frame.base name machine =
      raise .argumentError s!"missing keyword: {machine.symbols.text name}" machine := by
  rw [takeKeyword, bind_of_ok (liftM_of_ok (Query.digest_eq machine)),
    bind_of_ok (liftM_of_ok (dictionary?_eq has))]
  cases value with
  | object handle => exact absurd rfl (isImmediate handle)
  | _ =>
      dsimp only
      rw [pure_bind]
      exact bind_of_ok (liftM_of_ok (Query.symbolText_eq name machine))

/-- Taking a keyword out of an object that is no hash is not provided for. -/
theorem takeKeyword_of_object (has : machine.HasInDictionary context frame below (.object handle))
    (found : machine.heap.get? handle = some object) (isOther : object.hash? = none)
    (name : Symbol) :
    takeKeyword frame.base name machine = .error (.breach (.expectedHash handle)) machine := by
  have fails : withHash handle (·.remove machine.digest (.symbol name)) machine =
      .error (.breach (.expectedHash handle)) machine := by
    rw [withHash, bind_of_ok (liftM_of_ok (Query.object_of_found found)), isOther]
    rfl
  rw [takeKeyword, bind_of_ok (liftM_of_ok (Query.digest_eq machine)),
    bind_of_ok (liftM_of_ok (dictionary?_eq has))]
  exact bind_of_error fails

/-- Taking a keyword out of a hash answers its value or raises. -/
theorem takeKeyword_of_hash {table : OrderedHash}
    (has : machine.HasInDictionary context frame below (.object handle))
    (found : machine.heap.get? handle = some object) (isHash : object.content = .hash table)
    (name : Symbol) :
    (∃ taken next, takeKeyword frame.base name machine = .ok taken next) ∨
      ∃ exception next, takeKeyword frame.base name machine = .error (.raised exception) next := by
  obtain ⟨between, takes, alters, -⟩ :=
    withHash_of_found found isHash (·.remove machine.digest (.symbol name))
  have isText := liftM_of_ok (Query.symbolText_eq name between)
  rw [takeKeyword, bind_of_ok (liftM_of_ok (Query.digest_eq machine)),
    bind_of_ok (liftM_of_ok (dictionary?_eq has))]
  dsimp only
  rw [bind_of_ok takes]
  cases (table.remove machine.digest (.symbol name)).2 with
  | some taken => exact .inl ⟨taken, between, rfl⟩
  | none =>
      obtain ⟨exception, next, raises, -⟩ := raise_of_runsOn (α := Value) (alters.runsOn has.runs)
        .argumentError s!"missing keyword: {between.symbols.text name}"
      exact .inr ⟨exception, next, (bind_of_ok isText).trans raises⟩

end VM

/-- Taking a keyword breaches what the machine relies on exactly if an object is in the register of
the dictionary that is no hash. Whatever else is there, a value is taken or an exception raised. -/
theorem takeKeyword_breaches_iff (has : machine.HasInDictionary context frame below value)
    (live : ∀ handle, value = .object handle → ∃ object, machine.heap.get? handle = some object)
    (name : Symbol) (cause : Breach) (next : Machine) :
    VM.takeKeyword frame.base name machine = .error (.breach cause) next ↔
      ∃ handle object, value = .object handle ∧ machine.heap.get? handle = some object ∧
        object.hash? = none ∧ cause = .expectedHash handle ∧ next = machine := by
  constructor
  · intro breaches
    by_cases isImmediate : ∀ handle, value ≠ .object handle
    · obtain ⟨exception, last, raises, -⟩ := VM.raise_of_runsOn (α := Value) has.runs
        .argumentError s!"missing keyword: {machine.symbols.text name}"
      rw [VM.takeKeyword_of_immediate has isImmediate, raises] at breaches
      cases breaches
    · obtain ⟨handle, isObject⟩ := not_forall.mp isImmediate
      obtain rfl := not_not.mp isObject
      obtain ⟨object, found⟩ := live handle rfl
      cases isHash : object.hash? with
      | none =>
          cases (VM.takeKeyword_of_object has found isHash name).symm.trans breaches
          exact ⟨handle, object, rfl, found, isHash, rfl, rfl⟩
      | some table =>
          have isContent : object.content = .hash table := by
            unfold Object.hash? at isHash
            split at isHash
            · next isTable => rw [isTable, Option.some.inj isHash]
            · cases isHash
          rcases VM.takeKeyword_of_hash has found isContent name with
            ⟨taken, last, takes⟩ | ⟨exception, last, raises⟩
          · cases takes.symm.trans breaches
          · cases raises.symm.trans breaches
  · rintro ⟨handle, object, rfl, found, isOther, rfl, rfl⟩
    exact VM.takeKeyword_of_object has found isOther name

end Instructions

/-- Code that declares a keyword, puts a string into the register of its dictionary, and takes the
keyword. -/
def overwritingUnit : CodeUnit :=
  { localCount := 2, registerCount := 4
    code := #[Opcode.enter.toByte, 0, 0, 4, Opcode.string.toByte, 1, 0, Opcode.keyArg.toByte, 2, 0,
      Opcode.stop.toByte]
    handlers := [], pool := #[.string #[]], symbols := #[some #[107]], children := [] }

/-- Whether an action ended because a hash was expected. -/
def expectsHash {α : Type} : EStateM.Result Failure Machine α → Bool
  | .error (.breach (.expectedHash _)) _ => true
  | _ => false

/-- Validation accepts the code, and running it breaches what the machine relies on. -/
theorem validated_code_may_breach : overwritingUnit.validate = .ok () ∧
    ∃ handle next, (Engine.ofHosts #[] 4).loop 0 (.ofProgram {} overwritingUnit #[.nil] 0) =
      .error (.breach (.expectedHash handle)) next := by
  refine ⟨by cbv, ?_⟩
  have ends : expectsHash ((Engine.ofHosts #[] 4).loop 0
      (.ofProgram {} overwritingUnit #[.nil] 0)) = true := by decide +kernel
  unfold expectsHash at ends
  split at ends
  · next handle next breaches => exact ⟨handle, next, breaches⟩
  · cases ends

end RiteVm
