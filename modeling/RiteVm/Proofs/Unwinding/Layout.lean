import RiteVm.Bytecode.CodeUnit

/-!
Contract: the code of ensure clauses, and where protected regions and clauses stand.

Owns:
- the clause at an address, from the instruction that loads what is pending to the one
  that resumes it, with straight code between them, and that it is found exactly if it stands there;
- the regions around an address, the innermost first, and the search for a handler, which finds the
  innermost region of a kind;
- the conditions on a catch table under which an exit meets each clause once;
- the regions around the end of a clause.

Does not own: what running a clause does.
-/

namespace RiteVm.Bytecode

/-- The first instruction from an address on that resumes what is pending, with no
instruction before it that loads it. The first argument bounds the instructions read. -/
def closing? (code : Bytes) : Nat → Nat → Option Instruction
  | 0, _ => none
  | fuel + 1, address =>
    match instructionAt? code address with
    | none => none
    | some instruction =>
      if instruction.op = .resumePending then some instruction
      else if instruction.op = .loadPending then none
      else closing? code fuel instruction.next

/-- A clause that loads what is pending into a register and ends by resuming it. -/
structure Clause where
  register : Nat
  /-- the address behind the instruction that loads -/
  body : Nat
  /-- the address of the instruction that resumes -/
  closing : Nat
  /-- the address behind the clause -/
  finish : Nat
deriving DecidableEq, Repr

/-- The instructions between the first and the last one of a clause do nothing, or clear
another register. -/
def Clause.IsQuiet (clause : Clause) (code : Bytes) : Prop :=
  ∀ address < clause.closing, clause.body ≤ address →
    ∀ instruction ∈ instructionAt? code address,
      instruction.op = .nop ∨
        (instruction.op = .loadNil ∧ instruction.operands.a ≠ clause.register)

instance (clause : Clause) (code : Bytes) : Decidable (clause.IsQuiet code) :=
  inferInstanceAs (Decidable (∀ address < clause.closing, clause.body ≤ address →
    ∀ instruction ∈ instructionAt? code address, instruction.op = .nop ∨
      (instruction.op = .loadNil ∧ instruction.operands.a ≠ clause.register)))

/-- The clause that starts at an address. -/
def CodeUnit.clause? (unit : CodeUnit) (start : Nat) : Option Clause :=
  match instructionAt? unit.code start with
  | none => none
  | some opening =>
    match closing? unit.code unit.code.size opening.next with
    | none => none
    | some closing =>
      if opening.op = .loadPending ∧ closing.operands.a = opening.operands.a then
        some
          { register := opening.operands.a, body := opening.next
            closing := closing.address, finish := closing.next }
      else none

/-- Instructions that follow each other, none of which loads or resumes what is pending. -/
inductive StraightLine (code : Bytes) : Nat → Nat → Prop where
  | done (address : Nat) : StraightLine code address address
  | next {address last : Nat} {instruction : Instruction} :
      instructionAt? code address = some instruction →
      instruction.op ≠ .loadPending → instruction.op ≠ .resumePending →
      StraightLine code instruction.next last → StraightLine code address last

/-- What stands in the code of a clause. -/
structure CodeUnit.HasClause (unit : CodeUnit) (start : Nat) (clause : Clause) : Prop where
  opening : ∃ instruction, instructionAt? unit.code start = some instruction ∧
    instruction.op = .loadPending ∧ instruction.operands.a = clause.register ∧
    instruction.next = clause.body
  straight : StraightLine unit.code clause.body clause.closing
  ending : ∃ instruction, instructionAt? unit.code clause.closing = some instruction ∧
    instruction.op = .resumePending ∧ instruction.operands.a = clause.register ∧
    instruction.next = clause.finish

theorem instructionAt?_lt_next {code : Bytes} {address : Nat} {instruction : Instruction}
    (decoded : instructionAt? code address = some instruction) : address < instruction.next := by
  have bounds := instructionAt?_next decoded
  have positive := Opcode.width_pos instruction.op
  omega

theorem StraightLine.le {code : Bytes} {first last : Nat}
    (straight : StraightLine code first last) : first ≤ last := by
  induction straight with
  | done => omega
  | next decoded _ _ _ inductionHypothesis =>
      have := instructionAt?_lt_next decoded
      omega

/-- The search for the end of a clause succeeds exactly behind straight code. -/
theorem closing?_eq_some_iff {code : Bytes} {fuel address : Nat} {closing : Instruction}
    (enough : code.size < fuel + address) :
    closing? code fuel address = some closing ↔
      StraightLine code address closing.address ∧
        instructionAt? code closing.address = some closing ∧ closing.op = .resumePending := by
  induction fuel generalizing address with
  | zero =>
      -- no instruction stands at or behind the address
      refine ⟨nofun, ?_⟩
      rintro ⟨straight, decoded, -⟩
      have inside := (instructionAt?_next decoded).1
      have := straight.le
      omega
  | succ fuel inductionHypothesis =>
      rw [closing?]
      cases decoded : instructionAt? code address with
      | none =>
          refine ⟨nofun, ?_⟩
          rintro ⟨straight, atEnd, -⟩
          cases straight with
          | done => simp [decoded] at atEnd
          | next first => simp [decoded] at first
      | some instruction =>
          have own := (instructionAt?_next decoded).2.1
          dsimp only
          by_cases resumes : instruction.op = .resumePending
          · rw [if_pos resumes]
            constructor
            · intro same
              obtain rfl := Option.some.inj same
              rw [own]
              exact ⟨.done address, decoded, resumes⟩
            · rintro ⟨straight, atEnd, -⟩
              cases straight with
              | done => exact decoded.symm.trans atEnd
              | next first _ notResumes _ =>
                  obtain rfl := Option.some.inj (decoded.symm.trans first)
                  exact absurd resumes notResumes
          · rw [if_neg resumes]
            by_cases loads : instruction.op = .loadPending
            · rw [if_pos loads]
              refine ⟨nofun, ?_⟩
              rintro ⟨straight, atEnd, isEnd⟩
              cases straight with
              | done =>
                  obtain rfl := Option.some.inj (decoded.symm.trans atEnd)
                  exact absurd isEnd resumes
              | next first notLoads _ _ =>
                  obtain rfl := Option.some.inj (decoded.symm.trans first)
                  exact absurd loads notLoads
            · have beyond := instructionAt?_lt_next decoded
              rw [if_neg loads, inductionHypothesis (by omega)]
              constructor
              · rintro ⟨straight, atEnd, isEnd⟩
                exact ⟨.next decoded loads resumes straight, atEnd, isEnd⟩
              · rintro ⟨straight, atEnd, isEnd⟩
                cases straight with
                | done =>
                    obtain rfl := Option.some.inj (decoded.symm.trans atEnd)
                    exact absurd isEnd resumes
                | next first _ _ rest =>
                    obtain rfl := Option.some.inj (decoded.symm.trans first)
                    exact ⟨rest, atEnd, isEnd⟩

/-- The clause of an address is found exactly if it stands there. -/
theorem CodeUnit.clause?_eq_some_iff {unit : CodeUnit} {start : Nat} {clause : Clause} :
    unit.clause? start = some clause ↔ unit.HasClause start clause := by
  constructor
  · intro found
    rw [clause?] at found
    split at found
    · exact nomatch found
    · rename_i opening decoded
      split at found
      · exact nomatch found
      · rename_i closing located
        obtain ⟨⟨loads, sameRegister⟩, isClause⟩ := Option.ite_none_right_eq_some.mp found
        obtain rfl := Option.some.inj isClause
        have beyond := instructionAt?_lt_next decoded
        obtain ⟨straight, atEnd, resumes⟩ :=
          (closing?_eq_some_iff (by omega)).mp located
        exact ⟨⟨opening, decoded, loads, rfl, rfl⟩, straight,
          ⟨closing, atEnd, resumes, sameRegister, rfl⟩⟩
  · rintro ⟨⟨opening, decoded, loads, isRegister, isBody⟩, straight,
      ⟨closing, atEnd, resumes, sameRegister, isFinish⟩⟩
    have own := (instructionAt?_next atEnd).2.1
    have beyond := instructionAt?_lt_next decoded
    have located : closing? unit.code unit.code.size opening.next = some closing := by
      rw [closing?_eq_some_iff (by omega), own, isBody]
      exact ⟨straight, atEnd, resumes⟩
    simp only [clause?, decoded, located]
    rw [if_pos ⟨loads, sameRegister.trans isRegister.symm⟩, isRegister, isBody, own, isFinish]

theorem CodeUnit.HasClause.lt_finish {unit : CodeUnit} {start : Nat} {clause : Clause}
    (hasClause : unit.HasClause start clause) :
    start < clause.body ∧ clause.body ≤ clause.closing ∧ clause.closing < clause.finish := by
  obtain ⟨⟨opening, decoded, -, -, isBody⟩, straight, ⟨closing, atEnd, -, -, isFinish⟩⟩ :=
    hasClause
  have := instructionAt?_lt_next decoded
  have := instructionAt?_lt_next atEnd
  have := straight.le
  omega

end RiteVm.Bytecode

namespace RiteVm.Bytecode

namespace CatchHandler

/-- Whether a handler runs for every exit from its region. -/
def isEnsure (handler : CatchHandler) : Bool := handler.kind == .ensure

/-- Whether an address lies in the region. -/
def spans (handler : CatchHandler) (address : Nat) : Bool :=
  handler.first.toNat ≤ address && address < handler.last.toNat

/-- Whether the region contains that of another handler. -/
def Encloses (outer inner : CatchHandler) : Prop :=
  outer.first.toNat ≤ inner.first.toNat ∧ inner.last.toNat ≤ outer.last.toNat

/-- Whether two regions have no address in common. -/
def Apart (left right : CatchHandler) : Prop :=
  left.last.toNat ≤ right.first.toNat ∨ right.last.toNat ≤ left.first.toNat

instance (outer inner : CatchHandler) : Decidable (outer.Encloses inner) :=
  inferInstanceAs (Decidable (_ ∧ _))

instance (left right : CatchHandler) : Decidable (left.Apart right) :=
  inferInstanceAs (Decidable (_ ∨ _))

theorem covers_iff {handler : CatchHandler} {pc : Nat} :
    handler.covers pc = true ↔ handler.first.toNat < pc ∧ pc ≤ handler.last.toNat := by
  simp [covers]

theorem spans_iff {handler : CatchHandler} {address : Nat} :
    handler.spans address = true ↔
      handler.first.toNat ≤ address ∧ address < handler.last.toNat := by
  simp [spans]

theorem Encloses.covers {outer inner : CatchHandler} {pc : Nat} (encloses : outer.Encloses inner)
    (covers : inner.covers pc = true) : outer.covers pc = true := by
  rw [covers_iff] at covers ⊢
  have := encloses.1
  have := encloses.2
  omega

theorem Encloses.spans {outer inner : CatchHandler} {address : Nat}
    (encloses : outer.Encloses inner) (spans : inner.spans address = true) :
    outer.spans address = true := by
  rw [spans_iff] at spans ⊢
  have := encloses.1
  have := encloses.2
  omega

/-- No address lies in two regions that are apart. -/
theorem Apart.not_covers {left right : CatchHandler} {pc : Nat} (apart : left.Apart right)
    (coversLeft : left.covers pc = true) : right.covers pc = false := by
  rw [Bool.eq_false_iff, Ne, covers_iff]
  rw [covers_iff] at coversLeft
  rcases apart with behind | before <;> omega

end CatchHandler

namespace CodeUnit

variable {unit : CodeUnit} {handler : CatchHandler} {pc : Nat}

/-- The address behind the clause of a handler. -/
def clauseEnd (unit : CodeUnit) (handler : CatchHandler) : Nat :=
  ((unit.clause? handler.target.toNat).map (·.finish)).getD 0

/-- The handlers whose regions lie around the instruction before an address, the
innermost first. -/
def regionsAround (unit : CodeUnit) (pc : Nat) : List CatchHandler :=
  (unit.handlers.filter (·.covers pc)).reverse

/-- The handlers of the ensure clauses around an address, the innermost first. -/
def ensuresAround (unit : CodeUnit) (pc : Nat) : List CatchHandler :=
  (unit.regionsAround pc).filter (·.isEnsure)

/-- Those that a jump to another address leaves. -/
def jumpedOut (unit : CodeUnit) (pc target : Nat) : List CatchHandler :=
  (unit.ensuresAround pc).filter fun handler => !handler.spans target

/-- Those inside the innermost region with a rescue clause. -/
def raisedThrough (unit : CodeUnit) (pc : Nat) : List CatchHandler :=
  (unit.regionsAround pc).takeWhile (·.isEnsure)

/-- Of the handlers around an address, those whose regions control leaves by reaching
their ends one after the other, each behind the clause of the one before. -/
def fallenOut (unit : CodeUnit) : List CatchHandler → Nat → List CatchHandler
  | [], _ => []
  | handler :: outer, pc =>
    if handler.last.toNat = pc then handler :: unit.fallenOut outer (unit.clauseEnd handler)
    else []

/-- A catch table whose regions are nested, with each ensure clause behind its region. -/
structure EnsuresNested (unit : CodeUnit) : Prop where
  /-- an enclosing region is registered before the regions inside it -/
  nested : unit.handlers.Pairwise fun outer inner => outer.Encloses inner ∨ outer.Apart inner
  /-- every handler loads what is pending -/
  entered : ∀ handler ∈ unit.handlers, ∃ instruction,
    instructionAt? unit.code handler.target.toNat = some instruction ∧
      instruction.op = .loadPending
  /-- an ensure clause starts at the end of its region -/
  behind : ∀ handler ∈ unit.handlers, handler.isEnsure = true → handler.target = handler.last
  /-- it is straight code that ends by resuming what it has loaded into a register -/
  clause : ∀ handler ∈ unit.handlers, handler.isEnsure = true →
    ∃ clause, unit.clause? handler.target.toNat = some clause
  /-- it lies inside all regions around its own one -/
  inside : unit.handlers.Pairwise fun outer inner =>
    outer.Encloses inner → inner.isEnsure = true → unit.clauseEnd inner ≤ outer.last.toNat
  /-- no jump that leaves regions goes to the start of a clause -/
  jumps : ∀ address instruction, instructionAt? unit.code address = some instruction →
    instruction.op = .jumpUnwinding → ∀ handler ∈ unit.handlers, handler.isEnsure = true →
    ((instruction.jumpTarget?).getD instruction.next).toNat ≠ handler.target.toNat

/-- A catch table in which no clause ends inside a region that does not lie around its own
one. -/
structure EnsuresContained (unit : CodeUnit) : Prop extends EnsuresNested unit where
  closed : ∀ handler ∈ unit.handlers, handler.isEnsure = true → ∀ other ∈ unit.handlers,
    other.covers (unit.clauseEnd handler) = true → other.Encloses handler

/-- The instructions between the first and the last one of each ensure clause do nothing, or
clear another register than that of the clause. -/
def QuietBodies (unit : CodeUnit) : Prop :=
  ∀ handler ∈ unit.handlers, handler.isEnsure = true →
    ∀ clause ∈ unit.clause? handler.target.toNat, clause.IsQuiet unit.code

instance (unit : CodeUnit) : Decidable unit.QuietBodies :=
  inferInstanceAs (Decidable (∀ handler ∈ unit.handlers, _))

/-- Whether an instruction of one kind starts at an address. -/
def hasOpAt (unit : CodeUnit) (op : Opcode) (address : Nat) : Bool :=
  (instructionAt? unit.code address).any (·.op == op)

theorem hasOpAt_iff {op : Opcode} {address : Nat} :
    unit.hasOpAt op address = true ↔
      ∃ instruction, instructionAt? unit.code address = some instruction ∧
        instruction.op = op := by
  rw [hasOpAt, Option.any_eq_true]
  simp only [beq_iff_eq]

instance (unit : CodeUnit) : Decidable unit.EnsuresNested :=
  decidable_of_iff
    (unit.handlers.Pairwise (fun outer inner => outer.Encloses inner ∨ outer.Apart inner) ∧
      (∀ handler ∈ unit.handlers, unit.hasOpAt .loadPending handler.target.toNat = true) ∧
      (∀ handler ∈ unit.handlers, handler.isEnsure = true →
        handler.target = handler.last ∧ (unit.clause? handler.target.toNat).isSome) ∧
      unit.handlers.Pairwise (fun outer inner => outer.Encloses inner →
        inner.isEnsure = true → unit.clauseEnd inner ≤ outer.last.toNat) ∧
      ∀ address < unit.code.size, ∀ instruction ∈ instructionAt? unit.code address,
        instruction.op = .jumpUnwinding → ∀ handler ∈ unit.handlers, handler.isEnsure = true →
        ((instruction.jumpTarget?).getD instruction.next).toNat ≠ handler.target.toNat)
    ⟨fun ⟨nested, entered, clause, inside, jumps⟩ =>
      { nested, inside
        entered := fun handler member => hasOpAt_iff.mp (entered handler member)
        behind := fun handler member isEnsure => (clause handler member isEnsure).1
        clause := fun handler member isEnsure =>
          Option.isSome_iff_exists.mp (clause handler member isEnsure).2
        jumps := fun address instruction decoded =>
          jumps address (instructionAt?_next decoded).1 instruction decoded },
    fun layout =>
      ⟨layout.nested, fun handler member => hasOpAt_iff.mpr (layout.entered handler member),
        fun handler member isEnsure => ⟨layout.behind handler member isEnsure,
          Option.isSome_iff_exists.mpr (layout.clause handler member isEnsure)⟩,
        layout.inside, fun address _ instruction decoded =>
          layout.jumps address instruction decoded⟩⟩

instance (unit : CodeUnit) : Decidable unit.EnsuresContained :=
  decidable_of_iff
    (unit.EnsuresNested ∧ ∀ handler ∈ unit.handlers, handler.isEnsure = true →
      ∀ other ∈ unit.handlers, other.covers (unit.clauseEnd handler) = true →
        other.Encloses handler)
    ⟨fun ⟨nested, closed⟩ => { nested with closed }, fun layout => ⟨layout.1, layout.2⟩⟩

theorem mem_of_mem_regionsAround (member : handler ∈ unit.regionsAround pc) :
    handler ∈ unit.handlers ∧ handler.covers pc = true := by
  rw [regionsAround, List.mem_reverse, List.mem_filter] at member
  exact member

theorem handlerFor?_none : unit.handlerFor? pc none = (unit.regionsAround pc).head? := by
  rw [handlerFor?, regionsAround, ← List.filter_reverse, List.head?_filter]
  rfl

theorem handlerFor?_ensure :
    unit.handlerFor? pc (some .ensure) = (unit.regionsAround pc).find? (·.isEnsure) := by
  rw [handlerFor?, regionsAround, ← List.filter_reverse, List.find?_filter]
  congr 1
  funext handler
  rw [Option.all_some, CatchHandler.isEnsure, Bool.beq_comm, Bool.and_comm, Bool.decide_and,
    Bool.decide_eq_true, Bool.decide_eq_true]

theorem handlerFor?_of_ensuresAround_eq_nil (around : unit.ensuresAround pc = []) :
    unit.handlerFor? pc (some .ensure) = none := by
  rw [handlerFor?_ensure, ← List.head?_filter]
  exact congrArg List.head? around

namespace EnsuresContained

variable (layout : unit.EnsuresContained)

include layout

/-- The clause of a handler starts at the end of its region and ends behind it. -/
theorem hasClause (member : handler ∈ unit.handlers) (isEnsure : handler.isEnsure = true) :
    ∃ clause, unit.HasClause handler.last.toNat clause ∧
      unit.clause? handler.target.toNat = some clause ∧
      unit.clauseEnd handler = clause.finish ∧ handler.last.toNat < clause.finish := by
  obtain ⟨clause, found⟩ := layout.clause handler member isEnsure
  have stands := clause?_eq_some_iff.mp found
  rw [layout.behind handler member isEnsure] at stands
  have bounds := stands.lt_finish
  refine ⟨clause, stands, found, ?_, by omega⟩
  rw [clauseEnd, found]
  rfl

/-- Around the end of a clause lie exactly the regions outside that of its handler. -/
theorem regionsAround_clauseEnd {inner outer : List CatchHandler}
    (around : unit.regionsAround pc = inner ++ handler :: outer)
    (isEnsure : handler.isEnsure = true) :
    unit.regionsAround (unit.clauseEnd handler) = outer := by
  have isAround : handler ∈ unit.regionsAround pc := by simp [around]
  obtain ⟨member, coversHandler⟩ := mem_of_mem_regionsAround isAround
  obtain ⟨clause, -, -, isEnd, beyond⟩ := layout.hasClause member isEnsure
  rw [← isEnd] at beyond
  rw [CatchHandler.covers_iff] at coversHandler
  -- the handlers registered before and behind this one
  have filtered : unit.handlers.filter (·.covers pc) =
      outer.reverse ++ handler :: inner.reverse := by
    have reversed := congrArg List.reverse around
    rw [regionsAround, List.reverse_reverse] at reversed
    simpa using reversed
  obtain ⟨earlier, rest, table, isOuter, isRest⟩ := List.filter_eq_append_iff.mp filtered
  obtain ⟨skipped, later, split, noneSkipped, -, isInner⟩ := List.filter_eq_cons_iff.mp isRest
  have nested := layout.nested
  have inside := layout.inside
  rw [table, split] at nested inside
  have before {other : CatchHandler} (isEarlier : other ∈ earlier ++ skipped) :
      (other.Encloses handler ∨ other.Apart handler) ∧
        (other.Encloses handler → unit.clauseEnd handler ≤ other.last.toNat) := by
    rw [← List.append_assoc, List.pairwise_append] at nested inside
    exact ⟨nested.2.2 other isEarlier handler (by simp),
      fun encloses => inside.2.2 other isEarlier handler (by simp) encloses isEnsure⟩
  have behind {other : CatchHandler} (isLater : other ∈ later) :
      handler.Encloses other ∨ handler.Apart other := by
    rw [← List.append_assoc, List.pairwise_append] at nested
    exact (List.pairwise_cons.mp nested.2.1).1 other isLater
  have sameBefore {other : CatchHandler} (isEarlier : other ∈ earlier ++ skipped) :
      other.covers (unit.clauseEnd handler) = other.covers pc := by
    have listed : other ∈ unit.handlers := by
      rw [table, split]
      rcases List.mem_append.mp isEarlier with inEarlier | inSkipped
      · simp [inEarlier]
      · simp [inSkipped]
    rw [Bool.eq_iff_iff]
    constructor
    · intro covers
      have encloses := layout.closed handler member isEnsure other listed covers
      exact encloses.covers (CatchHandler.covers_iff.mpr coversHandler)
    · intro covers
      rcases (before isEarlier).1 with encloses | apart
      · have := (before isEarlier).2 encloses
        have := encloses.1
        rw [CatchHandler.covers_iff]
        omega
      · have := apart.not_covers covers
        simp [CatchHandler.covers_iff.mpr coversHandler] at this
  have noneBehind {other : CatchHandler} (isLater : other ∈ handler :: later) :
      other.covers (unit.clauseEnd handler) = false := by
    rw [Bool.eq_false_iff]
    intro covers
    have listed : other ∈ unit.handlers := by
      rw [table, split]
      simp [isLater]
    have encloses := layout.closed handler member isEnsure other listed covers
    rw [CatchHandler.covers_iff] at covers
    rcases List.mem_cons.mp isLater with rfl | isLater
    · omega
    · rcases behind isLater with encloses' | apart
      · have := encloses'.2
        omega
      · have := apart.not_covers (CatchHandler.covers_iff.mpr coversHandler)
        rw [encloses.covers (CatchHandler.covers_iff.mpr coversHandler)] at this
        exact nomatch this
  have keptBefore : (earlier ++ skipped).filter (·.covers (unit.clauseEnd handler)) =
      outer.reverse := by
    rw [List.filter_congr fun other isEarlier => sameBefore isEarlier, List.filter_append,
      isOuter, List.filter_eq_nil_iff.mpr noneSkipped, List.append_nil]
  have keptBehind : (handler :: later).filter (·.covers (unit.clauseEnd handler)) = [] := by
    rw [List.filter_eq_nil_iff]
    intro other isLater
    simp [noneBehind isLater]
  rw [regionsAround, table, split, ← List.append_assoc, List.filter_append, keptBefore,
    keptBehind, List.append_nil, List.reverse_reverse]

/-- The innermost ensure clause around an address, and what lies around its end. -/
theorem ensuresAround_eq_cons {outer : List CatchHandler}
    (around : unit.ensuresAround pc = handler :: outer) :
    handler ∈ unit.handlers ∧ handler.isEnsure = true ∧
      unit.handlerFor? pc (some .ensure) = some handler ∧
      unit.ensuresAround (unit.clauseEnd handler) = outer := by
  obtain ⟨inner, rest, split, noneEnsures, isEnsure, isOuter⟩ :=
    List.filter_eq_cons_iff.mp around
  have member : handler ∈ unit.regionsAround pc := by simp [split]
  refine ⟨(mem_of_mem_regionsAround member).1, isEnsure, ?_, ?_⟩
  · rw [handlerFor?_ensure, ← List.head?_filter]
    exact congrArg List.head? around
  · rw [ensuresAround, layout.regionsAround_clauseEnd split isEnsure, isOuter]

/-- The innermost region around an address, if it has an ensure clause, and what lies
around the end of this clause. -/
theorem raisedThrough_eq_cons {outer : List CatchHandler}
    (around : unit.raisedThrough pc = handler :: outer) :
    handler ∈ unit.handlers ∧ handler.isEnsure = true ∧
      unit.handlerFor? pc none = some handler ∧
      unit.raisedThrough (unit.clauseEnd handler) = outer ∧
      unit.regionsAround pc = handler :: unit.regionsAround (unit.clauseEnd handler) := by
  rw [raisedThrough] at around
  cases regions : unit.regionsAround pc with
  | nil => simp [regions] at around
  | cons first rest =>
      rw [regions, List.takeWhile_cons] at around
      split at around
      · rename_i isEnsure
        obtain ⟨rfl, isOuter⟩ := List.cons.inj around
        have member : first ∈ unit.regionsAround pc := by simp [regions]
        have split : unit.regionsAround pc = [] ++ first :: rest := regions
        have isEnd := layout.regionsAround_clauseEnd split isEnsure
        refine ⟨(mem_of_mem_regionsAround member).1, isEnsure, ?_, ?_, ?_⟩
        · rw [handlerFor?_none, regions, List.head?_cons]
        · rw [raisedThrough, isEnd, isOuter]
        · rw [isEnd]
      · exact nomatch around

/-- A jump that stays in the innermost region with an ensure clause leaves none. -/
theorem jumpedOut_eq_nil_of_spans {outer : List CatchHandler} {target : Nat}
    (around : unit.ensuresAround pc = handler :: outer) (stays : handler.spans target = true) :
    unit.jumpedOut pc target = [] := by
  obtain ⟨inner, rest, split, -, isEnsure, isOuter⟩ := List.filter_eq_cons_iff.mp around
  have isEnd := layout.regionsAround_clauseEnd split isEnsure
  rw [jumpedOut, around, List.filter_eq_nil_iff]
  intro other member
  rcases List.mem_cons.mp member with rfl | member
  · simp [stays]
  · have coversEnd : other ∈ unit.regionsAround (unit.clauseEnd handler) := by
      rw [isEnd]
      exact (List.mem_filter.mp (isOuter ▸ member)).1
    obtain ⟨listed, covers⟩ := mem_of_mem_regionsAround coversEnd
    have isAround : handler ∈ unit.regionsAround pc := by simp [split]
    have encloses := layout.closed handler (mem_of_mem_regionsAround isAround).1 isEnsure other
      listed covers
    simp [encloses.spans stays]

/-- The clauses around an address start behind each other. -/
theorem ensuresAround_targets (pc : Nat) :
    (unit.ensuresAround pc).Pairwise fun inner outer =>
      inner.target.toNat < outer.target.toNat := by
  generalize around : unit.ensuresAround pc = handlers
  induction handlers generalizing pc with
  | nil => exact .nil
  | cons handler outer inductionHypothesis =>
      obtain ⟨member, isEnsure, -, atEnd⟩ := layout.ensuresAround_eq_cons around
      obtain ⟨clause, -, -, isEnd, beyond⟩ := layout.hasClause member isEnsure
      refine .cons ?_ (inductionHypothesis _ atEnd)
      intro other isOuter
      rw [← atEnd, ensuresAround, List.mem_filter] at isOuter
      obtain ⟨listed, covers⟩ := mem_of_mem_regionsAround isOuter.1
      rw [CatchHandler.covers_iff, isEnd] at covers
      rw [layout.behind handler member isEnsure, layout.behind other listed isOuter.2]
      omega

end EnsuresContained

end CodeUnit

/-! ### The innermost region -/

/-- Whether a handler is of the wanted kind, if one is wanted, and its region lies around the
instruction before an address. -/
structure CatchHandler.Serves (handler : CatchHandler) (kind? : Option CatchKind) (pc : Nat) :
    Prop where
  kind : ∀ kind ∈ kind?, handler.kind = kind
  behindFirst : handler.first.toNat < pc
  upToLast : pc ≤ handler.last.toNat

theorem CatchHandler.serves_iff {handler : CatchHandler} {kind? : Option CatchKind} {pc : Nat} :
    handler.Serves kind? pc ↔
      (kind?.all (· == handler.kind) && handler.covers pc) = true := by
  rw [Bool.and_eq_true, CatchHandler.covers_iff, Option.all_eq_true]
  constructor
  · rintro ⟨kind, behindFirst, upToLast⟩
    exact ⟨fun wanted isWanted => by simp [kind wanted isWanted], behindFirst, upToLast⟩
  · rintro ⟨kind, behindFirst, upToLast⟩
    exact ⟨fun wanted isWanted => (eq_of_beq (kind wanted isWanted)).symm, behindFirst, upToLast⟩

/-- A region with an instruction in it that another region contains lies between its ends. -/
theorem CatchHandler.Serves.encloses {outer inner : CatchHandler} {kind? : Option CatchKind}
    {pc : Nat} (serves : inner.Serves kind? pc)
    (contains : ∀ address, inner.covers address = true → outer.covers address = true) :
    outer.Encloses inner := by
  have behindFirst := serves.behindFirst
  have upToLast := serves.upToLast
  have atFirst := contains (inner.first.toNat + 1) (CatchHandler.covers_iff.mpr (by omega))
  have atLast := contains inner.last.toNat (CatchHandler.covers_iff.mpr (by omega))
  rw [CatchHandler.covers_iff] at atFirst atLast
  exact ⟨by omega, atLast.2⟩

namespace CodeUnit

variable {unit : CodeUnit} {handler : CatchHandler} {pc : Nat} {kind? : Option CatchKind}

/-- Each region lies inside every region that was registered before it, or has no instruction in
common with it. -/
def RegionsNested (unit : CodeUnit) : Prop :=
  unit.handlers.Pairwise fun earlier later =>
    (∀ pc, later.covers pc = true → earlier.covers pc = true) ∨
      ∀ pc, ¬ (earlier.covers pc = true ∧ later.covers pc = true)

theorem RegionsNested.of_bounds
    (nested : unit.handlers.Pairwise fun outer inner => outer.Encloses inner ∨ outer.Apart inner) :
    unit.RegionsNested := by
  refine nested.imp ?_
  rintro earlier later (encloses | apart)
  · exact .inl fun _ covers => encloses.covers covers
  · refine .inr fun _ both => ?_
    have outside := apart.not_covers both.1
    rw [both.2] at outside
    cases outside

/-- A handler at its index in the table lies inside all others that serve at an address, and is the
last one registered for its region. -/
structure IsInnermost (unit : CodeUnit) (pc : Nat) (kind? : Option CatchKind) (index : Nat)
    (handler : CatchHandler) : Prop where
  registered : unit.handlers[index]? = some handler
  serves : handler.Serves kind? pc
  inside : ∀ other ∈ unit.handlers, other.Serves kind? pc → other.Encloses handler
  last : ∀ position other, unit.handlers[position]? = some other → other.Serves kind? pc →
    other.first = handler.first → other.last = handler.last → position ≤ index

theorem IsInnermost.unique {index index' : Nat} {handler' : CatchHandler}
    (innermost : unit.IsInnermost pc kind? index handler)
    (innermost' : unit.IsInnermost pc kind? index' handler') : handler = handler' := by
  have within := innermost.inside _ (List.mem_of_getElem? innermost'.registered) innermost'.serves
  have within' := innermost'.inside _ (List.mem_of_getElem? innermost.registered) innermost.serves
  have sameFirst : handler.first = handler'.first :=
    UInt32.toNat_inj.mp (Nat.le_antisymm within'.1 within.1)
  have sameLast : handler.last = handler'.last :=
    UInt32.toNat_inj.mp (Nat.le_antisymm within.2 within'.2)
  have notBehind := innermost.last _ _ innermost'.registered innermost'.serves sameFirst.symm
    sameLast.symm
  have notBefore := innermost'.last _ _ innermost.registered innermost.serves sameFirst sameLast
  obtain rfl : index = index' := by omega
  exact Option.some.inj (innermost.registered.symm.trans innermost'.registered)

/-- The search goes through the table from its end. -/
theorem handlerFor?_eq_some_iff : unit.handlerFor? pc kind? = some handler ↔
    handler.Serves kind? pc ∧ ∃ earlier later, unit.handlers = earlier ++ handler :: later ∧
      ∀ other ∈ later, ¬ other.Serves kind? pc := by
  rw [handlerFor?, List.find?_eq_some_iff_append, ← CatchHandler.serves_iff]
  refine and_congr_right fun _ => ?_
  constructor
  · rintro ⟨later, earlier, reversed, noneServes⟩
    refine ⟨earlier.reverse, later.reverse, ?_, fun other isLater serves => ?_⟩
    · rw [← List.reverse_reverse unit.handlers, reversed]
      simp
    · have notFound := noneServes other (List.mem_reverse.mp isLater)
      rw [CatchHandler.serves_iff.mp serves] at notFound
      cases notFound
  · rintro ⟨earlier, later, table, noneServes⟩
    refine ⟨later.reverse, earlier.reverse, by simp [table], fun other isLater => ?_⟩
    have notServes := noneServes other (List.mem_reverse.mp isLater)
    rwa [CatchHandler.serves_iff, Bool.not_eq_true, ← Bool.not_eq_true'] at notServes

theorem handlerFor?_eq_none_iff : unit.handlerFor? pc kind? = none ↔
    ∀ handler ∈ unit.handlers, ¬ handler.Serves kind? pc := by
  rw [handlerFor?, List.find?_eq_none]
  simp only [List.mem_reverse, CatchHandler.serves_iff]

/-- In a nested table, the last handler that serves at an address is that of the innermost
region. -/
theorem RegionsNested.isInnermost (nested : unit.RegionsNested)
    (found : unit.handlerFor? pc kind? = some handler) :
    ∃ index, unit.IsInnermost pc kind? index handler := by
  obtain ⟨serves, earlier, later, table, noneServes⟩ := handlerFor?_eq_some_iff.mp found
  have around : ∀ other ∈ earlier, other.Serves kind? pc → other.Encloses handler := by
    intro other isEarlier otherServes
    rw [RegionsNested, table, List.pairwise_append] at nested
    rcases nested.2.2 other isEarlier handler List.mem_cons_self with contains | disjoint
    · exact serves.encloses contains
    · exact absurd ⟨CatchHandler.covers_iff.mpr ⟨otherServes.behindFirst, otherServes.upToLast⟩,
        CatchHandler.covers_iff.mpr ⟨serves.behindFirst, serves.upToLast⟩⟩ (disjoint pc)
  refine ⟨earlier.length, by simp [table], serves, ?_, ?_⟩
  · intro other member otherServes
    rw [table] at member
    rcases List.mem_append.mp member with isEarlier | isRest
    · exact around other isEarlier otherServes
    · rcases List.mem_cons.mp isRest with rfl | isLater
      · exact ⟨Nat.le_refl _, Nat.le_refl _⟩
      · exact absurd otherServes (noneServes other isLater)
  · intro position other registered otherServes _ _
    refine Nat.le_of_not_lt fun behind => ?_
    rw [table, List.getElem?_append_right (by omega),
      show position - earlier.length = (position - earlier.length - 1) + 1 by omega,
      List.getElem?_cons_succ] at registered
    exact noneServes other (List.mem_of_getElem? registered) otherServes

/-- The search for a handler finds exactly that of the innermost region, the last registered one
of several for this region, and finds none exactly if no handler serves at the address. -/
theorem handlerFor?_finds_innermost (nested : unit.RegionsNested) (pc : Nat)
    (kind? : Option CatchKind) :
    (∀ handler, unit.handlerFor? pc kind? = some handler ↔
      ∃ index, unit.IsInnermost pc kind? index handler) ∧
    (unit.handlerFor? pc kind? = none ↔
      ∀ handler ∈ unit.handlers, ¬ handler.Serves kind? pc) := by
  refine ⟨fun handler => ⟨nested.isInnermost, ?_⟩, handlerFor?_eq_none_iff⟩
  rintro ⟨index, innermost⟩
  cases search : unit.handlerFor? pc kind? with
  | none =>
      have noneServes := handlerFor?_eq_none_iff.mp search handler
        (List.mem_of_getElem? innermost.registered)
      exact absurd innermost.serves noneServes
  | some found =>
      obtain ⟨_, isFound⟩ := nested.isInnermost search
      rw [isFound.unique innermost]

/-- A table with two handlers for one region inside a third, and a region that begins where the
others end. -/
def sharedEndsUnit : CodeUnit :=
  { localCount := 1, registerCount := 2, code := Array.replicate 12 Opcode.nop.toByte
    handlers := [⟨.ensure, 0, 6, 9⟩, ⟨.rescue, 2, 6, 10⟩, ⟨.ensure, 2, 6, 9⟩, ⟨.rescue, 6, 8, 11⟩]
    pool := #[], symbols := #[], children := [] }

/-- The instruction that ends at the shared end lies in the regions in front of it only. -/
theorem handlerFor?_finds_innermost_sharedEnds :
    sharedEndsUnit.RegionsNested ∧
      (∃ index, sharedEndsUnit.IsInnermost 6 none index ⟨.ensure, 2, 6, 9⟩) ∧
      (∃ index, sharedEndsUnit.IsInnermost 6 (some .rescue) index ⟨.rescue, 2, 6, 10⟩) ∧
      (∃ index, sharedEndsUnit.IsInnermost 7 none index ⟨.rescue, 6, 8, 11⟩) ∧
      ∀ handler ∈ sharedEndsUnit.handlers, ¬ handler.Serves (some .ensure) 7 := by
  have nested : sharedEndsUnit.RegionsNested := .of_bounds (by decide)
  exact ⟨nested, ((handlerFor?_finds_innermost nested 6 none).1 _).mp rfl,
    ((handlerFor?_finds_innermost nested 6 (some .rescue)).1 _).mp rfl,
    ((handlerFor?_finds_innermost nested 7 none).1 _).mp rfl,
    (handlerFor?_finds_innermost nested 7 (some .ensure)).2.mp rfl⟩

end CodeUnit

end RiteVm.Bytecode
