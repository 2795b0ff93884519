import RiteVm.Core.Objects
import RiteVm.Proofs.Parameters.Outward

/-!
Contract: asking for the block of a method, and loading it.

Owns:
- frames of strict procs, the innermost of which answers whether a block was given;
- that asking and loading agree where this is the frame of the method that the code is written in.

One looks for a frame on the stack, the other for a scope around the code. A block that another
method calls runs above the frame of that method, whose block is then asked for instead.
-/

namespace RiteVm

open RiteVm.Bytecode

/-- Whether a frame runs a proc that counts its arguments, as methods do. -/
def Machine.isStrictFrame (machine : Machine) (frame : Frame) : Bool :=
  ((frame.proc.bind machine.heap.get?).bind fun object => object.proc?.map (·.strict)).getD false

section Asking

variable {machine next : Machine} {context asked : Context} {native inner method : Frame}
  {frames below : List Frame}

/-- A frame is looked for among frames whose procs exist. -/
theorem Query.findM?_strict (held : ∀ frame ∈ frames, ∀ proc, frame.proc = some proc →
      ∃ object, machine.heap.get? proc = some object) :
    (frames.findM? fun frame =>
      match frame.proc with
      | some proc => isStrict proc
      | none => pure false : Query (Option Frame)) machine =
      .ok (frames.find? machine.isStrictFrame) := by
  induction frames with
  | nil => rfl
  | cons frame rest inductionHypothesis =>
      have others := inductionHypothesis fun other member =>
        held other (List.mem_cons_of_mem _ member)
      have read : (match frame.proc with
          | some proc => isStrict proc
          | none => pure false : Query Bool) machine = .ok (machine.isStrictFrame frame) := by
        rw [Machine.isStrictFrame]
        cases isProc : frame.proc with
        | none => rfl
        | some proc =>
            obtain ⟨object, found⟩ := held frame List.mem_cons_self proc isProc
            dsimp only
            rw [isStrict, bind_of_ok (object_of_found found), Option.bind_some, found]
            rfl
      rw [List.findM?, bind_of_ok read, List.find?_cons]
      cases machine.isStrictFrame frame with
      | true => rfl
      | false => exact others

/-- A method that is no bytecode is told the block of the innermost strict frame below it. -/
theorem Query.callerBlock_eq (runs : machine.RunsOn context)
    (top : context.activations = native :: below) :
    callerBlock machine =
      .ok (((below.find? machine.isStrictFrame).map (·.block)).getD .nil) := by
  have isBelow : context.frames.toList.reverse.drop 1 = below := by
    change context.activations.drop 1 = below
    rw [top, List.drop_one, List.tail_cons]
  have held : ∀ frame ∈ below, ∀ proc, frame.proc = some proc →
      ∃ object, machine.heap.get? proc = some object := fun frame member proc isProc =>
    runs.held frame (by simp [top, member]) proc (.inl isProc)
  have searched := findM?_strict held
  rw [callerBlock, bind_of_ok (context_of_runsOn runs), isBelow]
  exact (bind_of_ok searched).trans rfl

/-- Whether a block was given is answered for the innermost strict frame below. -/
theorem VM.blockGiven_eq (runs : machine.RunsOn context)
    (top : context.activations = native :: below)
    (innermost : below.find? machine.isStrictFrame = some method) (engine : Engine) (self : Value)
    (args : Args) :
    runObjectMethod engine self args .blockGiven machine =
      .ok (.ofBool !method.block.isNil) machine := by
  have told := Query.callerBlock_eq runs top
  rw [innermost] at told
  rw [runObjectMethod, bind_of_ok (liftM_of_ok told)]
  rfl

end Asking

/-- Asking for a block and loading it agree where the code belongs to the innermost strict frame:
take code on any level inside a method, none of whose parameters has been assigned, and a call from
this code. If the innermost strict frame is the one that the method was given its block in, the
answer is whether the block of the method can be loaded. -/
theorem blockGiven_iff_pushBlock {machine next : Machine} {context asked : Context}
    {native inner method : Frame} {below : List Frame} {spec : ArgSpec} {contents : Nat → Value}
    {size level operand : Nat} {place : Option Nat}
    (sees : machine.SeesParameters context inner below spec contents size level place)
    (encoded : Outward.ofOperand operand = .ofSpec spec level)
    (runs : next.RunsOn asked) (top : asked.activations = native :: inner :: below)
    (sameHeap : next.heap = machine.heap)
    (innermost : (inner :: below).find? machine.isStrictFrame = some method)
    (given : method.block = contents spec.blockRegister) (engine : Engine) (self : Value)
    (args : Args) (register : Nat) :
    ∃ answer, VM.runObjectMethod engine self args .blockGiven next = .ok (.ofBool answer) next ∧
      (answer = true ↔ ∃ after, VM.pushBlock inner.base register operand machine = .ok () after) := by
  have sameFrames : next.isStrictFrame = machine.isStrictFrame := by
    funext frame
    rw [Machine.isStrictFrame, Machine.isStrictFrame, sameHeap]
  have answers := VM.blockGiven_eq runs top (sameFrames ▸ innermost) engine self args
  have loads := VM.pushBlock_of_sees sees register encoded
  rw [given] at answers
  refine ⟨_, answers, ?_⟩
  cases isNil : (contents spec.blockRegister).isNil with
  | true =>
      rw [isNil] at loads
      obtain ⟨exception, after, raises, -⟩ := loads
      simp [raises]
  | false =>
      rw [isNil] at loads
      obtain ⟨after, loaded, -⟩ := loads
      simp [loaded]

/-! ### A block that another method calls -/

/-- A method that loads its block, or that lends one to a method that calls it. -/
def lendingUnit : CodeUnit :=
  { localCount := 2, registerCount := 3
    code := #[Opcode.enter.toByte, 0, 0, 1], handlers := [], pool := #[], symbols := #[]
    children := [] }

/-- The lending method and the called one, and a block inside the first with its environment. -/
def lendingObjects : List Object :=
  [{ classHandle := .null
     content := .proc { unit := lendingUnit, upper := none, env := none, targetClass := .null,
                        strict := true } },
    { classHandle := .null
      content := .proc { unit := lendingUnit, upper := none, env := none, targetClass := .null,
                         strict := true } },
    { classHandle := .null
      content := .env { storage := .onStack ⟨0⟩ none 0 2, method := some ⟨8⟩, owner := none } },
    { classHandle := .null
      content := .proc { unit := lendingUnit, upper := some ⟨1, 1⟩, env := some ⟨3, 1⟩
                         targetClass := .null, strict := false } }]

/-- A frame of a proc with the given block. -/
def lendingFrame (base proc : Nat) (block : Value) : Frame :=
  { base, top := base + 3, proc := some ⟨proc, 1⟩, unit := some lendingUnit, argCount := 0
    hasKeywords := false, method := some ⟨8⟩, owner := none, targetClass := .null
    boundary := false, block }

/-- The block runs above the method that was given it. Below is the method that it stands in, which
was given none. -/
def lendingContext : Context :=
  { stack := .replicate 9 .nil
    frames := #[lendingFrame 0 1 .nil, lendingFrame 3 2 (.object ⟨4, 1⟩), lendingFrame 6 4 .nil] }

/-- The block has called a method that is no bytecode. -/
def askingContext : Context :=
  { lendingContext with
    frames := lendingContext.frames.push { lendingFrame 7 0 .nil with proc := none, unit := none } }

/-- The machine runs on stacks of these frames. -/
theorem lending_runsOn {context : Context}
    (known : ∀ frame ∈ context.activations, frame.env = none ∧
      (frame.proc = none ∨ ∃ proc ∈ [1, 2, 4], frame.proc = some ⟨proc, 1⟩)) :
    (Machine.ofObjects lendingObjects context).RunsOn context := by
  refine Machine.ofObjects_runsOn (by decide) fun frame member handle holds => ?_
  obtain ⟨noEnv, isKnown⟩ := known frame member
  rcases holds with isProc | isEnv
  · rcases isKnown with noProc | ⟨proc, isLive, isThis⟩
    · cases noProc.symm.trans isProc
    · cases isThis.symm.trans isProc
      have live : ∀ index ∈ [1, 2, 4],
          ((Machine.ofObjects lendingObjects context).heap.get? ⟨index, 1⟩).isSome = true := by
        intro index isIndex
        simp only [List.mem_cons, List.not_mem_nil, or_false] at isIndex
        rcases isIndex with rfl | rfl | rfl <;> rfl
      exact Option.isSome_iff_exists.mp (live proc isLive)
  · cases noEnv.symm.trans isEnv

theorem lending_sees : (Machine.ofObjects lendingObjects lendingContext).SeesParameters
    lendingContext (lendingFrame 6 4 .nil)
    [lendingFrame 3 2 (.object ⟨4, 1⟩), lendingFrame 0 1 .nil] (.ofOperand 1)
    (fun _ => .nil) 2 1 (some 0) where
  runs := lending_runsOn (by decide)
  top := rfl
  covers := by decide
  inside := by
    refine .block rfl (.own rfl rfl rfl) (.live rfl rfl rfl rfl (fun register wanted => ?_) rfl)
    have bound : register ≤ 1 := wanted.2
    obtain rfl : register = 1 := Nat.le_antisymm bound wanted.1
    rfl

/-- A block may be told that one was given though it cannot load one: the method that called it was
given one, the method that it stands in was not. -/
theorem blockGiven_may_miss_method (engine : Engine) (self : Value) (args : Args) :
    VM.runObjectMethod engine self args .blockGiven (.ofObjects lendingObjects askingContext) =
        .ok .true (.ofObjects lendingObjects askingContext) ∧
      ∃ exception next, VM.pushBlock 6 2 1 (.ofObjects lendingObjects lendingContext) =
          .error (.raised exception) next ∧
        next.Reports .localJumpError "no block given (yield)" exception := by
  have asks : (Machine.ofObjects lendingObjects askingContext).RunsOn askingContext :=
    lending_runsOn (by decide)
  refine ⟨VM.blockGiven_eq asks rfl rfl engine self args, ?_⟩
  exact VM.pushBlock_of_sees lending_sees 2 (by decide)

end RiteVm
