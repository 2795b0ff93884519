import RiteVm.Call.Binding

/-!
Contract: how positional arguments fall on parameters.

Owns:
- arguments in shares, one for each kind of parameter, cut in order by lengths alone;
- that every list of arguments can be cut, and that distributing it gives each parameter
  its share, filled up with nil.

Does not own: which arguments a call passes, and whether their number is accepted.
-/

namespace RiteVm

open RiteVm.Bytecode

/-- Positional arguments, one share for each kind of parameter. -/
structure Shares where
  required : List Value
  optional : List Value
  rest : List Value
  post : List Value
  /-- what no parameter takes -/
  extra : List Value
deriving DecidableEq, Repr

/-- The values of the required and the optional parameters. -/
def Shares.leading (shares : Shares) (spec : ArgSpec) : List Value :=
  padNil shares.required spec.required ++ padNil shares.optional spec.optional

/-- What the parameters of a spec are bound to. -/
def Shares.bound (shares : Shares) (spec : ArgSpec) : BoundArgs where
  leading := shares.leading spec
  rest := if spec.rest then some shares.rest else none
  post := padNil shares.post spec.post
  optionalCount := shares.optional.length

/-- Arguments are cut into shares in the order of the parameters. Required parameters come
first, then those behind the rest parameter, and optional ones take what is left for them.
What remains is the rest if there is such a parameter, and extra otherwise. -/
structure Bytecode.ArgSpec.Cuts (spec : ArgSpec) (args : List Value) (shares : Shares) : Prop where
  inOrder : args =
    shares.required ++ shares.optional ++ shares.rest ++ shares.post ++ shares.extra
  required_length : shares.required.length = min args.length spec.required
  optional_length : shares.optional.length = min (args.length - spec.mandatory) spec.optional
  post_length : shares.post.length = min (args.length - spec.required) spec.post
  rest_eq : spec.rest = false → shares.rest = []
  extra_eq : spec.rest = true → shares.extra = []

section Padding

variable {values more : List Value} {length : Nat}

theorem length_padNil (fits : values.length ≤ length) : (padNil values length).length = length := by
  rw [padNil, List.length_append, List.length_replicate]
  omega

theorem padNil_of_length (full : values.length = length) : padNil values length = values := by
  rw [padNil, full, Nat.sub_self, List.replicate_zero, List.append_nil]

/-- A list that is filled up may be followed only by one that begins where it is full. -/
theorem padNil_append (fits : values.length ≤ length) (full : values.length < length → more = [])
    (count : Nat) : padNil (values ++ more) (length + count) = padNil values length ++ padNil more count := by
  rcases Nat.lt_or_eq_of_le fits with isShort | isFull
  · rw [full isShort, List.append_nil, padNil, padNil, padNil, List.nil_append, List.append_assoc,
      List.replicate_append_replicate, List.length_nil]
    congr 2
    omega
  · rw [padNil_of_length isFull, padNil, padNil, List.append_assoc, List.length_append, isFull,
      Nat.add_sub_add_left]

end Padding

namespace Bytecode.ArgSpec

variable {spec : ArgSpec} {args : List Value} {shares : Shares}

/-- Every list of arguments can be cut. -/
theorem exists_cuts (spec : ArgSpec) (args : List Value) : ∃ shares, spec.Cuts args shares := by
  let optionalCount := min (args.length - spec.mandatory) spec.optional
  let restCount :=
    if spec.rest then args.length - (spec.required + optionalCount) - spec.post else 0
  let behindRequired := args.drop spec.required
  let behindOptional := behindRequired.drop optionalCount
  let behindRest := behindOptional.drop restCount
  have mandatory : spec.mandatory = spec.required + spec.post := rfl
  have restFits : restCount ≤ args.length - (spec.required + optionalCount) - spec.post := by
    dsimp only [restCount]
    split <;> omega
  refine ⟨⟨args.take spec.required, behindRequired.take optionalCount,
    behindOptional.take restCount, behindRest.take spec.post, behindRest.drop spec.post⟩,
    ?_, ?_, ?_, ?_, ?_, ?_⟩
  · simp only [List.append_assoc, List.take_append_drop, behindRest, behindOptional, behindRequired]
  · simp [Nat.min_comm]
  · simp only [behindRequired, List.length_take, List.length_drop]
    omega
  · simp only [behindRest, behindOptional, behindRequired, List.length_take, List.length_drop]
    omega
  · intro noRest
    simp [restCount, noRest]
  · intro hasRest
    simp only [behindRest, behindOptional, behindRequired, List.drop_drop, restCount, hasRest, if_true]
    exact List.drop_eq_nil_of_le (by omega)

namespace Cuts

/-- Arguments that are left over are dropped before the distribution. -/
theorem kept_eq (cuts : spec.Cuts args shares) :
    (if spec.rest then args else args.take spec.capacity) =
      shares.required ++ shares.optional ++ shares.rest ++ shares.post := by
  have inOrder := cuts.inOrder
  have required := cuts.required_length
  have optional := cuts.optional_length
  have post := cuts.post_length
  have mandatory : spec.mandatory = spec.required + spec.post := rfl
  have capacity : spec.capacity = spec.required + spec.optional + spec.post := rfl
  cases hasRest : spec.rest with
  | true =>
      rw [cuts.extra_eq hasRest, List.append_nil] at inOrder
      rw [if_pos rfl, inOrder]
  | false =>
      have total := congrArg List.length inOrder
      rw [cuts.rest_eq hasRest, List.append_nil] at inOrder total ⊢
      simp only [List.length_append] at total
      rw [if_neg Bool.false_ne_true, inOrder]
      -- either nothing is left over, or every parameter has its argument
      rcases Nat.lt_or_ge spec.capacity args.length with more | fits
      · refine List.take_left' ?_
        simp only [List.length_append]
        omega
      · have noExtra : shares.extra = [] := List.eq_nil_of_length_eq_zero (by omega)
        rw [noExtra, List.append_nil, List.take_of_length_le]
        simp only [List.length_append]
        omega

/-- Nothing is left over with a rest parameter or where there is room for all arguments. -/
theorem extra_eq_nil (cuts : spec.Cuts args shares)
    (fits : spec.rest = true ∨ args.length ≤ spec.required + spec.optional + spec.post) :
    shares.extra = [] := by
  rcases fits with hasRest | fits
  · exact cuts.extra_eq hasRest
  · have required := cuts.required_length
    have optional := cuts.optional_length
    have post := cuts.post_length
    have mandatory : spec.mandatory = spec.required + spec.post := rfl
    have total := congrArg List.length cuts.inOrder
    simp only [List.length_append] at total
    exact List.eq_nil_of_length_eq_zero (by omega)

/-- Distributing arguments gives every parameter its share. -/
theorem bind_eq (cuts : spec.Cuts args shares) : spec.bind args = shares.bound spec := by
  have required := cuts.required_length
  have optional := cuts.optional_length
  have post := cuts.post_length
  have mandatory : spec.mandatory = spec.required + spec.post := rfl
  have total := congrArg List.length cuts.inOrder
  simp only [List.length_append] at total
  have kept := cuts.kept_eq
  have keptLength := congrArg List.length kept
  simp only [List.length_append] at keptLength
  have isExtra : spec.rest = true → shares.extra.length = 0 := fun hasRest => by
    rw [cuts.extra_eq hasRest, List.length_nil]
  have isRest : spec.rest = false → shares.rest.length = 0 := fun noRest => by
    rw [cuts.rest_eq noRest, List.length_nil]
  rw [bind, kept]
  dsimp only
  simp only [List.length_append]
  split
  · rename_i enough
    have fullRequired : shares.required.length = spec.required := by omega
    have fullPost : shares.post.length = spec.post := by omega
    have isOptional : min (shares.required.length + shares.optional.length + shares.rest.length +
        shares.post.length - spec.mandatory) spec.optional = shares.optional.length := by
      omega
    have isFront : (shares.required ++ shares.optional).length =
        spec.required + shares.optional.length := by
      rw [List.length_append, fullRequired]
    have isBehind : (shares.required ++ shares.optional ++ shares.rest).length =
        shares.required.length + shares.optional.length + shares.rest.length +
          shares.post.length - spec.post := by
      simp only [List.length_append]
      omega
    rw [isOptional, List.take_left' isBehind, List.drop_left' isBehind, List.drop_left' isFront,
      List.append_assoc, List.append_assoc, ← List.append_assoc, List.take_left' isFront,
      padNil_append (by omega) (by omega), ← padNil_of_length fullPost]
    rfl
  · rename_i tooFew
    have noOptional : shares.optional = [] := List.eq_nil_of_length_eq_zero (by omega)
    have noRest : shares.rest = [] := List.eq_nil_of_length_eq_zero (by omega)
    -- parameters behind the rest get arguments only when the required ones have theirs
    have isCut : (shares.required ++ shares.post).take spec.required = shares.required ∧
        (shares.required ++ shares.post).drop spec.required = shares.post := by
      rcases Nat.lt_or_eq_of_le (by omega : shares.required.length ≤ spec.required) with
        isShort | isFull
      · have noPost : shares.post = [] := List.eq_nil_of_length_eq_zero (by omega)
        rw [noPost, List.append_nil]
        exact ⟨List.take_of_length_le (by omega), List.drop_eq_nil_of_le (by omega)⟩
      · exact ⟨List.take_left' isFull, List.drop_left' isFull⟩
    rw [noOptional, noRest, List.append_nil, List.append_nil, isCut.1, isCut.2, Shares.bound,
      Shares.leading, noOptional, noRest, ← padNil_append (by omega) fun _ => rfl, List.append_nil]
    rfl

end Cuts

end Bytecode.ArgSpec

end RiteVm
