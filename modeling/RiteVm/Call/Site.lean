import RiteVm.Call.Engine

/-!
Contract: where the arguments of a call are.

Owns:
- the call site: the receiver, behind it the positional arguments or one array of them,
  then an optional keyword hash, then the block;
- bringing the arguments of an instruction into this form, and writing arguments into it;
- reading the arguments back.

The frame of the called method begins at the receiver, so its register 1 is the first
argument.
-/

namespace RiteVm

/-- The registers of one call. -/
structure CallSite where
  /-- the stack index of the receiver -/
  receiverAt : Nat
  /-- number of positional arguments, or the count that stands for an array of them -/
  argCount : Nat := 0
  hasKeywords : Bool := false
deriving DecidableEq, Repr

namespace CallSite

/-- Number of registers with positional arguments. -/
def argSlots (site : CallSite) : Nat := if site.argCount = packedCount then 1 else site.argCount

/-- The stack index of the keyword hash. -/
def keywordsAt (site : CallSite) : Nat := site.receiverAt + 1 + site.argSlots

/-- The stack index of the block. -/
def blockAt (site : CallSite) : Nat :=
  site.keywordsAt + (if site.hasKeywords then 1 else 0)

end CallSite

/-- The pairs of a list in which keys and values alternate. -/
def pairUp : List Value → List (Value × Value)
  | key :: value :: rest => (key, value) :: pairUp rest
  | _ => []

namespace Query

/-- Stack slots that follow each other. -/
def slots (first count : Nat) : Query (List Value) := do
  let context ← context
  return (List.range' first count).map context.slot

/-- The positional arguments at a call site. -/
def positionalAt (site : CallSite) : Query (List Value) := do
  if site.argCount = packedCount then
    return ((← array? (← slot (site.receiverAt + 1))).map (·.toList)).getD []
  else slots (site.receiverAt + 1) site.argCount

/-- The keywords at a call site. -/
def keywordsOf (site : CallSite) : Query (List (Value × Value)) := do
  if site.hasKeywords then return (← hashPairs? (← slot site.keywordsAt)).getD []
  else return []

/-- All arguments at a call site. -/
def argsAt (site : CallSite) : Query Args := do
  return { positional := ← positionalAt site, keywords := ← keywordsOf site,
           block := ← slot site.blockAt }

end Query

namespace VM

/-- Stores values in stack slots that follow each other. -/
def setSlots (first : Nat) : List Value → VM Unit
  | [] => return
  | value :: rest => do
    setSlot first value
    setSlots (first + 1) rest

/-- Brings the arguments of a calling instruction into the form of a call site. The low
four bits of the operand count the positional arguments and the next four bits the
keywords; keywords are collected in a hash, and the block moves next to it. -/
def normalizeArgs (receiverAt operand : Nat) (withBlock : Bool) : VM CallSite := do
  let site : CallSite := { receiverAt, argCount := operand % 16 }
  let keywordCount := operand / 16 % 16
  let keywordSlots :=
    if keywordCount = 0 then 0 else if keywordCount = packedCount then 1 else 2 * keywordCount
  let block ←
    if withBlock then Query.slot (site.keywordsAt + keywordSlots) else pure .nil
  let hasKeywords ←
    if keywordCount = 0 then pure false
    else if keywordCount = packedCount then do
      pure !(← Query.hasNoEntries (← Query.slot site.keywordsAt))
    else do
      let flat ← Query.slots site.keywordsAt keywordSlots
      setSlot site.keywordsAt (← newHashOfPairs (pairUp flat))
      pure true
  let site := { site with hasKeywords }
  if !block.isNil then
    let _ ← expectProc block
  setSlot site.blockAt block
  return site

/-- Rewrites the arguments at a call site for `method_missing`: an array of the missing
name and the positional arguments. -/
def packForMissing (site : CallSite) (name : Symbol) : VM CallSite := do
  let positional ← Query.positionalAt site
  let keywords ← Query.slot site.keywordsAt
  let block ← Query.slot site.blockAt
  let packed ← newArray (.symbol name :: positional).toArray
  let missing := { site with argCount := packedCount }
  setSlot (site.receiverAt + 1) packed
  if site.hasKeywords then setSlot missing.keywordsAt keywords
  setSlot missing.blockAt block
  return missing

/-- Writes a receiver and arguments into stack slots. More than 14 positional arguments
are packed into an array. -/
def layOutArgs (receiverAt : Nat) (receiver : Value) (args : Args) : VM CallSite := do
  let isPacked := packedCount ≤ args.size
  let site : CallSite :=
    { receiverAt
      argCount := if isPacked then packedCount else args.size
      hasKeywords := !args.keywords.isEmpty }
  setSlot receiverAt receiver
  if isPacked then setSlot (receiverAt + 1) (← newArray args.positional.toArray)
  else setSlots (receiverAt + 1) args.positional
  if site.hasKeywords then setSlot site.keywordsAt (← newHashOfPairs args.keywords)
  setSlot site.blockAt args.block
  return site

end VM

end RiteVm
