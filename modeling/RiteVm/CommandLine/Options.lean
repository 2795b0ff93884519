/-!
Contract: the options of the command line.

Owns: what a user can ask for, reading it from the arguments, and the wording of usage
errors.

An option with a value takes the next argument, or what stands behind an equals sign.
Each option may be given once. Arguments behind `--` are no options.
-/

namespace RiteVm.CommandLine

/-- What a user asks for. -/
structure Options where
  /-- the file with the binary -/
  file : String
  /-- print the listing instead of running the program -/
  listing : Bool := false
  /-- write the program to this file instead of running it -/
  emit : Option String := none
  /-- print figures of the collector after the run -/
  statistics : Bool := false
  /-- frames that a register stack may hold -/
  maxDepth : Option Nat := none
  /-- bytes at which the first collection is due -/
  collectorThreshold : Option Nat := none
deriving DecidableEq, Repr

/-- Why arguments cannot be understood. -/
inductive UsageError where
  | missingFile
  | missingValue (option : String)
  | invalidNumber (option value : String)
  | repeated (option : String)
  | unexpected (argument : String)
deriving DecidableEq, Repr

/-- The wording of a usage error. -/
def UsageError.message : UsageError → String
  | missingFile => "a file is required"
  | missingValue option => s!"a value is required for {option}"
  | invalidNumber option value => s!"invalid value '{value}' for {option}"
  | repeated option => s!"{option} cannot be used more than once"
  | unexpected argument => s!"unexpected argument '{argument}'"

/-- What the arguments read so far ask for. -/
structure Draft where
  file : Option String := none
  listing : Bool := false
  emit : Option String := none
  statistics : Bool := false
  maxDepth : Option Nat := none
  collectorThreshold : Option Nat := none

/-- The options that have a value. -/
inductive ValueOption where
  | emit
  | maxDepth
  | collectorThreshold
deriving DecidableEq, Repr

namespace ValueOption

def all : List ValueOption := [emit, maxDepth, collectorThreshold]

/-- How the option is written. -/
def flag : ValueOption → String
  | emit => "--emit"
  | maxDepth => "--max-depth"
  | collectorThreshold => "--gc-threshold"

/-- The option that is written so. -/
def ofFlag? (text : String) : Option ValueOption := all.find? (·.flag = text)

end ValueOption

/-- The number that decimal digits stand for. -/
def number? (text : String) : Option Nat :=
  let digits := text.toList
  if digits.isEmpty ∨ !digits.all Char.isDigit then none
  else some (digits.foldl (fun value digit => value * 10 + (digit.toNat - '0'.toNat)) 0)

/-- A field that was not set before. -/
def once {α : Type} (option : String) (field : Option α) (value : α) :
    Except UsageError (Option α) :=
  if field.isSome then .error (.repeated option) else .ok (some value)

/-- The value of an option as a number. -/
def numberFor (option : ValueOption) (text : String) : Except UsageError Nat :=
  match number? text with
  | some value => .ok value
  | none => .error (.invalidNumber option.flag text)

namespace Draft

/-- Takes an option with its value. -/
def take (draft : Draft) (option : ValueOption) (text : String) :
    Except UsageError Draft := do
  match option with
  | .emit => return { draft with emit := ← once option.flag draft.emit text }
  | .maxDepth =>
    let value ← numberFor option text
    return { draft with maxDepth := ← once option.flag draft.maxDepth value }
  | .collectorThreshold =>
    let value ← numberFor option text
    return { draft with
      collectorThreshold := ← once option.flag draft.collectorThreshold value }

/-- Takes the file. -/
def takeFile (draft : Draft) (argument : String) : Except UsageError Draft :=
  if draft.file.isSome then .error (.unexpected argument)
  else .ok { draft with file := some argument }

/-- Takes an argument that needs no other one. -/
def takeSingle (draft : Draft) (argument : String) : Except UsageError Draft :=
  if argument = "--disasm" then
    if draft.listing then .error (.repeated argument) else .ok { draft with listing := true }
  else if argument = "--stats" then
    if draft.statistics then .error (.repeated argument)
    else .ok { draft with statistics := true }
  else
    match argument.splitOn "=" with
    | flag :: first :: rest =>
      match ValueOption.ofFlag? flag with
      | some option => draft.take option ("=".intercalate (first :: rest))
      | none => if argument.startsWith "-" then .error (.unexpected argument)
                else draft.takeFile argument
    | _ => if argument.startsWith "-" ∧ argument ≠ "-" then .error (.unexpected argument)
           else draft.takeFile argument

/-- Takes all arguments. -/
def takeAll (draft : Draft) : List String → Except UsageError Draft
  | [] => .ok draft
  | "--" :: files => files.foldlM takeFile draft
  | [argument] =>
    match ValueOption.ofFlag? argument with
    | some option => .error (.missingValue option.flag)
    | none => draft.takeSingle argument
  | argument :: next :: rest =>
    match ValueOption.ofFlag? argument with
    | some option => do (← draft.take option next).takeAll rest
    | none => do (← draft.takeSingle argument).takeAll (next :: rest)

/-- The options, if a file was given. -/
def finish (draft : Draft) : Except UsageError Options :=
  match draft.file with
  | none => .error .missingFile
  | some file =>
    .ok {
      file, listing := draft.listing, emit := draft.emit, statistics := draft.statistics
      maxDepth := draft.maxDepth, collectorThreshold := draft.collectorThreshold }

end Draft

/-- The options that arguments ask for. -/
def Options.ofArguments (arguments : List String) : Except UsageError Options := do
  (← Draft.takeAll {} arguments).finish

end RiteVm.CommandLine
