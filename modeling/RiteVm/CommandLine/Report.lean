import RiteVm.Binary.Dump
import RiteVm.Bytecode.Listing
import RiteVm.CommandLine.Options
import RiteVm.Core.Boot
import RiteVm.Core.Exceptions
import RiteVm.Execution.Loop
import RiteVm.Execution.Program

/-!
Contract: what the command line does with a binary.

Owns:
- the report of a command: what it prints, the file it writes and its status;
- listing and writing a program without running it;
- running a program and reporting its value or its error.

Reading and writing files is left to the caller.
-/

namespace RiteVm.CommandLine

/-- What a command prints and writes. -/
structure Report where
  status : Nat := 0
  output : String := ""
  errors : String := ""
  /-- a file to write, with its content -/
  written : Option (String × Bytes) := none
deriving DecidableEq, Repr

/-- The report of a command that broke off. -/
def Report.broken (cause : String) : Report := { status := 101, errors := cause ++ "\n" }

/-- A number of cycles that no run reaches. -/
def cycleBound : Nat := 1 <<< 62

/-- The wording of refused limits. -/
def limitsMessage : ConfigError → String
  | .noCallDepth => "the call depth must be positive"
  | .noNativeDepth => "the depth of nested loops must be positive"
  | .shrinkingThreshold => "growth factor must be at least 1"

/-- The limits that options ask for. -/
def Options.limits (options : Options) : Config :=
  let standard : Config := {}
  { standard with
    maxCallDepth := options.maxDepth.getD standard.maxCallDepth
    collector.initialThreshold :=
      options.collectorThreshold.getD standard.collector.initialThreshold }

/-- Lists or writes a program without running it. -/
def examine (options : Options) (binary : Bytes) : Report :=
  match Binary.load binary with
  | .error error => { status := 1, errors := s!"{options.file}: {error.message}\n" }
  | .ok unit => {
      output := if options.listing then unit.listing else ""
      written := options.emit.map fun file => (file, Binary.dump unit) }

/-- The lines in which a failure is reported, with where its exception was raised. -/
def failureText (failure : Failure) : Query String := do
  let description ← Query.describeFailure failure
  let lines ← match failure with
    | .raised exception => Query.exceptionLines exception
    | _ => pure []
  return description ++ "\n" ++ String.join (lines.map fun line => s!"\tfrom {line}\n")

/-- What a run prints. -/
def resultReport (result : EStateM.Result Failure Machine Value) : Except Breach Report :=
  match result with
  | .ok value machine => do
    return { output := (← Query.inspect value machine) ++ "\n" }
  | .error (.breach breach) _ => throw breach
  | .error failure machine => do
    return { status := 1, errors := ← failureText failure machine }

/-- Figures of the collector. -/
def statisticsText (heap : Heap) : String :=
  s!"gc: {heap.collections} collections, {heap.live} live objects, {heap.freed} freed, " ++
    s!"{heap.bytesInUse} bytes allocated, next at {heap.threshold}\n"

/-- The machine at the end of a run. -/
def finalMachine (result : EStateM.Result Failure Machine Value) : Machine :=
  match result with
  | .ok _ machine | .error _ machine => machine

/-- Runs a program within checked limits. -/
def runWithin (options : Options) (limits : Config) (binary : Bytes) : Report :=
  let result := VM.load (.ofHosts #[] cycleBound) binary (.new limits)
  match resultReport result with
  | .error _ => .broken "broken invariant"
  | .ok report =>
    if options.statistics then
      { report with errors := report.errors ++ statisticsText (finalMachine result).heap }
    else report

/-- Runs a program. -/
def runProgram (options : Options) (binary : Bytes) : Report :=
  match options.limits.checked with
  | .ok limits => runWithin options limits binary
  | .error error => .broken (limitsMessage error)

/-- Carries out a command on the content of its file. -/
def execute (options : Options) (binary : Bytes) : Report :=
  if options.listing ∨ options.emit.isSome then examine options binary
  else runProgram options binary

end RiteVm.CommandLine
