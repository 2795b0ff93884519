import RiteVm.CommandLine.Report

/-!
The command line: reads the binary, carries the command out, and prints and writes what
it reports.
-/

namespace RiteVm.CommandLine

/-- Prints a report, writes its file and returns its status. -/
def Report.deliver (report : Report) : IO UInt32 := do
  IO.print report.output
  if let some (file, content) := report.written then
    IO.FS.writeBinFile file ⟨content⟩
  IO.eprint report.errors
  return .ofNat report.status

end RiteVm.CommandLine

open RiteVm.CommandLine in
def main (arguments : List String) : IO UInt32 := do
  match Options.ofArguments arguments with
  | .error error =>
    IO.eprintln s!"error: {error.message}"
    return 2
  | .ok options =>
    let binary ← IO.FS.readBinFile options.file
    (execute options binary.data).deliver
