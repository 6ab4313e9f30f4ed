/-
**The program.**

It shows the contents of RPUs that are kept in files.  Everything but reading and printing is
decided in `DolbyVision.CommandLine`.
-/

import DolbyVision.CommandLine.Help
import DolbyVision.CommandLine.Inspection

set_option relaxedAutoImplicit false
set_option autoImplicit false

namespace DolbyVision.CommandLine

/-- Reads a file. -/
def readSource (path : String) : IO Source := do
  try
    return ⟨path, .ok (← IO.FS.readBinFile path).toList⟩
  catch e =>
    return ⟨path, .error (toString e)⟩

/-- Prints a listing. -/
def printListing (settings : Settings) (l : Listing) : IO Unit := do
  for note in l.notes do
    if settings.reports note.severity then
      IO.eprintln (note.severity.name ++ ": " ++ note.text streamLabel)
  for line in l.lines do
    IO.println line
  if let some failure := l.failure then
    IO.eprintln ("Error: " ++ failure.message)

/-- Answers a request. -/
def answer (program : String) : Request → IO UInt32
  | .help => do
    for line in helpLines program do
      IO.println line
    return 0
  | .version => do
    IO.println (versionLine program)
    return 0
  | .refuse e => do
    IO.eprintln ("error: " ++ e.message)
    return usageExitCode
  | .inspect settings => do
    let listing := inspect settings (← settings.files.mapM readSource)
    printListing settings listing
    return UInt32.ofNat listing.exitCode

end DolbyVision.CommandLine

/-- Shows the contents of the RPUs in the files that the arguments name. -/
def main (arguments : List String) : IO UInt32 := do
  let program := (← IO.appPath).fileName.getD ""
  DolbyVision.CommandLine.answer program (DolbyVision.CommandLine.request arguments)
