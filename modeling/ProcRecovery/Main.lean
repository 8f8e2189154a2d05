import ProcRecovery.CommandLine.LogText
import ProcRecovery.CommandLine.Run

/-!
# The program

The command line with real files and streams around it.
-/

namespace ProcRecovery.CommandLine

/-- What went wrong with a file. -/
def fileProblem : IO.Error → String
  | .noFileOrDirectory .. => "No such file or directory (os error 2)"
  | .permissionDenied .. => "Permission denied (os error 13)"
  | .inappropriateType .. => "Is a directory (os error 21)"
  | problem => toString problem

/-- Do something with a file and say what went wrong. -/
def attempt {α : Type} (action : IO α) : IO (Except String α) := do
  try
    return .ok (← action)
  catch problem =>
    return .error (fileProblem problem)

/--
Real files and streams.  A log that cannot be written is given up silently.
-/
def realHost : Host IO where
  read path := attempt (IO.FS.readFile path)
  write path bytes := attempt (IO.FS.writeBinFile path bytes)
  log path records := do
    let _ ← attempt (IO.FS.writeFile path (logText records))
  print := IO.print
  complain := IO.eprint

end ProcRecovery.CommandLine

/-- Recover procedures from a listing, as the arguments ask for. -/
def main (arguments : List String) : IO UInt32 := do
  let code ← ProcRecovery.CommandLine.run ProcRecovery.CommandLine.realHost
    ProcRecovery.Graphviz.Library.standard arguments
  if code = 2 then
    IO.eprintln <|
      "usage: from-listing LISTING " ++
        "[--output-listing FILE] [--output-graphviz FILE]"
  return code.toUInt32
