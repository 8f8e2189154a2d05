import ProcRecovery.CommandLine.Invocation
import ProcRecovery.Graphviz.Drawing
import ProcRecovery.Journal.Record
import ProcRecovery.Listing.Reader
import ProcRecovery.Report
import ProcRecovery.Session.Discovery

/-!
# Running the command line

A run reads the listing, analyzes it, and writes what was asked for.  It ends
with an exit code: zero if all went well, one if a file could not be read or
written or the listing was rejected, two if the arguments are not in order, and
one hundred and one if the analysis stopped with a fault.
-/

namespace ProcRecovery.CommandLine

/-- What a run needs of the world around it. -/
structure Host (m : Type → Type) where
  /-- The text of a file, or what went wrong. -/
  read : String → m (Except String String)
  /-- Write the bytes of a file, or say what went wrong. -/
  write : String → ByteArray → m (Except String Unit)
  /-- Write a log. -/
  log : String → List LogRecord → m Unit
  /-- Print on the standard output. -/
  print : String → m Unit
  /-- Print on the standard error output. -/
  complain : String → m Unit

/-- The results of an analysis in the form in which they are written. -/
structure Results where
  report : String
  /-- The bytes of all drawings, as far as they could be drawn and written. -/
  graphs : Except Fault (Except String ByteArray)
  journal : List Event

/-- How an analysis of a listing text can end. -/
inductive Analysis where
  | rejected (error : ListingError)
  | faulted (journal : List Event)
  | finished (results : Results)

/-- Analyze the text of a listing. -/
def analyze
    (library : Graphviz.Library)
    (options : Options)
    (text : String) :
    Analysis :=
  match Listing.lift text with
  | .error (.rejected error) => .rejected error
  | .error (.fault _) => .faulted []
  | .ok lifted =>
    let session : Session :=
      { image := lifted.image, journal := lifted.events }
    match session.run options with
    | .error halt => .faulted halt.journal
    | .ok final =>
      let analyzed :=
        final.procedures.values.filter (fun procedure =>
          procedure.progress = .analyzed)
      .finished
        { report := Report.session options final ++ "\n" ++
            Report.annotations final.image
          graphs := Graphviz.writeAll library final.image analyzed
          journal := final.journal }

section

variable {m : Type → Type} [Monad m]

/-- Write the log of a run, if it is wanted and there is anything to log. -/
def writeLog
    (host : Host m)
    (invocation : Invocation)
    (journal : List Event) :
    m Unit :=
  match invocation.logFile, logOf (.threshold invocation.detail) journal with
  | some path, record :: records => host.log path (record :: records)
  | _, _ => pure ()

/-- Write the results of a run.  The answer is the exit code. -/
def writeResults
    (host : Host m)
    (invocation : Invocation)
    (results : Results) :
    m Nat := do
  let listed ←
    match invocation.outputListing with
    | some path => host.write path results.report.toUTF8
    | none => do
      host.print (results.report ++ "\n")
      pure (.ok ())
  match listed with
  | .error reason =>
    host.complain ("Could not write listing: " ++ reason ++ "\n")
    return 1
  | .ok _ =>
    match invocation.outputGraphviz with
    | none => return 0
    | some path =>
      match results.graphs with
      | .error _ => return 101
      | .ok drawn =>
        let written ←
          match drawn with
          | .ok bytes => host.write path bytes
          | .error reason => pure (.error reason)
        match written with
        | .error reason =>
          host.complain ("Could not write graph: " ++ reason ++ "\n")
          return 1
        | .ok _ => return 0

/--
Do what an invocation with the path of a listing asks for.  The answer is the
exit code.
-/
def perform
    (host : Host m)
    (library : Graphviz.Library)
    (invocation : Invocation)
    (path : String) :
    m Nat := do
  match ← host.read path with
  | .error reason =>
    host.complain ("Could not read " ++ path ++ ": " ++ reason ++ "\n")
    return 1
  | .ok text =>
    match analyze library (.disabling invocation.switches) text with
    | .rejected error =>
      host.complain ("Could not lift listing: " ++ error.message ++ "\n")
      return 1
    | .faulted journal =>
      writeLog host invocation journal
      return 101
    | .finished results =>
      let code ← writeResults host invocation results
      let ending := if code = 0 then [Event.noted .done] else []
      writeLog host invocation (results.journal ++ ending)
      return code

/-- Do what some arguments ask for.  The answer is the exit code. -/
def run
    (host : Host m)
    (library : Graphviz.Library)
    (arguments : List String) :
    m Nat :=
  match Invocation.parse? arguments with
  | some invocation =>
    match invocation.listing with
    | some path => perform host library invocation path
    | none => pure 2
  | none => pure 2

end

end ProcRecovery.CommandLine
