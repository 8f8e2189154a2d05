import ProcRecovery.Journal.Event

/-!
# Log records

The form in which milestones and oddities are written to a log: a severity, a
message and named values.  Addresses are written in hexadecimal, counts and
stack levels as numbers.
-/

namespace ProcRecovery

/-- A named value of a log record. -/
inductive LogValue where
  | text (content : String)
  | number (value : Int)
  deriving Repr, DecidableEq

namespace LogValue

/-- An address as it stands in a log. -/
def address (value : Nat) : LogValue := text (Numeral.markedHex4 value)

/-- A count as it stands in a log. -/
def count (value : Nat) : LogValue := number value

end LogValue

/-- One record of a log. -/
structure LogRecord where
  severity : Severity
  message : String
  fields : List (String × LogValue)
  deriving Repr, DecidableEq

/-- The named values of a milestone. -/
def Note.fields : Note → List (String × LogValue)
  | entryWithoutCode address | nothingToDecode address =>
      [("addr", .address address)]
  | listingLifted name instructions =>
    [("name", .text name), ("instructions", .count instructions)]
  | decoded first stop => [("from", .address first), ("to", .address stop)]
  | idiomMatched name address =>
      [("name", .text name), ("addr", .address address)]
  | registersCached address registers =>
    [("addr", .address address), ("registers", .count registers)]
  | levelSettled block level =>
      [("block", .address block), ("level", .number level)]
  | callResult site routine result =>
    [("site", .address site), ("routine", .text routine),
      ("result", .text result)]
  | stringArgumentsUnknown site | stringDestinationUnknown site =>
      [("site", .address site)]
  | analysisStarted entry nodes =>
      [("entry", .address entry), ("nodes", .count nodes)]
  | analysisFinished entry nodes blocks locals calls =>
    [("entry", .address entry), ("nodes", .count nodes),
      ("blocks", .count blocks),
      ("locals", .count locals), ("calls", .count calls)]
  | bodyEnds entry address =>
      [("entry", .address entry), ("addr", .address address)]
  | procedureFound entry stop name =>
    [("entry", .address entry), ("end", .address stop)] ++
      (match name with | some label => [("name", .text label)] | none => [])
  | discoveryCutShort passes => [("passes", .count passes)]
  | passFinished pass newProcedures newTargets =>
    [("pass", .count pass), ("new_functions", .count newProcedures),
      ("new_targets", .count newTargets)]
  | done => []

namespace Event

/--
The record of an event; strings and comments go into the image and not into the
log.
-/
def record? : Event → Option LogRecord
  | diagnosed procedure diagnostic =>
    some
      { severity := if diagnostic.isMinor then .info else .warning
        message := diagnostic.message
        fields :=
          [("function", .address procedure), ("kind", .text diagnostic.kind)] }
  | noted note =>
      some { severity := note.severity, message := note.message,
             fields := note.fields }
  | stringFound _ | commented _ _ => none

end Event

/-- The records of some events that are at least of the given severity. -/
def logOf (least : Severity) (events : List Event) : List LogRecord :=
  (events.filterMap Event.record?).filter (fun record =>
    least.rank ≤ record.severity.rank)

end ProcRecovery
