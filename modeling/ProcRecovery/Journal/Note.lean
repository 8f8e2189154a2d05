import ProcRecovery.Text.Numeral

/-!
# Notes

The milestones of an analysis that are of interest to someone who follows it,
and to nothing else.
-/

namespace ProcRecovery

/-- A milestone of the analysis. -/
inductive Note where
  | entryWithoutCode (address : Nat)
  | listingLifted (name : String) (instructions : Nat)
  | nothingToDecode (address : Nat)
  | decoded (first stop : Nat)
  | idiomMatched (name : String) (address : Nat)
  | registersCached (address registers : Nat)
  | levelSettled (block : Nat) (level : Int)
  | callResult (site : Nat) (routine result : String)
  | stringArgumentsUnknown (site : Nat)
  | stringDestinationUnknown (site : Nat)
  | analysisStarted (entry nodes : Nat)
  | analysisFinished (entry nodes blocks locals calls : Nat)
  | bodyEnds (entry address : Nat)
  | procedureFound (entry stop : Nat) (name : Option String)
  | discoveryCutShort (passes : Nat)
  | passFinished (pass newProcedures newTargets : Nat)
  | done
  deriving Repr, DecidableEq

/-- How much attention a record asks for. -/
inductive Severity where
  | trace
  | debug
  | info
  | warning
  deriving Repr, DecidableEq

namespace Severity

/-- Severities in ascending order. -/
def rank : Severity → Nat
  | trace => 0
  | debug => 1
  | info => 2
  | warning => 3

/-- The short name of a severity in a log. -/
def tag : Severity → String
  | trace => "TRCE"
  | debug => "DEBG"
  | info => "INFO"
  | warning => "WARN"

/--
The least severity that is logged when more detail has been asked for a number
of times.
-/
def threshold : Nat → Severity
  | 0 => warning
  | 1 => info
  | 2 => debug
  | _ => trace

end Severity

namespace Note

/-- How much attention a milestone asks for. -/
def severity : Note → Severity
  | entryWithoutCode .. | discoveryCutShort .. => .warning
  | listingLifted .. | analysisFinished .. | passFinished .. => .info
  | nothingToDecode .. | registersCached .. | stringArgumentsUnknown .. =>
      .debug
  | stringDestinationUnknown .. | analysisStarted .. | bodyEnds ..
  | procedureFound .. => .debug
  | decoded .. | idiomMatched .. | levelSettled .. | callResult .. | done =>
      .trace

/-- The wording of a milestone. -/
def message : Note → String
  | entryWithoutCode .. => "Entry point has no code"
  | listingLifted .. => "Lifted listing"
  | nothingToDecode .. => "Nothing to decode"
  | decoded .. => "Decoded"
  | idiomMatched .. => "Matched idiom"
  | registersCached .. => "Register cache"
  | levelSettled .. => "Stack level"
  | callResult .. => "Call result"
  | stringArgumentsUnknown .. => "String literal arguments not recovered"
  | stringDestinationUnknown .. => "String literal destination not recovered"
  | analysisStarted .. => "Analyzing function"
  | analysisFinished .. => "Analyzed function"
  | bodyEnds .. => "Function body ends at undecodable address"
  | procedureFound .. => "Discovered function"
  | discoveryCutShort .. => "Discovery did not converge"
  | passFinished .. => "Discovery pass"
  | done => "Done"

end Note

end ProcRecovery
