import ProcRecovery.Text.Numeral

/-!
# Diagnostics

Code that does not look the way it should is no reason to stop: the oddity is
recorded against the procedure it was found in, and the analysis carries on
with a cautious result.
-/

namespace ProcRecovery

/-- A read of bytes that are not all in the image. -/
structure UnavailableRead where
  address : Nat
  length : Nat
  deriving Repr, DecidableEq

/-- What there is to say about a failed read. -/
def UnavailableRead.message (read : UnavailableRead) : String :=
  "memory unavailable at " ++ Numeral.markedHex4 read.address ++
    " (+" ++ Numeral.decimal read.length ++ ")"

/-- Oddities of the analyzed code. -/
inductive Diagnostic where
  | unrecognizedIdiom (address : Nat) (text : String)
  | unrecognizedStackEffect (address : Nat) (text : String)
  | stackTrackingLost (address : Nat)
  /--
  A block was entered at a level other than the one it was first reached with.
  -/
  | stackLevelSkew (address origin : Nat) (kept seen : Int)
  /-- Control goes where no node starts. -/
  | missingFlowTarget (address : Nat) (target : Option Nat)
  | memoryUnavailable (address : Nat) (read : UnavailableRead)
  | noPrologue (address : Nat)
  | unresolvedCall (address : Nat)
  | undecodableTarget (address target : Nat)
  deriving Repr, DecidableEq

namespace Diagnostic

/-- The address an oddity was observed at. -/
def address : Diagnostic → Nat
  | unrecognizedIdiom address _
  | unrecognizedStackEffect address _
  | stackTrackingLost address
  | stackLevelSkew address _ _ _
  | missingFlowTarget address _
  | memoryUnavailable address _
  | noPrologue address
  | unresolvedCall address
  | undecodableTarget address _ => address

/-- The name of a kind of oddity in a report. -/
def kind : Diagnostic → String
  | unrecognizedIdiom .. => "UnrecognizedIdiom"
  | unrecognizedStackEffect .. => "UnrecognizedStackEffect"
  | stackTrackingLost .. => "StackTrackingLost"
  | stackLevelSkew .. => "StackLevelSkew"
  | missingFlowTarget .. => "MissingFlowTarget"
  | memoryUnavailable .. => "MemoryUnavailable"
  | noPrologue .. => "NoPrologue"
  | unresolvedCall .. => "UnresolvedCall"
  | undecodableTarget .. => "UndecodableTarget"

/-- What there is to say about an oddity. -/
def message : Diagnostic → String
  | unrecognizedIdiom address text =>
    "unrecognized idiom at " ++ Numeral.markedHex4 address ++ ": `" ++ text ++
      "`"
  | unrecognizedStackEffect address text =>
    "unrecognized stack effect at " ++ Numeral.markedHex4 address ++ ": `" ++
      text ++ "`"
  | stackTrackingLost address =>
      "stack tracking lost at " ++ Numeral.markedHex4 address
  | stackLevelSkew address origin kept seen =>
    "stack level skew entering " ++ Numeral.markedHex4 address ++
      " from " ++ Numeral.markedHex4 origin ++
      ": kept " ++ Numeral.signedDecimal kept ++ ", saw " ++
        Numeral.signedDecimal seen
  | missingFlowTarget address target =>
    "flow from " ++ Numeral.markedHex4 address ++ " to " ++
      (match target with
        | some destination => Numeral.markedHex4 destination
        | none => "an unknown address") ++
      " has no node"
  | memoryUnavailable address read =>
    "read for " ++ Numeral.markedHex4 address ++ " failed: " ++ read.message
  | noPrologue address => "no valid prologue at " ++ Numeral.markedHex4 address
  | unresolvedCall address =>
    "call at " ++ Numeral.markedHex4 address ++ " has no static destination"
  | undecodableTarget address target =>
    "call at " ++ Numeral.markedHex4 address ++
      " targets undecodable " ++ Numeral.markedHex4 target

/-- Whether the oddity is only for information, and no warning. -/
def isMinor : Diagnostic → Bool
  | memoryUnavailable .. | unrecognizedIdiom .. => true
  | _ => false

end Diagnostic

end ProcRecovery
