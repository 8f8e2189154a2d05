import ProcRecovery.Journal.Event
import ProcRecovery.Node
import ProcRecovery.Options

/-!
# What idioms leave over

Loop, trap and check instructions that no idiom accounts for, and literal bytes
that are not in the image, are reported.
-/

namespace ProcRecovery.Idiom

/-- Whether an operation only makes sense as part of an idiom. -/
def isIdiomatic : Mnemonic → Bool
  | .sob | .trap | .sev | .chk => true
  | _ => false

/--
The oddity of a machine instruction that should have been part of an idiom.
-/
def leftover? (node : Node) : Option Diagnostic := do
  let instruction ← node.raw?
  if isIdiomatic instruction.mnemonic then
    some (.unrecognizedIdiom instruction.lo instruction.text)
  else none

/-- The oddity of a literal whose bytes could not be read. -/
def unreadable? (node : Node) : Option Diagnostic :=
  match node.op with
  | some (.blob width (some source) _ .unrecoverable)
  | some (.stringLiteral source width .unrecoverable) =>
    some (.memoryUnavailable node.lo ⟨source, width⟩)
  | _ => none

/-- Report the instructions that should have been part of an idiom. -/
def reportLeftovers
    (options : Options)
    (procedure : Nat)
    (body : List Node) :
    List Event :=
  if options.reportsLeftovers
    then (body.filterMap leftover?).map (Event.diagnosed procedure)
  else []

/-- Report the literals whose bytes could not be read. -/
def reportUnreadable (procedure : Nat) (body : List Node) : List Event :=
  (body.filterMap unreadable?).map (Event.diagnosed procedure)

end ProcRecovery.Idiom
