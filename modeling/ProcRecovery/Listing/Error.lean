import ProcRecovery.Instruction.Validity

/-!
# Rejected listings

The reasons for which a listing text is rejected, each with the line it was
found on.
-/

namespace ProcRecovery

/-- Why a listing text is rejected. -/
inductive ListingError where
  | missingHeader
  | missingCode
  | unknownSection (line : Nat) (text : String)
  | badNumber (line : Nat) (text : String)
  | unknownRegister (line : Nat) (text : String)
  | malformedOperand (line : Nat) (text : String)
  | malformedLine (line : Nat) (text : String)
  | invalidInstruction
      (line : Nat)
      (instruction : Instruction)
      (defect : Defect)
  | overlap (line address other : Nat)
  deriving Repr, DecidableEq

namespace ListingError

/-- What there is to say about a rejected listing. -/
def message : ListingError → String
  | missingHeader => "listing must start with a `LISTING <name>` header"
  | missingCode => "listing has no CODE section"
  | unknownSection line text =>
      located line ("unknown section `" ++ text ++ "`")
  | badNumber line text => located line ("bad number `" ++ text ++ "`")
  | unknownRegister line text =>
      located line ("unknown register `" ++ text ++ "`")
  | malformedOperand line text =>
      located line ("malformed operand `" ++ text ++ "`")
  | malformedLine line text => located line ("malformed line `" ++ text ++ "`")
  | invalidInstruction line instruction defect =>
    located line (instruction.defectMessage defect)
  | overlap line address other =>
    located line ("instruction at " ++ Numeral.markedHex4 address ++
      " overlaps the one at " ++ Numeral.markedHex4 other)
where
  /-- A message with the line it is about. -/
  located (line : Nat) (text : String) : String :=
    "line " ++ Numeral.decimal line ++ ": " ++ text

end ListingError

/--
Why reading a listing ended early: the text was rejected, or reading it broke a
promise.
-/
inductive Interruption where
  | rejected (error : ListingError)
  | fault (fault : Fault)
  deriving Repr, DecidableEq

/-- The outcome of reading a part of a listing. -/
abbrev Reading (α : Type) := Except Interruption α

/-- Reject the text. -/
def reject
    {α : Type}
    (error : ListingError) :
    Reading α :=
  .error (.rejected error)

/-- The value, or a rejection where there is none. -/
def orReject {α : Type} (error : ListingError) : Option α → Reading α
  | some value => .ok value
  | none => reject error

end ProcRecovery
