/-!
# Runtime routines

The routines of the runtime library whose effect on the operand stack is known.
All of them take their arguments from the stack, and all but one remove them.
-/

namespace ProcRecovery

/-- Routines with a known effect on the operand stack. -/
inductive Routine where
  /--
  Copies a text of given address and length into a string.  Its arguments stay.
  -/
  | stringLiteral
  | longAdd
  | longSub
  | longMul
  | longDiv
  | longFromInt
  | stringConcat
  | writeString
  deriving Repr, DecidableEq

namespace Routine

/-- All routines. -/
def all : List Routine :=
  [stringLiteral, longAdd, longSub, longMul, longDiv, longFromInt,
    stringConcat, writeString]

/-- The name of a routine in a listing. -/
def name : Routine → String
  | stringLiteral => "string_literal"
  | longAdd => "long_add"
  | longSub => "long_sub"
  | longMul => "long_mul"
  | longDiv => "long_div"
  | longFromInt => "long_from_int"
  | stringConcat => "string_concat"
  | writeString => "write_string"

/-- The routine with a name. -/
def ofName? (name : String) : Option Routine :=
  all.find? (fun routine => routine.name = name)

/-- Widths of the arguments in bytes, top of the stack first. -/
def argumentWidths : Routine → List Nat
  | stringLiteral => [2, 2, 2]
  | longAdd | longSub | longMul | longDiv => [4, 4]
  | longFromInt | writeString => [2]
  | stringConcat => [2, 2]

/-- Width of all arguments together in bytes. -/
def argumentBytes (routine : Routine) : Nat :=
  routine.argumentWidths.foldr (· + ·) 0

/-- Whether the routine removes its arguments from the stack. -/
def popsArguments (routine : Routine) : Bool := routine ≠ stringLiteral

/-- Width of the result in bytes. -/
def resultWidth : Routine → Nat
  | longAdd | longSub | longMul | longDiv | longFromInt => 4
  | stringConcat => 2
  | stringLiteral | writeString => 0

/-- Net change of the stack pointer over a call. -/
def stackDelta (routine : Routine) : Int :=
  if routine.popsArguments then
    (routine.argumentBytes : Int) - routine.resultWidth else 0

theorem ofName?_name
    (routine : Routine) :
    ofName? routine.name = some routine := by
  cases routine <;> rfl

end Routine

end ProcRecovery
