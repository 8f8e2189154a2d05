import ProcRecovery.Fault
import ProcRecovery.Instruction.Operand

/-!
# Instructions

An instruction knows the bytes it occupies, its operation and its operands.
Where control goes after it follows from these.  Replacing operands by what is
known about them keeps the extent, because the encoding is still the same.
-/

namespace ProcRecovery

/-- The kinds of ways in which control leaves an instruction. -/
inductive FlowKind where
  /-- Falling through into the next instruction. -/
  | normal
  /-- Calling a subroutine, which comes back. -/
  | call
  | conditional
  | unconditional
  deriving Repr, DecidableEq

/--
One way in which control leaves an instruction, with its destination if that is
fixed.
-/
structure Flow where
  kind : FlowKind
  destination : Option Nat
  deriving Repr, DecidableEq

/-- A decoded machine instruction. -/
structure Instruction where
  /-- Address of the first byte. -/
  lo : Nat
  /-- Address one past the last byte, an inline dispatch table included. -/
  hi : Nat
  mnemonic : Mnemonic
  width : Width
  operands : List Operand
  lo_lt_hi : lo < hi
  deriving Repr, DecidableEq

namespace Instruction

/--
The number of words that operands take up after the first word of an
instruction.
-/
def extensionCount (mnemonic : Mnemonic) : List Operand → Nat
  | [] => 0
  | operand :: later =>
      operand.extensionWords mnemonic + extensionCount mnemonic later

/-- The number of words an instruction with these operands takes up. -/
def wordCount (mnemonic : Mnemonic) (operands : List Operand) : Nat :=
  1 + extensionCount mnemonic operands

/--
The instruction at an address, which has to end within the range of an address
word.
-/
def assemble
    (lo : Nat)
    (mnemonic : Mnemonic)
    (width : Width)
    (operands : List Operand) :
    Except Fault Instruction :=
  if FitsUnsigned (lo + 2 * wordCount mnemonic operands) then
    .ok
      { lo
        hi := lo + 2 * wordCount mnemonic operands
        mnemonic
        width
        operands
        lo_lt_hi := by unfold wordCount; omega }
  else
    .error (.extentOverflow lo)

/-- The same instruction with other operands in the same place. -/
def withOperands
    (instruction : Instruction)
    (operands : List Operand) :
    Instruction :=
  { instruction with operands }

/--
The ways in which control leaves an instruction, in the order of its encoding.
-/
def flow (instruction : Instruction) : List Flow :=
  let next : Flow := ⟨.normal, some instruction.hi⟩
  let destination (position : Nat) : Option Nat :=
    instruction.operands[position]?.bind Operand.staticAddress?
  match instruction.mnemonic with
  | .branch _ | .sob =>
      [next, ⟨.conditional, destination (instruction.operands.length - 1)⟩]
  | .br | .jmp => [⟨.unconditional, destination 0⟩]
  | .jsr => [⟨.call, destination 1⟩, next]
  | .rts | .trap => []
  | .case =>
    (instruction.operands.drop 1).map
      (fun operand => ⟨.unconditional, operand.staticAddress?⟩)
  | _ => [next]

/-- The position of the operand that the instruction stores into. -/
def destinationIndex? (instruction : Instruction) : Option Nat :=
  let position :=
    match instruction.mnemonic with
    | .mov | .add | .sub | .lea => some 1
    | .inc | .dec | .clr => some 0
    | _ => none
  position.filter (· < instruction.operands.length)

/-- The operand that the instruction stores into. -/
def destination? (instruction : Instruction) : Option Operand :=
  instruction.destinationIndex?.bind (fun position =>
    instruction.operands[position]?)

/--
How often the instruction changes a register: as its destination or loop
counter, and by every operand that moves it.
-/
def registerWrites (instruction : Instruction) (register : Register) : Nat :=
  let direct :=
    if instruction.destination? = some (.register register) then 1
    else if instruction.mnemonic = .sob ∧
        instruction.operands.head? = some (.register register) then 1
    else 0
  direct + instruction.operands.countP (fun operand =>
    operand.movedRegister? = some register)

/-- Whether any operand addresses through a register. -/
def mentions (instruction : Instruction) (register : Register) : Bool :=
  instruction.operands.any (fun operand => operand.base? = some register)

/-- Whether the instruction returns to the caller. -/
def isReturn (instruction : Instruction) : Bool := instruction.mnemonic = .rts

/-- The text of an instruction in a listing. -/
def text (instruction : Instruction) : String :=
  let operands := instruction.operands.map Operand.text
  instruction.mnemonic.name ++ instruction.width.suffix ++
    (if operands.isEmpty then "" else " " ++ String.intercalate "," operands)

@[simp]
theorem lo_withOperands (instruction : Instruction) (operands : List Operand) :
    (instruction.withOperands operands).lo = instruction.lo := rfl

@[simp]
theorem hi_withOperands (instruction : Instruction) (operands : List Operand) :
    (instruction.withOperands operands).hi = instruction.hi := rfl

@[simp]
theorem operands_withOperands
    (instruction : Instruction)
    (operands : List Operand) :
    (instruction.withOperands operands).operands = operands := rfl

end Instruction

end ProcRecovery
