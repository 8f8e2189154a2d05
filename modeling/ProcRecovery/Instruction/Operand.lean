import ProcRecovery.Instruction.Mnemonic
import ProcRecovery.Instruction.Register

/-!
# Operands

One constructor for each addressing mode, and the resolved destination of a
jump as a mode of its own.
-/

namespace ProcRecovery

/-- What an instruction works on. -/
inductive Operand where
  /-- The register itself. -/
  | register (base : Register)
  /-- The memory the register points at. -/
  | deferred (base : Register)
  /--
  The memory the register points at, the register moving up past it afterwards.
  -/
  | autoIncrement (base : Register)
  /-- The register moves down first, then the memory it points at. -/
  | autoDecrement (base : Register)
  /-- The memory at a displacement from the register. -/
  | indexed (displacement : Int) (base : Register)
  /--
  The memory that the pointer at a displacement from the register points at.
  -/
  | indexedDeferred (displacement : Int) (base : Register)
  /-- A literal. -/
  | immediate (value : Int)
  /-- The memory at a fixed address. -/
  | absolute (address : Nat)
  /-- A resolved branch, jump or call destination. -/
  | target (address : Nat)
  deriving Repr, DecidableEq

namespace Operand

/-- The register the operand addresses through. -/
def base? : Operand → Option Register
  | register base | deferred base | autoIncrement base | autoDecrement base =>
      some base
  | indexed _ base | indexedDeferred _ base => some base
  | immediate _ | absolute _ | target _ => none

/-- The register that evaluating the operand moves. -/
def movedRegister? : Operand → Option Register
  | autoIncrement base | autoDecrement base => some base
  | _ => none

/-- The fixed address the operand refers to, for jumps and calls. -/
def staticAddress? : Operand → Option Nat
  | target address | absolute address => some address
  | _ => none

/-- The literal the operand stands for. -/
def immediate? : Operand → Option Int
  | immediate value => some value
  | _ => none

/-- The destination the operand stands for. -/
def target? : Operand → Option Nat
  | target address => some address
  | _ => none

/-- The general register the operand names. -/
def general? : Operand → Option Register
  | register base => if base.isGeneral then some base else none
  | _ => none

/-- Whether the operand is a jump destination rather than data. -/
def isTarget (operand : Operand) : Bool := operand.target?.isSome

/-- Whether an instruction can store into the operand. -/
def isWritable : Operand → Bool
  | immediate _ | target _ => false
  | _ => true

/-- Whether control can be passed to where the operand points. -/
def isCallable : Operand → Bool
  | register _ | immediate _ => false
  | _ => true

/-- Whether the operand is a place in memory. -/
def isMemory : Operand → Bool
  | register _ | immediate _ | target _ => false
  | _ => true

/--
The number of words the operand takes up after the first word of an
instruction.  A destination takes one in calls, jumps and dispatch tables, and
none in branches, which hold it in their first word.
-/
def extensionWords (mnemonic : Mnemonic) : Operand → Nat
  | immediate _ | indexed _ _ | indexedDeferred _ _ | absolute _ => 1
  | target _ =>
      if mnemonic = .jsr ∨ mnemonic = .jmp ∨ mnemonic = .case then 1 else 0
  | register _ | deferred _ | autoIncrement _ | autoDecrement _ => 0

/-- The text of an operand in a listing. -/
def text : Operand → String
  | register base => base.name
  | deferred base => "(" ++ base.name ++ ")"
  | autoIncrement base => "(" ++ base.name ++ ")+"
  | autoDecrement base => "-(" ++ base.name ++ ")"
  | indexed displacement base =>
    Numeral.signedDecimal displacement ++ "(" ++ base.name ++ ")"
  | indexedDeferred displacement base =>
    "@" ++ Numeral.signedDecimal displacement ++ "(" ++ base.name ++ ")"
  | immediate value => "#" ++ Numeral.signedDecimal value
  | absolute address => "@#" ++ Numeral.markedHex4 address
  | target address => Numeral.markedHex4 address

end Operand

end ProcRecovery
