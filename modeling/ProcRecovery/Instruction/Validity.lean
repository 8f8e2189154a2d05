import ProcRecovery.Instruction.Basic

/-!
# Structural validity

Each operation asks for certain operands.  An instruction that does not have
them is defective, and the defect names the first rule it breaks.
-/

namespace ProcRecovery

/-- The rules an instruction can break. -/
inductive Defect where
  | notTwoOperands
  | sourceNotData
  | destinationNotWritable
  | notTwoData
  | sourceNotMemory
  | notOneData
  | operandNotWritable
  | notLoop
  | notBranch
  | notCall
  | notJump
  | notReturn
  | notTrapCode
  | unwantedOperands
  | notDispatch
  deriving Repr, DecidableEq

namespace Defect

/-- What the broken rule asks for. -/
def reason : Defect → String
  | notTwoOperands => "expected two operands"
  | sourceNotData => "source must be a data operand"
  | destinationNotWritable => "destination must be writable"
  | notTwoData => "expected two data operands"
  | sourceNotMemory => "source must be a memory reference"
  | notOneData => "expected one data operand"
  | operandNotWritable => "operand must be writable"
  | notLoop => "expected register and loop target"
  | notBranch => "expected a branch target"
  | notCall => "expected linkage register and call destination"
  | notJump => "expected a jump destination"
  | notReturn => "expected linkage register"
  | notTrapCode => "expected optional trap code"
  | unwantedOperands => "takes no operands"
  | notDispatch => "expected selector and dispatch targets"

end Defect

namespace Instruction

/-- The first rule that some operands break for an operation. -/
def operandDefect?
    (mnemonic : Mnemonic)
    (operands : List Operand) :
    Option Defect :=
  match mnemonic, operands with
  | .mov, [source, destination] | .add, [source, destination] | .sub,
    [source, destination] =>
    if source.isTarget then some .sourceNotData
    else if destination.isWritable then none
    else some .destinationNotWritable
  | .mov, _ | .add, _ | .sub, _ => some .notTwoOperands
  | .cmp, [first, second] | .chk, [first, second] =>
    if first.isTarget || second.isTarget then some .notTwoData else none
  | .cmp, _ | .chk, _ => some .notTwoData
  | .lea, [source, destination] =>
    if !source.isMemory then some .sourceNotMemory
    else if destination.isWritable then none
    else some .destinationNotWritable
  | .lea, _ => some .notTwoOperands
  | .inc, [operand] | .dec, [operand] | .clr, [operand] =>
    if operand.isTarget then some .notOneData
    else if operand.isWritable then none
    else some .operandNotWritable
  | .tst, [operand] => if operand.isTarget then some .notOneData else none
  | .inc, _ | .dec, _ | .clr, _ | .tst, _ => some .notOneData
  | .sob, [.register _, .target _] => none
  | .sob, _ => some .notLoop
  | .br, [.target _] | .branch _, [.target _] => none
  | .br, _ | .branch _, _ => some .notBranch
  | .jsr, [.register _, destination] =>
      if destination.isCallable then none else some .notCall
  | .jsr, _ => some .notCall
  | .jmp, [destination] =>
      if destination.isCallable then none else some .notJump
  | .jmp, _ => some .notJump
  | .rts, [.register _] => none
  | .rts, _ => some .notReturn
  | .trap, [] | .trap, [.immediate _] => none
  | .trap, _ => some .notTrapCode
  | .sev, [] => none
  | .sev, _ => some .unwantedOperands
  | .case, selector :: first :: rest =>
    if selector.isTarget || !(first :: rest).all Operand.isTarget
      then some .notDispatch
    else none
  | .case, _ => some .notDispatch
  | .other _, _ => none

/-- The first rule an instruction breaks. -/
def defect? (instruction : Instruction) : Option Defect :=
  operandDefect? instruction.mnemonic instruction.operands

/-- The message about a defect of an instruction. -/
def defectMessage (instruction : Instruction) (defect : Defect) : String :=
  "invalid `" ++ instruction.mnemonic.name ++ "` at " ++
    Numeral.markedHex instruction.lo ++
    ": " ++ defect.reason

/-! ## Operands of valid instructions -/

theorem operands_of_branch
    {instruction : Instruction} {condition : Condition}
    (valid : instruction.defect? = none)
    (branches : instruction.mnemonic = .branch condition) :
    ∃ address, instruction.operands = [.target address] := by
  rw [defect?, branches] at valid
  unfold operandDefect? at valid
  split at valid <;> simp_all

theorem operands_of_sev
    {instruction : Instruction}
    (valid : instruction.defect? = none)
    (requests : instruction.mnemonic = .sev) :
    instruction.operands = [] := by
  rw [defect?, requests] at valid
  unfold operandDefect? at valid
  split at valid <;> simp_all

theorem operands_of_trap
    {instruction : Instruction}
    (valid : instruction.defect? = none)
    (traps : instruction.mnemonic = .trap) :
    instruction.operands = [] ∨ ∃ code,
      instruction.operands = [.immediate code] := by
  rw [defect?, traps] at valid
  unfold operandDefect? at valid
  split at valid <;> simp_all

theorem operands_of_cmp
    {instruction : Instruction}
    (valid : instruction.defect? = none)
    (compares : instruction.mnemonic = .cmp) :
    ∃ first second, instruction.operands = [first, second] := by
  rw [defect?, compares] at valid
  unfold operandDefect? at valid
  split at valid <;> simp_all

end Instruction

end ProcRecovery
