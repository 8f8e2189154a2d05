import ProcRecovery.Instruction.Basic

/-!
# Instruction shapes

The small patterns that compiled idioms are made of.
-/

namespace ProcRecovery

namespace Instruction

/-- Whether the instruction works on words. -/
def isWord (instruction : Instruction) : Bool := instruction.width = .word

/--
Whether two instructions save the frame pointer and set it to the stack
pointer, which is how every procedure starts.
-/
def isFrameSetup (save set : Instruction) : Bool :=
  save.isWord && set.isWord &&
    save.mnemonic = .mov && save.operands =
      [.register .fp, .autoDecrement .sp] &&
    set.mnemonic = .mov && set.operands = [.register .sp, .register .fp]

/--
The literal and the general register of an instruction that loads one with the
other.
-/
def load? (instruction : Instruction) : Option (Int × Register) :=
  match instruction.mnemonic, instruction.operands with
  | .mov, [source, destination] =>
    if instruction.isWord then do
      return (← source.immediate?, ← destination.general?)
    else none
  | _, _ => none

/-- The count register and the destination of a loop instruction. -/
def loop? (instruction : Instruction) : Option (Register × Nat) :=
  match instruction.mnemonic, instruction.operands with
  | .sob, [counter, destination] =>
      do return (← counter.general?, ← destination.target?)
  | _, _ => none

/-- The source and the destination of a move of any width. -/
def move? (instruction : Instruction) : Option (Operand × Operand) :=
  match instruction.mnemonic, instruction.operands with
  | .mov, [source, destination] => some (source, destination)
  | _, _ => none

/--
Whether the instruction moves the stack pointer by an operand or writes it.
-/
def movesStack (instruction : Instruction) : Bool :=
  instruction.destination? = some (.register .sp) ||
    instruction.operands.any (fun operand => operand.movedRegister? = some .sp)

/--
The destination of a conditional branch or jump that has one as its first
operand.
-/
def firstTarget? (instruction : Instruction) : Option Nat :=
  instruction.operands.head?.bind Operand.target?

/-- Whether the instruction is a conditional branch. -/
def isBranch (instruction : Instruction) : Bool :=
  match instruction.mnemonic with
  | .branch _ => true
  | _ => false

end Instruction

/--
The bytes moved by a loop with a count of units and some units outside the
loop, as long as they fit in the address space.
-/
def loopBytes? (count : Int) (extra : Nat) (unit : Width) : Option Nat :=
  let bytes := (count.toNat + extra) * unit.bytes
  if 0 < count ∧ bytes ≤ addressSpace then some bytes else none

/--
Whether four instructions compare the stack pointer with a limit, branch past a
trap if it is higher, and trap otherwise.
-/
def isStackCheck : List Instruction → Bool
  | [compare, branch, request, trap] =>
    compare.mnemonic = .cmp && compare.operands.head? = some (.register .sp) &&
      branch.mnemonic = .branch .higher &&
      branch.firstTarget? = some trap.hi &&
      request.mnemonic = .sev && trap.mnemonic = .trap
  | _ => false

/-- A loop that moves units, as far as its instructions tell. -/
structure CountedLoop where
  count : Int
  counter : Register
  unit : Width
  source : Operand
  destination : Operand
  deriving Repr, DecidableEq

/--
The loop made of a load of its counter, a move, and a step back to the move.
The move must not use the counter.
-/
def CountedLoop.ofInstructions?
    (load move step : Instruction) :
    Option CountedLoop := do
  let (count, counter) ← load.load?
  let (source, destination) ← move.move?
  let (stepped, start) ← step.loop?
  if counter = stepped ∧ start = move.lo ∧ move.mentions counter = false then
    some { count, counter, unit := move.width, source, destination }
  else
    none

end ProcRecovery
