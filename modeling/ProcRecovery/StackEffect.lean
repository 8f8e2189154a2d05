import ProcRecovery.Journal.Event
import ProcRecovery.Node

/-!
# Stack effects

How far a node moves the stack pointer.  A positive effect takes bytes off the
stack and a negative one puts bytes on it.  An instruction that changes the
stack pointer in any way not understood has no known effect.
-/

namespace ProcRecovery

/-- The movement of the stack pointer over an instruction or a node. -/
inductive StackEffect where
  | delta (bytes : Int)
  /-- The stack pointer is touched in a way that is not understood. -/
  | unrecognized
  deriving Repr, DecidableEq

namespace StackEffect

/--
The effect of adding a literal to the stack pointer, as long as it stays in the
address space.
-/
def ofAdjustment (bytes : Int) : StackEffect :=
  if bytes.natAbs < addressSpace then delta bytes else unrecognized

end StackEffect

/--
The movement of the stack pointer by one operand of an instruction with units
of some size.
-/
def Operand.stackMovement (unit : Nat) : Operand → Int
  | autoDecrement base => if base = .sp then -(unit : Int) else 0
  | autoIncrement base => if base = .sp then unit else 0
  | _ => 0

/-- The movement of the stack pointer by some operands together. -/
def Operand.stackMovements (unit : Nat) : List Operand → Int
  | [] => 0
  | operand :: later => operand.stackMovement unit + stackMovements unit later

namespace Instruction

/--
The stack effect of an instruction whose operands move the stack pointer, if
anything does.
-/
def operandEffect (instruction : Instruction) : StackEffect :=
  if instruction.destination? = some (.register .sp) then .unrecognized
  else
    .delta
      (Operand.stackMovements instruction.width.bytes instruction.operands)

/--
The stack effect of an instruction.  A call consumes the return address it
pushes.
-/
def stackEffect (instruction : Instruction) : StackEffect :=
  match instruction.mnemonic, instruction.operands with
  | .add, [.immediate bytes, .register base] =>
    if base = .sp then .ofAdjustment bytes else instruction.operandEffect
  | .sub, [.immediate bytes, .register base] =>
    if base = .sp then .ofAdjustment (-bytes) else instruction.operandEffect
  | .jsr, _ | .rts, _ => .delta 0
  | .other _, _ =>
    if instruction.mentions .sp then .unrecognized
      else instruction.operandEffect
  | _, _ => instruction.operandEffect

end Instruction

namespace Node

/--
The stack effect of a node in a procedure whose prologue allocates a frame of
some size.
-/
def stackEffect (node : Node) (frameSize : Nat) : Except Fault StackEffect :=
  match node.op with
  | none => .ok node.first.stackEffect
  | some (.prologue ownFrame) => do
    let size ← signedOr .deltaOverflow (2 + signedReading ownFrame)
    return .delta (-size)
  | some .epilogue =>
      return .delta (← signedOr .deltaOverflow (2 + signedReading frameSize))
  | some (.blob width _ .push _) =>
    return .delta (← signedOr .deltaOverflow (-signedReading width))
  | some (.blob width _ .pop _) => .ok (.delta (signedReading width))
  | some (.stringLiteral _ width _) =>
    return .delta (← signedOr .deltaOverflow (-signedReading width))
  | some (.constantPush width _) => .ok (.delta (-(width.bytes : Int)))
  | some (.stackAdjust bytes) => .ok (.delta bytes)
  | some (.stackReference _) | some (.frameReference _) => .ok (.delta (-2))
  | some (.call _ _ routine) =>
      .ok (.delta ((routine.map Routine.stackDelta).getD 0))
  | some (.registerCache _) | some .stackCheck | some .limitCheck =>
      .ok (.delta 0)
  | some .allocationCheck | some (.blockMove _ _ _) | some (.bailout _) =>
      .ok (.delta 0)

/--
Give a node its stack effect.  One that is not understood is reported and
counts as none.
-/
def assignDelta (frameSize procedure : Nat) (node : Node) : Traced Node := do
  match ← Traced.ofExcept (node.stackEffect frameSize) with
  | .delta bytes => return { node with stackDelta := bytes }
  | .unrecognized =>
    Traced.report procedure (.unrecognizedStackEffect node.lo node.text)
    return { node with stackDelta := 0 }

end Node

/-- Give every node of a body its stack effect. -/
def assignDeltas
    (frameSize procedure : Nat)
    (body : List Node) :
    Traced (List Node) :=
  body.mapM (Node.assignDelta frameSize procedure)

end ProcRecovery
