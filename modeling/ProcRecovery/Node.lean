import ProcRecovery.Abutting
import ProcRecovery.Instruction.Basic
import ProcRecovery.PseudoOp

/-!
# Nodes

A procedure body is a list of nodes.  A node is one machine instruction, or a
pseudo-operation that stands for a run of instructions.  Either way it owns its
instructions, so a body covers the same bytes before and after idioms have been
recognized.
-/

namespace ProcRecovery

/-- An element of a procedure body. -/
structure Node where
  /--
  The pseudo-operation, unless the node is a machine instruction as it is.
  -/
  op : Option PseudoOp
  /-- The first of the instructions the node stands for. -/
  first : Instruction
  /-- The instructions after the first, in address order. -/
  rest : List Instruction
  /-- Movement of the stack pointer over the node. -/
  stackDelta : Int := 0
  /--
  Stack level on entry to the node, relative to the level at procedure entry.
  -/
  stackLevel : Resolution Int := .notComputed
  /-- Rendered symbolic stack after the node, once it has been replayed. -/
  stackAfter : Option String := none
  deriving Repr, DecidableEq

namespace Node

/-- The instructions the node stands for. -/
def instructions (node : Node) : List Instruction := node.first :: node.rest

/-- Address of the first byte of the node. -/
def lo (node : Node) : Nat := node.first.lo

/-- Address one past the last byte of the node. -/
def hi (node : Node) : Nat := (node.rest.getLast?.getD node.first).hi

/-- The node of a single machine instruction. -/
def raw (instruction : Instruction) : Node where
  op := none
  first := instruction
  rest := []

/--
The node that stands for a run of instructions, which must not be empty and
must abut.
-/
def wrap (op : Option PseudoOp) : List Instruction → Except Fault Node
  | [] => .error .emptyRun
  | first :: rest =>
    if Abutting Instruction.lo Instruction.hi (first :: rest)
      then .ok { op, first, rest }
    else .error (.brokenRun first.lo)

/--
The ways in which control leaves a node.  Pseudo-operations fall through, apart
from those that leave the procedure.  Nothing but the operation and the
instructions decides this, so a node does not carry its ways along.
-/
def flow (node : Node) : List Flow :=
  match node.op with
  | none => node.first.flow
  | some .epilogue | some (.bailout _) => []
  | some (.call destination _ _) =>
      [⟨.call, destination.value?⟩, ⟨.normal, some node.hi⟩]
  | some _ => [⟨.normal, some node.hi⟩]

/-- The instruction of a node that stands for a single one. -/
def raw? (node : Node) : Option Instruction :=
  match node.op with
  | none => some node.first
  | some _ => none

/-- Whether control leaves the node only by falling through, calls apart. -/
def fallsThroughOnly (node : Node) : Bool :=
  (node.flow.filter (fun way => way.kind ≠ .call)).all
      (fun way => way = ⟨.normal, some node.hi⟩) &&
    node.flow.any (fun way => way.kind = .normal)

/-- The text of the operation of a node. -/
def opText (node : Node) : String :=
  match node.op with
  | some op => op.text
  | none => "insn"

/-- The text of a node in a report. -/
def text (node : Node) : String :=
  match node.op with
  | some op => op.text
  | none => node.first.text

@[simp]
theorem instructions_raw (instruction : Instruction) :
    (raw instruction).instructions = [instruction] := rfl

@[simp]
theorem raw?_raw
    (instruction : Instruction) :
    (raw instruction).raw? = some instruction := rfl

theorem raw?_eq_some_iff {node : Node} {instruction : Instruction} :
    node.raw? = some instruction ↔
      node.op = none ∧ node.first = instruction := by
  unfold raw?
  split
  next isNone => simp [isNone]
  next op isOp => simp [isOp]

/-- A node that stands for a single instruction owns nothing else. -/
theorem instructions_of_raw?
    {node : Node}
    (plain : node.op = none → node.rest = [])
    {instruction : Instruction}
    (isRaw : node.raw? = some instruction) :
    node.instructions = [instruction] := by
  obtain ⟨isNone, rfl⟩ := raw?_eq_some_iff.mp isRaw
  rw [instructions, plain isNone]

/-- A wrapped run is owned whole. -/
theorem instructions_of_wrap
    {op : Option PseudoOp} {run : List Instruction} {node : Node}
    (wrapped : wrap op run = .ok node) :
    node.instructions = run := by
  cases run with
  | nil => simp [wrap] at wrapped
  | cons first rest =>
    simp only [wrap] at wrapped
    split at wrapped
    · cases wrapped
      rfl
    · cases wrapped

/-- A wrapped run stands for the operation it was wrapped in. -/
theorem op_of_wrap
    {op : Option PseudoOp} {run : List Instruction} {node : Node}
    (wrapped : wrap op run = .ok node) :
    node.op = op := by
  cases run with
  | nil => simp [wrap] at wrapped
  | cons first rest =>
    simp only [wrap] at wrapped
    split at wrapped
    · cases wrapped
      rfl
    · cases wrapped

end Node

end ProcRecovery
