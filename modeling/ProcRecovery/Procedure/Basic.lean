import ProcRecovery.FrameSlot
import ProcRecovery.Graph.Basic
import ProcRecovery.Image.Basic

/-!
# Procedures

A procedure is a contiguous run of instructions, and after its analysis
everything that was found out about it.
-/

namespace ProcRecovery

/-- A call found in a procedure body. -/
structure CallSite where
  /-- Address of the call. -/
  address : Nat
  /-- Entry of the procedure that calls. -/
  caller : Nat
  destination : Resolution Nat
  label : Option String
  deriving Repr, DecidableEq

/-- How far the analysis of a procedure has come. -/
inductive Progress where
  | pending
  | analyzed
  /-- The analysis was attempted and gave up for lack of a prologue. -/
  | failed
  deriving Repr, DecidableEq

/-- A recovered procedure. -/
structure Procedure where
  lo : Nat
  hi : Nat
  body : List Node
  /-- Addresses of the trap instructions. -/
  traps : Table Nat Unit := ∅
  slots : FrameSlots := ∅
  /-- Bytes of locals that the prologue allocates. -/
  frameSize : Option Nat := none
  graph : Graph := {}
  calls : List CallSite := []
  progress : Progress := .pending
  /-- Where symbolic tracking of the stack was abandoned, if it was. -/
  trackingLostAt : Option Nat := none
  deriving DecidableEq

namespace Procedure

/-- The procedure of a run of instructions, before its analysis. -/
def ofInstructions (instructions : List Instruction) : Procedure :=
  let lo := (instructions.head?.map Instruction.lo).getD 0
  { lo
    hi := (instructions.getLast?.map Instruction.hi).getD lo
    body := instructions.map Node.raw
    traps := Table.ofList ((instructions.filter (fun instruction =>
      instruction.mnemonic = .trap)).map (fun instruction =>
        (instruction.lo, ()))) }

/-- Whether an address lies in the range of a procedure. -/
def contains (procedure : Procedure) (address : Nat) : Bool :=
  procedure.lo ≤ address && address < procedure.hi

/-- The label of a procedure. -/
def label? (procedure : Procedure) (image : Image) : Option String :=
  image.labels.get? procedure.lo

end Procedure

/-- The call that a node makes in the procedure with the given entry. -/
def Node.callSite? (caller : Nat) (node : Node) : Option CallSite :=
  match node.op with
  | some (.call destination label _) =>
      some { address := node.lo, caller, destination, label }
  | _ => none

end ProcRecovery
