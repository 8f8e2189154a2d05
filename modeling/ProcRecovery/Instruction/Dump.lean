import ProcRecovery.Instruction.Basic
import ProcRecovery.Text.Quoted

/-!
# Instruction dumps

A dump spells out everything that is known about an instruction on one line.
-/

namespace ProcRecovery

/-- The word for a kind of flow in a dump. -/
def FlowKind.dump : FlowKind → String
  | normal => "Normal"
  | call => "Call"
  | conditional => "Conditional"
  | unconditional => "Unconditional"

/-- The dump of one way out of an instruction. -/
def Flow.dump (flow : Flow) : String :=
  let destination :=
    match flow.destination with
    | some address => "Some(" ++ Numeral.decimal address ++ ")"
    | none => "None"
  "Flow \x7b kind: " ++ flow.kind.dump ++ ", to: " ++ destination ++ " \x7d"

/-- The dump of an instruction. -/
def Instruction.dump (instruction : Instruction) : String :=
  "Instruction \x7b lo: " ++ Numeral.markedHex instruction.lo ++
    ", hi: " ++ Numeral.markedHex instruction.hi ++
    ", text: " ++ Text.quoted instruction.text ++
    ", flow: [" ++ String.intercalate ", " (instruction.flow.map Flow.dump) ++
      "] \x7d"

end ProcRecovery
