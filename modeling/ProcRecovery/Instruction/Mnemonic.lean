import ProcRecovery.Instruction.Width
import ProcRecovery.Text.Blank

/-!
# Mnemonics

The operations the analysis knows, and a catch-all for the rest.  The
arithmetic operations take a width suffix; a name that is not a known
operation, with or without a suffix, stands for itself at word width.
-/

namespace ProcRecovery

/-- Branch conditions, named after the test they perform. -/
inductive Condition where
  | notEqual
  | equal
  | higher
  | lowerOrSame
  | higherOrSame
  | lower
  | greaterOrEqual
  | lessThan
  | greaterThan
  | lessOrEqual
  | plus
  | minus
  | overflowClear
  | overflowSet
  deriving Repr, DecidableEq

namespace Condition

/-- All conditions. -/
def all : List Condition :=
  [notEqual, equal, higher, lowerOrSame, higherOrSame, lower, greaterOrEqual,
    lessThan,
    greaterThan, lessOrEqual, plus, minus, overflowClear, overflowSet]

/-- The name of the branch that tests a condition. -/
def branchName : Condition → String
  | notEqual => "bne"
  | equal => "beq"
  | higher => "bhi"
  | lowerOrSame => "blos"
  | higherOrSame => "bhis"
  | lower => "blo"
  | greaterOrEqual => "bge"
  | lessThan => "blt"
  | greaterThan => "bgt"
  | lessOrEqual => "ble"
  | plus => "bpl"
  | minus => "bmi"
  | overflowClear => "bvc"
  | overflowSet => "bvs"

end Condition

/-- The operation an instruction performs. -/
inductive Mnemonic where
  | mov
  | add
  | sub
  | cmp
  | inc
  | dec
  | clr
  | tst
  /-- Load the effective address of the source into the destination. -/
  | lea
  /-- Bounds check, which traps by itself when the operand is out of bounds. -/
  | chk
  /--
  Subtract one from a register and branch back while the result is not zero.
  -/
  | sob
  /-- Unconditional branch. -/
  | br
  | branch (condition : Condition)
  | jsr
  | rts
  | jmp
  /-- Software interrupt, by which the runtime reports failed checks. -/
  | trap
  /-- Set the overflow flag, which requests a trap. -/
  | sev
  /-- Multi-way dispatch through the table that follows the instruction. -/
  | case
  /-- Anything the analysis knows nothing special about. -/
  | other (name : String)
  deriving Repr, DecidableEq

namespace Mnemonic

/-- The known operations that are not conditional branches. -/
def plain : List Mnemonic :=
  [mov, add, sub, cmp, inc, dec, clr, tst, lea, chk, sob, br, jsr, rts, jmp,
    trap, sev, case]

/-- All known operations. -/
def known : List Mnemonic := plain ++ Condition.all.map branch

/-- The name of an operation without its width suffix. -/
def name : Mnemonic → String
  | mov => "mov"
  | add => "add"
  | sub => "sub"
  | cmp => "cmp"
  | inc => "inc"
  | dec => "dec"
  | clr => "clr"
  | tst => "tst"
  | lea => "lea"
  | chk => "chk"
  | sob => "sob"
  | br => "br"
  | branch condition => condition.branchName
  | jsr => "jsr"
  | rts => "rts"
  | jmp => "jmp"
  | trap => "trap"
  | sev => "sev"
  | case => "case"
  | other name => name

/-- Whether the operation exists in several widths. -/
def isSized : Mnemonic → Bool
  | mov | add | sub | cmp | inc | dec | clr | tst => true
  | _ => false

/-- Whether the operation is one the analysis knows nothing special about. -/
def isOther : Mnemonic → Bool
  | other _ => true
  | _ => false

/-- The known operation with exactly this name. -/
def ofExactName? (name : List Char) : Option Mnemonic :=
  known.find? (fun mnemonic => mnemonic.name.toList = name)

/--
The operation of a given width that a name with that width's suffix stands for.
-/
def ofSuffixedName? (suffix : Char) (width : Width) (name : List Char) :
    Option (Mnemonic × Width) := do
  let stem ← Text.beforeMarker? [suffix] name
  let mnemonic ← ofExactName? stem
  if mnemonic.isSized then some (mnemonic, width) else none

/-- The operation and width that a name stands for. -/
def ofName (name : List Char) : Mnemonic × Width :=
  match ofExactName? name with
  | some mnemonic => (mnemonic, .word)
  | none =>
    match ofSuffixedName? 'b' .byte name <|>
      ofSuffixedName? 'l' .long name with
    | some sized => sized
    | none => (other (String.ofList name), .word)

end Mnemonic

end ProcRecovery
