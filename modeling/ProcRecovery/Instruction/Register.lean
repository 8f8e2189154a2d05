import ProcRecovery.Text.Blank
import ProcRecovery.Text.Numeral

/-!
# Registers

Eight registers, of which the upper three have a fixed role and a name of their
own: the frame pointer, the stack pointer and the program counter.
-/

namespace ProcRecovery

/-- A register by its number. -/
structure Register where
  number : Nat
  deriving Repr, DecidableEq

namespace Register

/--
The frame pointer: locals lie at negative offsets from it and arguments at
positive ones.
-/
def fp : Register := ⟨5⟩

/-- The stack pointer, which grows downwards. -/
def sp : Register := ⟨6⟩

/--
The program counter, which is also the linkage register of calls and returns.
-/
def pc : Register := ⟨7⟩

/--
Whether the compiler may use the register for scratch values or cached
constants.
-/
def isGeneral (register : Register) : Bool := register.number < 5

/-- The name of a register in a listing. -/
def name (register : Register) : String :=
  if register = fp then "fp"
  else if register = sp then "sp"
  else if register = pc then "pc"
  else "r" ++ Numeral.decimal register.number

/--
The register a name stands for: one of the three role names, or an `r` and a
number up to seven.
-/
def ofName? (name : List Char) : Option Register :=
  if name = ['f', 'p'] then some fp
  else if name = ['s', 'p'] then some sp
  else if name = ['p', 'c'] then some pc
  else do
    let digits ← Text.afterMarker? ['r'] name
    let number ← Numeral.unsigned? 10 256 digits
    if number ≤ 7 then some ⟨number⟩ else none

end Register

end ProcRecovery
