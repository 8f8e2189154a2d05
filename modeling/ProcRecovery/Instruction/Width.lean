/-!
# Operand widths
-/

namespace ProcRecovery

/-- The size of the unit an instruction works on. -/
inductive Width where
  | byte
  | word
  | long
  deriving Repr, DecidableEq

namespace Width

/-- The number of bytes of a unit. -/
def bytes : Width → Nat
  | byte => 1
  | word => 2
  | long => 4

/-- What a mnemonic of this width ends in. -/
def suffix : Width → String
  | byte => "b"
  | word => ""
  | long => "l"

/-- The letter that stands for a width in summaries. -/
def letter : Width → String
  | byte => "b"
  | word => "w"
  | long => "l"

theorem bytes_pos (width : Width) : 0 < width.bytes := by
  cases width <;> decide

end Width

end ProcRecovery
