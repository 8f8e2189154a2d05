import ProcRecovery.Listing.Error

/-!
# Instruction lines

The grammar of the lines of a code section: an address, a mnemonic, and
operands separated by commas.  Addresses are hexadecimal; operand numbers are
decimal unless marked, and either kind may be negated.
-/

namespace ProcRecovery.Listing

/-- An address in hexadecimal, with or without a marker. -/
def readAddress (line : Nat) (text : List Char) : Reading Nat :=
  let digits := (Text.afterMarker? ['0', 'x'] text).getD text
  orReject (.badNumber line (String.ofList text))
    (Numeral.unsigned? 16 0x10000000000000000 digits)

/-- The value of a number without its outer minus sign. -/
def magnitude? (digits : List Char) : Option Int :=
  match Text.afterMarker? ['0', 'x'] digits with
  | some hexadecimal => Numeral.signed? 16 hexadecimal
  | none => Numeral.signed? 10 digits

/--
A number in decimal, or in hexadecimal with a marker, either of which may be
negated.
-/
def readNumber (line : Nat) (text : List Char) : Reading Int :=
  let failed := ListingError.badNumber line (String.ofList text)
  match Text.afterMarker? ['-'] text with
  | some digits => do
    let value ← orReject failed (magnitude? digits)
    if FitsSigned (-value) then .ok (-value)
      else .error (.fault .negationOverflow)
  | none => orReject failed (magnitude? text)

/-- The name of a register. -/
def readRegister (line : Nat) (text : List Char) : Reading Register :=
  orReject (.unknownRegister line (String.ofList text)) (Register.ofName? text)

/-- A number that is not negative. -/
def readLocation (line : Nat) (operand text : List Char) : Reading Nat := do
  let value ← readNumber line text
  if 0 ≤ value then .ok value.toNat
  else reject (.malformedOperand line (String.ofList operand))

/-- The text between two markers. -/
def between? (opening closing text : List Char) : Option (List Char) :=
  (Text.afterMarker? opening text).bind (Text.beforeMarker? closing)

/-- A displacement and the register it is taken from. -/
def indexed? (text : List Char) : Option (List Char × List Char) :=
  (Text.beforeMarker? [')'] text).bind (Text.splitFirst '(')

/-- An operand that is neither a literal nor purely a register in brackets. -/
def readPlainOperand (line : Nat) (text : List Char) : Reading Operand :=
  match indexed? text with
  | some (displacement, register) => do
    let base ← readRegister line register
    match Text.afterMarker? ['@'] displacement with
    | some number => return .indexedDeferred (← readNumber line number) base
    | none => return .indexed (← readNumber line displacement) base
  | none =>
    match Register.ofName? text with
    | some register => .ok (.register register)
    | none => return .target (← readLocation line text text)

/-- An operand. -/
def readOperand (line : Nat) (text : List Char) : Reading Operand :=
  match Text.afterMarker? ['@', '#'] text with
  | some location => return .absolute (← readLocation line text location)
  | none =>
  match Text.afterMarker? ['#'] text with
  | some literal => return .immediate (← readNumber line literal)
  | none =>
  match between? ['-', '('] [')'] text with
  | some register => return .autoDecrement (← readRegister line register)
  | none =>
  match between? ['('] [')', '+'] text with
  | some register => return .autoIncrement (← readRegister line register)
  | none =>
  match between? ['('] [')'] text with
  | some register => return .deferred (← readRegister line register)
  | none => readPlainOperand line text

/-- Operands separated by commas. -/
def readOperands (line : Nat) (text : List Char) : Reading (List Operand) :=
  if text = [] then .ok [] else (text.splitOn ',').mapM (readOperand line)

/--
An instruction: its address, its mnemonic, and the rest of its words as
operands.
-/
def readInstruction (line : Nat) (text : List Char) : Reading Instruction :=
  match Text.words text with
  | address :: mnemonic :: operands => do
    let lo ← readAddress line address
    let operands ← readOperands line operands.flatten
    let (mnemonic, width) := Mnemonic.ofName mnemonic
    match Instruction.assemble lo mnemonic width operands with
    | .ok instruction => .ok instruction
    | .error fault => .error (.fault fault)
  | _ => reject (.malformedLine line (String.ofList text))

end ProcRecovery.Listing
