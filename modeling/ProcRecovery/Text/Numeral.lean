import ProcRecovery.Word

/-!
# Numerals

Reading and writing numbers in positional notation.  A written number has no
leading zeros beyond the requested width and uses lower-case digits; a read
number may have any number of leading zeros, digits of either case, and a sign.
Numbers that do not fit in the word they are read into are no numerals.
-/

namespace ProcRecovery.Numeral

/-- The value of a digit in bases up to sixteen. -/
def digitValue? (digit : Char) : Option Nat :=
  if '0' ≤ digit ∧ digit ≤ '9' then some (digit.toNat - '0'.toNat)
  else if 'a' ≤ digit ∧ digit ≤ 'f' then some (digit.toNat - 'a'.toNat + 10)
  else if 'A' ≤ digit ∧ digit ≤ 'F' then some (digit.toNat - 'A'.toNat + 10)
  else none

/-- The value of one further digit after the digits read so far. -/
def extend? (base : Nat) (value : Nat) (digit : Char) : Option Nat := do
  let unit ← digitValue? digit
  if unit < base then some (base * value + unit) else none

/-- The value of a non-empty run of digits. -/
def digits? (base : Nat) (digits : List Char) : Option Nat :=
  if digits = [] then none else digits.foldlM (extend? base) 0

/-- A numeral with an optional plus sign whose value is below the bound. -/
def unsigned? (base bound : Nat) (text : List Char) : Option Nat :=
  let digits :=
    match text with
    | '+' :: rest => rest
    | _ => text
  (digits? base digits).filter (· < bound)

/-- A numeral with an optional sign that a signed 64-bit word can hold. -/
def signed? (base : Nat) (text : List Char) : Option Int :=
  let value :=
    match text with
    | '+' :: rest => (digits? base rest).map Int.ofNat
    | '-' :: rest => (digits? base rest).map (fun size => -(size : Int))
    | _ => (digits? base text).map Int.ofNat
  value.filter (fun number => FitsSigned number)

/-- Digits of a number, filled up with zeros to the given width. -/
def padded (base width value : Nat) : List Char :=
  let digits := Nat.toDigits base value
  List.replicate (width - digits.length) '0' ++ digits

/-- Decimal text of a natural number. -/
def decimal (value : Nat) : String := String.ofList (Nat.toDigits 10 value)

/-- Decimal text of an integer, with a minus sign where it is negative. -/
def signedDecimal (value : Int) : String :=
  if value < 0 then "-" ++ decimal value.natAbs else decimal value.natAbs

/-- Decimal text of an integer that always carries a sign. -/
def explicitDecimal (value : Int) : String :=
  if value < 0 then "-" ++ decimal value.natAbs
    else "+" ++ decimal value.natAbs

/-- Hexadecimal text without a marker, at least four digits. -/
def hex4 (value : Nat) : String := String.ofList (padded 16 4 value)

/-- Hexadecimal text of a byte without a marker, at least two digits. -/
def hex2 (value : Nat) : String := String.ofList (padded 16 2 value)

/-- Hexadecimal text with a marker, at least four digits. -/
def markedHex4 (value : Nat) : String := "0x" ++ hex4 value

/-- Hexadecimal text with a marker and no padding. -/
def markedHex (value : Nat) : String :=
  "0x" ++ String.ofList (Nat.toDigits 16 value)

/-- Text moved to the right edge of a column. -/
def alignRight (column : Nat) (text : String) : String :=
  String.ofList (List.replicate (column - text.length) ' ') ++ text

end ProcRecovery.Numeral
