import ProcRecovery.Text.Extending
import ProcRecovery.Text.Numeral
import ProcRecovery.Text.Unprintable

/-!
# Quoted text

Text between double quotes in which every character is visible: quotes,
backslashes and the usual control characters have short escapes, and any other
character that has no glyph of its own, or would attach to its neighbour, is
given by its number.
-/

namespace ProcRecovery.Text

/-- Whether a number lies in one of some ascending ranges. -/
def inRanges (value : Nat) : List (Nat × Nat) → Bool
  | [] => false
  | (lo, hi) :: rest =>
      if value < lo then false else value ≤ hi || inRanges value rest

/-- Whether a character can stand in quoted text as it is. -/
def isShown (char : Char) : Bool :=
  !inRanges char.toNat unprintableRanges &&
    !inRanges char.toNat extendingRanges

/-- The escape that gives a character by its number. -/
def numberEscape (char : Char) : List Char :=
  "\\u\x7b".toList ++ Nat.toDigits 16 char.toNat ++ ['\x7d']

/-- The form of a character inside quoted text. -/
def quotedChar (char : Char) : List Char :=
  if char = '\x00' then ['\\', '0']
  else if char = '\t' then ['\\', 't']
  else if char = '\r' then ['\\', 'r']
  else if char = '\n' then ['\\', 'n']
  else if char = '"' then ['\\', '"']
  else if char = '\\' then ['\\', '\\']
  else if isShown char then [char]
  else numberEscape char

/-- Text in quotes. -/
def quoted (text : String) : String :=
  String.ofList ('"' :: text.toList.flatMap quotedChar ++ ['"'])

/-- The text whose characters have the given bytes as their numbers. -/
def ofBytes (bytes : List UInt8) : String :=
  String.ofList (bytes.map (fun byte => Char.ofNat byte.toNat))

end ProcRecovery.Text
