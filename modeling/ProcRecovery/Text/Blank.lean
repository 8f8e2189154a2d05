/-!
# Blanks

Characters that separate words, and the ways of cutting text at them.  The set
is the Unicode property of white space.
-/

namespace ProcRecovery.Text

/-- The ranges of white space characters. -/
def blankRanges : List (Nat × Nat) :=
  [(0x09, 0x0d), (0x20, 0x20), (0x85, 0x85), (0xa0, 0xa0), (0x1680, 0x1680),
    (0x2000, 0x200a),
    (0x2028, 0x2029), (0x202f, 0x202f), (0x205f, 0x205f), (0x3000, 0x3000)]

/-- Whether a character is white space. -/
def isBlank (char : Char) : Bool :=
  blankRanges.any (fun range => range.1 ≤ char.toNat ∧ char.toNat ≤ range.2)

/-- Text without the blanks at its end. -/
def trimEnd (text : List Char) : List Char :=
  (text.reverse.dropWhile isBlank).reverse

/-- Text without the blanks at either end. -/
def trim (text : List Char) : List Char := trimEnd (text.dropWhile isBlank)

/-- The maximal runs of characters that are not blank. -/
def words (text : List Char) : List (List Char) :=
  (text.splitOnP isBlank).filter (· ≠ [])

/-- The lines of a text. -/
def lines (text : List Char) : List (List Char) := text.splitOn '\n'

/-- The text before and after the first occurrence of a mark. -/
def splitFirst
    (mark : Char)
    (text : List Char) :
    Option (List Char × List Char) :=
  match text.span (· ≠ mark) with
  | (before, _ :: after) => some (before, after)
  | (_, []) => none

/-- The text after a marker it starts with. -/
def afterMarker? (marker text : List Char) : Option (List Char) :=
  if marker.isPrefixOf text then some (text.drop marker.length) else none

/-- The text before a marker it ends with. -/
def beforeMarker? (marker text : List Char) : Option (List Char) :=
  if marker.isSuffixOf text then some (text.take (text.length - marker.length))
    else none

end ProcRecovery.Text
