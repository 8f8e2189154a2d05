import ProcRecovery.Text.Quoted

/-!
# Drawings and the library that writes them

A drawing has boxes and arrows between them, known by names.  It is turned into
the language of Graphviz by a library that is not part of the analysis: it
decides which texts can be names, and it writes a drawing to memory.

The layout that the library is known for puts every box on a line of its own,
its label between fixed texts.  A label may contain the line breaks of the
language, which are written with a backslash: a backslash stands for itself,
and every other character that is not plain ASCII text is given by an escape.
-/

namespace ProcRecovery.Graphviz

/-- A text on a drawing. -/
inductive Label where
  /-- A text that is shown as it is. -/
  | plain (text : String)
  /-- A text in which backslashes belong to the language. -/
  | escaped (text : String)
  deriving Repr, DecidableEq

/-- A box with a label. -/
structure Box where
  name : String
  label : Label
  shape : Label
  deriving Repr, DecidableEq

/-- An arrow from one box to another. -/
structure Arrow where
  source : String
  target : String
  label : Label
  dashed : Bool
  deriving Repr, DecidableEq

/-- Boxes and the arrows between them. -/
structure Drawing where
  name : String
  boxes : List Box
  arrows : List Arrow
  deriving Repr, DecidableEq

/-- What a library for drawings can do. -/
structure Library where
  /-- Whether a text can be used as a name. -/
  accepts : String → Bool
  /-- The bytes that are written for a drawing, or what went wrong. -/
  render : Drawing → Except String ByteArray

/-! ## Names -/

/-- Whether a character can be anywhere in a name. -/
def isNameStart (char : Char) : Bool := char.isAlpha || char = '_'

/--
Whether a text is a letter or an underscore, followed by letters, digits and
underscores.
-/
def isIdentifier (name : String) : Bool :=
  match name.toList with
  | first :: later =>
    isNameStart first &&
      later.all (fun char => isNameStart char || char.isDigit)
  | [] => false

/-! ## Layout -/

/-- The escape of a character. -/
def escapedChar (char : Char) : List Char :=
  if char = '\t' then ['\\', 't']
  else if char = '\r' then ['\\', 'r']
  else if char = '\n' then ['\\', 'n']
  else if char = '\x27' then ['\\', '\x27']
  else if char = '"' then ['\\', '"']
  else if char = '\\' then ['\\', '\\']
  else if 0x20 ≤ char.toNat ∧ char.toNat ≤ 0x7e then [char]
  else Text.numberEscape char

/-- The form of a character where backslashes belong to the language. -/
def labelChar (char : Char) : List Char :=
  if char = '\\' then ['\\'] else escapedChar char

/-- A label in quotes. -/
def Label.written : Label → String
  | plain text =>
    String.ofList ('"' :: text.toList.flatMap escapedChar ++ ['"'])
  | escaped text =>
    String.ofList ('"' :: text.toList.flatMap labelChar ++ ['"'])

/-- The texts around the labels of a drawing. -/
structure Layout where
  /-- What comes before the first box. -/
  opening : Drawing → String
  /-- What comes on the line of a box before its label. -/
  beforeLabel : Box → String
  /-- What comes on the line of a box after its label. -/
  afterLabel : Box → String
  /-- What comes after the last box. -/
  closing : Drawing → String

namespace Layout

/-- The line of a box. -/
def boxLine (layout : Layout) (box : Box) : String :=
  layout.beforeLabel box ++ box.label.written ++ layout.afterLabel box

/-- The text of a drawing. -/
def text (layout : Layout) (drawing : Drawing) : String :=
  layout.opening drawing ++ String.join (drawing.boxes.map layout.boxLine) ++
    layout.closing drawing

/-- The line of an arrow in the standard layout. -/
def standardArrow (arrow : Arrow) : String :=
  "    " ++ arrow.source ++ " -> " ++ arrow.target ++
    "[label=" ++ arrow.label.written ++ "]" ++
    (if arrow.dashed then "[style=\"dashed\"]" else "") ++ ";\n"

/-- One line for each box, then one for each arrow. -/
def standard : Layout where
  opening drawing := "digraph " ++ drawing.name ++ " \x7b\n"
  beforeLabel box := "    " ++ box.name ++ "[label="
  afterLabel box := "][shape=" ++ box.shape.written ++ "];\n"
  closing drawing :=
    String.join (drawing.arrows.map standardArrow) ++ "\x7d\n"

end Layout

namespace Library

/--
A library writes drawings in a layout: it takes every identifier as a name, and
writing to memory, it gives the text of the layout.
-/
structure Follows (library : Library) (layout : Layout) : Prop where
  accepts_eq : ∀ name, isIdentifier name = true → library.accepts name = true
  render_eq : ∀ drawing,
    library.render drawing = .ok (layout.text drawing).toUTF8

/-- The library that takes just identifiers and writes the standard layout. -/
def standard : Library where
  accepts := isIdentifier
  render drawing := .ok (Layout.standard.text drawing).toUTF8

theorem follows_standard : standard.Follows Layout.standard where
  accepts_eq := fun _ isName => isName
  render_eq := fun _ => rfl

end Library

end ProcRecovery.Graphviz
