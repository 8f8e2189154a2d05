import ProcRecovery.Options
import ProcRecovery.Session.Basic

/-!
# Reports

The text of what a session has found: every procedure with its frame slots, its
nodes and its oddities, the calls between procedures, all oddities in order,
and the labels and comments of the image.
-/

namespace ProcRecovery.Report

/-- The text of a stack level. -/
def level : Resolution Int → String
  | .known depth => Numeral.signedDecimal depth
  | .notComputed => "?"
  | .unrecoverable => "!"

/-- Text as a line. -/
def line (text : String) : String := text ++ "\n"

/-- The comments on the instructions of a node. -/
def comments (image : Image) (node : Node) : List String :=
  node.instructions.filterMap (fun instruction =>
    image.comments.get? instruction.lo)

/-- The line of a node, after a line for its label if it has one. -/
def node (options : Options) (image : Image) (node : Node) : String :=
  let label :=
    match image.labels.get? node.lo with
    | some name => line (name ++ ":")
    | none => ""
  let place :=
    "  " ++ Numeral.hex4 node.lo ++
      "  [" ++ Numeral.alignRight 4 (level node.stackLevel) ++
      "] " ++ Numeral.alignRight 4 (Numeral.explicitDecimal node.stackDelta) ++
      "  " ++ node.text
  let stack :=
    match node.stackAfter with
    | some text => if options.showsStacks then "  " ++ text else ""
    | none => ""
  let remarks := comments image node
  let remark :=
    if remarks.isEmpty then "" else "  ; " ++ String.intercalate "; " remarks
  label ++ line (place ++ stack ++ remark)

/-- The counts of accesses, each with a letter for its kind. -/
def accesses (letter : String) (sites : Accesses) : String :=
  String.join (sites.byWidth.map (fun entry =>
    " " ++ letter ++ entry.1.letter ++ "x" ++ Numeral.decimal entry.2.length))

/-- The line of a frame slot. -/
def slot (slot : FrameSlot) : String :=
  let taken :=
    if slot.addressTaken.isEmpty then ""
    else " &x" ++ Numeral.decimal slot.addressTaken.length
  let text :=
    match slot.text with
    | some content => " = " ++ Text.quoted content
    | none => ""
  line ("  local fp" ++ Numeral.explicitDecimal slot.offset ++
    accesses "r" slot.reads ++
    accesses "w" slot.writes ++ taken ++ text)

/-- An oddity with its kind. -/
def diagnostic (diagnostic : Diagnostic) : String :=
  diagnostic.kind ++ ": " ++ diagnostic.message

/-- The header line of a procedure. -/
def header (image : Image) (procedure : Procedure) : String :=
  let frame :=
    match procedure.frameSize with
    | some size => Numeral.decimal size
    | none => "?"
  line ("function " ++ image.procedureName procedure.lo ++
    " [" ++ Numeral.hex4 procedure.lo ++ ", " ++ Numeral.hex4 procedure.hi ++
      ") frame " ++
    frame ++ (if procedure.progress = .failed then " (not analyzed)" else ""))

/-- The text of a procedure. -/
def procedure
    (options : Options)
    (session : Session)
    (procedure : Procedure) :
    String :=
  header session.image procedure ++
    String.join (procedure.slots.values.map slot) ++
    String.join (procedure.body.map (node options session.image)) ++
    String.join ((session.diagnosticsFor procedure.lo).map (fun oddity =>
      line ("  ! " ++ diagnostic oddity)))

/-- A call site with the name of the procedure it is in. -/
def site (image : Image) (site : CallSite) : String :=
  image.procedureName site.caller ++ "@" ++ Numeral.hex4 site.address

/-- A list without the items that equal the one before them. -/
def withoutRepeats : List String → List String
  | first :: second :: later =>
    if first = second then withoutRepeats (second :: later)
    else first :: withoutRepeats (second :: later)
  | short => short

/-- The line of a call destination: its name and its callers. -/
def called (image : Image) (called : CalledProcedure) : String :=
  let name :=
    (called.label <|> image.runtime.get? called.destination).getD
      (image.procedureName called.destination)
  line ("  " ++ Numeral.hex4 called.destination ++ " " ++ name ++ " <- " ++
    String.intercalate ", " (withoutRepeats (called.sites.map (site image))))

/--
The call graph: every destination with its callers, then the calls without a
destination.
-/
def callGraph (session : Session) : String :=
  line "call graph" ++
    String.join (session.called.values.map (called session.image)) ++
    String.join (session.unresolved.map (fun unresolved =>
      line ("  ???? <- " ++ site session.image unresolved)))

/-- The text of everything a session has found. -/
def session (options : Options) (session : Session) : String :=
  String.join (session.procedures.values.map (fun found =>
    line (procedure options session found))) ++
    callGraph session ++
    line ("\n" ++ Numeral.decimal session.diagnostics.length ++
      " diagnostics") ++
    String.join (session.diagnostics.map (fun entry =>
      line ("  " ++ Numeral.hex4 entry.1 ++ ": " ++ diagnostic entry.2)))

/-- The text of the labels and comments of an image. -/
def annotations (image : Image) : String :=
  line ("annotations of " ++ image.name) ++
    String.join (image.annotations.map (fun (address, label, comment) =>
      line ("  " ++ Numeral.hex4 address ++ " " ++ label.getD "" ++
        (match comment with
          | some text => " ; " ++ text
          | none => ""))))

end ProcRecovery.Report
