import ProcRecovery.Graphviz.Library
import ProcRecovery.Report

/-!
# Drawings of procedures

The block graph of a procedure: a box for each block with its nodes, and an
arrow for each edge, dashed where the stack level is skewed.

A drawing relies on more than the library: that there is a block for every
address, that a block names nodes of the body, and that what the library has
written is text.  Where one of these fails, drawing ends in a fault.
-/

namespace ProcRecovery.Graphviz

/-- The name of the drawing of a procedure. -/
def procedureId (address : Nat) : String := "f" ++ Numeral.hex4 address

/-- The name of the box of a block. -/
def blockId (address : Nat) : String := "b" ++ Numeral.hex4 address

/-- A text as a name, if the library accepts it. -/
def Library.named (library : Library) (text : String) : Except Fault String :=
  if library.accepts text then .ok text else .error .refusedName

/--
The text inside the box of a block: the name of the procedure at its entry, the
level and the movement of the stack, and the nodes.
-/
def blockText
    (image : Image)
    (procedure : Procedure)
    (address : Nat)
    (block : Block)
    (nodes : List Node) :
    String :=
  (if address = procedure.graph.entry then
      image.procedureName procedure.lo ++ "\\l"
    else "") ++
    Numeral.hex4 address ++ "  level " ++ Report.level block.level ++
    "  delta " ++ Numeral.explicitDecimal block.delta ++ "\\l" ++
    String.join (nodes.map (fun node =>
      Numeral.hex4 node.lo ++ "  " ++ node.text ++ "\\l"))

/-- The box of the block at an address. -/
def boxOf
    (library : Library)
    (image : Image)
    (procedure : Procedure)
    (address : Nat) :
    Except Fault Box := do
  let name ← library.named (blockId address)
  match procedure.graph.blocks.get? address with
  | some block => do
    let nodes ← block.nodesIn procedure.body
    return {
      name
      label := .escaped (blockText image procedure address block nodes)
      shape := .plain "box" }
  | none => .error (.missingBlock address)

/-- The arrow of an edge. -/
def arrowOf (library : Library) (graph : Graph) (edge : Nat × Nat) :
    Except Fault Arrow := do
  let source ← library.named (blockId edge.1)
  let target ← library.named (blockId edge.2)
  let isSkewed := isAmong graph.skewed edge
  return {
    source
    target
    label := .plain (if isSkewed then "skew" else "")
    dashed := isSkewed }

/-- The drawing of the block graph of a procedure. -/
def drawing (library : Library) (image : Image) (procedure : Procedure) :
    Except Fault Drawing := do
  let name ← library.named (procedureId procedure.lo)
  let boxes ← procedure.graph.blocks.keys.mapM (boxOf library image procedure)
  let arrows ← procedure.graph.edges.mapM (arrowOf library procedure.graph)
  return { name, boxes, arrows }

/-- What the library writes for a procedure, or what went wrong in writing. -/
def write (library : Library) (image : Image) (procedure : Procedure) :
    Except Fault (Except String ByteArray) := do
  let drawn ← drawing library image procedure
  return library.render drawn

/-- The text of the drawing of a procedure. -/
def generate (library : Library) (image : Image) (procedure : Procedure) :
    Except Fault String := do
  match ← write library image procedure with
  | .ok bytes =>
    match String.fromUTF8? bytes with
    | some text => return text
    | none => .error .brokenText
  | .error _ => .error .unwrittenDrawing

/--
What the library writes for some procedures, one after the other.  Nothing more
is drawn after something went wrong in writing.
-/
def writeAll (library : Library) (image : Image) :
    List Procedure → Except Fault (Except String ByteArray)
  | [] => return .ok .empty
  | procedure :: later => do
    match ← write library image procedure with
    | .ok bytes => do
      let rest ← writeAll library image later
      return rest.map (bytes ++ ·)
    | .error reason => return .error reason

end ProcRecovery.Graphviz
