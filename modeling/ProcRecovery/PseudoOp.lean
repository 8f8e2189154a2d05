import ProcRecovery.Instruction.Register
import ProcRecovery.Instruction.Width
import ProcRecovery.Resolution
import ProcRecovery.Routine
import ProcRecovery.Text.Quoted

/-!
# Pseudo-operations

The higher-level operations that compiled idioms stand for.
-/

namespace ProcRecovery

/-- Whether a loop moves bytes onto the stack or off it. -/
inductive BlobDirection where
  | push
  | pop
  deriving Repr, DecidableEq

/-- A higher-level operation. -/
inductive PseudoOp where
  /--
  Frame setup with some bytes of locals, the check against stack overrun
  included.
  -/
  | prologue (frameSize : Nat)
  /-- Frame teardown and return. -/
  | epilogue
  /--
  Registers loaded once, with a literal or an address, right after the
  prologue.
  -/
  | registerCache (cached : List (Register × Int))
  /-- A loop that moves bytes between the stack and memory. -/
  | blob (width : Nat) (source : Option Nat) (direction : BlobDirection)
      (content : Resolution (List UInt8))
  | constantPush (width : Width) (value : Int)
  | stackAdjust (delta : Int)
  | stackCheck
  | limitCheck
  | allocationCheck
  /--
  A loop that copies bytes from one auto-incremented register to another.
  -/
  | blockMove (source destination : Register) (count : Nat)
  /--
  Reload of the stack pointer from a frame slot, followed by a jump away.
  -/
  | bailout (slot : Int)
  | call
      (destination : Resolution Nat)
      (label : Option String)
      (routine : Option Routine)
  /-- Push of the stack address a number of bytes above the top. -/
  | stackReference (offset : Int)
  /-- Push of the address of a frame slot. -/
  | frameReference (offset : Int)
  /-- Push of an inline string constant copied from the image. -/
  | stringLiteral (source width : Nat) (text : Resolution String)
  deriving Repr, DecidableEq

namespace PseudoOp

/-- The text of the content of a blob. -/
def contentText : Resolution (List UInt8) → String
  | .known bytes =>
    " [" ++ String.intercalate " "
      (bytes.map (fun byte => Numeral.hex2 byte.toNat)) ++ "]"
  | .unrecoverable => " [?]"
  | .notComputed => ""

/-- The text of a pseudo-operation in a report. -/
def text : PseudoOp → String
  | prologue frameSize => "prologue frame=" ++ Numeral.decimal frameSize
  | epilogue => "epilogue"
  | registerCache cached =>
    "regcache" ++
      String.join (cached.map (fun load =>
        " " ++ load.1.name ++ "=" ++
          Numeral.markedHex (unsignedReading load.2)))
  | blob width source direction content =>
    "blob " ++
      (match direction with
        | .push => "push"
        | .pop => "pop") ++
      " " ++ Numeral.decimal width ++
      (match source with
        | some address => " @" ++ Numeral.markedHex4 address
        | none => "") ++
      contentText content
  | constantPush width value =>
    "push" ++ (if width = .long then "l" else "") ++ " #" ++
      Numeral.signedDecimal value
  | stackAdjust delta => "sp " ++ Numeral.explicitDecimal delta
  | stackCheck => "stackcheck"
  | limitCheck => "limitcheck"
  | allocationCheck => "malloccheck"
  | blockMove source destination count =>
    "blockmove (" ++ source.name ++ ")+ -> (" ++ destination.name ++ ")+ " ++
      Numeral.decimal count
  | bailout slot => "bailout sp=" ++ Numeral.signedDecimal slot ++ "(fp)"
  | call destination label _ =>
    (match destination with
      | .known address => "call " ++ Numeral.markedHex4 address
      | _ => "call ?") ++
    (match label with | some name => " <" ++ name ++ ">" | none => "")
  | stackReference offset =>
    "pushaddr " ++ Numeral.signedDecimal offset ++ "(sp)"
  | frameReference offset =>
    "pushaddr " ++ Numeral.signedDecimal offset ++ "(fp)"
  | stringLiteral source width text =>
    match text with
    | .known content => "pushstr " ++ Text.quoted content
    | _ =>
      "pushstr " ++ Numeral.decimal width ++ " @" ++ Numeral.markedHex4 source

end PseudoOp

end ProcRecovery
