import ProcRecovery.Text.Quoted

/-!
# Stack items

What is known about a run of bytes on the operand stack.
-/

namespace ProcRecovery

/-- What a run of bytes on the stack holds. -/
inductive Content where
  | unknown
  | smallInt (value : Int)
  | longInt (value : Int)
  /-- Raw bytes in image order, if they could be read. -/
  | blob (bytes : Option (List UInt8))
  /--
  Address of the place some bytes above the top at the time the reference was
  pushed.
  -/
  | backReference (offset : Int)
  /-- Address of a frame slot. -/
  | frameReference (offset : Int)
  | stringRef (text : Option String)
  deriving Repr, DecidableEq

/-- A run of bytes on the stack. -/
structure StackItem where
  width : Nat
  content : Content
  deriving Repr, DecidableEq

namespace StackItem

/-- A run of bytes of which nothing is known. -/
def unknown (width : Nat) : StackItem := ⟨width, .unknown⟩

/-- Whether there are no bytes in the run. -/
def isEmpty (item : StackItem) : Bool := item.width = 0

/-- The text of an item in a report. -/
def text (item : StackItem) : String :=
  match item.content with
  | .unknown => "?" ++ Numeral.decimal item.width
  | .smallInt value => "#" ++ Numeral.signedDecimal value
  | .longInt value => "#" ++ Numeral.signedDecimal value ++ "L"
  | .blob (some bytes) =>
    "blob" ++ Numeral.decimal item.width ++ ":" ++
      String.join (bytes.map (fun byte => Numeral.hex2 byte.toNat))
  | .blob none => "blob" ++ Numeral.decimal item.width ++ ":?"
  | .backReference offset => "&sp" ++ Numeral.explicitDecimal offset
  | .frameReference offset => "&fp" ++ Numeral.explicitDecimal offset
  | .stringRef (some content) => Text.quoted content
  | .stringRef none => "str" ++ Numeral.decimal item.width

end StackItem

end ProcRecovery
