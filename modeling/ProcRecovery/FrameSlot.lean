import ProcRecovery.Node
import ProcRecovery.Table

/-!
# Frame slots

The frame slots of a procedure and how its code uses them: read or written at
some width, or with their address taken.
-/

namespace ProcRecovery

/-- One use of a frame slot by the instruction at an address. -/
inductive SlotUse where
  | addressTaken (site : Nat)
  | read (width : Width) (site : Nat)
  | write (width : Width) (site : Nat)
  deriving Repr, DecidableEq

/-- The sites of accesses, in order of discovery, by their width. -/
structure Accesses where
  bytes : List Nat := []
  words : List Nat := []
  longs : List Nat := []
  deriving Repr, DecidableEq

namespace Accesses

/-- Add a site. -/
def add (accesses : Accesses) (site : Nat) : Width → Accesses
  | .byte => { accesses with bytes := accesses.bytes ++ [site] }
  | .word => { accesses with words := accesses.words ++ [site] }
  | .long => { accesses with longs := accesses.longs ++ [site] }

/-- The widths that occur, narrow before wide, with their sites. -/
def byWidth (accesses : Accesses) : List (Width × List Nat) :=
  [(.byte, accesses.bytes), (.word, accesses.words),
    (.long, accesses.longs)].filter
    (fun entry => entry.2 ≠ [])

end Accesses

/-- A frame slot, given by its offset from the frame pointer. -/
structure FrameSlot where
  offset : Int
  /-- The sites that take the address of the slot. -/
  addressTaken : List Nat := []
  reads : Accesses := {}
  writes : Accesses := {}
  /-- Text that a recovered string construction stores into the slot. -/
  text : Option String := none
  deriving Repr, DecidableEq

namespace FrameSlot

/-- Add a use. -/
def record (slot : FrameSlot) : SlotUse → FrameSlot
  | .addressTaken site =>
      { slot with addressTaken := slot.addressTaken ++ [site] }
  | .read width site => { slot with reads := slot.reads.add site width }
  | .write width site => { slot with writes := slot.writes.add site width }

end FrameSlot

/-- The frame slots of a procedure by their offsets. -/
abbrev FrameSlots := Table Int FrameSlot

namespace FrameSlots

/--
Change the slot at an offset, starting from an unused one if there is none.
-/
def update
    (slots : FrameSlots)
    (offset : Int)
    (change : FrameSlot → FrameSlot) :
    FrameSlots :=
  slots.insert offset (change ((slots.get? offset).getD { offset }))

/-- Add a use of the slot at an offset. -/
def record (slots : FrameSlots) (use : Int × SlotUse) : FrameSlots :=
  slots.update use.1 (fun slot => slot.record use.2)

end FrameSlots

/-- Whether an operation reads the operand it stores into. -/
def Mnemonic.readsDestination : Mnemonic → Bool
  | add | sub | inc | dec => true
  | _ => false

/--
The uses of frame slots by one operand of an instruction.  An operand that goes
through a pointer in a slot only reads the pointer.
-/
def Instruction.operandUses (instruction : Instruction) (position : Nat) :
    Operand → List (Int × SlotUse)
  | .indexed offset base =>
    if base = .fp then
      if instruction.mnemonic = .lea ∧ position = 0 then
        [(offset, .addressTaken instruction.lo)]
      else if instruction.destinationIndex? = some position then
        (offset, .write instruction.width instruction.lo) ::
          (if instruction.mnemonic.readsDestination then
            [(offset, .read instruction.width instruction.lo)]
          else [])
      else [(offset, .read instruction.width instruction.lo)]
    else []
  | .indexedDeferred offset base =>
    if base = .fp then [(offset, .read .word instruction.lo)] else []
  | _ => []

/-- The uses of frame slots by an instruction, in operand order. -/
def Instruction.slotUses (instruction : Instruction) : List (Int × SlotUse) :=
  instruction.operands.zipIdx.flatMap (fun operand =>
    instruction.operandUses operand.2 operand.1)

/-- The uses of frame slots by a node. -/
def Node.slotUses (node : Node) : List (Int × SlotUse) :=
  match node.op with
  | some (.frameReference offset) => [(offset, .addressTaken node.lo)]
  | _ => node.instructions.flatMap Instruction.slotUses

namespace FrameSlots

/-- The frame slots that a body uses. -/
def collect (body : List Node) : FrameSlots :=
  (body.flatMap Node.slotUses).foldl record ∅

end FrameSlots

end ProcRecovery
