import ProcRecovery.Instruction.Basic
import ProcRecovery.Journal.Event
import ProcRecovery.Table

/-!
# Images

An image is what there is to analyze: all instructions that are known to exist,
the addresses of those that have been decoded so far, mapped memory, the labels
and comments attached to addresses, and the entry points of runtime routines.
Analysis sees decoded instructions only.  Whatever it reads, it reads from an
image, and that is where it leaves its labels and comments.
-/

namespace ProcRecovery

/-- A program image under analysis. -/
structure Image where
  name : String
  /-- Every known instruction, by its address. -/
  code : Table Nat Instruction := ∅
  /-- The addresses whose instructions have been decoded. -/
  decoded : Table Nat Unit := ∅
  /-- Mapped bytes, by the address of the first byte of each segment. -/
  memory : Table Nat (List UInt8) := ∅
  labels : Table Nat String := ∅
  comments : Table Nat String := ∅
  /-- Names of the runtime routines, by their entry points. -/
  runtime : Table Nat String := ∅
  deriving DecidableEq

namespace Image

/-- The decoded instruction at an address. -/
def instruction? (image : Image) (address : Nat) : Option Instruction :=
  if image.decoded.contains address then image.code.get? address else none

/-- The addresses of all decoded instructions, ascending. -/
def decodedAddresses (image : Image) : List Nat := image.decoded.keys

/-- The decoded instructions, ascending. -/
def decodedInstructions (image : Image) : List Instruction :=
  image.decodedAddresses.filterMap image.instruction?

/--
The bytes of a range that lies within the segment with the nearest start below
it.
-/
def read
    (image : Image)
    (address length : Nat) :
    Except UnavailableRead (List UInt8) :=
  match image.memory.floor? address with
  | some (base, segment) =>
    if address - base + length ≤ segment.length then
      .ok ((segment.drop (address - base)).take length)
    else
      .error ⟨address, length⟩
  | none => .error ⟨address, length⟩

/--
Add an instruction without decoding it.  If its bytes are taken, the answer is
the address of an instruction that holds some of them.
-/
def addCode (image : Image) (instruction : Instruction) : Except Nat Image :=
  let before := (image.code.floor? instruction.lo).filter (fun entry =>
    instruction.lo < entry.2.hi)
  let after := (image.code.ceiling? instruction.lo).filter (fun entry =>
    entry.2.lo < instruction.hi)
  match before <|> after with
  | some (clash, _) => .error clash
  | none =>
      .ok { image with code := image.code.insert instruction.lo instruction }

/-- Map bytes at an address. -/
def addMemory (image : Image) (address : Nat) (bytes : List UInt8) : Image :=
  { image with memory := image.memory.insert address bytes }

/-- Name the runtime routine at an address. -/
def addRoutine (image : Image) (address : Nat) (name : String) : Image :=
  { image with runtime := image.runtime.insert address name }

/-- Label an address. -/
def setLabel (image : Image) (address : Nat) (label : String) : Image :=
  { image with labels := image.labels.insert address label }

/-- Comment on an address. -/
def setComment (image : Image) (address : Nat) (comment : String) : Image :=
  { image with comments := image.comments.insert address comment }

/-- The addresses that have a label or a comment, with both. -/
def annotations (image : Image) : List (Nat × Option String × Option String) :=
  let addresses : Table Nat Unit :=
    Table.ofList
      ((image.labels.keys ++ image.comments.keys).map
        (fun address => (address, ())))
  addresses.keys.map (fun address =>
    (address, image.labels.get? address, image.comments.get? address))

/-- The label given to a text constant that has none. -/
def stringLabel (address : Nat) : String := "str_" ++ Numeral.hex4 address

/--
Keep what an event says about the image: text constants get a label unless they
have one, and comments replace earlier ones.
-/
def absorb (image : Image) : Event → Image
  | .stringFound address =>
    { image with
      labels := image.labels.insertNew address (stringLabel address) }
  | .commented address text => image.setComment address text
  | .diagnosed _ _ | .noted _ => image

/-- Keep what a list of events says about the image. -/
def absorbAll
    (image : Image)
    (events : List Event) :
    Image :=
  events.foldl absorb image

/--
The name of the procedure at an address: its label, or else a name made from
the address.
-/
def procedureName (image : Image) (address : Nat) : String :=
  (image.labels.get? address).getD ("fn_" ++ Numeral.hex4 address)

end Image

end ProcRecovery
