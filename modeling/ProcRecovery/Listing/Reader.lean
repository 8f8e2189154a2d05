import ProcRecovery.Image.Decoding
import ProcRecovery.Listing.Operand

/-!
# Reading listings

A listing is a header line with a name, followed by sections separated by blank
lines: mapped memory, runtime routines, labels, entry points and code.  Only
the header and a code section are mandatory.  Code enters the image undecoded;
at the end the entry points are decoded.
-/

namespace ProcRecovery.Listing

/-- The kinds of sections. -/
inductive SectionKind where
  | memory
  | runtime
  | labels
  | entry
  | code
  deriving Repr, DecidableEq

/-- The kind of section that a word announces. -/
def SectionKind.ofName? (name : List Char) : Option SectionKind :=
  if name = "MEMORY".toList then some memory
  else if name = "RUNTIME".toList then some runtime
  else if name = "LABELS".toList then some labels
  else if name = "ENTRY".toList then some entry
  else if name = "CODE".toList then some code
  else none

/-- What has been read of a listing so far. -/
structure Draft where
  image : Image
  entries : List Nat := []
  hasCode : Bool := false
  /-- The section that is open, if any. -/
  current : Option SectionKind := none

/-- A list of addresses. -/
def readAddresses (line : Nat) (text : List Char) : Reading (List Nat) :=
  (Text.words text).mapM (readAddress line)

/-- The line that opens a section.  Entry points may follow on it. -/
def readSectionLine
    (draft : Draft)
    (line : Nat)
    (text : List Char) :
    Reading Draft := do
  let (header, rest) := (Text.splitFirst ' ' text).getD (text, [])
  match SectionKind.ofName? header with
  | none => reject (.unknownSection line (String.ofList text))
  | some .entry =>
    let addresses ← readAddresses line rest
    .ok { draft with
      current := some .entry
      entries := draft.entries ++ addresses }
  | some kind =>
    if Text.trim rest = [] then
      .ok { draft with
        current := some kind
        hasCode := draft.hasCode || kind = .code }
    else
      reject (.malformedLine line (String.ofList text))

/-- A byte in hexadecimal. -/
def readByte (line : Nat) (text : List Char) : Reading UInt8 := do
  let value ← orReject (.badNumber line (String.ofList text))
      (Numeral.unsigned? 16 256 text)
  .ok (UInt8.ofNat value)

/-- A line of mapped memory: an address, a colon and bytes. -/
def readMemoryLine
    (image : Image)
    (line : Nat)
    (text : List Char) :
    Reading Image := do
  let (address, bytes) ←
    orReject (.malformedLine line (String.ofList text))
    (Text.splitFirst ':' text)
  let address ← readAddress line (Text.trim address)
  let bytes ← (Text.words bytes).mapM (readByte line)
  .ok (image.addMemory address bytes)

/-- A line of a table of names: an address and a name. -/
def readNameLine (line : Nat) (text : List Char) : Reading (Nat × String) :=
  match Text.words text with
  | [address, name] => return (← readAddress line address, String.ofList name)
  | _ => reject (.malformedLine line (String.ofList text))

/--
The instruction part of a line of code, and the comment after it if that is not
empty.
-/
def splitComment (text : List Char) : List Char × Option String :=
  match Text.splitFirst ';' text with
  | some (code, comment) =>
    (Text.trim code,
      if Text.trim comment = [] then none
        else some (String.ofList (Text.trim comment)))
  | none => (text, none)

/--
A line of code: an instruction that is valid and does not overlap any other.
-/
def readCodeLine
    (image : Image)
    (line : Nat)
    (text : List Char) :
    Reading Image := do
  let (code, comment) := splitComment text
  let instruction ← readInstruction line code
  match instruction.defect? with
  | some defect => reject (.invalidInstruction line instruction defect)
  | none =>
    match image.addCode instruction with
    | .error other => reject (.overlap line instruction.lo other)
    | .ok extended =>
      match comment with
      | some remark => .ok (extended.setComment instruction.lo remark)
      | none => .ok extended

/-- A line after the header.  A blank line ends the open section. -/
def readLine (draft : Draft) (numbered : List Char × Nat) : Reading Draft := do
  let text := Text.trim numbered.1
  let line := numbered.2
  if text = [] then return { draft with current := none }
  match draft.current with
  | none => readSectionLine draft line text
  | some .memory =>
      return { draft with image := ← readMemoryLine draft.image line text }
  | some .runtime =>
    let (address, name) ← readNameLine line text
    return { draft with image := draft.image.addRoutine address name }
  | some .labels =>
    let (address, name) ← readNameLine line text
    return { draft with image := draft.image.setLabel address name }
  | some .entry =>
    let addresses ← readAddresses line text
    return { draft with entries := draft.entries ++ addresses }
  | some .code =>
      return { draft with image := ← readCodeLine draft.image line text }

/-- The name on the header line. -/
def headerName? (text : List Char) : Option String :=
  match Text.afterMarker? "LISTING".toList (Text.trimEnd text) with
  | some rest =>
      if Text.trim rest = [] then none
        else some (String.ofList (Text.trim rest))
  | none => none

/--
The text of a listing, with everything but the decoding of its entry points
done.
-/
def readDraft (text : String) : Reading Draft :=
  let numbered := (Text.lines text.toList).zipIdx 1
  match numbered.dropWhile (fun line => Text.trim line.1 = []) with
  | [] => reject .missingHeader
  | header :: body => do
    let name ← orReject .missingHeader (headerName? header.1)
    let draft ← body.foldlM readLine { image := { name } }
    if draft.hasCode then .ok draft else reject .missingCode

/-- Decode one entry point; it is worth a warning if there is nothing. -/
def decodeEntry (image : Image) (address : Nat) : Image × List Event :=
  let decoding := image.requestDecode address
  (decoding.image,
    .noted decoding.note :: (if decoding.found then []
      else [.noted (.entryWithoutCode address)]))

/-- Decode entry points in order. -/
def decodeEntries (image : Image) : List Nat → Image × List Event
  | [] => (image, [])
  | address :: later =>
    let (decoded, events) := decodeEntry image address
    let (final, laterEvents) := decodeEntries decoded later
    (final, events ++ laterEvents)

/-- A listing that has been read, and what there was to say on the way. -/
structure Lifted where
  image : Image
  events : List Event

/-- Read the text of a listing. -/
def lift (text : String) : Reading Lifted := do
  let draft ← readDraft text
  let (image, events) := decodeEntries draft.image draft.entries
  .ok {
    image
    events := events ++ [.noted (.listingLifted image.name image.code.size)] }

end ProcRecovery.Listing
