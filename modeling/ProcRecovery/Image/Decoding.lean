import ProcRecovery.Image.Basic

/-!
# Decoding on demand

Asking for an address to be decoded sweeps over the instructions that follow
one another from there, up to and including the next return, and stops early
where it meets an instruction that has been decoded before.
-/

namespace ProcRecovery

namespace Image

/--
The instructions of an ascending list that follow one another from an address,
up to and including the first return or up to the first gap.
-/
def chain : List (Nat × Instruction) → Nat → List Instruction
  | [], _ => []
  | (start, instruction) :: later, address =>
    if start = address then
      instruction :: (if instruction.isReturn then []
        else chain later instruction.hi)
    else
      chain later address

/--
The known instructions that follow one another from an address, up to and
including the first return or up to the first gap.
-/
def chainFrom (image : Image) (address : Nat) : List Instruction :=
  chain image.code.entries address

/-- The outcome of asking for an address to be decoded. -/
structure Decoding where
  /-- The image afterwards. -/
  image : Image
  /-- Whether the address holds a decoded instruction now. -/
  found : Bool
  /-- What there is to say about it. -/
  note : Note

/--
Where a sweep over a chain of instructions stops: at an instruction decoded
before, at a return, or at the end of the last instruction.
-/
def sweepStop
    (decoded : Table Nat Unit)
    (address : Nat) :
    List Instruction → Nat
  | [] => address
  | instruction :: later =>
    if decoded.contains instruction.lo || instruction.isReturn
      then instruction.lo
    else sweepStop decoded instruction.hi later

/-- Decode the instructions that follow one another from an address. -/
def requestDecode (image : Image) (address : Nat) : Decoding :=
  match image.chainFrom address with
  | [] => { image, found := false, note := .nothingToDecode address }
  | instructions =>
    let fresh :=
      instructions.takeWhile (fun instruction =>
        !image.decoded.contains instruction.lo)
    { image :=
        { image with
          decoded :=
            fresh.foldl (fun decoded instruction =>
              decoded.insert instruction.lo ())
            image.decoded }
      found := true
      note := .decoded address (sweepStop image.decoded address instructions) }

/--
Asking for an address to be decoded changes nothing but the set of decoded
addresses.
-/
theorem code_requestDecode (image : Image) (address : Nat) :
    (image.requestDecode address).image.code = image.code := by
  unfold requestDecode
  split <;> rfl

/-- Labels are left alone by decoding. -/
theorem labels_requestDecode (image : Image) (address : Nat) :
    (image.requestDecode address).image.labels = image.labels := by
  unfold requestDecode
  split <;> rfl

end Image

end ProcRecovery
