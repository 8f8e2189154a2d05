import ProcRecovery.Fault
import ProcRecovery.SymbolicStack.Basic

/-!
# Searching step by step

A search for a range of bytes locates the item that the first byte of the
range belongs to, divides that item if the range starts inside it, joins it
with the items below until the range is covered, and divides the joined item
if it is wider than the range.

Every step relies on what the steps before it have left: that there is an item
at a place, that a division leaves bytes on both sides, that there is an item
below as long as bytes are missing, and that the item in the end is as wide as
the range.  Where one of these fails, the search ends in a fault.  Places are
counted from the top.
-/

namespace ProcRecovery.SymbolicStack

/--
The place of the item that a byte belongs to and the offset of that item, for
items that start at a place and an offset.
-/
def locate (offset : Nat) :
    Nat → Nat → List StackItem → Except Fault (Option (Nat × Nat))
  | _, _, [] => .ok none
  | place, start, item :: below => do
    let stop ← unsignedOr .widthOverflow (start + item.width)
    if offset < stop then .ok (some (place, start))
    else locate offset (place + 1) stop below

/-- The item at a place. -/
def itemAt (items : List StackItem) (place : Nat) : Except Fault StackItem :=
  match items[place]? with
  | some item => .ok item
  | none => .error .missingItem

/--
Divide the item at a place so that its upper bytes become an item of their
own.  Nothing is known of either part, and neither may be empty.
-/
def divide (items : List StackItem) (place upper : Nat) :
    Except Fault (List StackItem) := do
  let item ← itemAt items place
  if 0 < upper ∧ upper < item.width then
    .ok (items.take place ++
      .unknown upper :: .unknown (item.width - upper) ::
        items.drop (place + 1))
  else
    .error .emptyPart

/--
Take items from the top until they make up a width, together with the bytes
that are covered already.  The answer is what is covered in the end and the
items that are left.
-/
def gather (width : Nat) :
    Nat → List StackItem → Except Fault (Nat × List StackItem)
  | covered, [] =>
    if covered < width then .error .missingItem else .ok (covered, [])
  | covered, item :: below =>
    if covered < width then do
      let wider ← unsignedOr .widthOverflow (covered + item.width)
      gather width wider below
    else
      .ok (covered, item :: below)

/-- Join the item at a place with the items below it until it has a width. -/
def join (items : List StackItem) (place width : Nat) :
    Except Fault (List StackItem) := do
  let item ← itemAt items place
  if item.width < width then
    let (covered, below) ←
      gather width item.width (items.drop (place + 1))
    .ok (items.take place ++ .unknown covered :: below)
  else
    .ok items

/--
Restructure items so that one of them starts at an offset within the item at
a place, which itself starts at an offset.  The answer also tells the place of
the item.
-/
def enter (items : List StackItem) (place start offset : Nat) :
    Except Fault (List StackItem × Nat) :=
  if start < offset then do
    let parted ← divide items place (offset - start)
    .ok (parted, place + 1)
  else
    .ok (items, place)

/--
Restructure items so that the one at a place is as wide as a range that starts
with it.
-/
def fit (items : List StackItem) (place width : Nat) :
    Except Fault (List StackItem) := do
  let joined ← join items place width
  let wide ← itemAt joined place
  if width < wide.width then divide joined place width else .ok joined

/--
Restructure items so that a single one covers a range of bytes, and give the
number of items below it along with it.
-/
def search (items : List StackItem) (offset width : Nat) :
    Except Fault (Option (List StackItem × Nat × StackItem)) := do
  match ← locate offset 0 0 items with
  | none => .ok none
  | some (located, start) =>
    let (entered, place) ← enter items located start offset
    let fitted ← fit entered place width
    let item ← itemAt fitted place
    if item.width = width then
      .ok (some (fitted, fitted.length - (place + 1), item))
    else
      .error .inexactRange

/-- Overwrite the item that has a number of items below it. -/
def store (items : List StackItem) (index : Nat) (item : StackItem) :
    Except Fault (List StackItem) :=
  if index < items.length then
    .ok (items.set (items.length - (index + 1)) item)
  else
    .error .missingItem

end ProcRecovery.SymbolicStack
