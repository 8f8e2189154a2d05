import ProcRecovery.SymbolicStack.Item

/-!
# Symbolic stacks

A symbolic stack is a list of items, top first, or it is mangled: tracking has
been lost, every operation leaves it so and every question goes unanswered.
Offsets count bytes from the top.

All restructuring is described by one operation, `cut`, which divides the bytes
of a stack at an offset.  An item that is divided loses its content.
-/

namespace ProcRecovery

/-- Total width of some items in bytes. -/
def widthSum : List StackItem → Nat
  | [] => 0
  | item :: below => item.width + widthSum below

/--
The items above an offset and the items below it, an item across the offset
being divided into two unknown ones.  There is no answer if the items are not
as wide as the offset.
-/
def cut : Nat → List StackItem → Option (List StackItem × List StackItem)
  | offset, [] => if offset = 0 then some ([], []) else none
  | offset, item :: below =>
    if offset = 0 then some ([], item :: below)
    else if item.width ≤ offset then
      (cut (offset - item.width) below).map (fun parts =>
        (item :: parts.1, parts.2))
    else
      some ([.unknown offset], .unknown (item.width - offset) :: below)

/--
A cut that leaves items without bytes, if there are any at the offset, among
the items above.
-/
def cutPast (offset : Nat) (items : List StackItem) :
    Option (List StackItem × List StackItem) :=
  (cut offset items).map (fun parts =>
    (parts.1 ++ parts.2.takeWhile StackItem.isEmpty,
      parts.2.dropWhile StackItem.isEmpty))

@[simp]
theorem widthSum_nil : widthSum [] = 0 := rfl

@[simp]
theorem widthSum_cons (item : StackItem) (below : List StackItem) :
    widthSum (item :: below) = item.width + widthSum below := rfl

@[simp]
theorem widthSum_append (above below : List StackItem) :
    widthSum (above ++ below) = widthSum above + widthSum below := by
  induction above with
  | nil => simp
  | cons item later hypothesis =>
    simp only [List.cons_append, widthSum_cons, hypothesis]
    omega

/-- Cutting succeeds exactly within the width of the items. -/
theorem isSome_cut (offset : Nat) (items : List StackItem) :
    (cut offset items).isSome = true ↔ offset ≤ widthSum items := by
  induction items generalizing offset with
  | nil => by_cases zero : offset = 0 <;> simp [cut, zero]
  | cons item below hypothesis =>
    by_cases zero : offset = 0
    · simp [cut, zero]
    · by_cases whole : item.width ≤ offset
      · have rest := hypothesis (offset - item.width)
        simp only [cut, zero, whole, ↓reduceIte, Option.isSome_map,
          widthSum_cons]
        rw [rest]
        omega
      · simp only [cut, zero, whole, ↓reduceIte, Option.isSome_some,
          widthSum_cons, true_iff]
        omega

/-- Cutting divides the width of the items at the offset. -/
theorem widthSum_of_cut
    {offset : Nat} {items above below : List StackItem}
    (divided : cut offset items = some (above, below)) :
    widthSum above = offset ∧ widthSum above + widthSum below =
      widthSum items := by
  induction items generalizing offset above below with
  | nil =>
    by_cases zero : offset = 0
    · simp only [cut, zero, ↓reduceIte, Option.some.injEq, Prod.mk.injEq]
        at divided
      obtain ⟨rfl, rfl⟩ := divided
      simp [zero]
    · simp [cut, zero] at divided
  | cons item rest hypothesis =>
    by_cases zero : offset = 0
    · simp only [cut, zero, ↓reduceIte, Option.some.injEq, Prod.mk.injEq]
        at divided
      obtain ⟨rfl, rfl⟩ := divided
      simp [zero]
    · by_cases whole : item.width ≤ offset
      · simp only [cut, zero, whole, ↓reduceIte, Option.map_eq_some_iff,
          Prod.mk.injEq] at divided
        obtain ⟨⟨inner, lower⟩, found, rfl, rfl⟩ := divided
        have parts := hypothesis found
        simp only [widthSum_cons]
        omega
      · simp only [cut, zero, whole, ↓reduceIte, Option.some.injEq,
          Prod.mk.injEq] at divided
        obtain ⟨rfl, rfl⟩ := divided
        simp only [widthSum_cons, widthSum_nil, StackItem.unknown]
        omega

/--
One item in place of a run of items: the item itself if there is just one, and
otherwise one of which nothing is known.
-/
def merged (width : Nat) : List StackItem → StackItem
  | [item] => item
  | _ => .unknown width

/-- The items above a range, one item for the range, and the items below it. -/
def isolate (items : List StackItem) (offset width : Nat) :
    Option (List StackItem × StackItem × List StackItem) := do
  let (above, rest) ← cutPast offset items
  let (pieces, below) ← cut width rest
  some (above, merged width pieces, below)

/-- A symbolic operand stack. -/
inductive SymbolicStack where
  /-- Items, top first. -/
  | tracked (items : List StackItem)
  /-- Tracking has been lost. -/
  | mangled
  deriving Repr, DecidableEq

namespace SymbolicStack

/-- The stack without items. -/
def empty : SymbolicStack := tracked []

instance : Inhabited SymbolicStack := ⟨empty⟩

/-- The items, top first. -/
def items : SymbolicStack → List StackItem
  | tracked items => items
  | mangled => []

/-- Whether tracking has been lost. -/
def isMangled : SymbolicStack → Bool
  | tracked _ => false
  | mangled => true

/-- Width of the whole stack in bytes. -/
def totalWidth (stack : SymbolicStack) : Nat := widthSum stack.items

/--
Put an item on top of a list of items.  Items without bytes vanish, and an
unknown item merges with an unknown top.
-/
def pushItem (item : StackItem) (items : List StackItem) : List StackItem :=
  if item.width = 0 then items
  else
    match item.content, items with
    | .unknown, ⟨width, .unknown⟩ :: below =>
        .unknown (width + item.width) :: below
    | _, _ => item :: items

/-- Put an item on top. -/
def push (stack : SymbolicStack) (item : StackItem) : SymbolicStack :=
  match stack with
  | tracked items => tracked (pushItem item items)
  | mangled => mangled

/--
Putting an item on top adds its width, whether it merges with the top or not.
-/
theorem widthSum_pushItem (item : StackItem) (items : List StackItem) :
    widthSum (pushItem item items) = item.width + widthSum items := by
  unfold pushItem
  split
  next zero => simp [zero]
  next =>
    split
    next => simp only [widthSum_cons, StackItem.unknown]; omega
    next => rfl

/-- A stack that holds some bytes of which nothing is known. -/
def withUnknown (width : Nat) : SymbolicStack := empty.push (.unknown width)

/--
Take bytes from the top, giving the items taken, top first.  Taking more than
there is mangles the stack.
-/
def pop
    (stack : SymbolicStack)
    (width : Nat) :
    SymbolicStack × List StackItem :=
  match stack with
  | tracked items =>
    match cut width items with
    | some (popped, rest) => (tracked rest, popped)
    | none => (mangled, [])
  | mangled => (mangled, [])

/-- Taking bytes mangles a tracked stack exactly if there are not as many. -/
theorem pop_tracked_eq_mangled_iff (items : List StackItem) (width : Nat) :
    ((tracked items).pop width).1 = mangled ↔ widthSum items < width := by
  have within := isSome_cut width items
  cases divided : cut width items with
  | none =>
    simp only [divided, Option.isSome_none, Bool.false_eq_true, false_iff]
      at within
    simp only [pop, divided, true_iff]
    omega
  | some parts =>
    simp only [divided, Option.isSome_some, true_iff] at within
    simp only [pop, divided, reduceCtorEq, false_iff]
    omega

/-- Whether a range has bytes and ends within what a word can tell. -/
def IsRange (offset width : Nat) : Prop :=
  0 < width ∧ FitsUnsigned (offset + width)

instance (offset width : Nat) : Decidable (IsRange offset width) :=
  inferInstanceAs (Decidable (0 < width ∧ FitsUnsigned (offset + width)))

/--
Restructure the stack so that a single item covers a range of bytes, and give
the number of items below it along with it.
-/
def find (stack : SymbolicStack) (offset width : Nat) :
    SymbolicStack × Option (Nat × StackItem) :=
  match stack with
  | tracked items =>
    if ¬ IsRange offset width then (stack, none)
    else
      match isolate items offset width with
      | some (above, item, below) =>
        (tracked (above ++ item :: below), some (below.length, item))
      | none => (stack, none)
  | mangled => (mangled, none)

/-- The item that covers a range of bytes. -/
def get
    (stack : SymbolicStack)
    (offset width : Nat) :
    SymbolicStack × Option StackItem :=
  let (restructured, found) := stack.find offset width
  (restructured, found.map Prod.snd)

/--
Overwrite bytes by an item.  If there are no such bytes the stack is mangled.
-/
def put
    (stack : SymbolicStack)
    (offset : Nat)
    (item : StackItem) :
    SymbolicStack :=
  match stack with
  | tracked items =>
    if ¬ IsRange offset item.width then mangled
    else
      match isolate items offset item.width with
      | some (above, _, below) => tracked (above ++ item :: below)
      | none => mangled
  | mangled => mangled

/--
The current offset of the place that an item stored at an offset refers to, if
the item is a back reference and that place can be given by a signed word.
-/
def referent? (offset : Nat) (item : StackItem) : Option Nat :=
  match item.content with
  | .backReference distance =>
    let origin : Int := offset + item.width
    if FitsSigned origin ∧ 0 ≤ origin + distance ∧
      FitsSigned (origin + distance) then
      some (origin + distance).toNat
    else
      none
  | _ => none

theorem referent?_backReference
    (offset width : Nat)
    (distance : Int) :
    referent? offset ⟨width, .backReference distance⟩ =
      if FitsSigned ((offset : Int) + width) ∧
        0 ≤ (offset : Int) + width + distance ∧
          FitsSigned ((offset : Int) + width + distance) then
        some ((offset : Int) + width + distance).toNat
      else none := rfl

/--
The current offset of the place that a back reference stored at an offset
refers to.
-/
def resolve
    (stack : SymbolicStack)
    (offset : Nat) :
    SymbolicStack × Option Nat :=
  let (restructured, found) := stack.get offset 2
  (restructured, found.bind (referent? offset))

/-- The text of a stack in a report, top first. -/
def text : SymbolicStack → String
  | mangled => "\x7bmangled\x7d"
  | tracked items =>
      "\x7b" ++ String.intercalate "|" (items.map StackItem.text) ++ "\x7d"

end SymbolicStack

end ProcRecovery
