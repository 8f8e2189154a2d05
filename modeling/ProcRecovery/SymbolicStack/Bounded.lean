import ProcRecovery.SymbolicStack.Search

/-!
# Stack operations on words

The operations on symbolic stacks with widths kept in words: whenever a width
has to be computed that does not fit, the operation ends in a fault.  Where it
does not, it is the exact operation.
-/

namespace ProcRecovery.SymbolicStack

/-- The width of the whole stack, which has to fit in a word. -/
def measure (stack : SymbolicStack) : Except Fault Nat :=
  unsignedOr .widthOverflow stack.totalWidth

/--
Put an item on top; the merged width of unknown items has to fit in a word.
-/
def boundedPush
    (stack : SymbolicStack)
    (item : StackItem) :
    Except Fault SymbolicStack :=
  let pushed := stack.push item
  match pushed.items with
  | top :: _ =>
      if FitsUnsigned top.width then .ok pushed else .error .widthOverflow
  | [] => .ok pushed

/--
Restructure the stack so that a single item covers a range of bytes.  The width
of the stack has to be known for that, but not for mangled stacks, empty
ranges, and ranges beyond the largest word.
-/
def boundedFind (stack : SymbolicStack) (offset width : Nat) :
    Except Fault (SymbolicStack × Option (Nat × StackItem)) :=
  match stack with
  | mangled => .ok (mangled, none)
  | tracked items =>
    if ¬ IsRange offset width then .ok (tracked items, none)
    else do
      let total ← (tracked items).measure
      if total < offset + width then .ok (tracked items, none)
      else
        match ← search items offset width with
        | some (restructured, found) =>
          .ok (tracked restructured, some found)
        | none => .ok (tracked items, none)

/-- The item that covers a range of bytes. -/
def boundedGet (stack : SymbolicStack) (offset width : Nat) :
    Except Fault (SymbolicStack × Option StackItem) := do
  let (restructured, found) ← stack.boundedFind offset width
  .ok (restructured, found.map Prod.snd)

/-- Overwrite bytes by an item. -/
def boundedPut (stack : SymbolicStack) (offset : Nat) (item : StackItem) :
    Except Fault SymbolicStack := do
  let (restructured, found) ← stack.boundedFind offset item.width
  match found with
  | some (index, _) => tracked <$> store restructured.items index item
  | none => .ok mangled

/-- The current offset of the place that a back reference refers to. -/
def boundedResolve (stack : SymbolicStack) (offset : Nat) :
    Except Fault (SymbolicStack × Option Nat) := do
  let (restructured, found) ← stack.boundedGet offset 2
  .ok (restructured, found.bind (referent? offset))

end ProcRecovery.SymbolicStack
