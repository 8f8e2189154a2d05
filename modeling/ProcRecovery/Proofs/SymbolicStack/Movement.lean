import ProcRecovery.Proofs.SymbolicStack.Search

/-!
# Movement of symbolic stacks

What the operations do to the width of a stack.  A stack that is still tracked
after an operation was tracked before it, and its width has changed by exactly
the bytes that were put on or taken off.  Searching, reading, overwriting and
resolving a reference move nothing, however they divide and merge items.
-/

namespace ProcRecovery

namespace SymbolicStack

/--
The stack has moved by a stack effect, or tracking has been lost on the way.  A
positive effect takes bytes off.
-/
def MovedBy (delta : Int) (before after : SymbolicStack) : Prop :=
  after.isMangled = false →
    before.isMangled = false ∧ (after.totalWidth : Int) =
      before.totalWidth - delta

@[simp]
theorem totalWidth_tracked (items : List StackItem) :
    (tracked items).totalWidth = widthSum items := rfl

@[simp]
theorem isMangled_tracked
    (items : List StackItem) :
    (tracked items).isMangled = false := rfl

@[simp]
theorem isMangled_mangled : mangled.isMangled = true := rfl

@[simp]
theorem items_tracked
    (items : List StackItem) :
    (tracked items).items = items := rfl

@[simp]
theorem items_mangled : mangled.items = [] := rfl

namespace MovedBy

variable {first second third : SymbolicStack} {delta later : Int}

theorem refl (stack : SymbolicStack) : MovedBy 0 stack stack := by
  intro tracked
  exact ⟨tracked, by omega⟩

theorem trans
    (moved : MovedBy delta first second)
    (movedOn : MovedBy later second third) :
    MovedBy (delta + later) first third := by
  intro tracked
  obtain ⟨between, laterWidth⟩ := movedOn tracked
  obtain ⟨start, width⟩ := moved between
  exact ⟨start, by omega⟩

/-- A movement of nothing before another movement. -/
theorem trans_zero
    (moved : MovedBy 0 first second)
    (movedOn : MovedBy later second third) :
    MovedBy later first third := by
  have both := moved.trans movedOn
  rwa [Int.zero_add] at both

theorem to_mangled
    (delta : Int)
    (stack : SymbolicStack) :
    MovedBy delta stack mangled := by
  intro tracked
  simp at tracked

theorem of_tracked
    {before after : List StackItem}
    (width : (widthSum after : Int) = widthSum before - delta) :
    MovedBy delta (tracked before) (tracked after) :=
  fun _ => ⟨rfl, width⟩

/-- After a movement of nothing a stack is no wider than it was. -/
theorem totalWidth_le (moved : MovedBy 0 first second) :
    second.totalWidth ≤ first.totalWidth := by
  cases second with
  | mangled => exact Nat.zero_le _
  | tracked items =>
      obtain ⟨-, width⟩ := moved rfl
      omega

end MovedBy

theorem movedBy_push (stack : SymbolicStack) (item : StackItem) :
    MovedBy (-(item.width : Int)) stack (stack.push item) := by
  cases stack with
  | mangled => exact MovedBy.to_mangled _ _
  | tracked items =>
      apply MovedBy.of_tracked
      rw [widthSum_pushItem]
      omega

theorem movedBy_pop (stack : SymbolicStack) (width : Nat) :
    MovedBy width stack (stack.pop width).1 := by
  cases stack with
  | mangled => exact MovedBy.to_mangled _ _
  | tracked items =>
      cases divided : cut width items with
      | none =>
          simp only [pop, divided]
          exact MovedBy.to_mangled _ _
      | some parts =>
          obtain ⟨popped, rest⟩ := parts
          obtain ⟨top, whole⟩ := widthSum_of_cut divided
          simp only [pop, divided]
          apply MovedBy.of_tracked
          omega

end SymbolicStack

/-- Isolating a range divides the width of the items at its two ends. -/
theorem widthSum_of_isolate
    {items above below : List StackItem} {item : StackItem}
    {offset width : Nat}
    (found : isolate items offset width = some (above, item, below)) :
    widthSum above = offset ∧ item.width = width ∧
      widthSum above + width + widthSum below = widthSum items := by
  obtain ⟨rest, pieces, cutAbove, cutBelow, rfl⟩ :=
    isolate_eq_some_iff.mp found
  obtain ⟨upperWidth, upperWhole⟩ := widthSum_of_cutPast cutAbove
  obtain ⟨piecesWidth, lowerWhole⟩ := widthSum_of_cut cutBelow
  exact ⟨upperWidth, width_merged piecesWidth, by omega⟩

namespace SymbolicStack

theorem movedBy_find (stack : SymbolicStack) (offset width : Nat) :
    MovedBy 0 stack (stack.find offset width).1 := by
  cases stack with
  | mangled => exact MovedBy.to_mangled _ _
  | tracked items =>
      simp only [find]
      split
      · exact MovedBy.refl _
      · split
        next above item below found =>
          obtain ⟨-, itemWidth, whole⟩ := widthSum_of_isolate found
          apply MovedBy.of_tracked
          simp only [widthSum_append, widthSum_cons]
          omega
        next => exact MovedBy.refl _

theorem movedBy_get (stack : SymbolicStack) (offset width : Nat) :
    MovedBy 0 stack (stack.get offset width).1 :=
  movedBy_find stack offset width

theorem movedBy_resolve (stack : SymbolicStack) (offset : Nat) :
    MovedBy 0 stack (stack.resolve offset).1 :=
  movedBy_get stack offset 2

theorem movedBy_put (stack : SymbolicStack) (offset : Nat) (item : StackItem) :
    MovedBy 0 stack (stack.put offset item) := by
  cases stack with
  | mangled => exact MovedBy.to_mangled _ _
  | tracked items =>
      simp only [put]
      split
      · exact MovedBy.to_mangled _ _
      · split
        next above replaced below found =>
          obtain ⟨-, -, whole⟩ := widthSum_of_isolate found
          apply MovedBy.of_tracked
          simp only [widthSum_append, widthSum_cons]
          omega
        next => exact MovedBy.to_mangled _ _

/-!
## Contracts of the operations on words

An operation on words is the exact operation, and the only fault it can end
with is that a width leaves its word.  The excuse is always stated with a bound
on the width, so that it cannot be claimed for stacks of ordinary size.
-/

/--
The fault of a width that leaves its word, excused for stacks of at least the
given width.
-/
def WidthExcuse (width : Nat) (fault : Fault) : Prop :=
  fault = .widthOverflow ∧ ¬ FitsUnsigned width

theorem WidthExcuse.mono
    {narrow wide : Nat}
    (narrower : narrow ≤ wide)
    {fault : Fault}
    (excused : WidthExcuse narrow fault) :
    WidthExcuse wide fault := by
  refine ⟨excused.1, ?_⟩
  intro fits
  apply excused.2
  unfold FitsUnsigned at *
  omega

theorem delivers_measure (stack : SymbolicStack) :
    Delivers stack.measure
      (fun width => width = stack.totalWidth ∧ FitsUnsigned stack.totalWidth)
      (WidthExcuse stack.totalWidth) :=
  delivers_unsignedOr .widthOverflow stack.totalWidth

theorem delivers_boundedPush (stack : SymbolicStack) (item : StackItem) :
    Delivers (stack.boundedPush item) (fun pushed => pushed = stack.push item)
      (WidthExcuse (stack.totalWidth + item.width)) := by
  simp only [boundedPush]
  split
  next top below shape =>
    split
    · exact rfl
    next overflows =>
      -- a top item is no wider than the whole stack, which has grown by the
      -- pushed width
      refine WidthExcuse.mono ?_ ⟨rfl, overflows⟩
      cases stack with
      | mangled => simp [push] at shape
      | tracked items =>
          have grown := widthSum_pushItem item items
          simp only [push, items_tracked] at shape
          rw [shape, widthSum_cons] at grown
          simp only [totalWidth_tracked]
          omega
  next => exact rfl

theorem delivers_measureFor (stack : SymbolicStack) (offset width : Nat) :
    Delivers (stack.measureFor offset width) (fun _ => True)
      (WidthExcuse stack.totalWidth) := by
  unfold measureFor
  split
  · apply (delivers_measure stack).bind
    intro _ _
    trivial
  · trivial

theorem delivers_boundedGet
    (stack : SymbolicStack)
    (offset width : Nat) :
    Delivers (stack.boundedGet offset width) (fun found =>
      found = stack.get offset width)
      (WidthExcuse stack.totalWidth) := by
  rw [boundedGet_eq]
  apply (delivers_measureFor stack offset width).bind
  intro _ _
  exact rfl

theorem delivers_boundedPut
    (stack : SymbolicStack)
    (offset : Nat)
    (item : StackItem) :
    Delivers (stack.boundedPut offset item) (fun changed =>
      changed = stack.put offset item)
      (WidthExcuse stack.totalWidth) := by
  rw [boundedPut_eq]
  apply (delivers_measureFor stack offset item.width).bind
  intro _ _
  exact rfl

theorem delivers_boundedResolve
    (stack : SymbolicStack)
    (offset : Nat) :
    Delivers (stack.boundedResolve offset) (fun resolved =>
      resolved = stack.resolve offset)
      (WidthExcuse stack.totalWidth) := by
  rw [boundedResolve_eq]
  apply (delivers_measureFor stack offset 2).bind
  intro _ _
  exact rfl

end SymbolicStack

end ProcRecovery
