import ProcRecovery.Proofs.Replay.Movement

/-!
# Stores through the stack pointer

An instruction that stores through the stack pointer overwrites bytes of the
stack, and what was known about these bytes is no longer so.  The replay
follows one shape of such a store, a literal moved to a place at a
displacement.  Any other store leaves the symbolic stack as it is, so what was
known stays, true or not.  This module says exactly when the bytes of a store
are accounted for.
-/

namespace ProcRecovery

open SymbolicStack

/-! ## Bytes of a stack -/

/-- The content of the item that a byte belongs to. -/
def contentAt : List StackItem → Nat → Option Content
  | [], _ => none
  | item :: below, offset =>
    if offset < item.width then some item.content
      else contentAt below (offset - item.width)

theorem contentAt_append_of_le
    {above below : List StackItem} {offset : Nat}
    (past : widthSum above ≤ offset) :
    contentAt (above ++ below) offset =
      contentAt below (offset - widthSum above) := by
  induction above generalizing offset with
  | nil => rfl
  | cons item later hypothesis =>
      rw [widthSum_cons] at past ⊢
      rw [List.cons_append, contentAt, if_neg (by omega),
        hypothesis (by omega)]
      congr 1
      omega

namespace SymbolicStack

/--
A range of bytes holds nothing from before a store: tracking is lost, or every
byte of the range is missing, unknown, or part of the literal that was stored.
-/
def HoldsOnly
    (stack : SymbolicStack)
    (stored : Option Int)
    (offset width : Nat) :
    Prop :=
  stack.isMangled = true ∨
    ∀ byte, offset ≤ byte → byte < offset + width →
      contentAt stack.items byte = none ∨
      contentAt stack.items byte = some .unknown ∨
        ∃ value, stored = some value ∧
        contentAt stack.items byte = some (.smallInt value)

/-- After bytes have been overwritten they hold the item that was put there. -/
theorem contentAt_put
    {stack : SymbolicStack} {offset : Nat} {item : StackItem}
    (tracked : (stack.put offset item).isMangled = false)
    {byte : Nat}
    (lower : offset ≤ byte)
    (upper : byte < offset + item.width) :
    contentAt (stack.put offset item).items byte = some item.content := by
  cases stack with
  | mangled => cases tracked
  | tracked items =>
      simp only [put] at tracked ⊢
      split at tracked
      next => cases tracked
      next range =>
        rw [if_neg range]
        split at tracked
        next above replaced below isolated =>
          have widths := widthSum_of_isolate isolated
          rw [items_tracked, contentAt_append_of_le (by omega), contentAt,
            if_pos (by omega)]
        next => cases tracked

end SymbolicStack

/-! ## Instructions that store through the stack pointer -/

namespace Instruction

/--
How far from the top of the stack the instruction stores, if it stores through
the stack pointer.
-/
def storeOffset? (instruction : Instruction) : Option Nat :=
  match instruction.destination? with
  | some (.deferred base) => if base = .sp then some 0 else none
  | some (.indexed displacement base) =>
    if base = .sp ∧ 0 ≤ displacement then some displacement.toNat else none
  | _ => none

/-- The literal that the instruction stores. -/
def storedLiteral? (instruction : Instruction) : Option Int :=
  match instruction.mnemonic, instruction.operands with
  | .mov, [.immediate value, _] => some value
  | _, _ => none

/--
The one shape of store that the replay follows: a literal moved to a
displacement from the stack pointer.
-/
def IsFollowedStore (instruction : Instruction) : Prop :=
  ∃ value displacement, instruction.mnemonic = .mov ∧
    instruction.operands = [.immediate value, .indexed displacement .sp] ∧
    0 ≤ displacement

theorem storeOffset?_of_operands
    {instruction : Instruction} {value displacement : Int}
    (moves : instruction.mnemonic = .mov)
    (operands : instruction.operands =
      [.immediate value, .indexed displacement .sp])
    (above : 0 ≤ displacement) :
    instruction.storeOffset? = some displacement.toNat := by
  have stores :
    instruction.destination? = some (.indexed displacement .sp) := by
    simp only [destination?, destinationIndex?, moves, operands]
    rfl
  simp only [storeOffset?, stores]
  rw [if_pos ⟨trivial, above⟩]

theorem storedLiteral?_of_operands
    {instruction : Instruction} {value : Int} {target : Operand}
    (moves : instruction.mnemonic = .mov)
    (operands : instruction.operands = [.immediate value, target]) :
    instruction.storedLiteral? = some value := by
  simp [storedLiteral?, moves, operands]

end Instruction

/-! ## What a replayed store leaves -/

namespace ReplayContext

/--
A replayed instruction moves the stack, and a store of the followed shape then
overwrites the bytes at its displacement.
-/
theorem applyInstruction_cases
    {instruction : Instruction} {delta : Int} {state next : ReplayState}
    (applied : applyInstruction instruction delta state = .ok next) :
    ∃ moved, state.move delta = .ok moved ∧
      ((¬ instruction.IsFollowedStore ∧ next = moved) ∨
        ∃ value displacement, instruction.mnemonic = .mov ∧
          instruction.operands =
            [.immediate value, .indexed displacement .sp] ∧
          0 ≤ displacement ∧
          next.stack = moved.stack.put displacement.toNat
            ⟨instruction.width.bytes, .smallInt value⟩) := by
  obtain ⟨moved, isMoved, stored⟩ := bind_eq_ok_iff.mp applied
  refine ⟨moved, isMoved, ?_⟩
  split at stored
  next value displacement base moves operands =>
    split at stored
    next through =>
      obtain ⟨rfl, above⟩ := through
      obtain ⟨stack, put, rest⟩ := bind_eq_ok_iff.mp stored
      cases rest
      have same :=
        (SymbolicStack.delivers_boundedPut moved.stack displacement.toNat
          ⟨instruction.width.bytes, .smallInt value⟩).of_ok put
      exact .inr ⟨value, displacement, moves, operands, above, same⟩
    next elsewhere =>
      cases stored
      refine .inl ⟨?_, rfl⟩
      rintro ⟨otherValue, otherDisplacement, -, otherOperands, above⟩
      rw [operands] at otherOperands
      cases otherOperands
      exact elsewhere ⟨rfl, above⟩
  next others =>
    cases stored
    refine .inl ⟨?_, rfl⟩
    rintro ⟨value, displacement, moves, operands, -⟩
    exact others value displacement .sp moves operands

/-- A followed store leaves nothing from before in the bytes it stores to. -/
theorem holdsOnly_of_put
    {instruction : Instruction} {stack : SymbolicStack}
    {value displacement : Int}
    (moves : instruction.mnemonic = .mov)
    (operands : instruction.operands =
      [.immediate value, .indexed displacement .sp]) :
    (stack.put displacement.toNat ⟨instruction.width.bytes,
      .smallInt value⟩).HoldsOnly
      instruction.storedLiteral?
        displacement.toNat instruction.width.bytes := by
  cases mangled : (stack.put displacement.toNat
      ⟨instruction.width.bytes, .smallInt value⟩).isMangled with
  | true => exact .inl mangled
  | false =>
      refine .inr ?_
      intro byte lower upper
      refine .inr
        (.inr ⟨value, Instruction.storedLiteral?_of_operands moves operands,
          ?_⟩)
      exact SymbolicStack.contentAt_put mangled lower upper

/--
After an instruction that stores through the stack pointer, the bytes it stores
to hold nothing from before exactly if the store is of the followed shape or
they held nothing of the kind already once the stack had moved.  A store of any
other shape leaves the moved stack as it is.
-/
theorem holdsOnly_apply_iff
    (context : ReplayContext)
    {node : Node}
    (raw : node.op = none)
    (state : ReplayState)
    {offset : Nat}
    (stores : node.first.storeOffset? = some offset) :
    Delivers (context.apply node state).outcome
      (fun next => ∃ moved, state.move node.stackDelta = .ok moved ∧
        (next.stack.HoldsOnly node.first.storedLiteral? offset
          node.first.width.bytes ↔
          node.first.IsFollowedStore ∨
            moved.stack.HoldsOnly node.first.storedLiteral? offset
              node.first.width.bytes) ∧
        (¬ node.first.IsFollowedStore → next = moved))
      (WidthExcuse (state.stack.totalWidth + node.stackDelta.natAbs)) := by
  have sameMovement : node.byteMovement = node.stackDelta := by
    simp only [Node.byteMovement, raw]
  apply delivers_of_outcome
  · intro next applied
    have appliedRaw : applyInstruction node.first node.stackDelta state =
        .ok next := by
      simpa only [apply, raw, Traced.outcome_ofExcept] using applied
    obtain ⟨moved, isMoved, outcome⟩ := applyInstruction_cases appliedRaw
    refine ⟨moved, isMoved, ?_⟩
    rcases outcome with
      ⟨other, rfl⟩ | ⟨value, displacement, moves, operands, above, same⟩
    · refine ⟨?_, fun _ => rfl⟩
      constructor
      · exact .inr
      · rintro (followed | held)
        · exact (other followed).elim
        · exact held
    · have followed : node.first.IsFollowedStore :=
        ⟨value, displacement, moves, operands, above⟩
      have here := Instruction.storeOffset?_of_operands moves operands above
      rw [stores] at here
      cases here
      refine ⟨?_, fun other => (other followed).elim⟩
      rw [same]
      exact ⟨fun _ => .inl followed, fun _ => holdsOnly_of_put moves operands⟩
  · intro fault stopped
    rw [← sameMovement]
    exact (delivers_apply context node state).of_error stopped

/-- A literal stored over the second word of the stack. -/
def literalStore : Instruction :=
  ⟨0x1004, 0x100a, .mov, .word, [.immediate 7, .indexed 2 .sp], by decide⟩

theorem holdsOnly_apply_iff_literalStore :
    ∃ next,
      (apply { options := {}, image := { name := "store" }, procedure := 0 }
        (Node.raw literalStore)
        { stack := .tracked [⟨2, .smallInt 5⟩, ⟨2, .smallInt 6⟩],
          slots := ∅ }).outcome =
        .ok next ∧
      next.stack = .tracked [⟨2, .smallInt 5⟩, ⟨2, .smallInt 7⟩] ∧
      next.stack.HoldsOnly literalStore.storedLiteral? 2
        literalStore.width.bytes := by
  have promised :=
    holdsOnly_apply_iff
      { options := {}, image := { name := "store" }, procedure := 0 }
    (rfl : (Node.raw literalStore).op = none)
    { stack := .tracked [⟨2, .smallInt 5⟩, ⟨2, .smallInt 6⟩], slots := ∅ }
    (rfl : literalStore.storeOffset? = some 2)
  refine ⟨{ stack := .tracked [⟨2, .smallInt 5⟩, ⟨2, .smallInt 7⟩],
            slots := ∅ }, rfl, rfl, ?_⟩
  obtain ⟨moved, -, exactly, -⟩ := promised
  exact exactly.mpr (.inl ⟨7, 2, rfl, rfl, by decide⟩)

/-- A register stored on top of the stack. -/
def registerStore : Instruction :=
  ⟨0x1004, 0x1006, .mov, .word, [.register ⟨1⟩, .deferred .sp], by decide⟩

/--
A literal on top of the stack is still there after a register has been stored
over it.
-/
theorem not_holdsOnly_registerStore :
    ∃ next,
      (apply { options := {}, image := { name := "store" }, procedure := 0 }
        (Node.raw registerStore)
          { stack := .tracked [⟨2, .smallInt 5⟩], slots := ∅ }).outcome =
        .ok next ∧
      registerStore.storeOffset? = some 0 ∧
      next.stack = .tracked [⟨2, .smallInt 5⟩] ∧
      ¬ next.stack.HoldsOnly registerStore.storedLiteral? 0
        registerStore.width.bytes := by
  refine ⟨{ stack := .tracked [⟨2, .smallInt 5⟩], slots := ∅ }, rfl, rfl, rfl,
    ?_⟩
  rintro (mangled | bytes)
  · cases mangled
  · rcases bytes 0 (by decide) (by decide) with
      missing | isUnknown | ⟨value, isStored, -⟩
    · cases missing
    · cases isUnknown
    · cases isStored

end ReplayContext

end ProcRecovery
