import Mathlib.Logic.Function.Basic
import ProcRecovery.Instruction.Validity
import ProcRecovery.Proofs.Idiom.Linkage
import ProcRecovery.Proofs.Outcome
import ProcRecovery.StackEffect

/-!
# Execution and the stack pointer

What executing an instruction does to the registers, as far as the table of
stack effects has to know.  The operands are addressed one after the other, and
each one that increments or decrements moves its register by the width of the
instruction.  Adding or subtracting a literal moves a register by the literal.
What any other write puts into a register is left open, and so is what an
unknown operation does to the registers it addresses through and what a call or
return leaves in any register but the stack pointer, whose return address is
taken off again.  Registers hold integers, so that movements are exact and do
not wrap around.

A stack effect is right if all executions move the stack pointer by it.  Two
kinds of instructions have a stack effect that is not: a loop that counts the
stack pointer down, and a call whose destination moves the stack pointer.
-/

namespace ProcRecovery

/-! ## Execution -/

/--
The registers after an operand has been addressed with units of some size.
-/
def Operand.advance
    (unit : Nat)
    (registers : Register → Int) :
    Operand → Register → Int
  | autoIncrement base =>
      Function.update registers base (registers base + unit)
  | autoDecrement base =>
      Function.update registers base (registers base - unit)
  | _ => registers

namespace Instruction

/-- The registers after all operands of an instruction have been addressed. -/
def addressed
    (instruction : Instruction)
    (registers : Register → Int) :
    Register → Int :=
  instruction.operands.foldl (Operand.advance instruction.width.bytes)
    registers

/-- The instruction writes a register other than by addressing an operand. -/
def WritesDirectly (instruction : Instruction) (register : Register) : Prop :=
  instruction.operands.countP (fun operand =>
    operand.movedRegister? = some register) <
    instruction.registerWrites register

/-- The literal by which an instruction moves a register. -/
def literalShift?
    (instruction : Instruction)
    (register : Register) :
    Option Int :=
  match instruction.mnemonic, instruction.operands with
  | .add, [.immediate bytes, .register base] =>
      if base = register then some bytes else none
  | .sub, [.immediate bytes, .register base] =>
      if base = register then some (-bytes) else none
  | _, _ => none

/-- What an execution puts into a register is not known. -/
def LeavesOpen (instruction : Instruction) (register : Register) : Prop :=
  register = .pc ∨
    (instruction.mnemonic.isOther = true ∧
      instruction.mentions register = true) ∨
    ((instruction.mnemonic = .jsr ∨ instruction.mnemonic = .rts) ∧
      register ≠ .sp) ∨
    (instruction.WritesDirectly register ∧ instruction.literalShift? register =
      none)

/--
An execution of the instruction, with the calls it makes, takes some registers
to others.
-/
def Executes
    (instruction : Instruction)
    (before after : Register → Int) :
    Prop :=
  ∀ register, ¬ instruction.LeavesOpen register →
    after register =
      instruction.addressed before register +
        (instruction.literalShift? register).getD 0

/--
Every execution of the instruction moves the stack pointer by some bytes.
-/
def MovesStackBy (instruction : Instruction) (bytes : Int) : Prop :=
  ∀ before after, instruction.Executes before after →
    after .sp = before .sp + bytes

/--
The instruction moves the stack pointer where the table of stack effects does
not look: it counts the stack pointer down, or it calls through it.
-/
def HidesMovement (instruction : Instruction) : Prop :=
  (instruction.mnemonic = .sob ∧
    instruction.operands.head? = some (.register .sp)) ∨
    (instruction.mnemonic = .jsr ∧
      ∃ operand ∈ instruction.operands, operand.movedRegister? = some .sp)

end Instruction

/-! ## Addressing -/

theorem Operand.advance_sp
    (unit : Nat)
    (registers : Register → Int)
    (operand : Operand) :
    operand.advance unit registers .sp =
      registers .sp + operand.stackMovement unit := by
  cases operand with
  | autoIncrement base =>
      by_cases through : base = .sp
      · simp [advance, stackMovement, through]
      · simp [advance, stackMovement, through,
          Function.update_of_ne (Ne.symm through)]
  | autoDecrement base =>
      by_cases through : base = .sp
      · simp [advance, stackMovement, through, Int.sub_eq_add_neg]
      · simp [advance, stackMovement, through,
          Function.update_of_ne (Ne.symm through)]
  | _ => simp [advance, stackMovement]

/-- Addressing operands moves the stack pointer by what each of them does. -/
theorem Operand.foldl_advance_sp
    (unit : Nat)
    (registers : Register → Int)
    (operands : List Operand) :
    operands.foldl (Operand.advance unit) registers .sp =
      registers .sp + Operand.stackMovements unit operands := by
  induction operands generalizing registers with
  | nil => simp [stackMovements]
  | cons operand later hypothesis =>
      rw [List.foldl_cons, hypothesis, advance_sp, stackMovements,
        Int.add_assoc]

namespace Instruction

variable {instruction : Instruction} {bytes : Int} {register : Register}

theorem addressed_sp
    (instruction : Instruction)
    (registers : Register → Int) :
    instruction.addressed registers .sp =
      registers .sp + Operand.stackMovements instruction.width.bytes
        instruction.operands :=
  Operand.foldl_advance_sp _ _ _

/-- A direct write goes to the destination or to the counter of a loop. -/
theorem writesDirectly_iff :
    instruction.WritesDirectly register ↔
      instruction.destination? = some (.register register) ∨
        (instruction.mnemonic = .sob ∧
          instruction.operands.head? = some (.register register)) := by
  unfold WritesDirectly registerWrites
  split
  next stores => simp [stores]
  next notStored =>
    split
    next counts => simp [counts]
    next notCounted => simp [notStored, notCounted]

/-! ## Executions -/

/--
From any registers there is an execution, and it may put anything into a
register that is left open.
-/
theorem exists_executes
    (instruction : Instruction)
    (before : Register → Int)
    (value : Int) :
    ∃ after, instruction.Executes before after ∧
      (instruction.LeavesOpen .sp → after .sp = value) := by
  classical
  refine ⟨fun register => if instruction.LeavesOpen register then value else
    instruction.addressed before register +
      (instruction.literalShift? register).getD 0, ?_, ?_⟩
  · intro register closed
    exact if_neg closed
  · intro isOpen
    exact if_pos isOpen

/--
If the stack pointer is not left open, it moves by its operands and by the
literal.
-/
theorem movesStackBy_iff
    (closed : ¬ instruction.LeavesOpen .sp) :
    instruction.MovesStackBy bytes ↔
      bytes = Operand.stackMovements instruction.width.bytes
        instruction.operands +
        (instruction.literalShift? .sp).getD 0 := by
  constructor
  · intro moves
    obtain ⟨after, executes, -⟩ := instruction.exists_executes (fun _ => 0) 0
    have byTable := executes .sp closed
    rw [addressed_sp] at byTable
    have byBytes := moves _ after executes
    omega
  · rintro rfl before after executes
    rw [executes .sp closed, addressed_sp, Int.add_assoc]

/--
If it is left open, there is no number of bytes by which it always moves.
-/
theorem not_movesStackBy (isOpen : instruction.LeavesOpen .sp) (bytes : Int) :
    ¬ instruction.MovesStackBy bytes := by
  intro moves
  obtain ⟨after, executes, isValue⟩ :=
    instruction.exists_executes (fun _ => 0) (bytes + 1)
  have byBytes := moves _ after executes
  rw [isValue isOpen] at byBytes
  omega

/-! ## The table of stack effects -/

/--
The stack pointer is left open by unknown operations that address through it,
and by writes of no known shape.
-/
theorem leavesOpen_sp_iff :
    instruction.LeavesOpen .sp ↔
      (instruction.mnemonic.isOther = true ∧ instruction.mentions .sp = true) ∨
        (instruction.WritesDirectly .sp ∧
          instruction.literalShift? .sp = none) := by
  have apart : Register.sp ≠ .pc := by decide
  simp [LeavesOpen, apart]

/-- An instruction that moves the stack pointer by a literal. -/
theorem shape_of_literalShift?
    (shifts : instruction.literalShift? .sp = some bytes) :
    instruction.stackEffect = .ofAdjustment bytes ∧
      Operand.stackMovements instruction.width.bytes instruction.operands = 0 ∧
      (instruction.mnemonic = .add ∨ instruction.mnemonic = .sub) := by
  unfold literalShift? at shifts
  split at shifts
  next literal base adds operands =>
    split at shifts
    next isStack =>
      cases shifts
      subst isStack
      simp [stackEffect, adds, operands, Operand.stackMovements,
        Operand.stackMovement]
    next => cases shifts
  next literal base subtracts operands =>
    split at shifts
    next isStack =>
      cases shifts
      subst isStack
      simp [stackEffect, subtracts, operands, Operand.stackMovements,
        Operand.stackMovement]
    next => cases shifts
  next => cases shifts

/--
Apart from movements by a literal, calls, returns and unknown operations, the
operands make up the stack effect.
-/
theorem stackEffect_eq_operandEffect
    (plain : instruction.literalShift? .sp = none)
    (noLinkage : ¬ (instruction.mnemonic = .jsr ∨ instruction.mnemonic = .rts))
    (known :
      ¬ (instruction.mnemonic.isOther = true ∧
        instruction.mentions .sp = true)) :
    instruction.stackEffect = instruction.operandEffect := by
  unfold stackEffect
  split
  next adds operands =>
    apply if_neg
    rintro rfl
    simp [literalShift?, adds, operands] at plain
  next subtracts operands =>
    apply if_neg
    rintro rfl
    simp [literalShift?, subtracts, operands] at plain
  next calls => exact absurd (.inl calls) noLinkage
  next returns => exact absurd (.inr returns) noLinkage
  next isOther =>
    apply if_neg
    intro mentions
    exact known ⟨by rw [isOther]; rfl, mentions⟩
  next => rfl

/-! ## Movements that are told -/

/--
What the table of stack effects tells about the movement of the stack pointer.
-/
structure TellsMovement (instruction : Instruction) : Prop where
  /--
  A movement in the table is that of every execution, unless the instruction
  hides one.
  -/
  delta_iff : ∀ bytes, instruction.stackEffect = .delta bytes →
    (instruction.MovesStackBy bytes ↔ ¬ instruction.HidesMovement)
  /-- A hidden movement passes for none at all. -/
  hidden : instruction.HidesMovement → instruction.stackEffect = .delta 0
  /--
  What is not recognized moves the stack pointer by no fixed number of bytes,
  or by more than there are.
  -/
  unrecognized : instruction.stackEffect = .unrecognized →
    ¬ instruction.HidesMovement ∧
    ∀ bytes, instruction.MovesStackBy bytes → addressSpace ≤ bytes.natAbs
  /-- What is not recognized is reported and counts as no movement. -/
  reported : instruction.stackEffect = .unrecognized → ∀ frameSize procedure,
    (Node.raw instruction).assignDelta frameSize procedure =
      ⟨[.diagnosed procedure
        (.unrecognizedStackEffect instruction.lo instruction.text)],
        .ok (Node.raw instruction)⟩

theorem assignDelta_of_unrecognized
    (effect : instruction.stackEffect = .unrecognized)
    (frameSize procedure : Nat) :
    (Node.raw instruction).assignDelta frameSize procedure =
      ⟨[.diagnosed procedure
        (.unrecognizedStackEffect instruction.lo instruction.text)],
        .ok (Node.raw instruction)⟩ := by
  have computed : (Node.raw instruction).stackEffect frameSize =
      .ok .unrecognized :=
    congrArg Except.ok effect
  rw [Node.assignDelta, computed]
  rfl

theorem tellsMovement_of_delta
    (effect : instruction.stackEffect = .delta bytes)
    (moves : instruction.MovesStackBy bytes ↔ ¬ instruction.HidesMovement)
    (still : instruction.HidesMovement → bytes = 0) :
    instruction.TellsMovement where
  delta_iff := by
    intro other isOther
    rw [effect] at isOther
    cases isOther
    exact moves
  hidden := by
    intro hides
    rw [effect, still hides]
  unrecognized := by
    intro isUnrecognized
    rw [effect] at isUnrecognized
    cases isUnrecognized
  reported := by
    intro isUnrecognized
    rw [effect] at isUnrecognized
    cases isUnrecognized

theorem tellsMovement_of_unrecognized
    (effect : instruction.stackEffect = .unrecognized)
    (visible : ¬ instruction.HidesMovement)
    (large : ∀ bytes, instruction.MovesStackBy bytes →
      addressSpace ≤ bytes.natAbs) :
    instruction.TellsMovement where
  delta_iff := by
    intro bytes isDelta
    rw [effect] at isDelta
    cases isDelta
  hidden := fun hides => absurd hides visible
  unrecognized := fun _ => ⟨visible, large⟩
  reported := fun _ => assignDelta_of_unrecognized effect

/--
A literal moves the stack pointer by itself, and is recognized within the
address space.
-/
theorem tellsMovement_of_literalShift?
    (shifts : instruction.literalShift? .sp = some bytes) :
    instruction.TellsMovement := by
  obtain ⟨effect, unmoved, adjusts⟩ := shape_of_literalShift? shifts
  have known : instruction.mnemonic.isOther = false := by
    rcases adjusts with same | same <;> rw [same] <;> rfl
  have visible : ¬ instruction.HidesMovement := by
    rintro (⟨loops, -⟩ | ⟨calls, -⟩)
    · rcases adjusts with same | same <;> rw [same] at loops <;> cases loops
    · rcases adjusts with same | same <;> rw [same] at calls <;> cases calls
  have closed : ¬ instruction.LeavesOpen .sp := by
    simp [leavesOpen_sp_iff, known, shifts]
  have moves : ∀ other, instruction.MovesStackBy other ↔ other = bytes := by
    intro other
    rw [movesStackBy_iff closed, unmoved, shifts, Option.getD_some,
      Int.zero_add]
  by_cases within : bytes.natAbs < addressSpace
  · rw [StackEffect.ofAdjustment, if_pos within] at effect
    exact tellsMovement_of_delta effect
      (iff_of_true ((moves bytes).mpr rfl) visible)
      (fun hides => absurd hides visible)
  · rw [StackEffect.ofAdjustment, if_neg within] at effect
    refine tellsMovement_of_unrecognized effect visible ?_
    intro other moved
    rw [(moves other).mp moved]
    omega

/--
The return address of a call or return is balanced, so only the destination of
a call can move the stack pointer.
-/
theorem tellsMovement_of_linkage
    (valid : instruction.defect? = none)
    (links : instruction.mnemonic = .jsr ∨ instruction.mnemonic = .rts) :
    instruction.TellsMovement := by
  have effect : instruction.stackEffect = .delta 0 := by
    rcases links with same | same <;> simp [stackEffect, same]
  have plain : instruction.literalShift? .sp = none := by
    rcases links with same | same <;> simp [literalShift?, same]
  have closed : ¬ instruction.LeavesOpen .sp := by
    rw [leavesOpen_sp_iff, writesDirectly_iff]
    rcases links with same | same <;>
      simp [same, Mnemonic.isOther, destination?, destinationIndex?]
  refine tellsMovement_of_delta effect ?_ (fun _ => rfl)
  rw [movesStackBy_iff closed, plain, Option.getD_none, Int.add_zero]
  rcases links with calls | returns
  · obtain ⟨linkage, destination, operands, -⟩ :=
      Idiom.operands_of_call valid calls
    have moved :
        Operand.stackMovements instruction.width.bytes instruction.operands =
        destination.stackMovement instruction.width.bytes := by
      simp [operands, Operand.stackMovements, Operand.stackMovement]
    rw [moved, eq_comm, Operand.stackMovement_eq_zero_iff]
    simp [HidesMovement, calls, operands, Operand.movedRegister?]
  · obtain ⟨linkage, operands⟩ := Idiom.operands_of_return valid returns
    simp [HidesMovement, returns, operands, Operand.stackMovements,
      Operand.stackMovement]

/-- Everything else moves the stack pointer by its operands, or writes it. -/
theorem tellsMovement_of_operands
    (valid : instruction.defect? = none)
    (plain : instruction.literalShift? .sp = none)
    (noLinkage : ¬ (instruction.mnemonic = .jsr ∨ instruction.mnemonic = .rts))
    (known :
      ¬ (instruction.mnemonic.isOther = true ∧
        instruction.mentions .sp = true)) :
    instruction.TellsMovement := by
  have effect := stackEffect_eq_operandEffect plain noLinkage known
  have isOpen : instruction.LeavesOpen .sp ↔
    instruction.WritesDirectly .sp := by
    simp only [leavesOpen_sp_iff, known, plain, false_or, and_true]
  have hides : instruction.HidesMovement ↔
      instruction.mnemonic = .sob ∧
      instruction.operands.head? = some (.register .sp) :=
    or_iff_left (fun calls => noLinkage (.inl calls.1))
  rw [operandEffect] at effect
  split at effect
  next stores =>
    refine tellsMovement_of_unrecognized effect ?_ ?_
    · rw [hides]
      rintro ⟨loops, -⟩
      simp [destination?, destinationIndex?, loops] at stores
    · intro bytes moves
      exact absurd moves
        (not_movesStackBy (isOpen.mpr (writesDirectly_iff.mpr (.inl stores)))
          bytes)
  next notStored =>
    -- The table looks for a write at the destination only, which leaves the
    -- counter of a loop.
    have isCounter : instruction.LeavesOpen .sp ↔
      instruction.HidesMovement := by
      rw [isOpen, writesDirectly_iff, or_iff_right notStored, hides]
    refine tellsMovement_of_delta effect ?_ ?_
    · rw [← isCounter]
      constructor
      · intro moves leaves
        exact not_movesStackBy leaves _ moves
      · intro closed
        rw [movesStackBy_iff closed, plain, Option.getD_none, Int.add_zero]
    · intro hidden
      obtain ⟨counter, start, operands⟩ :=
        Idiom.operands_of_loop valid (hides.mp hidden).1
      simp [operands, Operand.stackMovements, Operand.stackMovement]

/--
An unknown operation that addresses through the stack pointer may do anything
to it.
-/
theorem tellsMovement_of_other
    (isOther : instruction.mnemonic.isOther = true)
    (mentions : instruction.mentions .sp = true) :
    instruction.TellsMovement := by
  cases shape : instruction.mnemonic with
  | other name =>
      refine tellsMovement_of_unrecognized
        (by simp [stackEffect, shape, mentions]) ?_ ?_
      · simp [HidesMovement, shape]
      · intro bytes moves
        have isOpen := leavesOpen_sp_iff.mpr (.inl ⟨isOther, mentions⟩)
        exact absurd moves (not_movesStackBy isOpen bytes)
  | _ =>
      rw [shape] at isOther
      cases isOther

/--
The table of stack effects tells how a valid instruction moves the stack
pointer, with the two exceptions of instructions that hide their movement.
-/
theorem stackEffect_tells_movement
    (valid : instruction.defect? = none) :
    (∀ before, ∃ after, instruction.Executes before after) ∧
      instruction.TellsMovement := by
  constructor
  · intro before
    obtain ⟨after, executes, -⟩ := instruction.exists_executes before 0
    exact ⟨after, executes⟩
  · by_cases links : instruction.mnemonic = .jsr ∨ instruction.mnemonic = .rts
    · exact tellsMovement_of_linkage valid links
    · by_cases unknown : instruction.mnemonic.isOther = true ∧
        instruction.mentions .sp = true
      · exact tellsMovement_of_other unknown.1 unknown.2
      · cases shifts : instruction.literalShift? .sp with
        | some bytes => exact tellsMovement_of_literalShift? shifts
        | none => exact tellsMovement_of_operands valid shifts links unknown

/-- A comparison that takes two words off the stack. -/
def poppingComparison : Instruction :=
  ⟨0xb000, 0xb002, .cmp, .word, [.autoIncrement .sp, .autoIncrement .sp],
    by decide⟩

theorem stackEffect_tells_movement_poppingComparison :
    poppingComparison.defect? = none ∧
      poppingComparison.stackEffect = .delta 4 ∧
      poppingComparison.MovesStackBy 4 := by
  have valid : poppingComparison.defect? = none := by decide
  have visible : ¬ poppingComparison.HidesMovement := by
    unfold HidesMovement
    decide
  have effect : poppingComparison.stackEffect = .delta 4 := by decide
  exact ⟨valid, effect,
    ((stackEffect_tells_movement valid).2.delta_iff 4 effect).mpr visible⟩

/-- A loop that counts the stack pointer down. -/
def countingLoop : Instruction :=
  ⟨0xb002, 0xb004, .sob, .word, [.register .sp, .target 0xb000], by decide⟩

/-- A call of the address on top of the stack, which is taken off. -/
def poppingCall : Instruction :=
  ⟨0xb000, 0xb002, .jsr, .word, [.register .pc, .autoIncrement .sp], by decide⟩

/--
Neither of them keeps the stack pointer where it is, as their stack effects
say: the loop writes it, and the call moves it by a word.
-/
theorem not_movesStackBy_stackEffect :
    (countingLoop.defect? = none ∧ countingLoop.stackEffect = .delta 0 ∧
      countingLoop.WritesDirectly .sp ∧ ¬ countingLoop.MovesStackBy 0) ∧
    (poppingCall.defect? = none ∧ poppingCall.stackEffect = .delta 0 ∧
      poppingCall.MovesStackBy 2 ∧ ¬ poppingCall.MovesStackBy 0) := by
  have writes : countingLoop.WritesDirectly .sp := by
    unfold WritesDirectly
    decide
  have closed : ¬ poppingCall.LeavesOpen .sp := by
    unfold LeavesOpen WritesDirectly
    decide
  refine ⟨⟨by decide, by decide, writes, ?_⟩, by decide, by decide, ?_, ?_⟩
  · exact not_movesStackBy (leavesOpen_sp_iff.mpr (.inr ⟨writes, by decide⟩)) 0
  · rw [movesStackBy_iff closed]
    decide
  · rw [movesStackBy_iff closed]
    decide

end Instruction

end ProcRecovery
