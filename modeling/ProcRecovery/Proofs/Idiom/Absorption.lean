import Mathlib.Algebra.Ring.Int.Defs
import ProcRecovery.Idiom.Collapse
import ProcRecovery.Idiom.RegisterCache
import ProcRecovery.Instruction.Validity
import ProcRecovery.Proofs.Outcome
import ProcRecovery.StackEffect

/-!
# Stack effects of absorbed instructions

An operation that stands for straight code should move the stack pointer by as
much as its instructions do together.  The recognizers leave three things open:
a comparison with the stack pointer may move it by its other operand, a frame
may be larger than the address space, and an address may be pushed in a unit
other than a word.  The effects add up exactly if none of the three occurs, and
the checks of limits and allocations, the pushes of literals, the adjustments
and the loads of cached registers are never concerned.
-/

namespace ProcRecovery

/-! ## Instructions that leave the stack pointer alone -/

theorem Operand.stackMovement_eq_zero_iff (width : Width) (operand : Operand) :
    operand.stackMovement width.bytes = 0 ↔
    operand.movedRegister? ≠ some .sp := by
  have positive := width.bytes_pos
  cases operand with
  | autoIncrement base =>
      by_cases through : base = .sp
      · simp [stackMovement, movedRegister?, through]
        omega
      · simp [stackMovement, movedRegister?, through]
  | autoDecrement base =>
      by_cases through : base = .sp
      · simp [stackMovement, movedRegister?, through]
        omega
      · simp [stackMovement, movedRegister?, through]
  | _ => simp [stackMovement, movedRegister?]

theorem Operand.stackMovements_eq_zero
    (width : Width) {operands : List Operand}
    (still : ∀ operand ∈ operands, operand.movedRegister? ≠ some .sp) :
    stackMovements width.bytes operands = 0 := by
  induction operands with
  | nil => rfl
  | cons operand later hypothesis =>
      rw [stackMovements,
        hypothesis (fun other member => still other (by simp [member])),
        (stackMovement_eq_zero_iff width operand).mpr
          (still operand (by simp))]
      rfl

namespace Instruction

theorem movesStack_eq_false_iff (instruction : Instruction) :
    instruction.movesStack = false ↔
      instruction.destination? ≠ some (.register .sp) ∧
        ∀ operand ∈ instruction.operands,
          operand.movedRegister? ≠ some .sp := by
  simp [movesStack]

theorem operandEffect_of_still
    {instruction : Instruction}
    (still : instruction.movesStack = false) :
    instruction.operandEffect = .delta 0 := by
  rcases (movesStack_eq_false_iff instruction).mp still with
    ⟨elsewhere, unmoved⟩
  rw [operandEffect, if_neg elsewhere,
    Operand.stackMovements_eq_zero _ unmoved]

/--
An operation on two operands that has a destination stores into the second one.
-/
theorem destination?_of_pair
    {instruction : Instruction} {source target : Operand}
    (stores : instruction.mnemonic ∈ [Mnemonic.mov, .add, .sub, .lea])
    (operands : instruction.operands = [source, target]) :
    instruction.destination? = some target := by
  simp only [List.mem_cons, List.not_mem_nil, or_false] at stores
  rcases stores with same | same | same | same <;>
    · simp only [destination?, destinationIndex?, same, operands]
      rfl

/--
A known instruction that neither writes the stack pointer nor moves it by an
operand has no stack effect.
-/
theorem stackEffect_of_still
    {instruction : Instruction}
    (still : instruction.movesStack = false)
    (known : instruction.mnemonic.isOther = false) :
    instruction.stackEffect = .delta 0 := by
  have elsewhere := ((movesStack_eq_false_iff instruction).mp still).1
  have adjusted : ∀ {bytes : Int} {base : Register},
      instruction.mnemonic ∈ [Mnemonic.mov, .add, .sub, .lea] →
      instruction.operands = [.immediate bytes, .register base] →
        base ≠ .sp := by
    rintro bytes base stores operands rfl
    exact elsewhere (destination?_of_pair stores operands)
  unfold stackEffect
  split
  next isAdd operands =>
    rw [if_neg (adjusted (by simp [isAdd]) operands),
      operandEffect_of_still still]
  next isSub operands =>
    rw [if_neg (adjusted (by simp [isSub]) operands),
      operandEffect_of_still still]
  next => rfl
  next => rfl
  next isOther =>
    rw [isOther] at known
    cases known
  next => exact operandEffect_of_still still

/-! ## Instructions that push -/

theorem stackEffect_of_push
    {instruction : Instruction} {source : Operand}
    (pushes : instruction.mnemonic = .mov ∨ instruction.mnemonic = .lea)
    (operands : instruction.operands = [source, .autoDecrement .sp])
    (still : source.movedRegister? ≠ some .sp) :
    instruction.stackEffect = .delta (-(instruction.width.bytes : Int)) := by
  have stores : instruction.destination? = some (.autoDecrement .sp) := by
    apply destination?_of_pair _ operands
    rcases pushes with same | same <;> simp [same]
  have unmoved :=
    (Operand.stackMovement_eq_zero_iff instruction.width source).mpr still
  have effect : instruction.operandEffect =
      .delta (-(instruction.width.bytes : Int)) := by
    rw [operandEffect, if_neg (by simp [stores]), operands,
      Operand.stackMovements, unmoved]
    simp [Operand.stackMovements, Operand.stackMovement]
  rcases pushes with same | same <;> simpa [stackEffect, same] using effect

theorem stackEffect_of_clear
    {instruction : Instruction}
    (clears : instruction.mnemonic = .clr)
    (operands : instruction.operands = [.autoDecrement .sp]) :
    instruction.stackEffect = .delta (-(instruction.width.bytes : Int)) := by
  have stores : instruction.destination? = some (.autoDecrement .sp) := by
    simp only [destination?, destinationIndex?, clears, operands]
    rfl
  simp [stackEffect, clears, operandEffect, stores, operands,
    Operand.stackMovements, Operand.stackMovement]

/-- An instruction pushes a register. -/
def Pushes (instruction : Instruction) (register : Register) : Prop :=
  instruction.mnemonic = .mov ∧ instruction.width = .word ∧
    instruction.operands = [.register register, .autoDecrement .sp]

/-- An instruction adds a literal to the word on top of the stack. -/
def AddsToTop (instruction : Instruction) : Prop :=
  instruction.mnemonic = .add ∧ instruction.width = .word ∧
    ∃ literal, instruction.operands = [.immediate literal, .deferred .sp]

theorem Pushes.stackEffect_eq
    {push : Instruction} {register : Register}
    (pushes : push.Pushes register) :
    push.stackEffect = .delta (-2) := by
  obtain ⟨moves, isWord, operands⟩ := pushes
  rw [stackEffect_of_push (.inl moves) operands
    (by simp [Operand.movedRegister?]), isWord]
  rfl

theorem AddsToTop.stackEffect_eq {add : Instruction} (adds : add.AddsToTop) :
    add.stackEffect = .delta 0 := by
  obtain ⟨isAdd, -, literal, operands⟩ := adds
  apply stackEffect_of_still
  · rw [movesStack_eq_false_iff,
      destination?_of_pair (by simp [isAdd]) operands, operands]
    simp [Operand.movedRegister?]
  · rw [isAdd]
    rfl

end Instruction

/-! ## Shapes -/

/-- No comparison among some instructions moves the stack pointer. -/
def ComparesQuietly (window : List Instruction) : Prop :=
  ∀ instruction ∈ window, instruction.mnemonic = .cmp →
    instruction.movesStack = false

theorem effects_of_isFrameSetup
    {save set : Instruction}
    (setup : save.isFrameSetup set = true) :
    save.mnemonic = .mov ∧ set.mnemonic = .mov ∧
      save.stackEffect = .delta (-2) ∧ set.stackEffect = .delta 0 := by
  simp only [Instruction.isFrameSetup, Instruction.isWord, Bool.and_eq_true,
    decide_eq_true_eq] at setup
  rcases setup with ⟨⟨⟨⟨⟨word, -⟩, saves⟩, saved⟩, sets⟩, setOperands⟩
  refine ⟨saves, sets, ?_, ?_⟩
  · rw [Instruction.stackEffect_of_push (.inl saves) saved
      (by simp [Operand.movedRegister?]), word]
    rfl
  · apply Instruction.stackEffect_of_still
    · rw [Instruction.movesStack_eq_false_iff,
        Instruction.destination?_of_pair (by simp [sets]) setOperands,
        setOperands]
      decide
    · rw [sets]
      rfl

namespace Instruction

/--
Branches, overflow requests and traps have no operand that could move the stack
pointer.
-/
theorem stackEffect_of_transfer
    {instruction : Instruction}
    (valid : instruction.defect? = none)
    (transfers : instruction.isBranch = true ∨ instruction.mnemonic = .sev ∨
      instruction.mnemonic = .trap) :
    instruction.stackEffect = .delta 0 := by
  rcases transfers with conditional | requests | traps
  · unfold isBranch at conditional
    split at conditional
    next condition branches =>
      rcases operands_of_branch valid branches with ⟨address, operands⟩
      simp [stackEffect, operandEffect, destination?, destinationIndex?,
        branches, operands, Operand.stackMovements, Operand.stackMovement]
    next => cases conditional
  · have operands := operands_of_sev valid requests
    simp [stackEffect, operandEffect, destination?, destinationIndex?,
      requests, operands, Operand.stackMovements]
  · rcases operands_of_trap valid traps with operands | ⟨code, operands⟩ <;>
      simp [stackEffect, operandEffect, destination?, destinationIndex?, traps,
        operands, Operand.stackMovements, Operand.stackMovement]

/-- A comparison with the stack pointer moves it by its second operand only. -/
theorem stackEffect_of_compare
    {instruction : Instruction}
    (valid : instruction.defect? = none)
    (compares : instruction.mnemonic = .cmp)
    (withStack : instruction.operands.head? = some (.register .sp)) :
    ∃ bytes, instruction.stackEffect = .delta bytes ∧
      (bytes = 0 ↔ instruction.movesStack = false) := by
  rcases operands_of_cmp valid compares with ⟨first, limit, operands⟩
  have isStack : first = .register .sp := by
    simpa [operands] using withStack
  subst isStack
  refine ⟨limit.stackMovement instruction.width.bytes, ?_, ?_⟩
  · simp [stackEffect, operandEffect, destination?, destinationIndex?,
      compares, operands, Operand.stackMovements, Operand.stackMovement]
  · rw [Operand.stackMovement_eq_zero_iff, movesStack_eq_false_iff, operands]
    simp [destination?, destinationIndex?, compares, Operand.movedRegister?]

end Instruction

/-- The effects of a stack check are those of its comparison. -/
theorem effects_of_isStackCheck
    {check : List Instruction}
    (valid : ∀ instruction ∈ check, instruction.defect? = none)
    (checks : isStackCheck check = true) :
    ∃ bytes, check.map Instruction.stackEffect =
      [bytes, 0, 0, 0].map StackEffect.delta ∧
      (bytes = 0 ↔ ComparesQuietly check) := by
  unfold isStackCheck at checks
  split at checks
  next compare branch request trap =>
    simp only [Bool.and_eq_true, decide_eq_true_eq] at checks
    rcases checks with
      ⟨⟨⟨⟨⟨compares, withStack⟩, branches⟩, -⟩, requests⟩, traps⟩
    rcases Instruction.stackEffect_of_compare (valid compare (by simp))
      compares withStack with
      ⟨bytes, effect, quiet⟩
    refine ⟨bytes, ?_, ?_⟩
    · simp [effect,
        Instruction.stackEffect_of_transfer (valid branch (by simp))
          (.inl (by simp [Instruction.isBranch, branches])),
        Instruction.stackEffect_of_transfer (valid request (by simp))
          (.inr (.inl requests)),
        Instruction.stackEffect_of_transfer (valid trap (by simp))
          (.inr (.inr traps))]
    · simp [quiet, ComparesQuietly, compares, branches, requests, traps]
  next => cases checks

/-! ## Nodes whose effects add up -/

/--
The stack effects of the instructions of a node are all known and add up to its
own.
-/
def Node.EffectsAddUp (node : Node) (frameSize : Nat) : Prop :=
  ∃ deltas : List Int,
    node.instructions.map Instruction.stackEffect =
      deltas.map StackEffect.delta ∧
      node.stackEffect frameSize = .ok (.delta deltas.sum)

theorem StackEffect.map_delta_injective
    {first second : List Int}
    (same : first.map StackEffect.delta = second.map StackEffect.delta) :
    first = second := by
  refine List.map_injective_iff.mpr ?_ same
  intro left right equal
  cases equal
  rfl

theorem Node.effectsAddUp_iff
    {node : Node} {frameSize : Nat} {deltas : List Int}
    (effects : node.instructions.map Instruction.stackEffect =
      deltas.map StackEffect.delta) :
    node.EffectsAddUp frameSize ↔
      node.stackEffect frameSize = .ok (.delta deltas.sum) := by
  constructor
  · rintro ⟨others, otherEffects, adds⟩
    rw [otherEffects] at effects
    rw [← StackEffect.map_delta_injective effects]
    exact adds
  · intro adds
    exact ⟨deltas, effects, adds⟩

theorem Node.not_effectsAddUp
    {node : Node} {instruction : Instruction}
    (frameSize : Nat)
    (member : instruction ∈ node.instructions)
    (unknown : instruction.stackEffect = .unrecognized) :
    ¬ node.EffectsAddUp frameSize := by
  rintro ⟨deltas, effects, -⟩
  have mapped : StackEffect.unrecognized ∈ deltas.map StackEffect.delta := by
    rw [← effects, ← unknown]
    exact List.mem_map_of_mem member
  rcases List.mem_map.mp mapped with ⟨bytes, -, impossible⟩
  cases impossible

/--
What the recognizers leave open about the instructions an operation stands for.
-/
def PseudoOp.CoversEffects
    (op : PseudoOp)
    (window : List Instruction) :
    Prop :=
  match op with
  | .prologue size => size < addressSpace ∧ ComparesQuietly window
  | .stackCheck => ComparesQuietly window
  | .stackReference _ | .frameReference _ =>
      ∀ instruction ∈ window, instruction.width = .word
  | _ => True

namespace Idiom

/-! ## Recognizers of straight code -/

/--
The effects of whatever is recognized add up exactly if the operation covers
them.
-/
def Recognizer.Accounts (recognize : Recognizer) : Prop :=
  ∀ (image : Image) (op : PseudoOp) (node : Node) (frameSize : Nat),
    (∀ instruction ∈ node.instructions, instruction.defect? = none) →
    recognize image node.instructions = some op → node.op = some op →
    (node.EffectsAddUp frameSize ↔ op.CoversEffects node.instructions)

/--
A recognizer accounts for the effects if they are known and add up to a known
total exactly under the condition that the operation names.
-/
theorem Recognizer.accounts_of_deltas
    {recognize : Recognizer}
    (known : ∀ (image : Image) (window : List Instruction) (op : PseudoOp),
      (∀ instruction ∈ window, instruction.defect? = none) →
      recognize image window = some op →
      ∃ deltas : List Int, window.map Instruction.stackEffect =
        deltas.map StackEffect.delta ∧ ∃ total : Int,
      (∀ node : Node, node.op = some op →
        ∀ frameSize, node.stackEffect frameSize = .ok (.delta total)) ∧
      (total = deltas.sum ↔ op.CoversEffects window)) :
    recognize.Accounts := by
  intro image op node frameSize valid recognized isOp
  rcases known image node.instructions op valid recognized with
    ⟨deltas, effects, total, own, balanced⟩
  rw [Node.effectsAddUp_iff effects, own node isOp frameSize, ← balanced]
  simp

theorem accounts_prologue : Recognizer.Accounts prologue := by
  apply Recognizer.accounts_of_deltas
  intro image window op valid recognized
  unfold prologue at recognized
  split at recognized
  next save set check =>
    split at recognized
    next shaped =>
      cases recognized
      simp only [Bool.and_eq_true] at shaped
      rcases effects_of_isFrameSetup shaped.1 with
        ⟨saves, sets, saved, unmoved⟩
      rcases effects_of_isStackCheck (fun instruction member =>
        valid instruction (by simp [member]))
        shaped.2 with ⟨bytes, effects, quiet⟩
      refine ⟨-2 :: 0 :: [bytes, 0, 0, 0],
        by simp [saved, unmoved, effects], -2, ?_, ?_⟩
      · intro node isOp frameSize
        rw [Node.stackEffect, isOp]
        rfl
      · have covers :
            PseudoOp.CoversEffects (.prologue 0) (save :: set :: check) ↔
            ComparesQuietly check := by
          simp [PseudoOp.CoversEffects, ComparesQuietly, addressSpace, saves,
            sets]
        rw [covers, ← quiet]
        simp only [List.sum_cons, List.sum_nil]
        omega
    next => cases recognized
  next => cases recognized

theorem stackEffect_of_prologue
    {node : Node} {size : Nat}
    (isOp : node.op = some (.prologue size))
    (within : size < addressSpace)
    (frameSize : Nat) :
    node.stackEffect frameSize = .ok (.delta (-(2 + (size : Int)))) := by
  unfold addressSpace at within
  have reading : signedReading size = size := signedReading_of_lt (by omega)
  have fits : FitsSigned (2 + (size : Int)) := by
    unfold FitsSigned
    omega
  simp only [Node.stackEffect, isOp, reading, signedOr, if_pos fits]
  rfl

theorem accounts_prologueWithLocals :
    Recognizer.Accounts prologueWithLocals := by
  intro image op node frameSize valid recognized isOp
  unfold prologueWithLocals at recognized
  split at recognized
  next save set alloc check shape =>
    split at recognized
    next size base allocates operands =>
      split at recognized
      next shaped =>
        cases recognized
        simp only [Bool.and_eq_true, decide_eq_true_eq] at shaped
        rcases shaped with ⟨⟨⟨setup, rfl⟩, positive⟩, checks⟩
        rcases effects_of_isFrameSetup setup with ⟨saves, sets, saved, unmoved⟩
        rw [shape] at valid
        rcases effects_of_isStackCheck (fun instruction member =>
          valid instruction (by simp [member])) checks with
            ⟨bytes, effects, quiet⟩
        have effect : alloc.stackEffect = .ofAdjustment (-size) := by
          simp [Instruction.stackEffect, allocates, operands]
        have covers :
            PseudoOp.CoversEffects (.prologue size.toNat) node.instructions ↔
            size.toNat < addressSpace ∧ ComparesQuietly check := by
          simp [PseudoOp.CoversEffects, shape, ComparesQuietly, saves, sets,
            allocates]
        rw [covers]
        by_cases within : size.toNat < addressSpace
        · have allocated : alloc.stackEffect = .delta (-size) := by
            rw [effect, StackEffect.ofAdjustment, if_pos (by omega)]
          have together : node.instructions.map Instruction.stackEffect =
              (-2 :: 0 :: -size :: [bytes, 0, 0, 0]).map
                StackEffect.delta := by
            simp [shape, saved, unmoved, allocated, effects]
          rw [Node.effectsAddUp_iff together,
            stackEffect_of_prologue isOp within, ← quiet]
          simp only [Except.ok.injEq, StackEffect.delta.injEq, List.sum_cons,
            List.sum_nil]
          omega
        · have unknown : alloc.stackEffect = .unrecognized := by
            rw [effect, StackEffect.ofAdjustment, if_neg (by omega)]
          have allocMember : alloc ∈ node.instructions := by
            rw [shape]
            simp
          have fails := Node.not_effectsAddUp frameSize allocMember unknown
          exact ⟨fun adds => (fails adds).elim, fun covered =>
            (within covered.1).elim⟩
      next => cases recognized
    next => cases recognized
  next => cases recognized

theorem accounts_stackCheck : Recognizer.Accounts stackCheck := by
  apply Recognizer.accounts_of_deltas
  intro image window op valid recognized
  simp only [stackCheck] at recognized
  split at recognized
  next checks =>
    cases recognized
    rcases effects_of_isStackCheck valid checks with ⟨bytes, effects, quiet⟩
    refine ⟨[bytes, 0, 0, 0], effects, 0, ?_, ?_⟩
    · intro node isOp frameSize
      rw [Node.stackEffect, isOp]
    · show 0 = [bytes, 0, 0, 0].sum ↔ ComparesQuietly window
      rw [← quiet]
      simp [eq_comm]
  next => cases recognized

theorem accounts_checkedBranch : Recognizer.Accounts checkedBranch := by
  apply Recognizer.accounts_of_deltas
  intro image window op valid recognized
  unfold checkedBranch at recognized
  split at recognized
  next test branch trap =>
    split at recognized
    next shaped =>
      rcases shaped with ⟨tests, still, branches, -, traps⟩
      have unmoved : test.stackEffect = .delta 0 := by
        apply Instruction.stackEffect_of_still still
        rcases tests with same | same <;> rw [same] <;> rfl
      have effects : [test, branch, trap].map Instruction.stackEffect =
          [0, 0, 0].map StackEffect.delta := by
        simp [unmoved,
          Instruction.stackEffect_of_transfer (valid branch (by simp))
            (.inl branches),
          Instruction.stackEffect_of_transfer (valid trap (by simp))
            (.inr (.inr traps))]
      refine ⟨[0, 0, 0], effects, 0, ?_, ?_⟩
      · intro node isOp frameSize
        split at recognized <;> cases recognized <;> rw [Node.stackEffect,
          isOp]
      · split at recognized <;> cases recognized <;>
          simp [PseudoOp.CoversEffects]
    next => cases recognized
  next => cases recognized

theorem accounts_checkedStep : Recognizer.Accounts checkedStep := by
  apply Recognizer.accounts_of_deltas
  intro image window op valid recognized
  unfold checkedStep at recognized
  split at recognized
  next step check =>
    split at recognized
    next stepped checked limit stepOperands checkOperands =>
      split at recognized
      next shaped =>
        cases recognized
        rcases shaped with ⟨steps, elsewhere, checks, -, still⟩
        have stepStill : step.movesStack = false := by
          have stores : step.destination? = some stepped := by
            rcases steps with same | same <;>
              · simp only [Instruction.destination?,
                  Instruction.destinationIndex?, same, stepOperands]
                rfl
          rw [Instruction.movesStack_eq_false_iff, stores, stepOperands]
          constructor
          · rintro same
            cases same
            exact elsewhere rfl
          · intro operand member moved
            cases List.mem_singleton.mp member
            apply elsewhere
            cases stepped <;> simp_all [Operand.movedRegister?, Operand.base?]
        have stepEffect : step.stackEffect = .delta 0 := by
          apply Instruction.stackEffect_of_still stepStill
          rcases steps with same | same <;> rw [same] <;> rfl
        have checkEffect : check.stackEffect = .delta 0 := by
          apply Instruction.stackEffect_of_still still
          rw [checks]
          rfl
        refine ⟨[0, 0], by simp [stepEffect, checkEffect], 0, ?_, ?_⟩
        · intro node isOp frameSize
          rw [Node.stackEffect, isOp]
        · simp [PseudoOp.CoversEffects]
      next => cases recognized
    next => cases recognized
  next => cases recognized

/-! ## Recognizers of pushes and adjustments -/

theorem computedReference?_eq_some
    {base : Register} {window : List Instruction} {offset : Int}
    (computed : computedReference? base window = some offset) :
    ∃ push add, window = [push, add] ∧ push.Pushes base ∧ add.AddsToTop := by
  unfold computedReference? at computed
  split at computed
  next push add =>
    split at computed
    next pushed stack distance top isMove adds operands =>
      split at computed
      next same =>
        simp only [Instruction.isWord, decide_eq_true_eq] at same
        obtain ⟨pushWord, addWord, rfl, rfl, rfl⟩ := same
        unfold Instruction.move? at isMove
        split at isMove
        next source destination moves pair =>
          cases isMove
          exact ⟨push, add, rfl, ⟨moves, pushWord, pair⟩, adds, addWord,
            distance, operands⟩
        next => cases isMove
      next => cases computed
    next => cases computed
  next => cases computed

theorem effectiveReference?_eq_some
    {base : Register} {window : List Instruction} {offset : Int}
    (effective : effectiveReference? base window = some offset) :
    ∃ push, window = [push] ∧ push.mnemonic = .lea ∧
      push.operands = [.indexed offset base, .autoDecrement .sp] := by
  unfold effectiveReference? at effective
  split at effective
  next push =>
    split at effective
    next distance register stack isLea operands =>
      split at effective
      next same =>
        obtain ⟨rfl, rfl⟩ := same
        cases effective
        exact ⟨push, rfl, isLea, operands⟩
      next => cases effective
    next => cases effective
  next => cases effective

theorem effects_of_computedReference?
    {base : Register} {window : List Instruction} {distance : Int}
    (computed : computedReference? base window = some distance) :
    window.map Instruction.stackEffect = [-2, 0].map StackEffect.delta ∧
      ∀ instruction ∈ window, instruction.width = .word := by
  obtain ⟨push, add, rfl, pushes, adds⟩ := computedReference?_eq_some computed
  refine ⟨by simp [pushes.stackEffect_eq, adds.stackEffect_eq], ?_⟩
  simp [pushes.2.1, adds.2.1]

theorem effects_of_effectiveReference?
    {base : Register} {window : List Instruction} {distance : Int}
    (effective : effectiveReference? base window = some distance) :
    ∃ push, window = [push] ∧ push.stackEffect =
      .delta (-(push.width.bytes : Int)) := by
  obtain ⟨push, rfl, isLea, operands⟩ := effectiveReference?_eq_some effective
  exact ⟨push, rfl, Instruction.stackEffect_of_push (.inr isLea) operands
    (by simp [Operand.movedRegister?])⟩

/-- References of either kind push a word, whichever way they are computed. -/
theorem accounts_reference
    {recognize : Recognizer}
    (shape : ∀ image window op, recognize image window = some op →
      (∃ distance, op = .frameReference distance ∨
        op = .stackReference distance) ∧
      ((∃ base distance, computedReference? base window = some distance) ∨
        ∃ base distance, effectiveReference? base window = some distance)) :
    recognize.Accounts := by
  apply Recognizer.accounts_of_deltas
  intro image window op valid recognized
  rcases shape image window op recognized with ⟨⟨distance, isReference⟩, way⟩
  have own : ∀ node : Node, node.op = some op → ∀ frameSize,
      node.stackEffect frameSize = .ok (.delta (-2)) := by
    intro node isOp frameSize
    rcases isReference with rfl | rfl <;> rw [Node.stackEffect, isOp]
  have covers : op.CoversEffects window ↔
      ∀ instruction ∈ window, instruction.width = .word := by
    rcases isReference with rfl | rfl <;> rfl
  rcases way with ⟨base, offset, computed⟩ | ⟨base, offset, effective⟩
  · rcases effects_of_computedReference? computed with ⟨effects, words⟩
    refine ⟨[-2, 0], effects, -2, own, ?_⟩
    rw [covers]
    exact ⟨fun _ => words, fun _ => rfl⟩
  · rcases effects_of_effectiveReference? effective with ⟨push, rfl, effect⟩
    refine ⟨[-(push.width.bytes : Int)], by simp [effect], -2, own, ?_⟩
    rw [covers]
    cases width : push.width <;> simp [width, Width.bytes]

theorem accounts_frameReferenceComputed :
    Recognizer.Accounts frameReferenceComputed := by
  apply accounts_reference
  intro image window op recognized
  rcases Option.map_eq_some_iff.mp recognized with ⟨distance, computed, rfl⟩
  exact ⟨⟨distance, .inl rfl⟩, .inl ⟨.fp, distance, computed⟩⟩

theorem accounts_stackReferenceComputed :
    Recognizer.Accounts stackReferenceComputed := by
  apply accounts_reference
  intro image window op recognized
  rcases Option.map_eq_some_iff.mp recognized with ⟨distance, computed, rfl⟩
  exact ⟨⟨distance, .inr rfl⟩, .inl ⟨.sp, distance, computed⟩⟩

theorem accounts_frameReference : Recognizer.Accounts frameReference := by
  apply accounts_reference
  intro image window op recognized
  rcases Option.map_eq_some_iff.mp recognized with ⟨distance, effective, rfl⟩
  exact ⟨⟨distance, .inl rfl⟩, .inr ⟨.fp, distance, effective⟩⟩

theorem accounts_stackReference : Recognizer.Accounts stackReference := by
  apply accounts_reference
  intro image window op recognized
  rcases Option.map_eq_some_iff.mp recognized with ⟨distance, effective, rfl⟩
  exact ⟨⟨distance, .inr rfl⟩, .inr ⟨.sp, distance, effective⟩⟩

theorem accounts_constantPush : Recognizer.Accounts constantPush := by
  apply Recognizer.accounts_of_deltas
  intro image window op valid recognized
  have pushed : ∃ push value, window = [push] ∧
      op = .constantPush push.width value ∧
      push.stackEffect = .delta (-(push.width.bytes : Int)) := by
    unfold constantPush at recognized
    split at recognized
    next push =>
      split at recognized
      next value stack moves operands =>
        split at recognized
        next through =>
          cases recognized
          subst through
          exact ⟨push, value, rfl, rfl,
            Instruction.stackEffect_of_push (.inl moves) operands
              (by simp [Operand.movedRegister?])⟩
        next => cases recognized
      next stack clears operands =>
        split at recognized
        next through =>
          cases recognized
          subst through
          exact ⟨push, 0, rfl, rfl,
            Instruction.stackEffect_of_clear clears operands⟩
        next => cases recognized
      next => cases recognized
    next => cases recognized
  rcases pushed with ⟨push, value, rfl, rfl, effect⟩
  refine ⟨[-(push.width.bytes : Int)],
    by simp [effect], -(push.width.bytes : Int), ?_, ?_⟩
  · intro node isOp frameSize
    rw [Node.stackEffect, isOp]
  · simp [PseudoOp.CoversEffects]

theorem stackEffect_of_adjustment?
    {instruction : Instruction} {bytes : Int}
    (adjusts : adjustment? instruction = some bytes)
    (within : bytes.natAbs < addressSpace) :
    instruction.stackEffect = .delta bytes := by
  unfold adjustment? at adjusts
  split at adjusts
  next amount base adds operands =>
    split at adjusts
    next through =>
      cases adjusts
      simp [Instruction.stackEffect, adds, operands, through,
        StackEffect.ofAdjustment, within]
    next => cases adjusts
  next amount base subtracts operands =>
    split at adjusts
    next through =>
      cases adjusts
      simp only [Instruction.stackEffect, subtracts, operands, if_pos through,
        StackEffect.ofAdjustment, if_pos within]
    next => cases adjusts
  next base tests operands =>
    split at adjusts
    next through =>
      cases adjusts
      simp [Instruction.stackEffect, Instruction.operandEffect,
        Instruction.destination?, Instruction.destinationIndex?, tests,
        operands, through, Operand.stackMovements, Operand.stackMovement]
    next => cases adjusts
  next first second compares operands =>
    split at adjusts
    next through =>
      cases adjusts
      simp [Instruction.stackEffect, Instruction.operandEffect,
        Instruction.destination?, Instruction.destinationIndex?, compares,
        operands, through, Operand.stackMovements, Operand.stackMovement]
      omega
    next => cases adjusts
  next => cases adjusts

theorem accounts_stackAdjust : Recognizer.Accounts stackAdjust := by
  apply Recognizer.accounts_of_deltas
  intro image window op valid recognized
  unfold stackAdjust at recognized
  split at recognized
  next instruction =>
    simp only [Option.bind_eq_bind, Option.bind_eq_some_iff] at recognized
    rcases recognized with ⟨bytes, adjusts, recognized⟩
    split at recognized
    next within =>
      cases recognized
      have effect := stackEffect_of_adjustment? adjusts within
      refine ⟨[bytes], by simp [effect], bytes, ?_, ?_⟩
      · intro node isOp frameSize
        rw [Node.stackEffect, isOp]
      · simp [PseudoOp.CoversEffects]
    next => cases recognized
  next => cases recognized

/-! ## Loads of cached registers -/

theorem stackEffect_of_cacheLoad?
    {instruction : Instruction} {load : Register × Int}
    (loads : cacheLoad? instruction = some load) :
    instruction.stackEffect = .delta 0 := by
  have shape : ∃ source base, instruction.operands = [source, .register base] ∧
      (instruction.mnemonic = .mov ∨ instruction.mnemonic = .lea) ∧
      source.movedRegister? = none ∧ base.isGeneral = true := by
    have general : ∀ {destination : Operand} {register : Register},
        destination.general? = some register →
          ∃ base, destination = .register base ∧ base.isGeneral = true := by
      intro destination register isGeneral
      unfold Operand.general? at isGeneral
      split at isGeneral
      next base =>
        split at isGeneral
        next passes => exact ⟨base, rfl, passes⟩
        next => cases isGeneral
      next => cases isGeneral
    unfold cacheLoad? at loads
    split at loads
    next value destination moves operands =>
      split at loads
      next =>
        rcases Option.map_eq_some_iff.mp loads with ⟨register, isGeneral, -⟩
        rcases general isGeneral with ⟨base, rfl, passes⟩
        exact ⟨_, base, operands, .inl moves, rfl, passes⟩
      next => cases loads
    next address destination addresses operands =>
      split at loads
      next =>
        rcases Option.map_eq_some_iff.mp loads with ⟨register, isGeneral, -⟩
        rcases general isGeneral with ⟨base, rfl, passes⟩
        exact ⟨_, base, operands, .inr addresses, rfl, passes⟩
      next => cases loads
    next => cases loads
  rcases shape with ⟨source, base, operands, way, still, passes⟩
  apply Instruction.stackEffect_of_still
  · have stores : instruction.destination? = some (.register base) := by
      apply Instruction.destination?_of_pair _ operands
      rcases way with same | same <;> simp [same]
    have other : base ≠ .sp := by
      rintro rfl
      cases passes
    rw [Instruction.movesStack_eq_false_iff, stores, operands]
    constructor
    · simpa using other
    · rw [List.forall_mem_cons, still]
      simp [Operand.movedRegister?]
  · rcases way with same | same <;> rw [same] <;> rfl

/-- The loads that are found belong to the first nodes, one to each. -/
theorem exists_of_cacheLoads
    (body : List Node)
    (found : List (Register × Int))
    (nodes : List Node) :
    ∃ loads, cacheLoads body found nodes = found ++ loads ∧
      List.Forall₂ (fun node load => node.raw?.bind cacheLoad? = some load)
        (nodes.take loads.length) loads := by
  induction nodes generalizing found with
  | nil => exact ⟨[], by simp [cacheLoads], by simp⟩
  | cons node later hypothesis =>
      rw [cacheLoads]
      split
      next register value loads =>
        split
        next =>
          rcases hypothesis (found ++ [(register, value)]) with
            ⟨rest, same, paired⟩
          refine ⟨(register, value) :: rest, by simp [same], ?_⟩
          rw [List.length_cons, List.take_succ_cons]
          exact List.Forall₂.cons loads paired
        next => exact ⟨[], by simp, by simp⟩
      next => exact ⟨[], by simp, by simp⟩

theorem effects_of_loads
    {nodes : List Node} {loads : List (Register × Int)}
    (plain : ∀ node ∈ nodes, node.op = none → node.rest = [])
    (paired :
      List.Forall₂ (fun node load => node.raw?.bind cacheLoad? = some load)
        nodes loads) :
    (nodes.flatMap Node.instructions).map Instruction.stackEffect =
      (loads.map (fun _ => (0 : Int))).map StackEffect.delta := by
  induction paired with
  | nil => rfl
  | @cons node load later others isLoad _ hypothesis =>
      rcases Option.bind_eq_some_iff.mp isLoad with ⟨instruction, isRaw, loads⟩
      have alone := Node.instructions_of_raw? (plain node (by simp)) isRaw
      rw [List.flatMap_cons, List.map_append, hypothesis (fun other member =>
        plain other (by simp [member])), alone]
      simp [stackEffect_of_cacheLoad? loads]

/--
A node for cached registers is an old one, or the loads in it leave the stack
alone.
-/
theorem effectsAddUp_of_registerCache
    {options : Options} {body after : List Node}
    (plain : ∀ node ∈ body, node.op = none → node.rest = [])
    (finished : (registerCache options body).outcome = .ok after)
    {node : Node}
    (member : node ∈ after)
    {cached : List (Register × Int)}
    (caches : node.op = some (.registerCache cached))
    (frameSize : Nat) :
    node ∈ body ∨ node.EffectsAddUp frameSize := by
  rcases exists_of_cacheLoads body [] (body.drop 1) with ⟨loads, found, paired⟩
  rw [List.nil_append] at found
  simp only [registerCache, found] at finished
  split at finished
  next =>
    cases finished
    exact .inl member
  next =>
    simp only [Traced.outcome_bind, Traced.outcome_note,
      Traced.outcome_ofExcept, Traced.outcome_pure, ok_bind] at finished
    rcases bind_eq_ok_iff.mp finished with ⟨loading, wrapped, rest⟩
    cases rest
    rcases List.mem_append.mp member with isFirst | isLater
    · exact .inl (List.mem_of_mem_take isFirst)
    · rcases List.mem_cons.mp isLater with rfl | isSubstituted
      · right
        have effects : node.instructions.map Instruction.stackEffect =
            (loads.map (fun _ => (0 : Int))).map StackEffect.delta := by
          rw [Node.instructions_of_wrap wrapped]
          exact effects_of_loads (fun other isOther => plain other
            (List.mem_of_mem_drop (List.mem_of_mem_take isOther))) paired
        rw [Node.effectsAddUp_iff effects, Node.stackEffect, caches]
        simp
      · left
        rcases List.mem_map.mp isSubstituted with ⟨original, isOriginal, rfl⟩
        have kept : substituteNode options loads original = original := by
          unfold substituteNode at caches ⊢
          split
          next isRaw =>
            split
            next enabled =>
              rw [isRaw] at caches
              simp only [if_pos enabled] at caches
              cases caches
            next => rfl
          next => rfl
        rw [kept]
        exact List.mem_of_mem_drop isOriginal

/-! ## The effects of straight code -/

theorem exists_of_call
    {image : Image} {window : List Instruction} {op : PseudoOp}
    (recognized : call image window = some op) :
    ∃ destination label routine, op = .call destination label routine := by
  unfold call at recognized
  split at recognized
  next instruction =>
    split at recognized
    next linkage destination isCall operands =>
      split at recognized
      next =>
        cases recognized
        exact ⟨_, _, _, rfl⟩
      next => cases recognized
    next => cases recognized
  next => cases recognized

/--
The stack effects of the instructions of a recognized operation add up to its
own exactly if what the recognizers leave open holds, and those of loads of
cached registers always do.  Calls are left out because the callee moves the
stack as well.
-/
theorem effects_add_up_iff (frameSize : Nat) :
    (∀ template ∈ prologues ++ checkingFamily ++ stackFamily,
      ∀ (image : Image) (window : List Instruction) (op : PseudoOp)
        (node : Node),
        (∀ instruction ∈ window, instruction.defect? = none) →
        template.recognize image window = some op →
        (∀ destination label routine, op ≠ .call destination label routine) →
        Node.wrap (some op) window = .ok node →
        (node.EffectsAddUp frameSize ↔ op.CoversEffects window)) ∧
    (∀ (options : Options) (body after : List Node),
      (∀ node ∈ body, node.op = none → node.rest = []) →
      (registerCache options body).outcome = .ok after →
      ∀ node ∈ after, ∀ cached, node.op = some (.registerCache cached) →
        node ∈ body ∨ node.EffectsAddUp frameSize) := by
  constructor
  · intro template member image window op node valid recognized noCall wrapped
    have own := Node.instructions_of_wrap wrapped
    have isOp := Node.op_of_wrap wrapped
    subst own
    have accounted : ∀ {recognize : Recognizer}, recognize.Accounts →
        recognize image node.instructions = some op →
        (node.EffectsAddUp frameSize ↔ op.CoversEffects node.instructions) :=
      fun accounts isRecognized =>
        accounts image op node frameSize valid isRecognized isOp
    simp only [prologues, checkingFamily, stackFamily, List.mem_append,
      List.mem_cons, List.not_mem_nil, or_false] at member
    rcases member with
      ((rfl | rfl) | rfl | rfl | rfl) | rfl | rfl | rfl | rfl | rfl | rfl | rfl
    · exact accounted accounts_prologueWithLocals recognized
    · exact accounted accounts_prologue recognized
    · exact accounted accounts_stackCheck recognized
    · exact accounted accounts_checkedBranch recognized
    · exact accounted accounts_checkedStep recognized
    · exact accounted accounts_frameReferenceComputed recognized
    · exact accounted accounts_stackReferenceComputed recognized
    · exact accounted accounts_frameReference recognized
    · exact accounted accounts_stackReference recognized
    · exact accounted accounts_constantPush recognized
    · exact accounted accounts_stackAdjust recognized
    · rcases exists_of_call recognized with
        ⟨destination, label, routine, isCall⟩
      exact absurd isCall (noCall destination label routine)
  · intro options body after plain finished node member cached caches
    exact effectsAddUp_of_registerCache plain finished member caches frameSize

/-- A stack check with the given comparison. -/
def checkAfter (compare : Instruction) : List Instruction :=
  [ compare,
    ⟨0x4004, 0x4006, .branch .higher, .word, [.target 0x400a], by decide⟩,
    ⟨0x4006, 0x4008, .sev, .word, [], by decide⟩,
    ⟨0x4008, 0x400a, .trap, .word, [], by decide⟩ ]

/-- A comparison of the stack pointer with a limit in memory. -/
def limitCompare : Instruction :=
  ⟨0x4000, 0x4004, .cmp, .word, [.register .sp, .absolute 0x2100], by decide⟩

/-- A comparison of the stack pointer with the word that it pops. -/
def poppingCompare : Instruction :=
  ⟨0x4002, 0x4004, .cmp, .word, [.register .sp, .autoIncrement .sp], by decide⟩

/-- Loads of two registers after some first instruction. -/
def cachingBody : List Node :=
  [ .raw ⟨0x4000, 0x4002, .sev, .word, [], by decide⟩,
    .raw ⟨0x4002, 0x4006, .mov, .word, [.immediate 5, .register ⟨1⟩],
      by decide⟩,
    .raw ⟨0x4006, 0x400a, .lea, .word, [.absolute 0x2000, .register ⟨2⟩],
      by decide⟩,
    .raw ⟨0x400a, 0x400c, .rts, .word, [.register .pc], by decide⟩ ]

/--
The effects of a check against a limit add up, and so do those of two cached
loads.
-/
theorem effects_add_up_iff_limitCompare :
    (∃ node, Node.wrap (some .stackCheck) (checkAfter limitCompare) =
      .ok node ∧
      node.EffectsAddUp 0) ∧
    ∃ after node, (registerCache {} cachingBody).outcome = .ok after ∧
      node ∈ after ∧
      node.op = some (.registerCache [(⟨1⟩, 5), (⟨2⟩, 0x2000)]) ∧
        node.EffectsAddUp 0 := by
  rcases effects_add_up_iff 0 with ⟨straight, caching⟩
  constructor
  · refine ⟨_, rfl, ?_⟩
    refine (straight ⟨"stack-check", 4, stackCheck, by decide⟩
      (by simp [checkingFamily])
      { name := "check" } (checkAfter limitCompare) .stackCheck _ (by decide)
      (by decide) (by simp) rfl).mpr ?_
    show ∀ instruction ∈ checkAfter limitCompare, _
    decide
  · refine ⟨_, _, rfl, List.mem_cons_of_mem _ List.mem_cons_self, rfl, ?_⟩
    rcases caching {} cachingBody _ (by decide) rfl _
      (List.mem_cons_of_mem _ List.mem_cons_self) _ rfl with isOld | adds
    · exact absurd isOld (by decide)
    · exact adds

/--
A comparison of the stack pointer with what it pops passes for a stack check
without effect.
-/
theorem not_effectsAddUp_poppingCompare :
    ∃ node, Node.wrap (some .stackCheck) (checkAfter poppingCompare) =
      .ok node ∧
      (∀ instruction ∈ checkAfter poppingCompare, instruction.defect? = none) ∧
      stackCheck { name := "check" } (checkAfter poppingCompare) =
        some .stackCheck ∧
      ¬ node.EffectsAddUp 0 := by
  refine ⟨_, rfl, by decide, by decide, ?_⟩
  rintro ⟨deltas, effects, adds⟩
  have same : deltas = [2, 0, 0, 0] := by
    apply StackEffect.map_delta_injective
    rw [← effects]
    decide
  subst same
  cases adds

end Idiom

end ProcRecovery
