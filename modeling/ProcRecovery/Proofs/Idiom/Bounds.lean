import ProcRecovery.Proofs.Idiom.Containment
import ProcRecovery.Proofs.Idiom.Recognition

/-!
# Movements within the address space

On a machine of sixteen bits no literal reaches the size of the address space,
and then no node of a recognized body moves the stack by more than a frame and
a word.  The templates bound the bytes of a loop and of a stack adjustment
themselves; the size of a frame they take as it is written, so the bound on a
frame comes from the literal in the prologue.  A machine instruction moves the
stack by the few operands that a valid instruction of its kind has.
-/

namespace ProcRecovery

/-! ## Sixteen-bit code -/

/-- The size of the literal in an operand, whatever its sign. -/
def Operand.magnitude : Operand → Nat
  | indexed displacement _ | indexedDeferred displacement _ =>
      displacement.natAbs
  | immediate value => value.natAbs
  | absolute address | target address => address
  | register _ | deferred _ | autoIncrement _ | autoDecrement _ => 0

/--
The address of the instruction and all literals in it are below the size of the
address space.
-/
structure Instruction.IsSixteenBit (instruction : Instruction) : Prop where
  lo_lt : instruction.lo < addressSpace
  magnitude_lt : ∀ operand ∈ instruction.operands,
    operand.magnitude < addressSpace

instance (instruction : Instruction) : Decidable instruction.IsSixteenBit :=
  decidable_of_iff (instruction.lo < addressSpace ∧
      ∀ operand ∈ instruction.operands, operand.magnitude < addressSpace)
    ⟨fun bounds => ⟨bounds.1, bounds.2⟩, fun bounds =>
      ⟨bounds.lo_lt, bounds.magnitude_lt⟩⟩

/-! ## Machine instructions -/

namespace Instruction

/-- How many operands of the instruction move the stack pointer. -/
def stackMoves (instruction : Instruction) : Nat :=
  instruction.operands.countP (fun operand =>
    operand.movedRegister? = some .sp)

/--
At most two operands move the stack pointer, as far as the operation is a known
one.
-/
def IsSteady (instruction : Instruction) : Prop :=
  instruction.mnemonic.isOther = true ∨ instruction.stackMoves ≤ 2

/--
A dispatch has any number of operands, but only the first of them is not a
destination.
-/
theorem stackMoves_of_dispatch
    {instruction : Instruction}
    (valid : instruction.defect? = none)
    (dispatches : instruction.mnemonic = .case) :
    instruction.stackMoves ≤ 2 := by
  rw [defect?, dispatches] at valid
  unfold operandDefect? at valid
  split at valid
  any_goals simp_all
  next selector first rest operands =>
    have still :
        (first :: rest).countP (fun operand =>
          operand.movedRegister? = some .sp) = 0 := by
      rw [List.countP_eq_zero]
      intro operand member
      have isTarget : operand.isTarget = true := by
        rcases List.mem_cons.mp member with rfl | later
        · exact valid.2.1
        · exact valid.2.2 operand later
      cases operand <;> simp_all [Operand.isTarget, Operand.target?,
        Operand.movedRegister?]
    rw [stackMoves, operands, List.countP_cons, still]
    split <;> omega

theorem length_operands_le
    {mnemonic : Mnemonic} {operands : List Operand}
    (valid : operandDefect? mnemonic operands = none)
    (known : mnemonic.isOther = false)
    (plain : mnemonic ≠ .case) :
    operands.length ≤ 2 := by
  unfold operandDefect? at valid
  split at valid
  all_goals simp_all [Mnemonic.isOther]

theorem isSteady_of_valid
    {instruction : Instruction}
    (valid : instruction.defect? = none) :
    instruction.IsSteady := by
  by_cases dispatches : instruction.mnemonic = .case
  · exact .inr (stackMoves_of_dispatch valid dispatches)
  · cases known : instruction.mnemonic.isOther with
    | true => exact .inl known
    | false =>
        have few : instruction.stackMoves ≤ instruction.operands.length :=
          List.countP_le_length
        exact .inr
          (Nat.le_trans few (length_operands_le valid known dispatches))

/-- Every operand that moves the stack pointer moves it by one unit. -/
theorem natAbs_stackMovements_le (unit : Nat) (operands : List Operand) :
    (Operand.stackMovements unit operands).natAbs ≤
      unit * operands.countP (fun operand =>
        operand.movedRegister? = some .sp) := by
  induction operands with
  | nil => exact Nat.zero_le _
  | cons operand later hypothesis =>
      have single : (operand.stackMovement unit).natAbs ≤
          unit * (if operand.movedRegister? = some .sp then 1 else 0) := by
        cases operand with
        | autoIncrement base =>
            by_cases through : base = .sp <;>
              simp [Operand.stackMovement, Operand.movedRegister?, through]
        | autoDecrement base =>
            by_cases through : base = .sp <;>
              simp [Operand.stackMovement, Operand.movedRegister?, through]
        | _ => simp [Operand.stackMovement]
      rw [Operand.stackMovements, List.countP_cons, Nat.mul_add]
      simp only [decide_eq_true_eq]
      omega

theorem stackMoves_of_not_mentions
    {instruction : Instruction}
    (apart : instruction.mentions .sp = false) :
    instruction.stackMoves = 0 := by
  rw [stackMoves, List.countP_eq_zero]
  intro operand member moved
  have through : operand.base? ≠ some .sp := by
    simpa using List.any_eq_false.mp apart operand member
  cases operand <;> simp_all [Operand.movedRegister?, Operand.base?]

theorem natAbs_of_operandEffect
    {instruction : Instruction} {bytes : Int}
    (moves : instruction.operandEffect = .delta bytes) :
    bytes.natAbs ≤ 4 * instruction.stackMoves := by
  unfold operandEffect at moves
  split at moves
  next => cases moves
  next =>
    cases moves
    have short : instruction.width.bytes ≤ 4 := by
      cases instruction.width <;> decide
    exact Nat.le_trans (natAbs_stackMovements_le _ _)
      (Nat.mul_le_mul_right _ short)

theorem natAbs_of_ofAdjustment
    {literal bytes : Int}
    (moves : StackEffect.ofAdjustment literal = .delta bytes) :
    bytes.natAbs < addressSpace := by
  unfold StackEffect.ofAdjustment at moves
  split at moves
  next within =>
    cases moves
    exact within
  next => cases moves

/-- A steady instruction moves the stack within the address space. -/
theorem IsSteady.natAbs_le
    {instruction : Instruction}
    (steady : instruction.IsSteady)
    {bytes : Int}
    (moves : instruction.stackEffect = .delta bytes) :
    bytes.natAbs ≤ addressSpace := by
  have byOperands : instruction.mnemonic.isOther = false →
      instruction.operandEffect = .delta bytes →
        bytes.natAbs ≤ addressSpace := by
    intro known moves
    have bound := natAbs_of_operandEffect moves
    rcases steady with isOther | few
    · rw [known] at isOther
      cases isOther
    · unfold addressSpace
      omega
  unfold stackEffect at moves
  split at moves
  next isAdd _ =>
    split at moves
    next => exact Nat.le_of_lt (natAbs_of_ofAdjustment moves)
    next => exact byOperands (by rw [isAdd]; rfl) moves
  next isSub _ =>
    split at moves
    next => exact Nat.le_of_lt (natAbs_of_ofAdjustment moves)
    next => exact byOperands (by rw [isSub]; rfl) moves
  next =>
    cases moves
    exact Nat.zero_le _
  next =>
    cases moves
    exact Nat.zero_le _
  next =>
    split at moves
    next => cases moves
    next apart =>
      have bound := natAbs_of_operandEffect moves
      rw [stackMoves_of_not_mentions (by simpa using apart)] at bound
      omega
  next notOther _ _ =>
    apply byOperands _ moves
    cases shape : instruction.mnemonic with
    | other name => exact (notOther name shape).elim
    | _ => rfl

end Instruction

/-! ## Operations -/

/--
The bytes by which an operation moves the stack, as far as the code decides how
many.
-/
def PseudoOp.movedBytes : PseudoOp → Nat
  | prologue frameSize => frameSize
  | blob width _ _ _ => width
  | stringLiteral _ width _ => width
  | stackAdjust delta => delta.natAbs
  | _ => 0

/--
The node moves the stack within the address space: as a steady instruction, or
as an operation on no more bytes than there are.
-/
structure Node.MovesWithin (node : Node) : Prop where
  steady : node.op = none → node.first.IsSteady
  within : ∀ op, node.op = some op → op.movedBytes ≤ addressSpace

theorem Node.movesWithin_raw
    {instruction : Instruction}
    (steady : instruction.IsSteady) :
    (Node.raw instruction).MovesWithin where
  steady := fun _ => steady
  within := by
    intro op isOp
    cases isOp

theorem Node.movesWithin_of_op
    {node : Node} {op : PseudoOp}
    (isOp : node.op = some op)
    (bounded : op.movedBytes ≤ addressSpace) :
    node.MovesWithin where
  steady := by
    intro isNone
    rw [isOp] at isNone
    cases isNone
  within := by
    intro other isOther
    rw [isOp] at isOther
    cases isOther
    exact bounded

namespace Idiom

/--
Whatever the templates recognize moves the stack within the address space.
-/
def MoveWithin (templates : List Template) : Prop :=
  ∀ template ∈ templates, ∀ image window op,
    template.recognize image window = some op → op.movedBytes ≤ addressSpace

theorem moveWithin_leavingFamily : MoveWithin leavingFamily := by
  intro template member image window op recognized
  simp only [leavingFamily, List.mem_cons, List.not_mem_nil, or_false]
    at member
  rcases member with rfl | rfl
  · simp only [epilogue] at recognized
    grind [PseudoOp.movedBytes]
  · simp only [bailout] at recognized
    grind [PseudoOp.movedBytes]

theorem moveWithin_checkingFamily : MoveWithin checkingFamily := by
  intro template member image window op recognized
  simp only [checkingFamily, List.mem_cons, List.not_mem_nil, or_false]
    at member
  rcases member with rfl | rfl | rfl
  · simp only [stackCheck] at recognized
    grind [PseudoOp.movedBytes]
  · simp only [checkedBranch] at recognized
    grind [PseudoOp.movedBytes]
  · simp only [checkedStep] at recognized
    grind [PseudoOp.movedBytes]

/-- The bytes of every loop fit in the address space. -/
theorem IsLoop.movedBytes_le
    {image : Image} {window : List Instruction} {op : PseudoOp}
    (isLoop : IsLoop image window op) : op.movedBytes ≤ addressSpace := by
  cases isLoop with
  | text _ _ _ _ _ _ _ _ bytes _ => exact loopBytes?_le bytes
  | literal _ _ _ _ _ bytes _ => exact loopBytes?_le bytes
  | push _ _ _ _ bytes => exact loopBytes?_le bytes
  | pop _ _ _ _ bytes => exact loopBytes?_le bytes
  -- A block that is moved elsewhere does not move the stack.
  | copy => exact Nat.zero_le _

theorem moveWithin_loopingFamily : MoveWithin loopingFamily :=
  fun _ member _ _ _ recognized =>
    (isLoop_of_recognize member recognized).movedBytes_le

theorem moveWithin_stackFamily : MoveWithin stackFamily := by
  intro template member image window op recognized
  simp only [stackFamily, List.mem_cons, List.not_mem_nil, or_false] at member
  rcases member with rfl | rfl | rfl | rfl | rfl | rfl | rfl
  · obtain ⟨distance, -, rfl⟩ := Option.map_eq_some_iff.mp recognized
    exact Nat.zero_le _
  · obtain ⟨distance, -, rfl⟩ := Option.map_eq_some_iff.mp recognized
    exact Nat.zero_le _
  · obtain ⟨distance, -, rfl⟩ := Option.map_eq_some_iff.mp recognized
    exact Nat.zero_le _
  · obtain ⟨distance, -, rfl⟩ := Option.map_eq_some_iff.mp recognized
    exact Nat.zero_le _
  · simp only [constantPush] at recognized
    grind [PseudoOp.movedBytes]
  · simp only [stackAdjust] at recognized
    split at recognized
    next =>
      simp only [Option.bind_eq_bind, Option.bind_eq_some_iff] at recognized
      obtain ⟨bytes, -, recognized⟩ := recognized
      split at recognized
      next within =>
        cases recognized
        exact Nat.le_of_lt within
      next => cases recognized
    next => cases recognized
  · simp only [call] at recognized
    grind [PseudoOp.movedBytes]

theorem moveWithin_families : ∀ family ∈ families, MoveWithin family := by
  intro family member
  simp only [families, List.mem_cons, List.not_mem_nil, or_false] at member
  rcases member with rfl | rfl | rfl | rfl
  · exact moveWithin_leavingFamily
  · exact moveWithin_checkingFamily
  · exact moveWithin_loopingFamily
  · exact moveWithin_stackFamily

/--
A frame is as large as the literal says that allocates it, so the frames of
sixteen-bit code fit in the address space.
-/
theorem movedBytes_of_prologues
    {template : Template}
    (member : template ∈ prologues)
    {image : Image} {window : List Instruction}
    (short : ∀ instruction ∈ window, instruction.IsSixteenBit)
    {op : PseudoOp}
    (recognized : template.recognize image window = some op) :
    op.movedBytes ≤ addressSpace := by
  simp only [prologues, List.mem_cons, List.not_mem_nil, or_false] at member
  rcases member with rfl | rfl
  · simp only [prologueWithLocals] at recognized
    split at recognized
    next save set alloc check =>
      split at recognized
      next size base _ operands =>
        split at recognized
        next =>
          cases recognized
          have literal : size.natAbs < addressSpace :=
            (short alloc (by simp)).magnitude_lt (.immediate size)
              (by simp [operands])
          simp only [PseudoOp.movedBytes]
          omega
        next => cases recognized
      next => cases recognized
    next => cases recognized
  · simp only [prologue] at recognized
    grind [PseudoOp.movedBytes]

/-! ## Bodies -/

theorem movedRegister?_substituteOperand
    (cached : List (Register × Int))
    (isDestination : Bool)
    (operand : Operand) :
    (substituteOperand cached isDestination operand).movedRegister? =
      operand.movedRegister? := by
  have still : ∀ {address : Int} {substitute : Operand},
      absoluteAt? address = some substitute →
      substitute.movedRegister? = none := by
    intro address substitute isAbsolute
    unfold absoluteAt? at isAbsolute
    split at isAbsolute
    next =>
      cases isAbsolute
      rfl
    next => cases isAbsolute
  unfold substituteOperand
  cases operand with
  | register base =>
      dsimp only
      split
      next => rfl
      next => cases cachedValue? cached base <;> rfl
  | deferred base =>
      dsimp only
      cases known : (cachedValue? cached base).bind absoluteAt? with
      | none => rfl
      | some substitute =>
          obtain ⟨value, -, isAbsolute⟩ := Option.bind_eq_some_iff.mp known
          exact still isAbsolute
  | indexed displacement base =>
      dsimp only
      cases known : (cachedValue? cached base).bind
          (fun value => absoluteAt? (value + displacement)) with
      | none => rfl
      | some substitute =>
          obtain ⟨value, -, isAbsolute⟩ := Option.bind_eq_some_iff.mp known
          exact still isAbsolute
  | _ => rfl

theorem isSteady_substituteCached
    (cached : List (Register × Int))
    {instruction : Instruction}
    (steady : instruction.IsSteady) :
    (substituteCached cached instruction).IsSteady := by
  have moves : (substituteCached cached instruction).stackMoves =
      instruction.stackMoves := by
    simp only [Instruction.stackMoves, substituteCached,
      Instruction.operands_withOperands, List.countP_map, Function.comp_def,
      movedRegister?_substituteOperand]
    have zipped := List.countP_map
      (p := fun operand : Operand =>
        decide (operand.movedRegister? = some .sp))
      (f := Prod.fst) (l := instruction.operands.zipIdx)
    rw [List.zipIdx_map_fst] at zipped
    exact zipped.symm
  rcases steady with isOther | few
  · exact .inl isOther
  · exact .inr (moves ▸ few)

theorem movesWithin_substituteNode
    (options : Options)
    (cached : List (Register × Int))
    {node : Node}
    (within : node.MovesWithin) :
    (substituteNode options cached node).MovesWithin := by
  unfold substituteNode
  split
  next instruction isRaw =>
    split
    next =>
      apply Node.movesWithin_raw
      apply isSteady_substituteCached
      obtain ⟨isNone, rfl⟩ := Node.raw?_eq_some_iff.mp isRaw
      exact within.steady isNone
    next => exact within
  next => exact within

/--
The prologue of sixteen-bit code moves the stack within the address space, and
so does everything after it.
-/
theorem movesWithin_of_matchPrologue
    {image : Image} {instructions : List Instruction} {body : List Node}
    (short : ∀ instruction ∈ instructions, instruction.IsSixteenBit)
    (valid : ∀ instruction ∈ instructions, instruction.defect? = none)
    (matched : matchPrologue image (instructions.map Node.raw) =
      .ok (some body)) :
    ∀ node ∈ body, node.MovesWithin := by
  have within : ∀ node ∈ instructions.map Node.raw, node.MovesWithin := by
    intro node member
    obtain ⟨instruction, isInstruction, rfl⟩ := List.mem_map.mp member
    exact Node.movesWithin_raw
      (Instruction.isSteady_of_valid (valid instruction isInstruction))
  have plain : ∀ node ∈ instructions.map Node.raw, node.op = none →
      node.rest = [] := by
    intro node member _
    obtain ⟨instruction, -, rfl⟩ := List.mem_map.mp member
    rfl
  unfold matchPrologue at matched
  split at matched
  next template op found =>
    obtain ⟨single, isSingle, same⟩ := bind_eq_ok_iff.mp matched
    cases same
    obtain ⟨member, recognized⟩ := recognize_of_firstMatch? plain found
    rw [List.forall_mem_cons]
    constructor
    · apply Node.movesWithin_of_op (Node.op_of_wrap isSingle)
      apply movedBytes_of_prologues member _ recognized
      intro instruction isInstruction
      rw [← List.map_take, instructionsOf_map_raw] at isInstruction
      exact short instruction (List.mem_of_mem_take isInstruction)
    · intro node isNode
      exact within node (List.mem_of_mem_drop isNode)
  next => cases matched

end Idiom

namespace Procedure

theorem movesWithin_of_recognize
    {options : Options} {image : Image} {procedure : Nat}
    {body next : List Node}
    (within : ∀ node ∈ body, node.MovesWithin)
    (finished : (recognize options image procedure body).outcome = .ok next) :
    ∀ node ∈ next, node.MovesWithin := by
  refine forall_mem_of_recognize ?_ ?_ ?_ within finished
  · intro family isFamily template isTemplate window op node recognized isOp
    exact Node.movesWithin_of_op isOp
      (Idiom.moveWithin_families family isFamily template isTemplate image
        window op recognized)
  · intro node cached isOp
    exact Node.movesWithin_of_op isOp (Nat.zero_le _)
  · intro cached node isWithin
    exact Idiom.movesWithin_substituteNode options cached isWithin

theorem frameSizeOf_le
    {body : List Node}
    (within : ∀ node ∈ body, node.MovesWithin) :
    frameSizeOf body ≤ addressSpace := by
  unfold frameSizeOf
  split
  next frameSize isPrologue =>
    obtain ⟨node, isHead, isOp⟩ := Option.bind_eq_some_iff.mp isPrologue
    exact (within node (List.mem_of_mem_head? isHead)).within _ isOp
  next => exact Nat.zero_le _

end Procedure

/-! ## Stack effects -/

/--
The largest movement of the stack over a single node: a frame and the word
below it.
-/
def movementBound : Nat := addressSpace + 2

/-- A stack effect moves the stack by no more than a frame and a word. -/
def StackEffect.IsModest : StackEffect → Prop
  | delta bytes => bytes.natAbs ≤ movementBound
  | unrecognized => True

instance (effect : StackEffect) : Decidable effect.IsModest :=
  match effect with
  | .delta bytes => inferInstanceAs (Decidable (bytes.natAbs ≤ movementBound))
  | .unrecognized => inferInstanceAs (Decidable True)

theorem signedReading_of_le {bytes : Nat} (within : bytes ≤ addressSpace) :
    signedReading bytes = bytes := by
  apply signedReading_of_lt
  unfold addressSpace at within
  omega

/-- A modest sum is no overflow. -/
theorem signedOr_of_modest
    (fault : Fault)
    {bytes : Int}
    (modest : bytes.natAbs ≤ movementBound) :
    signedOr fault bytes = .ok bytes := by
  apply signedOr_of_natAbs_lt
  unfold movementBound addressSpace at modest
  omega

/-- A frame and the word below it add up to a modest sum. -/
theorem signedOr_frame
    (fault : Fault)
    (frame : Nat)
    (within : frame ≤ addressSpace) :
    signedOr fault (2 + signedReading frame) = .ok (2 + (frame : Int)) ∧
      (2 + (frame : Int)).natAbs ≤ movementBound := by
  have modest : (2 + (frame : Int)).natAbs ≤ movementBound := by
    unfold movementBound
    omega
  rw [signedReading_of_le within]
  exact ⟨signedOr_of_modest fault modest, modest⟩

/-- What is pushed moves the stack down by a modest width. -/
theorem signedOr_width
    (fault : Fault)
    (width : Nat)
    (within : width ≤ addressSpace) :
    signedOr fault (-signedReading width) = .ok (-(width : Int)) ∧
      (-(width : Int)).natAbs ≤ movementBound := by
  have modest : (-(width : Int)).natAbs ≤ movementBound := by
    unfold movementBound
    omega
  rw [signedReading_of_le within]
  exact ⟨signedOr_of_modest fault modest, modest⟩

theorem Routine.natAbs_stackDelta_le (routine : Routine) :
    routine.stackDelta.natAbs ≤ movementBound := by
  cases routine <;> decide

namespace Node

/--
The stack effect of a node that moves within the address space is computed
without overflow.  The cases are the clauses of the table of stack effects.
-/
theorem MovesWithin.exists_stackEffect
    {node : Node}
    (within : node.MovesWithin)
    {frameSize : Nat}
    (fits : frameSize ≤ addressSpace) :
    ∃ effect, node.stackEffect frameSize = .ok effect ∧ effect.IsModest := by
  obtain ⟨op, first, rest, delta, level, after⟩ := node
  cases op with
  | none =>
      refine ⟨first.stackEffect, rfl, ?_⟩
      cases shape : first.stackEffect with
      | unrecognized => trivial
      | delta bytes =>
          exact Nat.le_add_right_of_le ((within.steady rfl).natAbs_le shape)
  | some op =>
      have bound := within.within op rfl
      cases op with
      | prologue ownFrame =>
          obtain ⟨adds, modest⟩ := signedOr_frame .deltaOverflow ownFrame bound
          refine ⟨.delta (-(2 + (ownFrame : Int))), ?_, ?_⟩
          · simp only [stackEffect]
            rw [adds]
            rfl
          · simpa only [StackEffect.IsModest, Int.natAbs_neg] using modest
      | epilogue =>
          obtain ⟨adds, modest⟩ := signedOr_frame .deltaOverflow frameSize fits
          refine ⟨.delta (2 + (frameSize : Int)), ?_, modest⟩
          simp only [stackEffect]
          rw [adds]
          rfl
      | blob width source direction content =>
          obtain ⟨negates, modest⟩ := signedOr_width .deltaOverflow width bound
          cases direction with
          | push =>
              refine ⟨.delta (-(width : Int)), ?_, modest⟩
              simp only [stackEffect]
              rw [negates]
              rfl
          | pop =>
              have reading : signedReading width = width :=
                signedReading_of_le bound
              refine ⟨.delta width, by simp only [stackEffect, reading], ?_⟩
              simpa only [StackEffect.IsModest, Int.natAbs_neg] using modest
      | stringLiteral source width text =>
          obtain ⟨negates, modest⟩ := signedOr_width .deltaOverflow width bound
          refine ⟨.delta (-(width : Int)), ?_, modest⟩
          simp only [stackEffect]
          rw [negates]
          rfl
      | stackAdjust bytes =>
          exact ⟨.delta bytes, rfl, Nat.le_add_right_of_le bound⟩
      | constantPush width value =>
          refine ⟨_, rfl, ?_⟩
          cases width <;> decide
      | call destination label routine =>
          refine ⟨_, rfl, ?_⟩
          cases routine with
          | none => exact Nat.zero_le _
          | some routine => exact routine.natAbs_stackDelta_le
      | stackReference offset => exact ⟨_, rfl, by decide⟩
      | frameReference offset => exact ⟨_, rfl, by decide⟩
      | registerCache cached => exact ⟨_, rfl, by decide⟩
      | stackCheck => exact ⟨_, rfl, by decide⟩
      | limitCheck => exact ⟨_, rfl, by decide⟩
      | allocationCheck => exact ⟨_, rfl, by decide⟩
      | blockMove source destination count => exact ⟨_, rfl, by decide⟩
      | bailout slot => exact ⟨_, rfl, by decide⟩

/--
The stack effect that a node has been given is no more than a frame and a word.
-/
def IsModest (node : Node) : Prop := node.stackDelta.natAbs ≤ movementBound

theorem MovesWithin.delivers_assignDelta
    {node : Node}
    (within : node.MovesWithin)
    {frameSize : Nat}
    (fits : frameSize ≤ addressSpace)
    (procedure : Nat) :
    Delivers (node.assignDelta frameSize procedure).outcome IsModest (fun _ =>
      False) := by
  obtain ⟨effect, computed, modest⟩ := within.exists_stackEffect fits
  unfold assignDelta
  simp only [Traced.outcome_bind, Traced.outcome_ofExcept, computed, ok_bind]
  cases effect with
  | delta bytes => exact modest
  | unrecognized => exact Nat.zero_le _

end Node

/-- Stack effects within the address space are assigned without overflow. -/
theorem delivers_modest_assignDeltas
    {body : List Node}
    (within : ∀ node ∈ body, node.MovesWithin)
    {frameSize : Nat}
    (fits : frameSize ≤ addressSpace)
    (procedure : Nat) :
    Delivers (assignDeltas frameSize procedure body).outcome
      (fun measured => ∀ node ∈ measured, node.IsModest) (fun _ => False) := by
  unfold assignDeltas
  rw [Traced.outcome_mapM]
  have paired :
      Delivers
        (body.mapM
        (fun node => (node.assignDelta frameSize procedure).outcome))
      (List.Forall₂ (fun _ measured => measured.IsModest) body) (fun _ =>
        False) :=
    Delivers.mapM (fun node member =>
      (within node member).delivers_assignDelta fits procedure)
  apply paired.weaken
  intro measured paired node member
  obtain ⟨original, -, modest⟩ := exists_of_mem_right paired member
  exact modest

end ProcRecovery
