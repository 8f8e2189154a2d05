import ProcRecovery.Proofs.SymbolicStack.Movement
import ProcRecovery.Replay
import ProcRecovery.StackEffect

/-!
# Movement of a replayed node

The table of stack effects and the replay of nodes are written independently of
one another.  Here they are brought together: replaying a node moves a tracked
stack by the movement of the node, and the stack effect that the table assigns
is this movement as far as words can hold it.
-/

namespace ProcRecovery

open SymbolicStack

/--
The bytes that a node takes off the stack when it is replayed, or puts on it if
negative.  A node without an operation on the stack of its own moves it by its
stack effect.
-/
def Node.byteMovement (node : Node) : Int :=
  match node.op with
  | some (.constantPush width _) => -(width.bytes : Int)
  | some (.blob width _ .push _) => -(width : Int)
  | some (.stringLiteral _ width _) => -(width : Int)
  | some (.frameReference _) | some (.stackReference _) => -2
  | some (.call _ _ (some routine)) => routine.stackDelta
  | _ => node.stackDelta

/-! ## Calls of routines -/

@[simp]
theorem fst_popArgument (stack : SymbolicStack) (width : Nat) :
    (popArgument stack width).1 = (stack.pop width).1 := by
  unfold popArgument
  split
  next popped => rw [popped]
  next popped => rw [popped]

/-- Taking arguments moves the stack by their widths together. -/
theorem movedBy_popArguments (stack : SymbolicStack) (widths : List Nat) :
    MovedBy (widths.foldr (· + ·) 0 :
      Nat) stack (popArguments stack widths).1 := by
  induction widths generalizing stack with
  | nil => exact MovedBy.refl stack
  | cons width later hypothesis =>
      have first : MovedBy width stack (popArgument stack width).1 := by
        rw [fst_popArgument]
        exact movedBy_pop stack width
      have both := first.trans (hypothesis (popArgument stack width).1)
      rw [List.foldr_cons, Int.natCast_add]
      exact both

theorem Routine.width_of_result?
    {routine : Routine} {arguments : List StackItem} {result : StackItem}
    (given : routine.result? arguments = some result) :
    result.width = routine.resultWidth := by
  unfold result? at given
  split at given
  · cases given
  · cases given
    rfl

theorem Routine.resultWidth_of_result?_eq_none
    {routine : Routine} {arguments : List StackItem}
    (given : routine.result? arguments = none) :
    routine.resultWidth = 0 := by
  unfold result? at given
  split at given
  next zero => exact zero
  next => cases given

/--
A routine that removes its arguments moves the stack by what it removes less
its result.
-/
theorem Routine.stackDelta_of_ne
    {routine : Routine}
    (other : routine ≠ .stringLiteral) :
    routine.stackDelta =
      (routine.argumentBytes : Int) - routine.resultWidth := by
  simp [stackDelta, popsArguments, other]

namespace ReplayState

theorem delivers_push (state : ReplayState) (item : StackItem) :
    Delivers (state.push item)
      (fun next => next = state.withStack (state.stack.push item))
      (WidthExcuse (state.stack.totalWidth + item.width)) := by
  apply (delivers_boundedPush state.stack item).bind
  intro pushed same
  rw [same]
  exact rfl

/-- Moving a state moves its stack. -/
theorem delivers_move (state : ReplayState) (delta : Int) :
    Delivers (state.move delta)
      (fun next => MovedBy delta state.stack next.stack)
      (WidthExcuse (state.stack.totalWidth + delta.natAbs)) := by
  unfold move
  split
  next negative =>
    apply (delivers_push state (.unknown delta.natAbs)).weaken
    rintro next rfl
    have pushed := movedBy_push state.stack (.unknown delta.natAbs)
    have same : -((StackItem.unknown delta.natAbs).width : Int) = delta := by
      simp only [StackItem.unknown]
      omega
    rwa [same] at pushed
  next notNegative =>
    have popped := movedBy_pop state.stack delta.natAbs
    have same : (delta.natAbs : Int) = delta := by omega
    rwa [same] at popped

end ReplayState

namespace ReplayContext

theorem delivers_callRoutine
    {routine : Routine}
    (other : routine ≠ .stringLiteral)
    (site : Nat)
    (state : ReplayState) :
    Delivers (callRoutine routine site state).outcome
      (fun next => MovedBy routine.stackDelta state.stack next.stack)
      (WidthExcuse (state.stack.totalWidth + routine.stackDelta.natAbs)) := by
  have taken := movedBy_popArguments state.stack routine.argumentWidths
  have balance := Routine.stackDelta_of_ne other
  unfold Routine.argumentBytes at balance
  unfold callRoutine
  cases popped : popArguments state.stack routine.argumentWidths with
  | mk rest arguments =>
    rw [popped] at taken
    dsimp only at taken ⊢
    cases given : routine.result? arguments with
    | none =>
        have zero := Routine.resultWidth_of_result?_eq_none given
        have same : routine.stackDelta =
            (routine.argumentWidths.foldr (· + ·) 0 : Nat) := by
          omega
        rw [same]
        exact taken
    | some result =>
        have width := Routine.width_of_result? given
        have pushed := taken.trans (movedBy_push rest result)
        have same :
            ((routine.argumentWidths.foldr (· + ·) 0 : Nat) : Int) +
              -(result.width : Int) =
              routine.stackDelta := by
          omega
        rw [same] at pushed
        simp only [Traced.outcome_bind, Traced.outcome_note,
          Traced.outcome_ofExcept, ok_bind]
        cases rest with
        | mangled => exact MovedBy.to_mangled _ _
        | tracked items =>
            obtain ⟨-, remaining⟩ := taken rfl
            apply (ReplayState.delivers_push (state.withStack (tracked items))
              result).mono
            · rintro next rfl
              exact pushed
            · intro fault excused
              apply WidthExcuse.mono _ excused
              simp only [ReplayState.withStack, totalWidth_tracked]
                at remaining ⊢
              omega

/-! ## Construction of strings -/

theorem delivers_smallArgument
    (stack : SymbolicStack)
    (offset : Nat) :
    Delivers (smallArgument stack offset) (fun found =>
      MovedBy 0 stack found.1)
      (WidthExcuse stack.totalWidth) := by
  unfold smallArgument
  apply (delivers_boundedGet stack offset 2).bind
  rintro ⟨restructured, found⟩ same
  have moved : MovedBy 0 stack restructured := by
    have whole := movedBy_get stack offset 2
    rwa [← same] at whole
  dsimp only
  split
  · exact moved
  · exact moved

theorem delivers_attachText
    (site length : Nat)
    (text : String)
    (state : ReplayState) :
    Delivers (attachText site length text state).outcome
      (fun next => MovedBy 0 state.stack next.stack)
      (WidthExcuse state.stack.totalWidth) := by
  unfold attachText
  simp only [Traced.outcome_bind, Traced.outcome_ofExcept]
  apply (delivers_boundedGet state.stack 4 2).bind
  rintro ⟨stack, destination⟩ same
  have moved : MovedBy 0 state.stack stack := by
    have whole := movedBy_get state.stack 4 2
    rwa [← same] at whole
  have narrower := moved.totalWidth_le
  dsimp only
  split
  next => exact moved
  next =>
    simp only [Traced.outcome_bind, Traced.outcome_ofExcept]
    apply ((delivers_boundedResolve stack 4).mono (fun _ same => same)
      (fun _ => WidthExcuse.mono narrower)).bind
    rintro ⟨resolved, target⟩ sameTarget
    have onward : MovedBy 0 state.stack resolved := by
      have whole := movedBy_resolve stack 4
      rw [← sameTarget] at whole
      exact moved.trans_zero whole
    have narrowerStill := onward.totalWidth_le
    dsimp only
    split
    next offset =>
      simp only [Traced.outcome_bind, Traced.outcome_ofExcept]
      apply ((delivers_boundedPut resolved offset ⟨length,
        .stringRef (some text)⟩).mono (fun _ same => same)
        (fun _ => WidthExcuse.mono narrowerStill)).bind
      rintro stored rfl
      exact onward.trans_zero (movedBy_put resolved offset _)
    next => exact onward
  next => exact moved

theorem delivers_constructString
    (context : ReplayContext)
    (site : Nat)
    (state : ReplayState) :
    Delivers (context.constructString site state).outcome
      (fun next => MovedBy 0 state.stack next.stack)
      (WidthExcuse state.stack.totalWidth) := by
  unfold constructString
  simp only [Traced.outcome_bind, Traced.outcome_ofExcept]
  apply (delivers_smallArgument state.stack 0).bind
  rintro ⟨once, length⟩ movedOnce
  dsimp only at movedOnce ⊢
  apply ((delivers_smallArgument once 2).mono
    (fun _ moved => movedOnce.trans_zero moved)
    (fun _ => WidthExcuse.mono movedOnce.totalWidth_le)).bind
  rintro ⟨stack, address⟩ moved
  dsimp only at moved ⊢
  split
  next length address =>
    split
    · split
      next bytes _ =>
        simp only [Traced.outcome_bind, Traced.outcome_emit, ok_bind]
        apply (delivers_attachText site _ _ (state.withStack stack)).mono
        · intro next movedOn
          exact moved.trans_zero movedOn
        · intro fault
          exact WidthExcuse.mono moved.totalWidth_le
      next => exact moved
    · exact moved
  next => exact moved

/-! ## Single nodes -/

theorem delivers_applyInstruction
    (instruction : Instruction)
    (delta : Int)
    (state : ReplayState) :
    Delivers (applyInstruction instruction delta state)
      (fun next => MovedBy delta state.stack next.stack)
      (WidthExcuse (state.stack.totalWidth + delta.natAbs)) := by
  unfold applyInstruction
  apply (ReplayState.delivers_move state delta).bind
  intro moved step
  have bound : moved.stack.totalWidth ≤
      state.stack.totalWidth + delta.natAbs := by
    cases shape : moved.stack with
    | mangled => exact Nat.zero_le _
    | tracked items =>
        rw [shape] at step
        obtain ⟨-, width⟩ := step rfl
        omega
  split
  next value displacement base _ _ =>
    split
    · apply ((delivers_boundedPut moved.stack displacement.toNat
        ⟨instruction.width.bytes, .smallInt value⟩).mono (fun _ same => same)
        (fun _ => WidthExcuse.mono bound)).bind
      rintro stored rfl
      have both := step.trans (movedBy_put moved.stack displacement.toNat
        ⟨instruction.width.bytes, .smallInt value⟩)
      rwa [Int.add_zero] at both
    · exact step
  next => exact step

theorem delivers_push_item
    (state : ReplayState)
    (item : StackItem)
    {delta : Int}
    (width : delta = -(item.width : Int)) :
    Delivers (state.push item) (fun next =>
      MovedBy delta state.stack next.stack)
      (WidthExcuse (state.stack.totalWidth + delta.natAbs)) := by
  apply (ReplayState.delivers_push state item).mono
  · rintro next rfl
    rw [width]
    exact movedBy_push state.stack item
  · intro fault
    apply WidthExcuse.mono
    omega

/-- Replaying a node moves the stack by the movement of the node. -/
theorem delivers_apply
    (context : ReplayContext)
    (node : Node)
    (state : ReplayState) :
    Delivers (context.apply node state).outcome
      (fun next => MovedBy node.byteMovement state.stack next.stack)
      (WidthExcuse (state.stack.totalWidth + node.byteMovement.natAbs)) := by
  obtain ⟨op, first, rest, delta, level, after⟩ := node
  cases op with
  | none => exact delivers_applyInstruction first delta state
  | some op =>
      cases op with
      | constantPush width value => exact delivers_push_item state _ rfl
      | stringLiteral source width text => exact delivers_push_item state _ rfl
      | frameReference offset => exact delivers_push_item state _ rfl
      | stackReference offset => exact delivers_push_item state _ rfl
      | blob width source direction content =>
          cases direction with
          | push => exact delivers_push_item state _ rfl
          | pop => exact ReplayState.delivers_move state delta
      | call destination label routine =>
          cases routine with
          | none => exact ReplayState.delivers_move state delta
          | some routine =>
              by_cases literal : routine = .stringLiteral
              · subst literal
                exact delivers_constructString context first.lo state
              · have called := delivers_callRoutine literal first.lo state
                cases routine <;>
                  first | exact called | exact (literal rfl).elim
      | prologue frameSize => exact ReplayState.delivers_move state delta
      | epilogue => exact ReplayState.delivers_move state delta
      | registerCache cached => exact ReplayState.delivers_move state delta
      | stackAdjust bytes => exact ReplayState.delivers_move state delta
      | stackCheck => exact ReplayState.delivers_move state delta
      | limitCheck => exact ReplayState.delivers_move state delta
      | allocationCheck => exact ReplayState.delivers_move state delta
      | blockMove source destination count =>
          exact ReplayState.delivers_move state delta
      | bailout slot => exact ReplayState.delivers_move state delta

end ReplayContext

/-! ## The table of stack effects -/

/--
The bytes that an operation pushes in a single piece whose width the code
decides.
-/
def PseudoOp.pushedBytes : PseudoOp → Nat
  | .blob width _ .push _ => width
  | .stringLiteral _ width _ => width
  | _ => 0

/--
The bytes that a node pushes in a single piece whose width the code decides.
-/
def Node.pushedBytes (node : Node) : Nat :=
  (node.op.map PseudoOp.pushedBytes).getD 0

/-- The stack effect of a node is its movement, up to full turns of a word. -/
def Node.IsMeasured (node : Node) : Prop :=
  ∃ turns : Int, node.stackDelta =
    node.byteMovement + 0x10000000000000000 * turns

/-- The signed reading of a number is the number up to full turns of a word. -/
theorem exists_signedReading_eq (word : Nat) :
    ∃ turns : Int,
      signedReading word = word + 0x10000000000000000 * turns := by
  unfold signedReading
  split
  · exact ⟨0, by omega⟩
  · exact ⟨-1, by omega⟩

theorem signedReading_of_fitsSigned {word : Nat} (fits : FitsSigned word) :
    signedReading word = word := by
  unfold FitsSigned at fits
  exact signedReading_of_lt (by omega)

/-- The node with its stack effect assigned. -/
def Node.withDelta
    (node : Node)
    (delta : Int) :
    Node :=
  { node with stackDelta := delta }

namespace Node

/--
A stack effect agrees with the replay of a node: assigned to the node it is the
movement of the node, and it can only be unknown if the node is a machine
instruction.
-/
def AgreesWith (node : Node) : StackEffect → Prop
  | .delta bytes =>
    (node.withDelta bytes).IsMeasured ∧
      (FitsSigned node.pushedBytes →
        (node.withDelta bytes).byteMovement = bytes)
  | .unrecognized => node.op = none

theorem agreesWith_of_eq
    {node : Node} {bytes : Int}
    (same : (node.withDelta bytes).byteMovement = bytes) :
    node.AgreesWith (.delta bytes) := by
  refine ⟨⟨0, ?_⟩, fun _ => same⟩
  rw [same, Int.mul_zero, Int.add_zero]
  rfl

/--
A piece of some width is pushed exactly if its width reads the same as a signed
word.
-/
theorem agreesWith_of_push
    {node : Node} {width : Nat}
    (moves : ∀ bytes, (node.withDelta bytes).byteMovement = -(width : Int))
    (pushed : node.pushedBytes = width) :
    node.AgreesWith (.delta (-signedReading width)) := by
  constructor
  · obtain ⟨turns, reading⟩ := exists_signedReading_eq width
    refine ⟨-turns, ?_⟩
    rw [moves]
    simp only [withDelta]
    omega
  · intro fits
    rw [pushed] at fits
    rw [moves, signedReading_of_fitsSigned fits]

/-- The two accounts of a node agree: one case for each clause of the table. -/
theorem delivers_stackEffect
    (node : Node)
    (frameSize : Nat) :
    Delivers (node.stackEffect frameSize) node.AgreesWith (fun fault =>
      fault = .deltaOverflow) := by
  obtain ⟨op, first, rest, delta, level, after⟩ := node
  cases op with
  | none =>
      simp only [stackEffect, delivers_ok]
      cases first.stackEffect with
      | delta bytes => exact agreesWith_of_eq rfl
      | unrecognized => exact rfl
  | some op =>
      cases op with
      | prologue ownFrame =>
          apply ((delivers_signedOr _ _).mono (fun _ _ => trivial)
            (fun _ excused => excused.1)).bind
          intro size _
          exact agreesWith_of_eq rfl
      | epilogue =>
          apply ((delivers_signedOr _ _).mono (fun _ _ => trivial)
            (fun _ excused => excused.1)).bind
          intro size _
          exact agreesWith_of_eq rfl
      | blob width source direction content =>
          cases direction with
          | push =>
              apply ((delivers_signedOr _ _).mono (fun _ result => result.1)
                (fun _ excused => excused.1)).bind
              rintro size rfl
              exact agreesWith_of_push (fun _ => rfl) rfl
          | pop => exact agreesWith_of_eq rfl
      | stringLiteral source width text =>
          apply ((delivers_signedOr _ _).mono (fun _ result => result.1)
            (fun _ excused => excused.1)).bind
          rintro size rfl
          exact agreesWith_of_push (fun _ => rfl) rfl
      | call destination label routine =>
          cases routine with
          | none => exact agreesWith_of_eq rfl
          | some routine => exact agreesWith_of_eq rfl
      | constantPush width value => exact agreesWith_of_eq rfl
      | stackAdjust bytes => exact agreesWith_of_eq rfl
      | stackReference offset => exact agreesWith_of_eq rfl
      | frameReference offset => exact agreesWith_of_eq rfl
      | registerCache cached => exact agreesWith_of_eq rfl
      | stackCheck => exact agreesWith_of_eq rfl
      | limitCheck => exact agreesWith_of_eq rfl
      | allocationCheck => exact agreesWith_of_eq rfl
      | blockMove source destination count => exact agreesWith_of_eq rfl
      | bailout slot => exact agreesWith_of_eq rfl

/--
What assigning stack effects does to one node: nothing but its stack effect
changes, and that is its movement.
-/
structure Assigned (node measured : Node) : Prop where
  same : measured = node.withDelta measured.stackDelta
  onWords : measured.IsMeasured
  exactly : FitsSigned node.pushedBytes →
    measured.byteMovement = measured.stackDelta

theorem delivers_assignDelta (frameSize procedure : Nat) (node : Node) :
    Delivers (node.assignDelta frameSize procedure).outcome (Assigned node)
      (fun fault => fault = .deltaOverflow) := by
  unfold assignDelta
  simp only [Traced.outcome_bind, Traced.outcome_ofExcept]
  apply (delivers_stackEffect node frameSize).bind
  intro effect agrees
  cases effect with
  | delta bytes => exact ⟨rfl, agrees.1, agrees.2⟩
  | unrecognized =>
      have unmoved : (node.withDelta 0).byteMovement = 0 := by
        have raw : node.op = none := agrees
        simp [byteMovement, withDelta, raw]
      exact ⟨rfl, (agreesWith_of_eq unmoved).1, fun _ => unmoved⟩

end Node

theorem delivers_assignDeltas
    (frameSize procedure : Nat)
    (body : List Node) :
    Delivers (assignDeltas frameSize procedure body).outcome
      (List.Forall₂ Node.Assigned body)
      (fun fault => fault = .deltaOverflow) := by
  unfold assignDeltas
  rw [Traced.outcome_mapM]
  apply Delivers.mapM
  intro node _
  exact Node.delivers_assignDelta frameSize procedure node

end ProcRecovery
