import ProcRecovery.Proofs.Replay.Movement

/-!
# Runs of a replay

A run replays nodes one after the other, each on a stack that is still tracked.
`Run` says which states it passes through without any mention of faults or of
the check that follows every node, and `Result` says what a replay has to give
back in terms of runs.

The main statements are that a replay gives such a result, the check being
unable to fail, and that along a run the width of the stack is the starting
width less the stack effects so far.
-/

namespace ProcRecovery

open SymbolicStack

/-- Sum of the stack effects of some nodes. -/
def deltaSum : List Node → Int
  | [] => 0
  | node :: later => node.stackDelta + deltaSum later

@[simp]
theorem deltaSum_nil : deltaSum [] = 0 := rfl

@[simp]
theorem deltaSum_cons (node : Node) (later : List Node) :
    deltaSum (node :: later) = node.stackDelta + deltaSum later := rfl

/-- The node with the text of the stack after it. -/
def Node.annotated (node : Node) (stack : SymbolicStack) : Node :=
  { node with stackAfter := some stack.text }

namespace ReplayContext

/--
Nodes that have all been replayed one after the other, each on a tracked stack,
with the nodes as they are annotated and the state that is reached.
-/
inductive Run (context : ReplayContext) :
    ReplayState → List Node → List Node → ReplayState → Prop
  | stay (state : ReplayState) : Run context state [] [] state
  | step
      {state next final : ReplayState} {node : Node}
      {later annotated : List Node}
      (tracked : state.stack.isMangled = false)
      (applied : (context.apply node state).outcome = .ok next)
      (rest : Run context next later annotated final) :
      Run context state (node :: later)
      (node.annotated next.stack :: annotated) final

/--
What a replay of some nodes has to give back.  Either all of them have been
replayed and the stack is still tracked, or a node is the first one that
mangles the stack: it is the place where tracking was lost, and the nodes after
it are as they were.
-/
inductive Result
    (context : ReplayContext)
    (state : ReplayState)
    (nodes : List Node) :
    Replayed → Prop
  | finished {annotated : List Node} {final : ReplayState}
      (run : Run context state nodes annotated final)
      (tracked : final.stack.isMangled = false) :
      Result context state nodes
      { nodes := annotated, state := final, lostAt := none }
  | lost {earlier later annotated : List Node} {node : Node}
    {before final : ReplayState}
      (shape : nodes = earlier ++ node :: later)
      (run : Run context state earlier annotated before)
      (tracked : before.stack.isMangled = false)
      (applied : (context.apply node before).outcome = .ok final)
      (mangled : final.stack.isMangled = true) :
      Result context state nodes
        { nodes := annotated ++ node.annotated final.stack :: later
          state := final
          lostAt := some node.lo }

/-! ## Width along a run -/

/--
Along a run the stack moves by the stack effects of the nodes that have been
replayed.
-/
theorem Run.movedBy
    {context : ReplayContext} {state final : ReplayState}
    {nodes annotated : List Node}
    (run : Run context state nodes annotated final)
    (exactly : ∀ node ∈ nodes, node.byteMovement = node.stackDelta) :
    MovedBy (deltaSum nodes) state.stack final.stack := by
  induction run with
  | stay state => exact MovedBy.refl state.stack
  | @step state next final node later annotated tracked applied rest
    hypothesis =>
      have first := (delivers_apply context node state).of_ok applied
      rw [exactly node (by simp)] at first
      have onward :=
        hypothesis (fun other member =>
          exactly other (List.mem_cons_of_mem _ member))
      exact first.trans onward

end ReplayContext

/-! ## The check after each node -/

/--
How far a node can take the width of a stack, on words or in exact numbers.
-/
def Node.reach (node : Node) : Nat :=
  max node.byteMovement.natAbs node.stackDelta.natAbs

/-- How far some nodes can take the width of a stack together. -/
def reachSum : List Node → Nat
  | [] => 0
  | node :: later => node.reach + reachSum later

/--
The faults of words that are too narrow, excused if widths can reach the sign
bit.
-/
def OverflowExcuse (width : Nat) (fault : Fault) : Prop :=
  (fault = .widthOverflow ∨ fault = .deltaOverflow) ∧
    0x8000000000000000 ≤ width

theorem OverflowExcuse.mono
    {narrow wide : Nat}
    (narrower : narrow ≤ wide)
    {fault : Fault}
    (excused : OverflowExcuse narrow fault) :
    OverflowExcuse wide fault :=
  ⟨excused.1, Nat.le_trans excused.2 narrower⟩

theorem OverflowExcuse.of_width
    {width bound : Nat}
    (within : width ≤ bound)
    {fault : Fault}
    (excused : WidthExcuse width fault) :
    OverflowExcuse bound fault := by
  obtain ⟨overflow, wide⟩ := excused
  unfold FitsUnsigned at wide
  exact ⟨.inl overflow, by omega⟩

/--
The check after a node cannot fail.  Both of its sides fit in a word, and they
agree up to full turns of a word, so they agree.
-/
theorem delivers_checkMovement
    {node : Node} {before : Nat} {stack : SymbolicStack}
    (measured : node.IsMeasured)
    (moved : stack.isMangled = false →
      (stack.totalWidth : Int) = before - node.byteMovement) :
    Delivers (checkMovement node before stack) (fun _ => True)
      (OverflowExcuse (before + node.reach)) := by
  unfold checkMovement
  split
  · trivial
  next tracked =>
    have width := moved (by simpa using tracked)
    obtain ⟨turns, delta⟩ := measured
    have reaches : node.byteMovement.natAbs ≤ node.reach ∧
        node.stackDelta.natAbs ≤ node.reach :=
      ⟨Nat.le_max_left _ _, Nat.le_max_right _ _⟩
    apply ((delivers_measure stack).mono (fun _ same => same)
      (fun _ => OverflowExcuse.of_width (by omega))).bind
    rintro after ⟨rfl, -⟩
    apply ((delivers_signedOr .widthOverflow _).mono (fun _ same => same)
      ?_).bind
    · rintro change ⟨rfl, changeFits⟩
      apply ((delivers_signedOr .deltaOverflow _).mono (fun _ same => same)
        ?_).bind
      · rintro expected ⟨rfl, expectedFits⟩
        obtain ⟨afterTurns, afterReading⟩ :=
          exists_signedReading_eq stack.totalWidth
        obtain ⟨beforeTurns, beforeReading⟩ := exists_signedReading_eq before
        have agree : signedReading stack.totalWidth - signedReading before =
            -node.stackDelta := by
          unfold FitsSigned at changeFits expectedFits
          omega
        rw [if_pos agree]
        trivial
      · rintro fault ⟨rfl, overflows⟩
        unfold FitsSigned at overflows
        exact ⟨.inr rfl, by omega⟩
    · rintro fault ⟨rfl, overflows⟩
      refine ⟨.inl rfl, ?_⟩
      by_contra small
      apply overflows
      rw [signedReading_of_lt (by omega), signedReading_of_lt (by omega)]
      unfold FitsSigned
      omega

/-! ## Results of a replay -/

namespace ReplayContext

theorem Result.step
    {context : ReplayContext} {state next : ReplayState} {node : Node}
    {later : List Node} {rest : Replayed}
    (tracked : state.stack.isMangled = false)
    (applied : (context.apply node state).outcome = .ok next)
    (result : Result context next later rest) :
    Result context state (node :: later)
      { nodes := node.annotated next.stack :: rest.nodes
        state := rest.state
        lostAt := rest.lostAt } := by
  cases result with
  | finished run finalTracked =>
      exact .finished (.step tracked applied run) finalTracked
  | @lost earlier after annotated other before final shape run beforeTracked
      otherApplied mangled =>
      have extended : node :: later = (node :: earlier) ++ other :: after := by
        rw [shape]
        rfl
      exact .lost extended (.step tracked applied run) beforeTracked
        otherApplied mangled

theorem replay_of_mangled
    (context : ReplayContext)
    (nodes : List Node)
    {state : ReplayState}
    (mangled : state.stack.isMangled = true) :
    (replay context nodes state).outcome =
      .ok { nodes, state, lostAt := none } := by
  cases nodes with
  | nil => rfl
  | cons node later => simp [replay, mangled]

/--
A replay of nodes with their stack effects gives back what it has to, unless
widths reach the sign bit of a word.
-/
theorem delivers_replay
    (context : ReplayContext)
    (nodes : List Node)
    (state : ReplayState)
    (tracked : state.stack.isMangled = false)
    (measured : ∀ node ∈ nodes, node.IsMeasured) :
    Delivers (replay context nodes state).outcome (Result context state nodes)
      (OverflowExcuse (state.stack.totalWidth + reachSum nodes)) := by
  induction nodes generalizing state with
  | nil => exact .finished (.stay state) tracked
  | cons node later hypothesis =>
      have reaches : node.byteMovement.natAbs ≤ node.reach :=
        Nat.le_max_left _ _
      rw [replay, if_neg (by simp [tracked])]
      simp only [Traced.outcome_bind, Traced.outcome_ofExcept,
        Traced.outcome_pure]
      apply ((delivers_measure state.stack).mono (fun _ same => same.1)
        (fun _ => OverflowExcuse.of_width (Nat.le_add_right _ _))).bind
      rintro before rfl
      have stepped : Delivers (context.apply node state).outcome
          (fun next => (context.apply node state).outcome = .ok next ∧
            MovedBy node.byteMovement state.stack next.stack)
          (OverflowExcuse (state.stack.totalWidth +
            reachSum (node :: later))) := by
        apply delivers_of_outcome
        · intro next applied
          exact ⟨applied, (delivers_apply context node state).of_ok applied⟩
        · intro fault stopped
          apply OverflowExcuse.of_width _
            ((delivers_apply context node state).of_error stopped)
          simp only [reachSum]
          omega
      apply stepped.bind
      rintro next ⟨applied, moved⟩
      apply ((delivers_checkMovement (measured node (by simp))
        (fun nextTracked => (moved nextTracked).2)).mono (fun _ _ => trivial)
        (fun _ => OverflowExcuse.mono (by simp only [reachSum]; omega))).bind
      rintro ⟨⟩ -
      cases lost : next.stack.isMangled with
      | true =>
          rw [replay_of_mangled context later lost]
          have first : node :: later = [] ++ node :: later := rfl
          exact .lost first (.stay state) tracked applied lost
      | false =>
          apply ((hypothesis next lost
            (fun other member =>
              measured other (List.mem_cons_of_mem _ member))).mono
            (fun _ result => result) (fun _ => OverflowExcuse.mono ?_)).bind
          · intro rest result
            exact result.step tracked applied
          · obtain ⟨-, width⟩ := moved lost
            simp only [reachSum]
            omega

end ReplayContext

end ProcRecovery
