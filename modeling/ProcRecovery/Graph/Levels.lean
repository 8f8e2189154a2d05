import ProcRecovery.Graph.Basic
import ProcRecovery.Journal.Event
import ProcRecovery.Worklist

/-!
# Stack levels

The entry of a graph has level zero, and a block passes its level plus its own
movement on to its successors, first in, first out.  A block keeps the first
level it is reached with.  Any other level seen later along an edge is a skew,
reported once for each edge.  Blocks that are never reached have no recoverable
level.

Every block is settled at most once and expanded only after it has been
settled, so the number of unsettled blocks and pending blocks together goes
down with every expansion.
-/

namespace ProcRecovery.Graph

/-- What happened at one edge during propagation. -/
inductive LevelEvent where
  | settled (block : Nat) (level : Int)
  | skewed (source target : Nat) (kept seen : Int)
  deriving Repr, DecidableEq

/-- A propagation under way. -/
structure Propagation where
  blocks : Table Nat Block
  skewed : List (Nat × Nat)
  pending : Worklist Nat
  trail : List LevelEvent

/-- The number of blocks without a known level. -/
def unsettled (blocks : Table Nat Block) : Nat :=
  blocks.values.countP (fun block => !block.isSettled)

/-- Pass a level along one edge. -/
def Propagation.visit
    (source : Nat)
    (level : Int)
    (state : Propagation)
    (target : Nat) :
    Propagation :=
  match state.blocks.get? target with
  | none => state
  | some block =>
    match block.level with
    | .known kept =>
      if kept = level || isAmong state.skewed (source, target) then state
      else
        { state with
          skewed := state.skewed ++ [(source, target)]
          trail := state.trail ++ [.skewed source target kept level] }
    | _ =>
      { state with
        blocks := state.blocks.modify target (Block.settle level)
        pending := state.pending.push target
        trail := state.trail ++ [.settled target level] }

/-- The level after a block that has a level, and the blocks it goes to. -/
def Propagation.outgoing (state : Propagation) (source : Nat) :
    Option (Int × List Nat) := do
  let block ← state.blocks.get? source
  let level ← block.level.value?
  return (level + block.delta, block.successors)

/-- Passing a level along an edge does not add to the work that is left. -/
theorem Propagation.work_visit_le
    (source : Nat)
    (level : Int)
    (state : Propagation)
    (target : Nat) :
    unsettled (state.visit source level target).blocks +
        (state.visit source level target).pending.pending.length ≤
      unsettled state.blocks + state.pending.pending.length := by
  unfold visit
  split
  · exact Nat.le_refl _
  next block present =>
    split
    · split <;> exact Nat.le_refl _
    next notKnown =>
      have isOpen : (!block.isSettled) = true := by
        unfold Block.isSettled Resolution.isKnown Resolution.value?
        split <;> simp_all
      have fewer :=
        Table.countP_values_modify (fun other : Block => !other.isSettled)
        (Block.settle level) present isOpen (by simp)
      have longer := Worklist.length_push_le state.pending target
      simp only [unsettled] at *
      omega

/--
Passing a level along several edges does not add to the work that is left.
-/
theorem Propagation.work_foldl_visit_le
    (source : Nat)
    (level : Int)
    (targets : List Nat)
    (state : Propagation) :
    unsettled (targets.foldl (visit source level) state).blocks +
        (targets.foldl (visit source level) state).pending.pending.length ≤
      unsettled state.blocks + state.pending.pending.length := by
  induction targets generalizing state with
  | nil => exact Nat.le_refl _
  | cons target rest hypothesis =>
    exact Nat.le_trans (hypothesis _) (work_visit_le source level state target)

/--
Expand pending blocks until none is left, or until a level does not fit in a
word.
-/
def Propagation.run (state : Propagation) : Propagation × Except Fault Unit :=
  match popped : state.pending.pop? with
  | none => (state, .ok ())
  | some (source, rest) =>
    have : state.pending.pending = source :: rest.pending :=
      Worklist.pending_of_pop? popped
    match state.outgoing source with
    | none => run { state with pending := rest }
    | some (level, successors) =>
      if FitsSigned level then
        run (successors.foldl (visit source level)
          { state with pending := rest })
      else
        (state, .error .levelOverflow)
termination_by unsettled state.blocks + state.pending.pending.length
decreasing_by
  · simp [this]
  · have bound :=
      work_foldl_visit_le source level successors
        { state with pending := rest }
    simp only at bound
    simp only [this, List.length_cons]
    omega

/-- What an event of a propagation means for the procedure. -/
def LevelEvent.toEvent (procedure : Nat) : LevelEvent → Event
  | settled block level => .noted (.levelSettled block level)
  | skewed source target kept seen =>
    .diagnosed procedure (.stackLevelSkew target source kept seen)

/-- Propagate stack levels from the entry. -/
def propagateLevels (graph : Graph) (procedure : Nat) : Traced Graph :=
  if graph.blocks.contains graph.entry then
    let start : Propagation :=
      { blocks := graph.blocks.modify graph.entry (Block.settle 0)
        skewed := graph.skewed
        pending := Worklist.empty.push graph.entry
        trail := [] }
    let (final, outcome) := start.run
    { events := final.trail.map (LevelEvent.toEvent procedure)
      outcome := outcome.map (fun _ =>
        { graph with
          blocks := final.blocks.map (fun _ block => block.close)
          skewed := final.skewed }) }
  else
    return graph

/--
Give the nodes of a block their stack levels, starting from the level on entry.
-/
def annotateNodes : Resolution Int → List Node → Except Fault (List Node)
  | _, [] => .ok []
  | level, node :: later => do
    let next ←
      match level with
      | .known depth =>
          Resolution.known <$> signedOr .levelOverflow
            (depth + node.stackDelta)
      | _ => .ok level
    let rest ← annotateNodes next later
    .ok ({ node with stackLevel := level } :: rest)

/-- Give the nodes of a block their stack levels within the body. -/
def annotateBlock (body : List Node) (block : Block) :
    Except Fault (List Node) := do
  let own ← block.nodesIn body
  let nodes ← annotateNodes block.level own
  .ok (body.take block.start ++ nodes ++ body.drop block.stop)

/-- Give all nodes of a body their stack levels. -/
def annotateLevels
    (graph : Graph)
    (body : List Node) :
    Except Fault (List Node) :=
  graph.blocks.values.foldlM annotateBlock body

end ProcRecovery.Graph
