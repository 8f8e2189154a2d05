import ProcRecovery.Fault
import ProcRecovery.Node
import ProcRecovery.Table

/-!
# Control-flow graphs

A block is a run of nodes of a body that control enters only at its first node.
Blocks are known by the address they start at.
-/

namespace ProcRecovery

/-- A run of nodes of a body. -/
structure Block where
  lo : Nat
  hi : Nat
  /-- Position of the first node in the body. -/
  start : Nat
  /-- Position after the last node in the body. -/
  stop : Nat
  /-- Blocks that control goes to from here. -/
  successors : List Nat := []
  /-- Blocks that control comes from. -/
  predecessors : List Nat := []
  /-- Movement of the stack pointer over the block. -/
  delta : Int
  /-- Stack level on entry. -/
  level : Resolution Int := .notComputed
  deriving Repr, DecidableEq

namespace Block

/-- The nodes of a block. -/
def nodes (block : Block) (body : List Node) : List Node :=
  (body.drop block.start).take (block.stop - block.start)

/-- The nodes of a block, all of which the body has to have. -/
def nodesIn (block : Block) (body : List Node) : Except Fault (List Node) :=
  if block.start ≤ block.stop ∧ block.stop ≤ body.length then
    .ok (block.nodes body)
  else
    .error (.missingNodes block.lo)

theorem nodesIn_of_within
    {block : Block} {body : List Node}
    (proper : block.start ≤ block.stop)
    (within : block.stop ≤ body.length) :
    block.nodesIn body = .ok (block.nodes body) :=
  if_pos ⟨proper, within⟩

theorem nodesIn_eq_ok_iff {block : Block} {body nodes : List Node} :
    block.nodesIn body = .ok nodes ↔
      block.start ≤ block.stop ∧ block.stop ≤ body.length ∧
        block.nodes body = nodes := by
  unfold nodesIn
  split
  next within =>
    rw [Except.ok.injEq]
    exact ⟨fun same => ⟨within.1, within.2, same⟩, fun given => given.2.2⟩
  next outside =>
    exact iff_of_false (by simp) (fun given => outside ⟨given.1, given.2.1⟩)

/-- Whether the stack level on entry is known. -/
def isSettled (block : Block) : Bool := block.level.isKnown

/-- The block with its stack level on entry. -/
def settle
    (level : Int)
    (block : Block) :
    Block :=
  { block with level := .known level }

/--
The block after all reachable blocks have been settled: a level that is still
missing cannot be recovered.
-/
def close (block : Block) : Block :=
  if block.isSettled then block else { block with level := .unrecoverable }

@[simp]
theorem isSettled_settle
    (level : Int)
    (block : Block) :
    (block.settle level).isSettled = true :=
  rfl

end Block

/-- The control-flow graph of a body. -/
structure Graph where
  entry : Nat := 0
  /-- Blocks by the address they start at. -/
  blocks : Table Nat Block := ∅
  /--
  Edges along which a second, different stack level was seen, in order of
  discovery.
  -/
  skewed : List (Nat × Nat) := []
  deriving DecidableEq

/-- A list with an item at its end, unless it holds the item already. -/
def appendNew
    {α : Type} [DecidableEq α]
    (items : List α)
    (item : α) :
    List α :=
  if item ∈ items then items else items ++ [item]

/-- Whether an edge is one of some edges. -/
def isAmong (edges : List (Nat × Nat)) (edge : Nat × Nat) : Bool :=
  edges.any (fun other => other = edge)

theorem isAmong_iff {edges : List (Nat × Nat)} {edge : Nat × Nat} :
    isAmong edges edge = true ↔ edge ∈ edges := by
  simp [isAmong]

namespace Graph

/-- Add an edge between two blocks; an end without a block is left out. -/
def addEdge (graph : Graph) (source target : Nat) : Graph :=
  let withSuccessor := graph.blocks.modify source (fun block =>
    { block with successors := appendNew block.successors target })
  let withPredecessor := withSuccessor.modify target (fun block =>
    { block with predecessors := appendNew block.predecessors source })
  { graph with blocks := withPredecessor }

/--
Whether some blocks cover the nodes of a body from a position on, without gap
or overlap.
-/
def tilesFrom (body : List Node) : Nat → List Block → Bool
  | position, [] => position = body.length
  | position, block :: later =>
    block.start = position && block.start < block.stop &&
      (body[block.start]?.map Node.lo = some block.lo) &&
      (body[block.stop - 1]?.map Node.hi = some block.hi) &&
      tilesFrom body block.stop later

/-- Whether the blocks cover a body exactly. -/
def tiles
    (graph : Graph)
    (body : List Node) :
    Bool :=
  tilesFrom body 0 graph.blocks.values

/-- The edges in ascending order of the blocks they leave. -/
def edges (graph : Graph) : List (Nat × Nat) :=
  graph.blocks.values.flatMap (fun block =>
    block.successors.map (fun target => (block.lo, target)))

/-- The skewed edges in ascending order. -/
def skewedAscending (graph : Graph) : List (Nat × Nat) :=
  graph.skewed.mergeSort (fun first second =>
    first.1 < second.1 || (first.1 = second.1 && first.2 ≤ second.2))

end Graph

end ProcRecovery
