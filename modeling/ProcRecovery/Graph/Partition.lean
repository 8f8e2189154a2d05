import ProcRecovery.Graph.Basic
import ProcRecovery.Journal.Event

/-!
# Partition into blocks

A block starts at the first node of a body, at every node that a branch or jump
goes to, at every epilogue, and after every node that does not simply fall
through.  Where control goes after a block is decided by its last node; a
destination that starts no node of the body is reported.
-/

namespace ProcRecovery.Graph

/-- Whether a node starts at an address. -/
def startsNode (body : List Node) (address : Nat) : Bool :=
  body.any (fun node => node.lo = address)

/-- The addresses that branches and jumps of a body go to. -/
def jumpTargets (body : List Node) : List Nat :=
  body.flatMap (fun node =>
    node.flow.filterMap (fun way =>
      match way.kind with
      | .conditional | .unconditional => way.destination
      | .normal | .call => none))

/--
The positions at which blocks start, given the position of the first of some
nodes and whether the node before it simply falls through.
-/
def leadersFrom (targets : List Nat) : Nat → Bool → List Node → List Nat
  | _, _, [] => []
  | position, fellThrough, node :: later =>
    let rest := leadersFrom targets (position + 1) node.fallsThroughOnly later
    if !fellThrough || node.op = some .epilogue || targets.contains node.lo
      then position :: rest
    else rest

/-- The positions at which blocks start. -/
def leaders (body : List Node) : List Nat :=
  leadersFrom (jumpTargets body) 0 false body

/--
The pairs of each position with the next one, and of the last position with the
end.
-/
def spans (stop : Nat) : List Nat → List (Nat × Nat)
  | [] => []
  | [last] => [(last, stop)]
  | first :: second :: later => (first, second) :: spans stop (second :: later)

/-- The block of a span of positions. -/
def blockOf (body : List Node) (span : Nat × Nat) : Except Fault Block :=
  let nodes := (body.drop span.1).take (span.2 - span.1)
  match nodes.head?, nodes.getLast? with
  | some first, some last => do
    let delta ← signedSum .deltaOverflow (nodes.map Node.stackDelta)
    return {
      lo := first.lo
      hi := last.hi
      start := span.1
      stop := span.2
      delta }
  | _, _ => .error .untiledBlocks

/--
The ways out of a block that go to nodes of the body, with a report of those
that do not.  Falling off the end of the body is neither.
-/
def exits
    (body : List Node)
    (procedure : Nat)
    (block : Block) :
    Traced (List (Nat × Nat)) :=
  match (block.nodes body).getLast?, body.getLast? with
  | some tail, some last =>
    (tail.flow.filter (fun way => way.kind ≠ .call)).foldlM
      (fun edges way =>
        match way.destination with
        | some target =>
          if startsNode body target then return edges ++ [(block.lo, target)]
          else if way.kind = .normal ∧ target = last.hi then return edges
          else do
            Traced.report procedure (.missingFlowTarget tail.lo (some target))
            return edges
        | none => do
          Traced.report procedure (.missingFlowTarget tail.lo none)
          return edges)
      []
  | _, _ => Traced.stop .untiledBlocks

/-- Divide a body into blocks. -/
def partition (body : List Node) (procedure : Nat) : Traced Graph :=
  match body with
  | [] => return { entry := procedure }
  | first :: _ => do
    let blocks ← Traced.ofExcept
        ((spans body.length (leaders body)).mapM (blockOf body))
    let table := Table.ofList (blocks.map (fun block => (block.lo, block)))
    let edges ← table.values.mapM (exits body procedure)
    let bare : Graph := { entry := first.lo, blocks := table }
    let graph :=
      edges.flatten.foldl (fun graph edge => graph.addEdge edge.1 edge.2) bare
    if graph.tiles body then return graph else Traced.stop .untiledBlocks

end ProcRecovery.Graph
