import ProcRecovery.Proofs.Graph.Annotation
import ProcRecovery.Proofs.Idiom.Bounds

/-!
# Sums that stay in their words

The nodes of a body that fits in the address space, each with a modest stack
effect, have sums that stay far from the sign bit of a word.  The movement of a
block is the sum over its nodes, a level is the sum over a walk with fewer
edges than there are blocks, and the level of a node is the level of its block
and a sum over the nodes before it.  So a partition, a propagation and an
annotation of such a body all come to their ends.
-/

namespace ProcRecovery

/-- A bound on the movement of a whole body. -/
def blockBound : Nat := movementBound * addressSpace

/-- A bound on the level of any block. -/
def levelBound : Nat := blockBound * addressSpace

/-! ## Sums over nodes -/

/-- The movement of some nodes together is bounded by their number. -/
theorem natAbs_deltaSum_le
    {nodes : List Node}
    (modest : ∀ node ∈ nodes, node.IsModest) :
    (deltaSum nodes).natAbs ≤ movementBound * nodes.length := by
  induction nodes with
  | nil => exact Nat.zero_le _
  | cons node later hypothesis =>
      have first : node.stackDelta.natAbs ≤ movementBound :=
        modest node (by simp)
      have rest :=
        hypothesis (fun other member =>
          modest other (List.mem_cons_of_mem _ member))
      rw [deltaSum_cons, List.length_cons, Nat.mul_succ]
      omega

theorem foldlM_signedOr_eq_ok
    (fault : Fault)
    {nodes : List Node}
    (modest : ∀ node ∈ nodes, node.IsModest)
    {total : Int}
    (small : total.natAbs + movementBound * nodes.length < 0x8000000000000000) :
    (nodes.map Node.stackDelta).foldlM (fun total value =>
      signedOr fault (total + value)) total =
      .ok (total + deltaSum nodes) := by
  induction nodes generalizing total with
  | nil => simp [pure, Except.pure]
  | cons node later hypothesis =>
      have first : node.stackDelta.natAbs ≤ movementBound :=
        modest node (by simp)
      rw [List.length_cons, Nat.mul_succ] at small
      rw [List.map_cons, List.foldlM_cons,
        signedOr_of_natAbs_lt fault (by omega), ok_bind,
        hypothesis (fun other member =>
          modest other (List.mem_cons_of_mem _ member)) (by omega),
        deltaSum_cons, Int.add_assoc]

namespace Graph

/-! ## Partition -/

/-- The movement of a block of modest nodes is computed without overflow. -/
theorem delivers_modest_blockOf
    {body : List Node}
    (modest : ∀ node ∈ body, node.IsModest)
    (short : body.length ≤ addressSpace)
    (span : Nat × Nat) :
    Delivers (blockOf body span) (fun block => block.delta.natAbs ≤ blockBound)
      (fun fault => fault ≠ .deltaOverflow) := by
  simp only [blockOf]
  generalize slice : (body.drop span.1).take (span.2 - span.1) = nodes
  have inBody : ∀ node ∈ nodes, node.IsModest := by
    intro node member
    rw [← slice] at member
    exact modest node (List.mem_of_mem_drop (List.mem_of_mem_take member))
  have sliced : nodes.length ≤ addressSpace := by
    rw [← slice, List.length_take, List.length_drop]
    omega
  have product := Nat.mul_le_mul_left movementBound sliced
  split
  next =>
    rw [signedSum, foldlM_signedOr_eq_ok _ inBody, ok_bind]
    · have bounded := natAbs_deltaSum_le inBody
      rw [Int.zero_add]
      exact Nat.le_trans bounded product
    · rw [Int.natAbs_zero, Nat.zero_add]
      exact Nat.lt_of_le_of_lt product (by decide)
  next =>
    intro same
    cases same

theorem delivers_exits_plainly
    (body : List Node)
    (procedure : Nat)
    (block : Block) :
    Delivers (exits body procedure block).outcome (fun _ => True)
      (fun fault => fault ≠ .deltaOverflow) := by
  unfold exits
  split
  next =>
    rw [Traced.outcome_foldlM]
    apply Delivers.foldlM trivial
    intro edges _ way _
    split
    · split
      · trivial
      · split <;> trivial
    · trivial
  next =>
    intro same
    cases same

/--
There are no more blocks than addresses, and none of them moves the stack by
more than a whole body can.
-/
structure IsBounded (graph : Graph) : Prop where
  size_le : graph.blocks.size ≤ addressSpace
  delta_le : ∀ block ∈ graph.blocks.values, block.delta.natAbs ≤ blockBound

/--
Blocks that tile the rest of a body are no more than the nodes of the rest.
-/
theorem length_le_of_tilesFrom
    {body : List Node} {position : Nat} {blocks : List Block}
    (tiled : tilesFrom body position blocks = true) :
    position + blocks.length ≤ body.length := by
  induction blocks generalizing position with
  | nil =>
      simp only [tilesFrom, decide_eq_true_eq] at tiled
      simp [tiled]
  | cons first later hypothesis =>
      obtain ⟨starts, proper, -, -, rest⟩ := tilesFrom_cons_iff.mp tiled
      have bound := hypothesis rest
      rw [List.length_cons]
      omega

/--
The blocks of a partition move the stack as the blocks of its spans do, edges
or not.
-/
theorem natAbs_delta_of_partition
    {first : Node} {later : List Node} {procedure : Nat} {graph : Graph}
    (ascending :
      (first :: later).Pairwise (fun earlier later => earlier.lo < later.lo))
    (modest : ∀ node ∈ first :: later, node.IsModest)
    (short : (first :: later).length ≤ addressSpace)
    (finished : (partition (first :: later) procedure).outcome = .ok graph) :
    ∀ block ∈ graph.blocks.values, block.delta.natAbs ≤ blockBound := by
  have consecutive := consecutive_leaders first later
  simp only [partition, Traced.outcome_bind, Traced.outcome_ofExcept,
    Traced.outcome_mapM]
    at finished
  obtain ⟨blocks, built, finished⟩ := bind_eq_ok_iff.mp finished
  obtain ⟨edges, -, finished⟩ := bind_eq_ok_iff.mp finished
  have areBlocks : List.Forall₂ (IsBlockOf (first :: later))
      (spans (first :: later).length (leaders (first :: later))) blocks := by
    have each :
        ∀ span ∈ spans (first :: later).length (leaders (first :: later)),
        Delivers (blockOf (first :: later) span)
        (IsBlockOf (first :: later) span)
          (fun fault => fault = .deltaOverflow) := by
      intro span member
      obtain ⟨proper, within⟩ := consecutive.within.2 span member
      exact delivers_blockOf proper within
    exact (Delivers.mapM each).of_ok built
  have areModest :
      List.Forall₂ (fun _ block => block.delta.natAbs ≤ blockBound)
      (spans (first :: later).length (leaders (first :: later))) blocks :=
    (Delivers.mapM
      (fun span _ => delivers_modest_blockOf modest short span)).of_ok built
  split at finished
  next =>
    cases finished
    intro block member
    have isDelta := List.mem_map_of_mem (f := Block.delta) member
    rw [map_foldl_addEdge (fun _ _ _ => rfl),
      values_ofList_blocks
        (ascending_of_tilesFrom ascending
        (tilesFrom_of_consecutive consecutive areBlocks))] at isDelta
    obtain ⟨bare, isBare, same⟩ := List.mem_map.mp isDelta
    obtain ⟨span, -, bounded⟩ := exists_of_mem_right areModest isBare
    rw [← same]
    exact bounded
  next => cases finished

theorem partition_ne_deltaOverflow
    {body : List Node}
    (modest : ∀ node ∈ body, node.IsModest)
    (short : body.length ≤ addressSpace)
    (procedure : Nat) :
    (partition body procedure).outcome ≠ .error .deltaOverflow := by
  intro stopped
  unfold partition at stopped
  split at stopped
  next => cases stopped
  next first later =>
    simp only [Traced.outcome_bind, Traced.outcome_ofExcept,
      Traced.outcome_mapM] at stopped
    rcases bind_eq_error_iff.mp stopped with stopped | ⟨blocks, -, stopped⟩
    · obtain ⟨-, span, -, -, -, -, atSpan⟩ := mapM_eq_error_iff.mp stopped
      exact (delivers_modest_blockOf modest short span).of_error atSpan rfl
    · rcases bind_eq_error_iff.mp stopped with stopped | ⟨edges, -, stopped⟩
      · obtain ⟨-, block, -, -, -, -, atBlock⟩ := mapM_eq_error_iff.mp stopped
        exact (delivers_exits_plainly _ procedure block).of_error atBlock rfl
      · split at stopped
        next => cases stopped
        next => cases stopped

/--
A body that fits in the address space is divided into blocks without overflow.
-/
theorem exists_partition
    {body : List Node}
    (nonempty : body ≠ [])
    (ascending : body.Pairwise (fun earlier later => earlier.lo < later.lo))
    (modest : ∀ node ∈ body, node.IsModest)
    (short : body.length ≤ addressSpace)
    (procedure : Nat) :
    ∃ graph, (partition body procedure).outcome = .ok graph ∧
      IsPartition body graph ∧
      graph.IsBounded := by
  have promised := delivers_partition nonempty ascending procedure
  cases outcome : (partition body procedure).outcome with
  | error fault =>
      have overflow := promised.of_error outcome
      rw [overflow] at outcome
      exact (partition_ne_deltaOverflow modest short procedure outcome).elim
  | ok graph =>
      have partitioned := promised.of_ok outcome
      have few := length_le_of_tilesFrom partitioned.tiled
      have size : graph.blocks.values.length = graph.blocks.size :=
        List.length_map _
      refine ⟨graph, rfl, partitioned, by omega, ?_⟩
      obtain ⟨first, later, rfl⟩ := List.exists_cons_of_ne_nil nonempty
      exact natAbs_delta_of_partition ascending modest short outcome

/-! ## Levels -/

/-- A walk moves the stack by no more than its blocks can. -/
theorem Walk.natAbs_le
    {graph : Graph}
    (bounded : graph.IsBounded)
    {length address : Nat} {total : Int}
    (walk : Walk graph length address total) :
    total.natAbs ≤ blockBound * length := by
  induction walk with
  | entry => exact Nat.zero_le _
  | @step length source target total block next walk present edge found
    hypothesis =>
      have single :=
        bounded.delta_le block (Table.mem_values_iff.mpr ⟨source, present⟩)
      rw [Nat.mul_succ]
      omega

theorem IsBounded.walk_le
    {graph : Graph}
    (bounded : graph.IsBounded)
    {length address : Nat} {total : Int}
    (walk : Walk graph length address total)
    (few : length < graph.blocks.size) :
    total.natAbs ≤ levelBound := by
  have size := bounded.size_le
  exact Nat.le_trans (walk.natAbs_le bounded)
    (Nat.mul_le_mul_left blockBound (by omega))

/-- Every known level of the graph is bounded. -/
def HasBoundedLevels (graph : Graph) : Prop :=
  ∀ block ∈ graph.blocks.values, ∀ level, block.level = .known level →
    level.natAbs ≤ levelBound

/-- Levels are propagated through a bounded graph without overflow. -/
theorem exists_propagateLevels
    {graph : Graph}
    (fresh : graph.IsFresh)
    (entered : graph.blocks.contains graph.entry = true)
    (bounded : graph.IsBounded)
    (procedure : Nat) :
    ∃ final, (graph.propagateLevels procedure).outcome = .ok final ∧
      HasExactLevels graph final procedure
        (diagnosticsOf (graph.propagateLevels procedure).events) ∧
      final.HasBoundedLevels := by
  have promised := delivers_propagateLevels fresh entered procedure
  cases outcome : (graph.propagateLevels procedure).outcome with
  | error fault =>
      obtain ⟨-, length, address, total, block, walk, few, present,
          overflows⟩ :=
        promised.of_error outcome
      have walked := bounded.walk_le walk few
      have single :=
        bounded.delta_le block (Table.mem_values_iff.mpr ⟨address, present⟩)
      have small : levelBound + blockBound < 0x8000000000000000 := by decide
      unfold FitsSigned at overflows
      omega
  | ok final =>
      have exactly := promised.of_ok outcome
      refine ⟨final, rfl, exactly, ?_⟩
      intro block member level known
      obtain ⟨address, present⟩ := Table.mem_values_iff.mp member
      obtain ⟨length, walk, few⟩ :=
        exactly.walks address level
          (levelAt_eq_some_iff.mpr ⟨block, present, known⟩)
      exact bounded.walk_le walk few

/-! ## Annotation -/

/-- Modest nodes are given their levels without overflow. -/
theorem exists_annotateNodes
    {level : Resolution Int} {nodes : List Node}
    (modest : ∀ node ∈ nodes, node.IsModest)
    (small : ∀ depth, level = .known depth →
      depth.natAbs + movementBound * nodes.length < 0x8000000000000000) :
    ∃ annotated, annotateNodes level nodes = .ok annotated := by
  induction nodes generalizing level with
  | nil => exact ⟨[], rfl⟩
  | cons node later hypothesis =>
      have first : node.stackDelta.natAbs ≤ movementBound :=
        modest node (by simp)
      have advanced : levelAfter? level node.stackDelta =
          .ok (level.advance node.stackDelta) := by
        cases level with
        | known depth =>
            have fits := small depth rfl
            rw [List.length_cons, Nat.mul_succ] at fits
            rw [levelAfter?, signedOr_of_natAbs_lt _ (by omega)]
            rfl
        | notComputed => rfl
        | unrecoverable => rfl
      have laterSmall : ∀ depth, level.advance node.stackDelta = .known depth →
          depth.natAbs + movementBound * later.length <
            0x8000000000000000 := by
        intro depth isKnown
        cases level with
        | known before =>
            cases isKnown
            have fits := small before rfl
            rw [List.length_cons, Nat.mul_succ] at fits
            omega
        | notComputed => cases isKnown
        | unrecoverable => cases isKnown
      obtain ⟨rest, annotated⟩ := hypothesis
        (fun other member => modest other (List.mem_cons_of_mem _ member))
        laterSmall
      exact ⟨{ node with stackLevel := level } :: rest, by
        rw [annotateNodes_cons, advanced, ok_bind, annotated, ok_bind]⟩

/-- The levels of a tiled body are annotated without overflow. -/
theorem exists_annotateLevels
    {graph : Graph} {body : List Node}
    (tiled : graph.tiles body = true)
    (leveled : graph.HasBoundedLevels)
    (modest : ∀ node ∈ body, node.IsModest)
    (short : body.length ≤ addressSpace) :
    ∃ annotated, graph.annotateLevels body = .ok annotated := by
  have shape := (within_of_tilesFrom tiled).2
  have annotates : Delivers (graph.annotateLevels body)
      (fun annotated => annotated.map Node.unleveled = body.map Node.unleveled)
      (fun _ => False) := by
    unfold annotateLevels
    refine Delivers.foldlM rfl (fun state same block member => ?_)
    obtain ⟨-, proper, within, -⟩ := shape block member
    have length : state.length = body.length := by
      simpa using congrArg List.length same
    have inState : ∀ node ∈ block.nodes state, node.IsModest := by
      have inBody := forall_mem_of_map_eq same.symm (fun _ => Iff.rfl) modest
      intro node isNode
      exact inBody node (List.mem_of_mem_drop (List.mem_of_mem_take isNode))
    have fewer : (block.nodes state).length ≤ addressSpace := by
      rw [Block.length_nodes (by omega)]
      omega
    have small : ∀ depth, block.level = .known depth →
        depth.natAbs + movementBound * (block.nodes state).length <
          0x8000000000000000 := by
      intro depth known
      have level := leveled block member depth known
      have product := Nat.mul_le_mul_left movementBound fewer
      have room : levelBound + movementBound * addressSpace <
          0x8000000000000000 := by decide
      omega
    obtain ⟨nodes, annotated⟩ := exists_annotateNodes inState small
    have rewritten :=
      ((delivers_annotateNodes block.level (block.nodes state)).of_ok
        annotated).1
    rw [annotateBlock, Block.nodesIn_of_within (by omega) (by omega), ok_bind,
      annotated, ok_bind]
    exact (Block.map_splice (by omega) rewritten).trans same
  obtain ⟨annotated, finished, -⟩ := annotates.exists_ok
  exact ⟨annotated, finished⟩

end Graph

end ProcRecovery
