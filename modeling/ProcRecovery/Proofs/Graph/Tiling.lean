import ProcRecovery.Graph.Partition
import ProcRecovery.Proofs.Abutting
import ProcRecovery.Proofs.Graph.Levels
import ProcRecovery.Proofs.Table

/-!
# Tiling

The leaders of a body are ascending positions of which the first is zero, so
the spans between them follow one another from one end of the body to the
other.  The blocks of these spans tile the body, and neither edges nor levels
change what a block covers.  Partitioning a body whose nodes ascend therefore
never finds its own blocks wanting.

The second half is about passes that go through the blocks of a tiling and
rewrite the nodes of one block after the other.
-/

namespace ProcRecovery

/-- What a block covers. -/
def Block.extent (block : Block) : Nat × Nat × Nat × Nat :=
  (block.lo, block.hi, block.start, block.stop)

/-- The addresses that a node covers. -/
def Node.range (node : Node) : Nat × Nat := (node.lo, node.hi)

theorem map_range_congr
    {view : Node → Node} {first second : List Node}
    (same : first.map view = second.map view)
    (keeps : ∀ node, (view node).range = node.range) :
    first.map Node.range = second.map Node.range := by
  have viewed : ∀ body : List Node,
      (body.map view).map Node.range = body.map Node.range := by
    intro body
    rw [List.map_map]
    exact List.map_congr_left (fun node _ => keeps node)
  rw [← viewed first, same, viewed second]

namespace Graph

/-! ## Tilings -/

theorem tilesFrom_cons_iff
    {body : List Node} {position : Nat} {block : Block} {later : List Block} :
    tilesFrom body position (block :: later) = true ↔
      block.start = position ∧ block.start < block.stop ∧
        body[block.start]?.map Node.lo = some block.lo ∧
        body[block.stop - 1]?.map Node.hi = some block.hi ∧
        tilesFrom body block.stop later = true := by
  simp [tilesFrom, and_assoc]

theorem map_lo_getElem? (body : List Node) (index : Nat) :
    body[index]?.map Node.lo = (body.map Node.range)[index]?.map Prod.fst := by
  rw [List.getElem?_map, Option.map_map]
  rfl

theorem map_hi_getElem? (body : List Node) (index : Nat) :
    body[index]?.map Node.hi = (body.map Node.range)[index]?.map Prod.snd := by
  rw [List.getElem?_map, Option.map_map]
  rfl

/-- Only the extents of blocks and the ranges of nodes matter to a tiling. -/
theorem tilesFrom_congr
    {body other : List Node} {blocks others : List Block}
    (sameNodes : body.map Node.range = other.map Node.range)
    (sameBlocks : blocks.map Block.extent = others.map Block.extent)
    (position : Nat) :
    tilesFrom body position blocks = tilesFrom other position others := by
  have sameLength : body.length = other.length := by
    simpa using congrArg List.length sameNodes
  induction blocks generalizing others position with
  | nil =>
      cases others with
      | nil => simp [tilesFrom, sameLength]
      | cons block later => cases sameBlocks
  | cons block later hypothesis =>
      cases others with
      | nil => cases sameBlocks
      | cons counterpart rest =>
          simp only [List.map_cons, List.cons.injEq] at sameBlocks
          obtain ⟨sameExtent, sameLater⟩ := sameBlocks
          simp only [Block.extent, Prod.mk.injEq] at sameExtent
          obtain ⟨sameLo, sameHi, sameStart, sameStop⟩ := sameExtent
          simp only [tilesFrom, map_lo_getElem?, map_hi_getElem?, sameNodes,
            sameLo, sameHi, sameStart, sameStop, hypothesis sameLater]

/-- The blocks of a tiling lie within the body, one after the other. -/
theorem within_of_tilesFrom
    {body : List Node} {position : Nat} {blocks : List Block}
    (tiled : tilesFrom body position blocks = true) :
    position ≤ body.length ∧ ∀ block ∈ blocks,
      position ≤ block.start ∧ block.start < block.stop ∧
        block.stop ≤ body.length ∧
        body[block.start]?.map Node.lo = some block.lo := by
  induction blocks generalizing position with
  | nil =>
      simp only [tilesFrom, decide_eq_true_eq] at tiled
      refine ⟨by omega, ?_⟩
      intro block member
      cases member
  | cons first later hypothesis =>
      obtain ⟨starts, proper, firstLo, -, rest⟩ := tilesFrom_cons_iff.mp tiled
      obtain ⟨bound, inner⟩ := hypothesis rest
      refine ⟨by omega, ?_⟩
      intro block member
      rcases List.mem_cons.mp member with rfl | isLater
      · exact ⟨by omega, proper, bound, firstLo⟩
      · obtain ⟨lower, blockProper, upper, blockLo⟩ := inner block isLater
        exact ⟨by omega, blockProper, upper, blockLo⟩

/-- Blocks that tile a body of ascending nodes ascend themselves. -/
theorem ascending_of_tilesFrom
    {body : List Node} {position : Nat} {blocks : List Block}
    (ascending : body.Pairwise (fun earlier later => earlier.lo < later.lo))
    (tiled : tilesFrom body position blocks = true) :
    blocks.Pairwise (fun earlier later => earlier.lo < later.lo) := by
  induction blocks generalizing position with
  | nil => exact List.Pairwise.nil
  | cons first later hypothesis =>
      obtain ⟨-, proper, firstLo, -, rest⟩ := tilesFrom_cons_iff.mp tiled
      refine List.pairwise_cons.mpr ⟨?_, hypothesis rest⟩
      intro block member
      obtain ⟨lower, -, -, blockLo⟩ :=
        (within_of_tilesFrom rest).2 block member
      obtain ⟨firstNode, firstFound, firstSame⟩ :=
        Option.map_eq_some_iff.mp firstLo
      obtain ⟨blockNode, blockFound, blockSame⟩ :=
        Option.map_eq_some_iff.mp blockLo
      obtain ⟨firstBound, rfl⟩ := List.getElem?_eq_some_iff.mp firstFound
      obtain ⟨blockBound, rfl⟩ := List.getElem?_eq_some_iff.mp blockFound
      have below :=
        List.pairwise_iff_getElem.mp ascending first.start block.start
          firstBound
        blockBound (by omega)
      omega

/-! ## Leaders and spans -/

theorem leadersFrom_within
    {targets : List Nat} {position : Nat} {fellThrough : Bool}
    {body : List Node} {leader : Nat}
    (member : leader ∈ leadersFrom targets position fellThrough body) :
    position ≤ leader ∧ leader < position + body.length := by
  induction body generalizing position fellThrough with
  | nil => cases member
  | cons node later hypothesis =>
      simp only [leadersFrom] at member
      rw [List.length_cons]
      split at member
      · rcases List.mem_cons.mp member with rfl | isLater
        · omega
        · have bounds := hypothesis isLater
          omega
      · have bounds := hypothesis member
        omega

theorem leadersFrom_ascending
    (targets : List Nat)
    (position : Nat)
    (fellThrough : Bool)
    (body : List Node) :
    (leadersFrom targets position fellThrough body).Pairwise (· < ·) := by
  induction body generalizing position fellThrough with
  | nil => exact List.Pairwise.nil
  | cons node later hypothesis =>
      simp only [leadersFrom]
      split
      · refine List.pairwise_cons.mpr ⟨?_, hypothesis _ _⟩
        intro leader member
        have bounds := leadersFrom_within member
        omega
      · exact hypothesis _ _

/-- The first node of a body is a leader. -/
theorem leaders_cons (first : Node) (later : List Node) :
    ∃ rest, leaders (first :: later) = 0 :: rest := by
  simp [leaders, leadersFrom]

/-- Spans that follow one another from a position to another one. -/
def Consecutive : Nat → Nat → List (Nat × Nat) → Prop
  | position, stop, [] => position = stop
  | position, stop, span :: later =>
    span.1 = position ∧ span.1 < span.2 ∧ Consecutive span.2 stop later

theorem consecutive_spans
    {stop first : Nat} {later : List Nat}
    (ascending : (first :: later).Pairwise (· < ·))
    (within : ∀ leader ∈ first :: later, leader < stop) :
    Consecutive first stop (spans stop (first :: later)) := by
  induction later generalizing first with
  | nil => exact ⟨rfl, within first (by simp), rfl⟩
  | cons second rest hypothesis =>
      obtain ⟨below, restAscending⟩ := List.pairwise_cons.mp ascending
      refine ⟨rfl, below second (by simp), ?_⟩
      exact hypothesis restAscending
        (fun leader member =>
          within leader (List.mem_cons_of_mem first member))

theorem Consecutive.within
    {position stop : Nat} {pieces : List (Nat × Nat)}
    (consecutive : Consecutive position stop pieces) :
    position ≤ stop ∧ ∀ span ∈ pieces, span.1 < span.2 ∧ span.2 ≤ stop := by
  induction pieces generalizing position with
  | nil =>
      refine ⟨Nat.le_of_eq consecutive, ?_⟩
      intro span member
      cases member
  | cons first later hypothesis =>
      obtain ⟨starts, proper, rest⟩ := consecutive
      obtain ⟨bound, inner⟩ := hypothesis rest
      refine ⟨by omega, ?_⟩
      intro span member
      rcases List.mem_cons.mp member with rfl | isLater
      · exact ⟨proper, bound⟩
      · exact inner span isLater

/-! ## Blocks of spans -/

theorem delivers_signedSum
    (fault : Fault)
    (values : List Int) :
    Delivers (signedSum fault values) (fun _ => True) (fun raised =>
      raised = fault) := by
  unfold signedSum
  apply Delivers.foldlM trivial
  intro total _ value _
  exact (delivers_signedOr fault (total + value)).mono (fun _ _ => trivial)
    (fun _ excused => excused.1)

/-- The block of a span of a body, before it has edges or a level. -/
structure IsBlockOf
    (body : List Node)
    (span : Nat × Nat)
    (block : Block) :
    Prop where
  start_eq : block.start = span.1
  stop_eq : block.stop = span.2
  lo_eq : body[span.1]?.map Node.lo = some block.lo
  hi_eq : body[span.2 - 1]?.map Node.hi = some block.hi
  level_eq : block.level = .notComputed

theorem head?_slice
    {α : Type} {items : List α} {start stop : Nat}
    (proper : start < stop) :
    ((items.drop start).take (stop - start)).head? = items[start]? := by
  rw [List.head?_take, if_neg (by omega), List.head?_drop]

theorem getLast?_slice
    {α : Type} {items : List α} {start stop : Nat}
    (proper : start < stop)
    (within : stop ≤ items.length) :
    ((items.drop start).take (stop - start)).getLast? = items[stop - 1]? := by
  rw [List.getLast?_eq_getElem?, List.length_take, List.length_drop,
    List.getElem?_take, if_pos (by omega), List.getElem?_drop]
  congr 1
  omega

theorem delivers_blockOf
    {body : List Node} {span : Nat × Nat}
    (proper : span.1 < span.2)
    (within : span.2 ≤ body.length) :
    Delivers (blockOf body span) (IsBlockOf body span) (fun fault =>
      fault = .deltaOverflow) := by
  obtain ⟨first, isFirst⟩ : ∃ first, body[span.1]? = some first :=
    ⟨_, List.getElem?_eq_getElem (by omega)⟩
  obtain ⟨last, isLast⟩ : ∃ last, body[span.2 - 1]? = some last :=
    ⟨_, List.getElem?_eq_getElem (by omega)⟩
  simp only [blockOf, head?_slice proper, getLast?_slice proper within,
    isFirst, isLast]
  apply (delivers_signedSum .deltaOverflow _).bind
  intro delta _
  refine ⟨rfl, rfl, ?_, ?_, rfl⟩
  · rw [isFirst]
    rfl
  · rw [isLast]
    rfl

theorem tilesFrom_of_consecutive
    {body : List Node} {position : Nat} {pieces : List (Nat × Nat)}
    {blocks : List Block}
    (consecutive : Consecutive position body.length pieces)
    (built : List.Forall₂ (IsBlockOf body) pieces blocks) :
    tilesFrom body position blocks = true := by
  induction built generalizing position with
  | nil =>
      have done : position = body.length := consecutive
      simp [tilesFrom, done]
  | @cons span block pieces blocks isBlock _ hypothesis =>
      obtain ⟨starts, proper, rest⟩ := consecutive
      rw [tilesFrom_cons_iff, isBlock.start_eq, isBlock.stop_eq]
      exact ⟨starts, proper, isBlock.lo_eq, isBlock.hi_eq, hypothesis rest⟩

/-! ## Partitions -/

theorem values_modify_map
    {view : Block → β} {change : Block → Block}
    (keeps : ∀ block, view (change block) = view block)
    (blocks : Table Nat Block)
    (key : Nat) :
    (blocks.modify key change).values.map view = blocks.values.map view := by
  simp only [Table.modify, Table.map, Table.values, List.map_map]
  apply List.map_congr_left
  intro entry _
  simp only [Function.comp_apply]
  split
  · exact keeps entry.2
  · rfl

/-- Edges change nothing about blocks but their successors and predecessors. -/
theorem map_foldl_addEdge
    {view : Block → β}
    (keeps : ∀ (block : Block) (successors predecessors : List Nat),
      view { block with successors, predecessors } = view block)
    (graph : Graph)
    (edges : List (Nat × Nat)) :
    (edges.foldl (fun graph edge => graph.addEdge edge.1 edge.2)
      graph).blocks.values.map view =
      graph.blocks.values.map view := by
  induction edges generalizing graph with
  | nil => rfl
  | cons edge later hypothesis =>
      rw [List.foldl_cons, hypothesis]
      simp only [addEdge]
      rw [values_modify_map, values_modify_map]
      · exact fun block => keeps block _ block.predecessors
      · exact fun block => keeps block block.successors _

/-- Edges do not change what blocks cover. -/
theorem map_extent_foldl_addEdge
    (graph : Graph)
    (edges : List (Nat × Nat)) :
    (edges.foldl (fun graph edge => graph.addEdge edge.1 edge.2)
      graph).blocks.values.map
      Block.extent = graph.blocks.values.map Block.extent :=
  map_foldl_addEdge (fun _ _ _ => rfl) graph edges

theorem values_ofList_blocks
    {blocks : List Block}
    (ascending : blocks.Pairwise (fun earlier later => earlier.lo < later.lo)) :
    (Table.ofList (blocks.map (fun block => (block.lo, block)))).values =
      blocks := by
  rw [Table.values, Table.entries_ofList (List.pairwise_map.mpr ascending),
    List.map_map]
  exact List.map_id blocks

/-- Looking for the ways out of a block of a tiling always comes to an end. -/
theorem delivers_exits
    {body : List Node} {block : Block}
    (procedure : Nat)
    (proper : block.start < block.stop)
    (within : block.stop ≤ body.length) :
    Delivers (exits body procedure block).outcome (fun _ => True) (fun _ =>
      False) := by
  obtain ⟨tail, isTail⟩ : ∃ tail, body[block.stop - 1]? = some tail :=
    ⟨_, List.getElem?_eq_getElem (by omega)⟩
  obtain ⟨last, isLast⟩ : ∃ last, body.getLast? = some last := by
    rw [List.getLast?_eq_getElem?]
    exact ⟨_, List.getElem?_eq_getElem (by omega)⟩
  simp only [exits, Block.nodes, getLast?_slice proper within, isTail, isLast,
    Traced.outcome_foldlM]
  apply Delivers.foldlM trivial
  intro edges _ way _
  split
  · split
    · trivial
    · split <;> trivial
  · trivial

/--
What a partition of a body promises: its blocks tile the body, none of them has
a level yet, and one of them is the entry.
-/
structure IsPartition (body : List Node) (graph : Graph) : Prop where
  tiled : graph.tiles body = true
  fresh : graph.IsFresh
  entered : graph.blocks.contains graph.entry = true

/-- Edges make a partition of blocks that tile a body. -/
theorem isPartition_ofEdges
    {first : Node} {later : List Node} {pieces : List (Nat × Nat)}
    {blocks : List Block}
    (tiled : tilesFrom (first :: later) 0 blocks = true)
    (ascending : blocks.Pairwise (fun earlier later => earlier.lo < later.lo))
    (areBlocks : List.Forall₂ (IsBlockOf (first :: later)) pieces blocks)
    (edges : List (Nat × Nat)) :
    IsPartition (first :: later)
      (edges.foldl (fun graph edge => graph.addEdge edge.1 edge.2)
        { entry := first.lo
          blocks :=
            Table.ofList (blocks.map (fun block => (block.lo, block))) }) := by
  obtain ⟨sameEntry, sameSkewed, sameLevels, samePresent⟩ := foldl_addEdge
    { entry := first.lo
      blocks :=
        Table.ofList (blocks.map (fun block => (block.lo, block))) } edges
  have values := values_ofList_blocks ascending
  refine ⟨?_, ⟨?_, sameSkewed⟩, ?_⟩
  · rw [tiles, ← tiled]
    apply tilesFrom_congr rfl
    rw [map_extent_foldl_addEdge, values]
  · intro address
    rw [sameLevels]
    cases known : levelAt _ address with
    | none => rfl
    | some level =>
        obtain ⟨block, found, isKnown⟩ := levelAt_eq_some_iff.mp known
        have member : block ∈ blocks := by
          rw [← values]
          exact Table.mem_values_iff.mpr ⟨address, found⟩
        obtain ⟨span, -, isBlock⟩ := exists_of_mem_right areBlocks member
        rw [isBlock.level_eq] at isKnown
        cases isKnown
  · rw [samePresent, sameEntry]
    cases blocks with
    | nil => simp [tilesFrom] at tiled
    | cons head others =>
        obtain ⟨starts, -, headLo, -⟩ := tilesFrom_cons_iff.mp tiled
        have same : head.lo = first.lo := by
          simpa [starts] using headLo.symm
        have found :
            (Table.ofList
              ((head :: others).map (fun block => (block.lo, block)))).get?
            first.lo = some head := by
          rw [Table.get?_eq_some_iff,
            Table.entries_ofList (List.pairwise_map.mpr ascending)]
          simp [same]
        simp only [Table.contains, found, Option.isSome_some]

/--
The spans between the leaders of a body go from its one end to the other.
-/
theorem consecutive_leaders (first : Node) (later : List Node) :
    Consecutive 0 (first :: later).length
      (spans (first :: later).length (leaders (first :: later))) := by
  obtain ⟨rest, leads⟩ := leaders_cons first later
  rw [leads]
  apply consecutive_spans
  · rw [← leads]
    exact leadersFrom_ascending _ _ _ _
  · intro leader member
    rw [← leads] at member
    have bounds := leadersFrom_within member
    omega

theorem delivers_partition
    {body : List Node}
    (nonempty : body ≠ [])
    (ascending : body.Pairwise (fun earlier later => earlier.lo < later.lo))
    (procedure : Nat) :
    Delivers (partition body procedure).outcome (IsPartition body)
      (fun fault => fault = .deltaOverflow) := by
  obtain ⟨first, later, rfl⟩ := List.exists_cons_of_ne_nil nonempty
  have consecutive := consecutive_leaders first later
  simp only [partition, Traced.outcome_bind, Traced.outcome_ofExcept,
    Traced.outcome_mapM]
  have built : Delivers
      ((spans (first :: later).length (leaders (first :: later))).mapM
        (blockOf (first :: later)))
      (List.Forall₂ (IsBlockOf (first :: later)) (spans (first :: later).length
        (leaders (first :: later))))
          (fun fault => fault = .deltaOverflow) := by
    apply Delivers.mapM
    intro span member
    obtain ⟨proper, within⟩ := consecutive.within.2 span member
    exact delivers_blockOf proper within
  apply built.bind
  intro blocks areBlocks
  have tiled := tilesFrom_of_consecutive consecutive areBlocks
  have blocksAscending := ascending_of_tilesFrom ascending tiled
  rw [values_ofList_blocks blocksAscending]
  have found : Delivers (blocks.mapM (fun block =>
      (exits (first :: later) procedure block).outcome)) (fun _ => True)
      (fun fault => fault = .deltaOverflow) := by
    have each : ∀ block ∈ blocks,
        Delivers (exits (first :: later) procedure block).outcome
        (fun _ => True) (fun fault => fault = .deltaOverflow) := by
      intro block member
      obtain ⟨-, proper, within, -⟩ :=
        (within_of_tilesFrom tiled).2 block member
      exact (delivers_exits procedure proper within).mono (fun _ _ => trivial)
        (fun _ impossible => impossible.elim)
    exact (Delivers.mapM each).weaken (fun _ _ => trivial)
  apply found.bind
  intro edges _
  have partitioned :=
    isPartition_ofEdges tiled blocksAscending areBlocks edges.flatten
  rw [if_pos partitioned.tiled]
  exact partitioned

end Graph

end ProcRecovery
