import Mathlib.Algebra.Ring.Int.Defs
import ProcRecovery.Idiom.Collapse
import ProcRecovery.Proofs.Graph.Accounting

/-!
# Maximal blocks

A block has a single entry and is as long as it can be.  Its start is always
justified: the node there is the first of the body, an epilogue, the
destination of a branch or jump, or comes after a node that does not just fall
through; and all such positions are starts of blocks.  Everything between two
starts is one block, whose movement of the stack pointer is the sum of the
movements of its nodes.

The sum is built up node by node in a signed word.  A partition comes to its
end exactly if the movements from the start of a block up to each of its nodes
fit such a word, although a later node may take back what does not fit.
-/

namespace ProcRecovery

/-- The values fit a signed word when they are added up one after the other. -/
def FitsAlong (values : List Int) : Prop :=
  ∀ count, FitsSigned (values.take count).sum

theorem foldlM_signedOr_eq_ok_iff
    {fault : Fault} {values : List Int} {start total : Int}
    (fits : FitsSigned start) :
    values.foldlM (fun total value => signedOr fault (total + value)) start =
      .ok total ↔
      (∀ count, FitsSigned (start + (values.take count).sum)) ∧
        start + values.sum = total := by
  induction values generalizing start with
  | nil =>
      simp only [List.foldlM_nil, List.take_nil, List.sum_nil, Int.add_zero,
        fits, implies_true, true_and]
      exact ⟨Except.ok.inj, congrArg Except.ok⟩
  | cons value later hypothesis =>
      simp only [List.foldlM_cons, List.sum_cons, ← Int.add_assoc]
      constructor
      · intro finished
        obtain ⟨middle, isMiddle, rest⟩ := bind_eq_ok_iff.mp finished
        obtain ⟨fitsNext, rfl⟩ := signedOr_eq_ok_iff.mp isMiddle
        obtain ⟨fitsLater, isTotal⟩ := (hypothesis fitsNext).mp rest
        refine ⟨?_, isTotal⟩
        rintro (_ | count)
        · simpa using fits
        · rw [List.take_succ_cons, List.sum_cons, ← Int.add_assoc]
          exact fitsLater count
      · rintro ⟨fitsAll, isTotal⟩
        have fitsNext : FitsSigned (start + value) := by
          simpa using fitsAll 1
        rw [signedOr_eq_ok_iff.mpr ⟨fitsNext, rfl⟩, ok_bind,
          hypothesis fitsNext]
        refine ⟨fun count => ?_, isTotal⟩
        have fitsCount := fitsAll (count + 1)
        rwa [List.take_succ_cons, List.sum_cons, ← Int.add_assoc] at fitsCount

/-- A sum in signed words is the sum, if the values fit along the way. -/
theorem signedSum_eq_ok_iff {fault : Fault} {values : List Int} {total : Int} :
    signedSum fault values = .ok total ↔
    FitsAlong values ∧ values.sum = total := by
  have zero : FitsSigned 0 := by decide
  simp only [signedSum, foldlM_signedOr_eq_ok_iff zero, Int.zero_add,
    FitsAlong]

/-- What a block covers in its body, and how far it moves the stack pointer. -/
def Block.measures (block : Block) : Nat × Nat × Int :=
  (block.start, block.stop, block.delta)

namespace Graph

/-! ## Where blocks start -/

section Starts

variable {body : List Node}

/-- A branch or jump of some node of a body goes to an address. -/
def IsJumpTarget (body : List Node) (address : Nat) : Prop :=
  ∃ node ∈ body, ∃ way ∈ node.flow,
    (way.kind = .conditional ∨ way.kind = .unconditional) ∧
    way.destination = some address

/--
There is a reason for a block to start at a position of a body: the node there
is the first one, an epilogue or one that control jumps to, or the node before
it does not just fall through.
-/
def StartsBlock (body : List Node) (position : Nat) : Prop :=
  ∃ node, body[position]? = some node ∧
    (position = 0 ∨ node.op = some .epilogue ∨ IsJumpTarget body node.lo ∨
      ∃ before previous, position = before + 1 ∧
      body[before]? = some previous ∧
        previous.fallsThroughOnly = false)

theorem mem_jumpTargets_iff {address : Nat} :
    address ∈ jumpTargets body ↔ IsJumpTarget body address := by
  simp only [jumpTargets, IsJumpTarget, List.mem_flatMap, List.mem_filterMap]
  constructor
  · rintro ⟨node, member, way, isWay, leads⟩
    refine ⟨node, member, way, isWay, ?_⟩
    split at leads
    next jumps => exact ⟨.inl jumps, leads⟩
    next jumps => exact ⟨.inr jumps, leads⟩
    next => cases leads
    next => cases leads
  · rintro ⟨node, member, way, isWay, jumps | jumps, leads⟩
    · exact ⟨node, member, way, isWay, by rw [jumps]; exact leads⟩
    · exact ⟨node, member, way, isWay, by rw [jumps]; exact leads⟩

theorem mem_leadersFrom_cons
    {targets : List Nat} {position leader : Nat} {fellThrough : Bool}
    {first : Node} {later : List Node} :
    leader ∈ leadersFrom targets position fellThrough (first :: later) ↔
      leader = position ∧
          (fellThrough = false ∨ first.op = some .epilogue ∨
            first.lo ∈ targets) ∨
        leader ∈ leadersFrom targets (position + 1) first.fallsThroughOnly
          later := by
  have here :
      (!fellThrough || first.op = some .epilogue ||
        targets.contains first.lo) = true ↔
      fellThrough = false ∨
        first.op = some .epilogue ∨ first.lo ∈ targets := by
    simp [or_assoc]
  rw [leadersFrom, ← here]
  split
  next leads => rw [List.mem_cons, and_iff_left leads]
  next follows => rw [or_iff_right (fun leads => follows leads.2)]

/--
A position is a leader for the sake of its own node or of the node before it.
The node before the first one is known only by whether it falls through.
-/
theorem mem_leadersFrom_iff
    {targets : List Nat} {position leader : Nat} {fellThrough : Bool}
    {nodes : List Node} :
    leader ∈ leadersFrom targets position fellThrough nodes ↔
      ∃ index node, leader = position + index ∧ nodes[index]? = some node ∧
        (index = 0 ∧ fellThrough = false ∨ node.op = some .epilogue ∨
          node.lo ∈ targets ∨
          ∃ before previous, index = before + 1 ∧
            nodes[before]? = some previous ∧
            previous.fallsThroughOnly = false) := by
  induction nodes generalizing position fellThrough with
  | nil => simp [leadersFrom]
  | cons first later hypothesis =>
      rw [mem_leadersFrom_cons, hypothesis]
      constructor
      · rintro (⟨rfl, reason⟩ | ⟨index, node, rfl, isNode, reason⟩)
        · refine ⟨0, first, rfl, rfl, ?_⟩
          rcases reason with opened | isEpilogue | isTarget
          · exact .inl ⟨rfl, opened⟩
          · exact .inr (.inl isEpilogue)
          · exact .inr (.inr (.inl isTarget))
        · refine ⟨index + 1, node, by omega, isNode, .inr ?_⟩
          rcases reason with ⟨rfl, bends⟩ | isEpilogue | isTarget |
            ⟨before, previous, rfl, isPrevious, bends⟩
          · exact .inr (.inr ⟨0, first, rfl, rfl, bends⟩)
          · exact .inl isEpilogue
          · exact .inr (.inl isTarget)
          · exact .inr (.inr ⟨before + 1, previous, rfl, isPrevious, bends⟩)
      · rintro ⟨index, node, rfl, isNode, reason⟩
        cases index with
        | zero =>
            cases isNode
            refine .inl ⟨rfl, ?_⟩
            rcases reason with
              ⟨-, opened⟩ | isEpilogue | isTarget | ⟨before, -, impossible, -⟩
            · exact .inl opened
            · exact .inr (.inl isEpilogue)
            · exact .inr (.inr isTarget)
            · cases impossible
        | succ index =>
            refine .inr ⟨index, node, by omega, isNode, ?_⟩
            rcases reason with ⟨impossible, -⟩ | isEpilogue | isTarget |
              ⟨before, previous, same, isPrevious, bends⟩
            · cases impossible
            · exact .inr (.inl isEpilogue)
            · exact .inr (.inr (.inl isTarget))
            · cases same
              cases index with
              | zero =>
                  cases isPrevious
                  exact .inl ⟨rfl, bends⟩
              | succ index =>
                  exact .inr
                    (.inr (.inr ⟨index, previous, rfl, isPrevious, bends⟩))

/--
The leaders of a body are the positions at which there is a reason for a block
to start.
-/
theorem mem_leaders_iff
    {position : Nat} :
    position ∈ leaders body ↔ StartsBlock body position := by
  simp only [leaders, mem_leadersFrom_iff, Nat.zero_add, mem_jumpTargets_iff,
    StartsBlock]
  constructor
  · rintro ⟨index, node, rfl, isNode, reason⟩
    exact ⟨node, isNode, reason.imp_left And.left⟩
  · rintro ⟨node, isNode, reason⟩
    exact ⟨position, node, rfl, isNode,
      reason.imp_left (fun isFirst => ⟨isFirst, trivial⟩)⟩

end Starts

/-! ## Movements of blocks -/

section Movements

variable {body : List Node}

/--
The movement of the stack pointer over the nodes from one position of a body to
another.
-/
def movementBetween (body : List Node) (start stop : Nat) : Int :=
  (((body.drop start).take (stop - start)).map Node.stackDelta).sum

/--
The movement of the stack pointer from the start of any block up to any of its
nodes fits a signed word.
-/
def AddsUp (body : List Node) : Prop :=
  ∀ start stop, StartsBlock body start → start ≤ stop → stop ≤ body.length →
    (∀ position, start < position → position < stop →
      ¬ StartsBlock body position) →
    FitsSigned (movementBetween body start stop)

/--
The movements of the first nodes of a stretch add up to the movement over them.
-/
theorem take_stretch
    {start stop count : Nat} :
    ((((body.drop start).take (stop - start)).map Node.stackDelta).take
      count).sum =
      movementBetween body start (start + min count (stop - start)) := by
  rw [movementBetween, ← List.map_take, List.take_take,
    Nat.add_sub_cancel_left]

/-- Spans are not empty and end within the body. -/
theorem proper_of_mem_spans
    {span : Nat × Nat}
    (isSpan : span ∈ spans body.length (leaders body)) :
    span.1 < span.2 ∧ span.2 ≤ body.length := by
  cases body with
  | nil => cases isSpan
  | cons first later =>
      exact (consecutive_leaders first later).within.2 span isSpan

/-- A body adds up if the movements along each of its spans do. -/
theorem addsUp_iff :
    AddsUp body ↔ ∀ span ∈ spans body.length (leaders body),
      FitsAlong
        (((body.drop span.1).take (span.2 - span.1)).map Node.stackDelta) := by
  have ascending := leadersFrom_ascending (jumpTargets body) 0 false body
  constructor
  · intro addsUp span isSpan count
    obtain ⟨starts, ends, apart⟩ := mem_spans ascending isSpan
    obtain ⟨proper, within⟩ := proper_of_mem_spans isSpan
    rw [take_stretch]
    refine addsUp _ _ (mem_leaders_iff.mp starts) (by omega) (by omega) ?_
    intro position above below isStart
    have bound := apart position (mem_leaders_iff.mpr isStart)
    omega
  · intro fits start stop starts ordered within between
    -- No block starts within the stretch, so it does not go beyond the span
    -- that starts with it.
    have leads : ∃ span ∈ spans body.length (leaders body), span.1 = start :=
      exists_span_of_mem (mem_leaders_iff.mpr starts)
    obtain ⟨span, isSpan, rfl⟩ := leads
    obtain ⟨-, ends, -⟩ := mem_spans ascending isSpan
    have proper := (proper_of_mem_spans isSpan).1
    have inside : stop ≤ span.2 := by
      rcases ends with isLeader | isEnd
      · by_contra beyond
        exact between span.2 proper (by omega) (mem_leaders_iff.mp isLeader)
      · omega
    have upTo := fits span isSpan (stop - span.1)
    rwa [take_stretch, show span.1 + min (stop - span.1) (span.2 - span.1) =
      stop by
      omega] at upTo

end Movements

/-! ## Blocks -/

section Blocks

variable {body : List Node}

/--
The block of a span has the movement over the span, which has been added up.
-/
theorem delta_of_blockOf
    {span : Nat × Nat} {block : Block}
    (isBlock : blockOf body span = .ok block) :
    FitsAlong
      (((body.drop span.1).take (span.2 - span.1)).map Node.stackDelta) ∧
      block.delta = movementBetween body span.1 span.2 := by
  simp only [blockOf] at isBlock
  split at isBlock
  next first last isFirst isLast =>
    obtain ⟨delta, isDelta, same⟩ := bind_eq_ok_iff.mp isBlock
    cases same
    obtain ⟨fits, isSum⟩ := signedSum_eq_ok_iff.mp isDelta
    exact ⟨fits, isSum.symm⟩
  next => cases isBlock

/-- A span whose movements can be added up has a block. -/
theorem exists_blockOf
    {span : Nat × Nat}
    (proper : span.1 < span.2)
    (within : span.2 ≤ body.length)
    (fits :
      FitsAlong
        (((body.drop span.1).take (span.2 - span.1)).map Node.stackDelta)) :
    ∃ block, blockOf body span = .ok block := by
  simp only [blockOf, head?_slice proper, getLast?_slice proper within,
    List.getElem?_eq_getElem (show span.1 < body.length by omega),
    List.getElem?_eq_getElem (show span.2 - 1 < body.length by omega),
    signedSum_eq_ok_iff.mpr ⟨fits, rfl⟩, ok_bind]
  exact ⟨_, rfl⟩

/-- All spans of a body have blocks exactly if the body adds up. -/
theorem addsUp_iff_built :
    AddsUp body ↔
      ∃ blocks, (spans body.length (leaders body)).mapM (blockOf body) =
        .ok blocks := by
  rw [addsUp_iff]
  constructor
  · intro fits
    have each : ∀ span ∈ spans body.length (leaders body),
        Delivers (blockOf body span) (fun _ => True) (fun _ => False) := by
      intro span isSpan
      obtain ⟨proper, within⟩ := proper_of_mem_spans isSpan
      obtain ⟨block, isBlock⟩ :=
        exists_blockOf proper within (fits span isSpan)
      rw [isBlock]
      trivial
    obtain ⟨blocks, built, -⟩ := (Delivers.mapM each).exists_ok
    exact ⟨blocks, built⟩
  · rintro ⟨blocks, built⟩ span isSpan
    obtain ⟨block, -, isBlock⟩ :=
      exists_of_mem_left (mapM_eq_ok_iff.mp built) isSpan
    exact (delta_of_blockOf isBlock).1

/--
A partition joins the blocks of the spans between leaders, if these have
blocks.
-/
theorem outcome_partition
    {first : Node} {later : List Node}
    (ascending :
      (first :: later).Pairwise (fun earlier later => earlier.lo < later.lo))
    (procedure : Nat) :
    (partition (first :: later) procedure).outcome =
      (spans (first :: later).length (leaders (first :: later))).mapM
        (blockOf (first :: later)) >>=
        fun blocks => .ok (joined first.lo (first :: later) blocks) := by
  simp only [partition, Traced.outcome_bind, Traced.outcome_ofExcept]
  cases built : (spans (first :: later).length (leaders (first :: later))).mapM
      (blockOf (first :: later)) with
  | error fault => rfl
  | ok blocks =>
      have areBlocks :=
        (areBareBlocks_of_built built).imp (fun _ _ bare => bare.toIsBlockOf)
      have tiled :=
        tilesFrom_of_consecutive (consecutive_leaders first later) areBlocks
      have blocksAscending := ascending_of_tilesFrom ascending tiled
      have isTiled := (isPartition_ofEdges tiled blocksAscending areBlocks
        (blocks.flatMap (edgesAfter (first :: later)))).tiled
      rw [ok_bind, ok_bind, values_ofList_blocks blocksAscending,
        Traced.mapM_of_forall _ _ (fun _ =>
          exits_eq_of_tilesFrom procedure tiled), ok_bind,
        ← List.flatMap_def, if_pos isTiled]
      rfl

end Blocks

/-! ## Edges -/

/-- No block of a graph has an edge twice. -/
def HasSingleEdges (graph : Graph) : Prop :=
  ∀ block ∈ graph.blocks.values, block.successors.Nodup ∧
    block.predecessors.Nodup

theorem nodup_appendNew
    {α : Type} [DecidableEq α] {items : List α}
    (item : α)
    (nodup : items.Nodup) :
    (appendNew items item).Nodup := by
  unfold appendNew
  split
  next => exact nodup
  next isNew =>
    rw [List.nodup_append]
    refine ⟨nodup, by simp, ?_⟩
    rintro other old fresh isFresh rfl
    rw [List.mem_singleton.mp isFresh] at old
    exact isNew old

/--
What holds of all blocks still does after some of them have been changed in a
way that keeps it.
-/
theorem forall_mem_values_modify
    {blocks : Table Nat Block} {holds : Block → Prop} {change : Block → Block}
    (all : ∀ block ∈ blocks.values, holds block)
    (keeps : ∀ block, holds block → holds (change block))
    (key : Nat) :
    ∀ block ∈ (blocks.modify key change).values, holds block := by
  intro block member
  obtain ⟨address, found⟩ := Table.mem_values_iff.mp member
  rw [Table.get?_modify] at found
  split at found
  next =>
    obtain ⟨before, isBefore, rfl⟩ := Option.map_eq_some_iff.mp found
    exact keeps before
      (all before (Table.mem_values_iff.mpr ⟨address, isBefore⟩))
  next => exact all block (Table.mem_values_iff.mpr ⟨address, found⟩)

theorem HasSingleEdges.addEdge
    {graph : Graph}
    (single : graph.HasSingleEdges)
    (source target : Nat) :
    (graph.addEdge source target).HasSingleEdges := by
  apply forall_mem_values_modify
  · apply forall_mem_values_modify single
    rintro block ⟨successors, predecessors⟩
    exact ⟨nodup_appendNew target successors, predecessors⟩
  · rintro block ⟨successors, predecessors⟩
    exact ⟨successors, nodup_appendNew source predecessors⟩

theorem hasSingleEdges_foldl_addEdge
    {graph : Graph}
    (single : graph.HasSingleEdges)
    (edges : List (Nat × Nat)) :
    (edges.foldl (fun graph edge => graph.addEdge edge.1 edge.2)
      graph).HasSingleEdges := by
  induction edges generalizing graph with
  | nil => exact single
  | cons edge later hypothesis =>
      exact hypothesis (single.addEdge edge.1 edge.2)

/-! ## Maximal divisions -/

/--
The graph divides the body into single-entry blocks that are as long as they
can be.
-/
structure IsMaximalDivision (body : List Node) (graph : Graph) : Prop where
  /--
  The blocks, in the order of their addresses, follow one another through the
  body.
  -/
  tiled : graph.tiles body = true
  keyed : ∀ address block, graph.blocks.get? address = some block →
    block.lo = address
  /-- A block starts where there is a reason for it, and nowhere else. -/
  starts : ∀ position,
    (∃ block ∈ graph.blocks.values, block.start = position) ↔
    StartsBlock body position
  /-- No branch or jump goes into the middle of a block. -/
  entered : ∀ block ∈ graph.blocks.values, ∀ position node,
    block.start < position →
    position < block.stop → body[position]? = some node →
    ¬ IsJumpTarget body node.lo
  /-- Every node but the last of a block just falls through. -/
  inner : ∀ block ∈ graph.blocks.values, ∀ position node,
    block.start ≤ position →
    position + 1 < block.stop → body[position]? = some node →
    node.fallsThroughOnly = true
  delta_eq : ∀ block ∈ graph.blocks.values,
    block.delta = movementBetween body block.start block.stop
  /-- An edge is known at both of its ends. -/
  joint : ∀ source target,
    (∃ block, graph.blocks.get? source = some block ∧
      target ∈ block.successors) ↔
      ∃ block, graph.blocks.get? target = some block ∧
      source ∈ block.predecessors
  single : graph.HasSingleEdges

section Maximal

variable {body : List Node}

/-- The block of a span measures what the span does. -/
theorem measures_of_blockOf
    {span : Nat × Nat}
    (isSpan : span ∈ spans body.length (leaders body))
    {block : Block}
    (isBlock : blockOf body span = .ok block) :
    block.measures = (span.1, span.2, movementBetween body span.1 span.2) := by
  obtain ⟨proper, within⟩ := proper_of_mem_spans isSpan
  have extent := (delivers_blockOf proper within).of_ok isBlock
  rw [Block.measures, extent.start_eq, extent.stop_eq,
    (delta_of_blockOf isBlock).2]

theorem map_measures_of_built
    {blocks : List Block}
    (built : (spans body.length (leaders body)).mapM (blockOf body) =
      .ok blocks) :
    blocks.map Block.measures = (spans body.length (leaders body)).map
      (fun span => (span.1, span.2, movementBetween body span.1 span.2)) := by
  have each : ∀ span ∈ spans body.length (leaders body), ∀ block,
      blockOf body span = .ok block →
      block.measures = (span.1, span.2, movementBetween body span.1 span.2) :=
    fun _ isSpan _ isBlock => measures_of_blockOf isSpan isBlock
  generalize spans body.length (leaders body) = pieces at built each ⊢
  have paired := mapM_eq_ok_iff.mp built
  clear built
  induction paired with
  | nil => rfl
  | cons isBlock _ hypothesis =>
      rw [List.map_cons, List.map_cons, each _ List.mem_cons_self _ isBlock,
        hypothesis (fun span member =>
          each span (List.mem_cons_of_mem _ member))]

theorem hasSingleEdges_joined
    {entry : Nat} {blocks : List Block}
    (ascending : blocks.Pairwise (fun earlier later => earlier.lo < later.lo))
    (bare : ∀ block ∈ blocks, block.successors = [] ∧ block.predecessors = []) :
    (joined entry body blocks).HasSingleEdges := by
  apply hasSingleEdges_foldl_addEdge
  intro block member
  rw [values_ofList_blocks ascending] at member
  rw [(bare block member).1, (bare block member).2]
  exact ⟨List.nodup_nil, List.nodup_nil⟩

/--
A block of a division that starts within another one starts where that one
does.
-/
theorem IsDivision.start_eq
    {graph : Graph}
    (division : IsDivision body graph)
    {first second : Block}
    (isFirst : first ∈ graph.blocks.values)
    (isSecond : second ∈ graph.blocks.values)
    (atLeast : first.start ≤ second.start)
    (below : second.start < first.stop) :
    first.start = second.start := by
  have proper := ((within_of_tilesFrom division.tiled).2 second isSecond).2.1
  rw [eq_of_tilesFrom division.tiled isFirst isSecond atLeast below
    (Nat.le_refl _) proper]

theorem IsDivision.joint
    {graph : Graph}
    (division : IsDivision body graph)
    (source target : Nat) :
    (∃ block, graph.blocks.get? source = some block ∧
      target ∈ block.successors) ↔
      ∃ block, graph.blocks.get? target = some block ∧
        source ∈ block.predecessors := by
  constructor
  · rintro ⟨block, found, leads⟩
    have present := division.closed source block found target leads
    obtain ⟨other, isOther⟩ := Option.isSome_iff_exists.mp present
    exact ⟨other, isOther,
      (division.mem_predecessors target other isOther source).mpr ⟨block,
        found, leads⟩⟩
  · rintro ⟨block, found, comes⟩
    exact (division.mem_predecessors target block found source).mp comes

/-- The spans of a division whose blocks measure what they do. -/
theorem measures_of_partition
    {graph : Graph}
    (laidOut : IsLaidOut body)
    (nonempty : body ≠ [])
    {procedure : Nat}
    (finished : (partition body procedure).outcome = .ok graph) :
    graph.HasSingleEdges ∧
      graph.blocks.values.map Block.measures =
        (spans body.length (leaders body)).map
        (fun span =>
          (span.1, span.2, movementBetween body span.1 span.2)) := by
  obtain ⟨first, later, rfl⟩ := List.exists_cons_of_ne_nil nonempty
  rw [outcome_partition laidOut.ascending] at finished
  obtain ⟨blocks, built, same⟩ := bind_eq_ok_iff.mp finished
  cases same
  have areBlocks := areBareBlocks_of_built built
  have tiled := tilesFrom_of_consecutive (consecutive_leaders first later)
    (areBlocks.imp (fun _ _ bare => bare.toIsBlockOf))
  have ascending := ascending_of_tilesFrom laidOut.ascending tiled
  constructor
  · apply hasSingleEdges_joined ascending
    intro block member
    obtain ⟨span, -, bare⟩ := exists_of_mem_right areBlocks member
    exact ⟨bare.successors_eq, bare.predecessors_eq⟩
  · rw [joined, ofEdges, map_foldl_addEdge (fun _ _ _ => rfl),
      values_ofList_blocks ascending, map_measures_of_built built]

/-- A partition that comes to its end has made a maximal division. -/
theorem isMaximalDivision_of_partition
    (laidOut : IsLaidOut body)
    (nonempty : body ≠ [])
    {procedure : Nat} {graph : Graph}
    (finished : (partition body procedure).outcome = .ok graph) :
    IsMaximalDivision body graph := by
  have division := isDivision_of_partition laidOut ⟨rfl, finished⟩ nonempty
  obtain ⟨single, sameMeasures⟩ :=
    measures_of_partition laidOut nonempty finished
  have starts :
      ∀ position, (∃ block ∈ graph.blocks.values, block.start = position) ↔
      StartsBlock body position := by
    intro position
    rw [← mem_leaders_iff]
    constructor
    · rintro ⟨block, member, rfl⟩
      have measured := List.mem_map_of_mem (f := Block.measures) member
      rw [sameMeasures] at measured
      obtain ⟨span, isSpan, same⟩ := List.mem_map.mp measured
      have sameStart : span.1 = block.start := congrArg Prod.fst same
      rw [← sameStart]
      exact (mem_spans (leadersFrom_ascending _ _ _ _) isSpan).1
    · intro isLeader
      have leads : ∃ span ∈ spans body.length (leaders body),
          span.1 = position :=
        exists_span_of_mem isLeader
      obtain ⟨span, isSpan, rfl⟩ := leads
      have measured := List.mem_map_of_mem
        (f := fun span =>
          (span.1, span.2, movementBetween body span.1 span.2)) isSpan
      rw [← sameMeasures] at measured
      obtain ⟨block, member, same⟩ := List.mem_map.mp measured
      exact ⟨block, member, congrArg Prod.fst same⟩
  refine ⟨division.tiled, division.keyed, starts, ?_, ?_, ?_, division.joint,
    single⟩
  · intro block member position node above below isNode isTarget
    -- Another block would start there, within this one.
    obtain ⟨other, isOther, rfl⟩ :=
      (starts position).mpr ⟨node, isNode, .inr (.inr (.inl isTarget))⟩
    have same := division.start_eq member isOther (Nat.le_of_lt above) below
    omega
  · intro block member
    obtain ⟨address, found⟩ := Table.mem_values_iff.mp member
    exact division.inner address block found
  · intro block member
    have measured := List.mem_map_of_mem (f := Block.measures) member
    rw [sameMeasures] at measured
    obtain ⟨span, -, same⟩ := List.mem_map.mp measured
    simp only [Block.measures, Prod.mk.injEq] at same
    obtain ⟨sameStart, sameStop, sameDelta⟩ := same
    rw [← sameStart, ← sameStop, sameDelta]

/--
A partition of a laid-out body makes a maximal division, unless movements of
the stack pointer within a block do not fit a signed word; then it halts.
-/
theorem partition_divides_maximally
    (laidOut : IsLaidOut body)
    (nonempty : body ≠ [])
    (procedure : Nat) :
    (AddsUp body →
      ∃ graph, (partition body procedure).outcome = .ok graph ∧
        IsMaximalDivision body graph) ∧
    (¬ AddsUp body → (partition body procedure).outcome =
      .error .deltaOverflow) := by
  have delivered := delivers_partition nonempty laidOut.ascending procedure
  have finishes : AddsUp body ↔
      ∃ graph, (partition body procedure).outcome = .ok graph := by
    obtain ⟨first, later, rfl⟩ := List.exists_cons_of_ne_nil nonempty
    rw [outcome_partition laidOut.ascending, addsUp_iff_built]
    constructor
    · rintro ⟨blocks, built⟩
      exact ⟨_, bind_eq_ok_iff.mpr ⟨blocks, built, rfl⟩⟩
    · rintro ⟨graph, finished⟩
      obtain ⟨blocks, built, -⟩ := bind_eq_ok_iff.mp finished
      exact ⟨blocks, built⟩
  constructor
  · intro addsUp
    obtain ⟨graph, finished⟩ := finishes.mp addsUp
    exact ⟨graph, finished,
      isMaximalDivision_of_partition laidOut nonempty finished⟩
  · intro outgrown
    cases ended : (partition body procedure).outcome with
    | ok graph => exact absurd (finishes.mpr ⟨graph, ended⟩) outgrown
    | error fault => rw [delivered.of_error ended]

/--
A push before a loop that branches back to its own start, and what takes the
push away.
-/
def loopingBody : List Node :=
  [ { op := none
      first :=
        ⟨0x9000, 0x9004, .mov, .word, [.immediate 5, .autoDecrement .sp],
          by decide⟩
      rest := []
      stackDelta := -2 },
    .raw ⟨0x9004, 0x9006, .tst, .word, [.register ⟨1⟩], by decide⟩,
    .raw ⟨0x9006, 0x9008, .branch .equal, .word, [.target 0x9004], by decide⟩,
    { op := some (.stackAdjust 2)
      first :=
        ⟨0x9008, 0x900c, .add, .word, [.immediate 2, .register .sp], by decide⟩
      rest := []
      stackDelta := 2 },
    .raw ⟨0x900c, 0x900e, .rts, .word, [.register .pc], by decide⟩ ]

theorem partition_divides_maximally_loopingBody :
    IsLaidOut loopingBody ∧ loopingBody ≠ [] ∧ AddsUp loopingBody ∧
      ∃ graph, (partition loopingBody 0x9000).outcome = .ok graph ∧
        graph.blocks.values.map Block.measures =
          [(0, 1, -2), (1, 3, 0), (3, 5, 2)] ∧
        IsMaximalDivision loopingBody graph := by
  have laidOut : IsLaidOut loopingBody := ⟨by decide, by decide, by decide⟩
  have nonempty : loopingBody ≠ [] := List.cons_ne_nil _ _
  have computed : (partition loopingBody 0x9000).outcome.toOption.map
      (fun graph => graph.blocks.values.map Block.measures) =
        some [(0, 1, -2), (1, 3, 0), (3, 5, 2)] := by
    decide +kernel
  have divides := partition_divides_maximally laidOut nonempty 0x9000
  have addsUp : AddsUp loopingBody := by
    by_contra outgrown
    rw [divides.2 outgrown] at computed
    cases computed
  obtain ⟨graph, finished, maximal⟩ := divides.1 addsUp
  rw [finished] at computed
  exact ⟨laidOut, nonempty, addsUp, graph, finished, Option.some.inj computed,
    maximal⟩

/--
A frame nearly as large as a signed word can hold, a push that goes beyond it,
and an addition that comes back.
-/
def returningCode : List Instruction :=
  [ ⟨0xa000, 0xa002, .mov, .word, [.register .fp, .autoDecrement .sp],
    by decide⟩,
    ⟨0xa002, 0xa004, .mov, .word, [.register .sp, .register .fp], by decide⟩,
    ⟨0xa004, 0xa008, .sub, .word,
      [.immediate 9223372036854775805, .register .sp], by decide⟩,
    ⟨0xa008, 0xa00c, .cmp, .word, [.register .sp, .absolute 0x2100],
      by decide⟩,
    ⟨0xa00c, 0xa00e, .branch .higher, .word, [.target 0xa012], by decide⟩,
    ⟨0xa00e, 0xa010, .sev, .word, [], by decide⟩,
    ⟨0xa010, 0xa012, .trap, .word, [], by decide⟩,
    ⟨0xa012, 0xa016, .mov, .word, [.immediate 1, .autoDecrement .sp],
      by decide⟩,
    ⟨0xa016, 0xa01a, .add, .word, [.immediate 100, .register .sp], by decide⟩ ]

/--
The three nodes are one block, and the sum of their movements fits a signed
word.
-/
theorem not_partition_returningCode :
    ∃ matched body,
      Idiom.matchPrologue { name := "returning" }
          (returningCode.map Node.raw) =
        .ok (some matched) ∧
      (assignDeltas 9223372036854775805 0xa000 matched).outcome = .ok body ∧
      IsLaidOut body ∧ leaders body = [0] ∧
      movementBetween body 0 3 = -9223372036854775709 ∧
      (partition body 0xa000).outcome = .error .deltaOverflow := by
  refine ⟨_, _, rfl, rfl, ⟨?_, ?_, ?_⟩, ?_, ?_, ?_⟩
  all_goals decide +kernel

end Maximal

end Graph

end ProcRecovery
