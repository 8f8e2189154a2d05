import ProcRecovery.Proofs.Graph.Tiling
import ProcRecovery.Proofs.Replay.Run

/-!
# Annotation of blocks

Levels and stacks are written into a body block by block.  A pass over the
blocks of a tiling that rewrites the nodes of one block at a time leaves, in
the end, every block as its own step has left it.  For levels this gives the
level of every node as the level of its block and the stack effects of the
nodes before it.
-/

namespace ProcRecovery

/-! ## Rewriting the nodes of a block -/

/-- A body with other nodes in place of those of a block. -/
def Block.splice (block : Block) (body nodes : List Node) : List Node :=
  body.take block.start ++ nodes ++ body.drop block.stop

namespace Block

variable {block other : Block} {body nodes : List Node}

theorem nodes_eq_drop_take (block : Block) (body : List Node) :
    block.nodes body = (body.take block.stop).drop block.start := by
  rw [nodes, List.drop_take]

theorem length_nodes (within : block.stop ≤ body.length) :
    (block.nodes body).length = block.stop - block.start := by
  rw [nodes, List.length_take, List.length_drop]
  omega

/-- The nodes of a block are decided by the part of the body up to its end. -/
theorem nodes_congr
    {second : List Node} {position : Nat}
    (same : body.take position = second.take position)
    (before : block.stop ≤ position) :
    block.nodes body = block.nodes second := by
  have shorter : ∀ items : List Node,
      items.take block.stop = (items.take position).take block.stop := by
    intro items
    rw [List.take_take, Nat.min_eq_left before]
  rw [nodes_eq_drop_take, nodes_eq_drop_take, shorter body, same,
    ← shorter second]

theorem splice_nodes (proper : block.start ≤ block.stop) :
    block.splice body (block.nodes body) = body := by
  have rejoin : block.nodes body ++ body.drop block.stop =
      body.drop block.start := by
    have later : body.drop block.stop =
        (body.drop block.start).drop (block.stop - block.start) := by
      rw [List.drop_drop]
      congr 1
      omega
    rw [later, nodes, List.take_append_drop]
  rw [splice, List.append_assoc, rejoin, List.take_append_drop]

theorem nodes_splice
    (within : block.stop ≤ body.length)
    (proper : block.start ≤ block.stop)
    (length : nodes.length = block.stop - block.start) :
    block.nodes (block.splice body nodes) = nodes := by
  have before : (body.take block.start).length = block.start := by
    rw [List.length_take]
    omega
  rw [Block.nodes, splice, List.append_assoc, List.drop_left' before, ← length,
    List.take_left]

/-- Nodes after the block stay where they are. -/
theorem drop_splice
    (within : block.stop ≤ body.length)
    (proper : block.start ≤ block.stop)
    (length : nodes.length = block.stop - block.start)
    {position : Nat}
    (after : block.stop ≤ position) :
    (block.splice body nodes).drop position = body.drop position := by
  have front : (body.take block.start ++ nodes).length = block.stop := by
    rw [List.length_append, List.length_take, length]
    omega
  rw [splice, List.drop_append, front, List.drop_drop,
    List.drop_eq_nil_of_le (by omega), List.nil_append]
  congr 1
  omega

/-- Nodes before the block stay where they are. -/
theorem take_splice
    (within : block.start ≤ body.length)
    {position : Nat}
    (before : position ≤ block.start) :
    (block.splice body nodes).take position = body.take position := by
  rw [splice, List.append_assoc, List.take_append_of_le_length, List.take_take,
    Nat.min_eq_left before]
  rw [List.length_take]
  omega

theorem nodes_splice_of_le
    (within : block.stop ≤ body.length)
    (proper : block.start ≤ block.stop)
    (length : nodes.length = block.stop - block.start)
    (after : block.stop ≤ other.start) :
    other.nodes (block.splice body nodes) = other.nodes body := by
  rw [Block.nodes, Block.nodes, drop_splice within proper length after]

theorem map_splice
    {β : Type} {view : Node → β}
    (proper : block.start ≤ block.stop)
    (same : nodes.map view = (block.nodes body).map view) :
    (block.splice body nodes).map view = body.map view := by
  calc (block.splice body nodes).map view
      = (block.splice body (block.nodes body)).map view := by
        simp only [splice, List.map_append, same]
    _ = body.map view := by rw [splice_nodes proper]

end Block

namespace Graph

/-! ## Passes over the blocks of a tiling -/

section Passes

variable {σ : Type} {bodyOf : σ → List Node} {view : Node → Node}
  {step : σ → Block → Except Fault σ}
  {relates : σ → Block → List Node → List Node → Prop} {excuse : Fault → Prop}

/--
A step for a block rewrites the nodes of that block, and only as far as a view
does not show.  It reaches the end of the block, and what has been said of
blocks before can still be said.
-/
structure RewritesOwn
    (bodyOf : σ → List Node)
    (view : Node → Node)
    (reaches : Nat → σ → Prop)
    (relates : σ → Block → List Node → List Node → Prop)
    (block : Block)
    (state next : σ) :
    Prop where
  rewrites : ∃ nodes, bodyOf next = block.splice (bodyOf state) nodes ∧
    nodes.map view = (block.nodes (bodyOf state)).map view ∧
    relates next block (block.nodes (bodyOf state)) nodes
  reaches : reaches block.stop next
  persists : ∀ other before after, relates state other before after →
    relates next other before after

/--
After a pass over the blocks of a tiling, every block is as its own step has
left it.  The induction goes along the blocks: later steps leave the body as it
is up to the end of the first block, and the first step leaves the nodes of
later blocks as they are.
-/
theorem delivers_pass
    (reaches : Nat → σ → Prop)
    {blocks : List Block} {position : Nat} {start : σ} {original : List Node}
    (each : ∀ state block, (bodyOf state).map view = original →
      reaches block.start state → block.start ≤ block.stop →
      block.stop ≤ (bodyOf state).length →
      Delivers (step state block)
        (RewritesOwn bodyOf view reaches relates block state) excuse)
    (keeps : ∀ node, (view node).range = node.range)
    (viewed : (bodyOf start).map view = original)
    (reached : reaches position start)
    (tiled : tilesFrom (bodyOf start) position blocks = true) :
    Delivers (blocks.foldlM step start)
      (fun final => (bodyOf final).map view = original ∧
        (bodyOf final).take position = (bodyOf start).take position ∧
        (∀ block ∈ blocks,
          relates final block (block.nodes (bodyOf start))
            (block.nodes (bodyOf final))) ∧
        ∀ other before after, relates start other before after →
          relates final other before after)
      excuse := by
  induction blocks generalizing position start with
  | nil =>
      refine ⟨viewed, rfl, ?_, fun _ _ _ related => related⟩
      intro block member
      cases member
  | cons first later hypothesis =>
      have bounds := (within_of_tilesFrom tiled).2
      obtain ⟨-, properly, within, -⟩ := bounds first (by simp)
      obtain ⟨starts, proper, -, -, rest⟩ := tilesFrom_cons_iff.mp tiled
      rw [List.foldlM_cons]
      apply (each start first viewed (by rwa [starts]) (by omega) within).bind
      rintro middle
        ⟨⟨nodes, spliced, sameView, related⟩, reachedNext, persists⟩
      have length : nodes.length = first.stop - first.start := by
        have viewedLength := congrArg List.length sameView
        rw [List.length_map, List.length_map, Block.length_nodes within]
          at viewedLength
        exact viewedLength
      have middleViewed : (bodyOf middle).map view = original := by
        rw [spliced, Block.map_splice (by omega) sameView, viewed]
      have sameRanges : (bodyOf middle).map Node.range =
          (bodyOf start).map Node.range :=
        map_range_congr (middleViewed.trans viewed.symm) keeps
      have middleTiled :
        tilesFrom (bodyOf middle) first.stop later = true := by
        rw [tilesFrom_congr sameRanges rfl]
        exact rest
      apply (hypothesis middleViewed reachedNext middleTiled).weaken
      rintro final ⟨finalViewed, unchanged, others, persistsLater⟩
      refine ⟨finalViewed, ?_, ?_, fun other before after held =>
        persistsLater other before after (persists other before after held)⟩
      · have upToFirst : (bodyOf final).take position =
            (bodyOf middle).take position := by
          have shorter := congrArg (List.take position) unchanged
          rw [List.take_take, List.take_take, Nat.min_eq_left (by omega)]
            at shorter
          exact shorter
        rw [upToFirst, spliced, Block.take_splice (by omega) (by omega)]
      · intro block member
        rcases List.mem_cons.mp member with rfl | isLater
        · have own : block.nodes (bodyOf final) = nodes := by
            rw [Block.nodes_congr unchanged (Nat.le_refl _), spliced,
              Block.nodes_splice within (by omega) length]
          rw [own]
          exact persistsLater _ _ _ related
        · have lower := ((within_of_tilesFrom rest).2 block isLater).1
          have untouched : block.nodes (bodyOf middle) =
              block.nodes (bodyOf start) := by
            rw [spliced,
              Block.nodes_splice_of_le within (by omega) length lower]
          rw [← untouched]
          exact others block isLater

end Passes

end Graph

/-! ## Levels of nodes -/

/-- The level after a node with the given stack effect. -/
def Resolution.advance
    (level : Resolution Int)
    (delta : Int) :
    Resolution Int :=
  match level with
  | .known depth => .known (depth + delta)
  | other => other

/--
Every node has the level that follows from the level before the first one and
the stack effects in between.
-/
def RunningLevels : Resolution Int → List Node → Prop
  | _, [] => True
  | level, node :: later =>
    node.stackLevel = level ∧
      RunningLevels (level.advance node.stackDelta) later

/-- The node without its level. -/
def Node.unleveled (node : Node) : Node :=
  { node with stackLevel := .notComputed }

theorem RunningLevels.level_eq
    {depth : Int} {earlier later : List Node} {node : Node}
    (running : RunningLevels (.known depth) (earlier ++ node :: later)) :
    node.stackLevel = .known (depth + deltaSum earlier) := by
  induction earlier generalizing depth with
  | nil =>
      rw [deltaSum_nil, Int.add_zero]
      exact running.1
  | cons first rest hypothesis =>
      rw [hypothesis running.2, deltaSum_cons, Int.add_assoc]

namespace Graph

/-- The level after a node, as long as it fits in a word. -/
def levelAfter?
    (level : Resolution Int)
    (delta : Int) :
    Except Fault (Resolution Int) :=
  match level with
  | .known depth =>
      Resolution.known <$> signedOr .levelOverflow (depth + delta)
  | other => .ok other

theorem delivers_levelAfter (level : Resolution Int) (delta : Int) :
    Delivers (levelAfter? level delta) (fun next => next = level.advance delta)
      (fun fault => fault = .levelOverflow) := by
  cases level with
  | known depth =>
      simp only [levelAfter?, signedOr]
      split
      · exact rfl
      · exact rfl
  | notComputed => exact rfl
  | unrecoverable => exact rfl

theorem annotateNodes_cons
    (level : Resolution Int)
    (node : Node)
    (later : List Node) :
    annotateNodes level (node :: later) = (do
      let next ← levelAfter? level node.stackDelta
      let rest ← annotateNodes next later
      .ok ({ node with stackLevel := level } :: rest)) := by
  cases level <;> rfl

theorem delivers_annotateNodes
    (level : Resolution Int)
    (nodes : List Node) :
    Delivers (annotateNodes level nodes)
      (fun annotated => annotated.map Node.unleveled =
        nodes.map Node.unleveled ∧
        RunningLevels level annotated)
      (fun fault => fault = .levelOverflow) := by
  induction nodes generalizing level with
  | nil => exact ⟨rfl, trivial⟩
  | cons node later hypothesis =>
      rw [annotateNodes_cons]
      have advanced := delivers_levelAfter level node.stackDelta
      apply advanced.bind
      rintro next rfl
      apply (hypothesis (level.advance node.stackDelta)).bind
      rintro rest ⟨same, running⟩
      refine ⟨?_, rfl, running⟩
      rw [List.map_cons, List.map_cons, same]
      rfl

/--
Annotating the levels of a body changes nothing else, and gives the nodes of
every block the levels that follow from the level of the block.
-/
theorem delivers_annotateLevels
    {graph : Graph} {body : List Node}
    (tiled : graph.tiles body = true) :
    Delivers (graph.annotateLevels body)
      (fun leveled => leveled.map Node.unleveled = body.map Node.unleveled ∧
        ∀ block ∈ graph.blocks.values,
          RunningLevels block.level (block.nodes leveled))
      (fun fault => fault = .levelOverflow) := by
  have each : ∀ (state : List Node) (block : Block),
      state.map Node.unleveled = body.map Node.unleveled →
      True → block.start ≤ block.stop → block.stop ≤ state.length →
      Delivers (annotateBlock state block)
        (RewritesOwn id Node.unleveled (fun _ _ => True)
          (fun _ block _ after => RunningLevels block.level after) block state)
        (fun fault => fault = .levelOverflow) := by
    intro state block _ _ proper within
    rw [annotateBlock, Block.nodesIn_of_within proper within, ok_bind]
    apply (delivers_annotateNodes block.level (block.nodes state)).bind
    rintro nodes ⟨same, running⟩
    exact ⟨⟨nodes, rfl, same, running⟩, trivial, fun _ _ _ held => held⟩
  apply (delivers_pass (fun _ _ => True) each (fun _ => rfl) rfl trivial
    tiled).weaken
  rintro leveled ⟨viewed, -, related, -⟩
  exact ⟨viewed, related⟩

/--
Nothing but its levels has changed in a body that has been given its levels.
-/
theorem unleveled_of_annotateLevels
    {graph : Graph} {body leveled : List Node}
    (levels : graph.annotateLevels body = .ok leveled) :
    leveled.map Node.unleveled = body.map Node.unleveled := by
  unfold annotateLevels at levels
  generalize graph.blocks.values = blocks at levels ⊢
  induction blocks generalizing body with
  | nil =>
      cases levels
      rfl
  | cons block later hypothesis =>
      rw [List.foldlM_cons] at levels
      rcases bind_eq_ok_iff.mp levels with ⟨next, annotated, rest⟩
      rcases bind_eq_ok_iff.mp annotated with ⟨own, isOwn, annotated⟩
      rcases Block.nodesIn_eq_ok_iff.mp isOwn with ⟨proper, -, rfl⟩
      rcases bind_eq_ok_iff.mp annotated with ⟨nodes, isNodes, same⟩
      cases same
      have view :=
        ((delivers_annotateNodes block.level (block.nodes body)).of_ok
          isNodes).1
      exact (hypothesis rest).trans (Block.map_splice proper view)

end Graph

end ProcRecovery
