import Mathlib.Order.Lattice.Nat
import ProcRecovery.Proofs.Graph.Levels

/-!
# Propagation in breadth

Pending blocks are expanded oldest first, so propagation is a breadth-first
search.  At any time the pending blocks are sorted by their distance from the
entry, and no block with a level is more than one edge further away than the
block under expansion.  A block without a level is therefore at least that far
away, and the first level that reaches it is that of a shortest walk.  Skews
are found when their source is expanded, so they are reported in the order of
its distance.
-/

namespace ProcRecovery.Graph

/-! ## Distance -/

/-- The number of edges of a shortest walk to a block. -/
noncomputable def distance (graph : Graph) (address : Nat) : Nat :=
  sInf { length | ∃ total, Walk graph length address total }

section Distance

variable {graph : Graph} {length address : Nat} {total : Int}

theorem Walk.distance_le (walk : Walk graph length address total) :
    graph.distance address ≤ length :=
  Nat.sInf_le ⟨total, walk⟩

/--
One of the walks to a reachable block has as many edges as its distance says.
-/
theorem Reachable.exists_walk (reachable : graph.Reachable address) :
    ∃ total, Walk graph (graph.distance address) address total := by
  rcases reachable with ⟨length, total, walk⟩
  exact Nat.sInf_mem
    (s := { length | ∃ total, Walk graph length address total })
    ⟨length, total, walk⟩

/--
A walk that no other one is shorter than is as long as the distance says.
-/
theorem Walk.distance_eq
    (walk : Walk graph length address total)
    (least : ∀ other sum, Walk graph other address sum → length ≤ other) :
    graph.distance address = length := by
  rcases Reachable.exists_walk ⟨length, total, walk⟩ with ⟨sum, shortest⟩
  exact Nat.le_antisymm walk.distance_le (least _ sum shortest)

end Distance

/-! ## The invariant -/

section Invariant

variable {graph : Graph} {procedure expanding source target : Nat}
  {remaining : List Nat} {state : Propagation}

/-- A block of the graph has its movement and its edges throughout. -/
theorem Consistent.exists_block
    (consistent : Consistent graph procedure expanding remaining state)
    {address : Nat} {block : Block}
    (present : graph.blocks.get? address = some block) :
    ∃ current, state.blocks.get? address = some current ∧
      current.unleveled = block.unleveled := by
  have same := consistent.shape address
  rw [present, Option.map_some] at same
  exact Option.map_eq_some_iff.mp same

/-- A block of a propagation is one of the graph, but for its level. -/
theorem Consistent.exists_original
    (consistent : Consistent graph procedure expanding remaining state)
    {address : Nat} {current : Block}
    (present : state.blocks.get? address = some current) :
    ∃ block, graph.blocks.get? address = some block ∧
      block.unleveled = current.unleveled := by
  have same := consistent.shape address
  rw [present, Option.map_some] at same
  exact Option.map_eq_some_iff.mp same.symm

/--
A propagation that searches in breadth, in the course of expanding one of its
blocks.
-/
structure SearchesInBreadth
    (graph : Graph)
    (expanding : Nat)
    (state : Propagation) :
    Prop where
  /-- Levels are those of shortest walks. -/
  shortest : ∀ address level, levelAt state.blocks address = some level →
    Walk graph (graph.distance address) address level
  /--
  No block with a level is more than one edge beyond the block under expansion.
  -/
  near : ∀ address level, levelAt state.blocks address = some level →
    graph.distance address ≤ graph.distance expanding + 1
  ascending : state.pending.pending.Pairwise (fun earlier later =>
    graph.distance earlier ≤ graph.distance later)
  ahead : ∀ address ∈ state.pending.pending,
    graph.distance expanding ≤ graph.distance address
  /-- Skews are found in the order of the distance of their source. -/
  skews : state.skewed.Pairwise (fun earlier later =>
    graph.distance earlier.1 ≤ graph.distance later.1)
  behind : ∀ edge ∈ state.skewed,
    graph.distance edge.1 ≤ graph.distance expanding

/--
A walk ends at a block with a level unless it is longer than those to the block
under expansion.  This is by induction on the walk: its last edge leaves a
block with a level, and if no level has been passed along that edge yet, then
this block is pending or under expansion.
-/
theorem SearchesInBreadth.settled_or_far
    (searches : SearchesInBreadth graph expanding state)
    (consistent : Consistent graph procedure expanding remaining state)
    {length address : Nat} {total : Int}
    (walk : Walk graph length address total) :
    (∃ level, levelAt state.blocks address = some level) ∨
      graph.distance expanding < length := by
  induction walk with
  | entry present => exact .inl ⟨0, consistent.entry⟩
  | @step length source target total block next walk present edge found
    hypothesis =>
      rcases hypothesis with ⟨level, known⟩ | far
      · rcases consistent.exists_block present with ⟨current, isCurrent, same⟩
        rcases consistent.exists_block found with ⟨goal, isGoal, -⟩
        have passes : levelAfter state.blocks source =
            some (level + current.delta) :=
          levelAfter_eq_some_iff.mpr ⟨current, level, isCurrent, known, rfl⟩
        rw [← Block.successors_of_unleveled same] at edge
        have atMost := walk.distance_le
        rcases consistent.complete source current isCurrent _ passes target
          edge
          (Option.isSome_iff_exists.mpr ⟨goal, isGoal⟩) with
          isPending | ⟨rfl, -⟩ | ⟨kept, keeps, -⟩
        · have further := searches.ahead source isPending
          exact .inr (by omega)
        · exact .inr (by omega)
        · exact .inl ⟨kept, keeps⟩
      · exact .inr (by omega)

/--
An edge from a block with a level leads at most one edge further away, to the
block at its end by a walk with the level that is passed on.
-/
theorem SearchesInBreadth.walk_step
    (searches : SearchesInBreadth graph expanding state)
    (consistent : Consistent graph procedure expanding remaining state)
    {block next : Block} {seen : Int}
    (present : state.blocks.get? source = some block)
    (edge : target ∈ block.successors)
    (passes : levelAfter state.blocks source = some seen)
    (found : state.blocks.get? target = some next) :
    Walk graph (graph.distance source + 1) target seen := by
  rcases levelAfter_eq_some_iff.mp passes with
    ⟨sameBlock, level, samePresent, known, sum⟩
  rw [present] at samePresent
  cases samePresent
  rcases consistent.exists_original present with ⟨original, isOriginal, same⟩
  rcases consistent.exists_original found with ⟨goal, isGoal, -⟩
  rw [← Block.successors_of_unleveled same] at edge
  rw [← sum, ← Block.delta_of_unleveled same]
  exact (searches.shortest source level known).step isOriginal edge isGoal

/--
A block that is reached for the first time is one edge further away than the
block that its level comes from.
-/
theorem SearchesInBreadth.distance_eq
    (searches : SearchesInBreadth graph source state)
    (consistent : Consistent graph procedure source remaining state)
    {block next : Block} {seen : Int}
    (present : state.blocks.get? source = some block)
    (edge : target ∈ block.successors)
    (passes : levelAfter state.blocks source = some seen)
    (found : state.blocks.get? target = some next)
    (isOpen : levelAt state.blocks target = none) :
    graph.distance target = graph.distance source + 1 := by
  apply (searches.walk_step consistent present edge passes found).distance_eq
  intro other sum walk
  rcases searches.settled_or_far consistent walk with ⟨level, known⟩ | far
  · rw [isOpen] at known
    cases known
  · exact far

/-! ## One edge -/

theorem SearchesInBreadth.visit_settled
    (searches : SearchesInBreadth graph source state)
    (consistent : Consistent graph procedure source remaining state)
    {block next : Block} {seen : Int}
    (present : state.blocks.get? source = some block)
    (edge : target ∈ block.successors)
    (passes : levelAfter state.blocks source = some seen)
    (found : state.blocks.get? target = some next)
    (isOpen : levelAt state.blocks target = none) :
    SearchesInBreadth graph source
      { state with
        blocks := state.blocks.modify target (Block.settle seen)
        pending := state.pending.push target
        trail := state.trail ++ [.settled target seen] } := by
  have further :=
    searches.distance_eq consistent present edge passes found isOpen
  have level_eq := levelAt_modify_settle found seen
  refine
    { shortest := ?_
      near := ?_
      ascending := ?_
      ahead := ?_
      skews := searches.skews
      behind := searches.behind }
  · intro address level known
    rw [level_eq] at known
    split at known
    next isTarget =>
      cases known
      rw [isTarget, further]
      exact searches.walk_step consistent present edge passes found
    next => exact searches.shortest address level known
  · intro address level known
    rw [level_eq] at known
    split at known
    next isTarget => rw [isTarget, further]
    next => exact searches.near address level known
  · -- all that is pending has a level, so the new block is not nearer than it
    dsimp only
    rw [Worklist.pending_push]
    split
    next => exact searches.ascending
    next =>
      apply List.pairwise_append.mpr
      refine ⟨searches.ascending, List.pairwise_singleton _ _, ?_⟩
      intro earlier isPending later isLast
      rw [List.mem_singleton.mp isLast, further]
      rcases consistent.pending earlier isPending with ⟨level, known⟩
      exact searches.near earlier level known
  · intro address isPending
    rcases Worklist.mem_pending_push.mp isPending with earlier | isTarget
    · exact searches.ahead address earlier
    · rw [isTarget, further]
      exact Nat.le_succ _

theorem SearchesInBreadth.visit_skewed
    (searches : SearchesInBreadth graph source state)
    (kept seen : Int) :
    SearchesInBreadth graph source
      { state with
        skewed := state.skewed ++ [(source, target)]
        trail := state.trail ++ [.skewed source target kept seen] } := by
  refine { searches with skews := ?_, behind := ?_ }
  · apply List.pairwise_append.mpr
    refine ⟨searches.skews, List.pairwise_singleton _ _, ?_⟩
    intro earlier isEarlier later isLast
    rw [List.mem_singleton.mp isLast]
    exact searches.behind earlier isEarlier
  · rw [List.forall_mem_append]
    refine ⟨searches.behind, ?_⟩
    simp

/-- Passing a level along an edge keeps to breadth. -/
theorem SearchesInBreadth.visit
    (searches : SearchesInBreadth graph source state)
    (consistent : Consistent graph procedure source remaining state)
    {block : Block} {seen : Int}
    (present : state.blocks.get? source = some block)
    (edge : target ∈ block.successors)
    (passes : levelAfter state.blocks source = some seen) :
    SearchesInBreadth graph source (state.visit source seen target) := by
  rcases state.visit_cases source seen target with
    ⟨unchanged, -⟩ | ⟨kept, -, -, -, skews⟩ | ⟨next, found, isOpen, settles⟩
  · rw [unchanged]
    exact searches
  · rw [skews]
    exact searches.visit_skewed kept seen
  · rw [settles]
    exact searches.visit_settled consistent present edge passes found isOpen

/-! ## From one edge to a whole run -/

theorem SearchesInBreadth.foldl_visit
    (searches : SearchesInBreadth graph source state)
    (consistent : Consistent graph procedure source remaining state)
    {block : Block} {seen : Int}
    (present : state.blocks.get? source = some block)
    (edges : ∀ target ∈ remaining, target ∈ block.successors)
    (passes : levelAfter state.blocks source = some seen) :
    SearchesInBreadth graph source
      (remaining.foldl (Propagation.visit source seen) state) := by
  induction remaining generalizing state block with
  | nil => exact searches
  | cons target later hypothesis =>
      have grows := state.settles_visit source seen target
      have edge := edges target List.mem_cons_self
      rcases grows.block_eq' present with ⟨nextBlock, nextPresent, same⟩
      rw [List.foldl_cons]
      apply hypothesis (searches.visit consistent present edge passes)
        (consistent.visit present edge passes) nextPresent
      · intro other member
        rw [Block.successors_of_unleveled same]
        exact edges other (List.mem_cons_of_mem target member)
      · exact grows.levelAfter passes

/-- The oldest pending block is the nearest one, so it can be expanded next. -/
theorem SearchesInBreadth.pop
    (searches : SearchesInBreadth graph expanding state)
    {rest : Worklist Nat}
    (popped : state.pending.pending = source :: rest.pending) :
    SearchesInBreadth graph source { state with pending := rest } := by
  have ascending := searches.ascending
  have ahead :=
    searches.ahead source (by rw [popped]; exact List.mem_cons_self)
  rw [popped, List.pairwise_cons] at ascending
  refine
    { searches with
      near := ?_
      ascending := ascending.2
      ahead := ascending.1
      behind := ?_ }
  · intro address level known
    have near := searches.near address level known
    omega
  · intro edge isSkewed
    have behind := searches.behind edge isSkewed
    omega

/--
The only fault of a propagation, and what it takes: a shortest walk whose
movement, with that of the block it ends at, leaves the range of a word.
-/
def ShortestExcuse (graph : Graph) (fault : Fault) : Prop :=
  fault = .levelOverflow ∧
    ∃ address total block, Walk graph (graph.distance address) address total ∧
      graph.blocks.get? address = some block ∧
      ¬ FitsSigned (total + block.delta)

theorem SearchesInBreadth.shortestExcuse
    (searches : SearchesInBreadth graph expanding state)
    (consistent : Consistent graph procedure expanding remaining state)
    {level : Int}
    (passes : levelAfter state.blocks source = some level)
    (overflows : ¬ FitsSigned level) :
    ShortestExcuse graph .levelOverflow := by
  rcases levelAfter_eq_some_iff.mp passes with
    ⟨block, start, present, known, sum⟩
  rcases consistent.exists_original present with ⟨original, isOriginal, same⟩
  refine ⟨rfl, source, start, original, searches.shortest source start known,
    isOriginal, ?_⟩
  rw [Block.delta_of_unleveled same, sum]
  exact overflows

/--
A whole run searches in breadth, unless the level after a shortest walk
overflows.
-/
theorem SearchesInBreadth.run
    (searches : SearchesInBreadth graph expanding state)
    (consistent : Consistent graph procedure expanding [] state) :
    Delivers state.run.2 (fun _ => ∃ last,
      SearchesInBreadth graph last state.run.1)
      (ShortestExcuse graph) := by
  induction state using Propagation.run.induct generalizing expanding with
  | case1 state popped =>
      rw [Propagation.run_eq, popped]
      exact ⟨expanding, searches⟩
  | case2 state source rest popped this outgoing hypothesis =>
      -- impossible: a pending block always has a level
      rcases consistent.pending source (by simp [this]) with ⟨level, known⟩
      rcases levelAt_eq_some_iff.mp known with ⟨block, present, -⟩
      have passes : levelAfter state.blocks source =
          some (level + block.delta) :=
        levelAfter_eq_some_iff.mpr ⟨block, level, present, known, rfl⟩
      rw [Propagation.outgoing_eq_some_iff.mpr ⟨passes, block, present, rfl⟩]
        at outgoing
      cases outgoing
  | case3 state source rest popped this level successors outgoing fits
    hypothesis =>
      rcases Propagation.outgoing_eq_some_iff.mp outgoing with
        ⟨passes, block, present, rfl⟩
      have isPopped := consistent.pop this present
      rw [Propagation.run_eq, popped]
      simp only [outgoing, if_pos fits]
      exact hypothesis
        ((searches.pop this).foldl_visit isPopped present
          (fun _ member => member) passes)
        (isPopped.foldl_visit present (fun _ member => member) passes)
  | case4 state source rest popped this level successors outgoing overflows =>
      rcases Propagation.outgoing_eq_some_iff.mp outgoing with ⟨passes, -⟩
      rw [Propagation.run_eq, popped]
      simp only [outgoing, if_neg overflows]
      exact searches.shortestExcuse consistent passes overflows

end Invariant

/-! ## Shortest levels -/

/--
The levels of a graph after propagation are those of shortest walks, and the
skews were reported in the order of the distance of their source.
-/
structure HasShortestLevels
    (graph final : Graph)
    (procedure : Nat)
    (reports : List (Nat × Diagnostic)) :
    Prop where
  shortest : ∀ address, graph.Reachable address → ∃ level,
    levelAt final.blocks address = some level ∧
    Walk graph (graph.distance address) address level
  /--
  There is one report for each skewed edge, in the order in which the edges are
  kept.
  -/
  reported :
    List.Forall₂ (ReportsSkew final.blocks procedure) final.skewed reports
  /-- Skewed edges leave reachable blocks, the nearest ones first. -/
  reachable : ∀ edge ∈ final.skewed, graph.Reachable edge.1
  ascending : final.skewed.Pairwise (fun earlier later =>
    graph.distance earlier.1 ≤ graph.distance later.1)

/-- A search that is finished leaves the levels of shortest walks. -/
theorem SearchesInBreadth.hasShortestLevels
    {graph : Graph} {procedure last expanding : Nat} {state : Propagation}
    (searches : SearchesInBreadth graph last state)
    (consistent : Consistent graph procedure expanding [] state)
    (idle : state.pending.pending = []) :
    HasShortestLevels graph
      { graph with blocks := state.closed, skewed := state.skewed } procedure
      (state.reports procedure) where
  shortest := by
    intro address reachable
    rcases (consistent.reachable_iff idle address).mp reachable with
      ⟨level, known⟩
    refine ⟨level, known, ?_⟩
    rw [Propagation.closed, levelAt_close] at known
    exact searches.shortest address level known
  reported := (consistent.hasExactLevels idle).reported
  reachable :=
    fun edge isSkewed =>
      ((consistent.mem_skewed_iff idle edge.1 edge.2).mp isSkewed).1
  ascending := searches.skews

theorem searchesInBreadth_start
    {graph : Graph}
    (fresh : graph.IsFresh)
    {block : Block}
    (present : graph.blocks.get? graph.entry = some block) :
    SearchesInBreadth graph graph.entry (Propagation.start graph) := by
  have entry : Walk graph 0 graph.entry 0 := .entry present
  have nothing : graph.distance graph.entry = 0 :=
    Nat.le_zero.mp entry.distance_le
  have noneSkewed : (Propagation.start graph).skewed = [] := fresh.skewed
  have known_iff : ∀ address level,
      levelAt (Propagation.start graph).blocks address = some level →
        address = graph.entry ∧ level = 0 := by
    intro address level known
    rw [levelAt_start fresh present] at known
    split at known
    next same =>
      cases known
      exact ⟨same, rfl⟩
    next => cases known
  refine
    { shortest := ?_
      near := ?_
      ascending := List.pairwise_singleton _ _
      ahead := ?_
      skews := ?_
      behind := ?_ }
  · intro address level known
    rcases known_iff address level known with ⟨rfl, rfl⟩
    rw [nothing]
    exact entry
  · intro address level known
    rw [(known_iff address level known).1]
    exact Nat.le_succ _
  · intro address isPending
    rw [List.mem_singleton.mp isPending]
  · rw [noneSkewed]
    exact .nil
  · rw [noneSkewed]
    exact List.forall_mem_nil _

theorem isFresh_of_notComputed
    {graph : Graph}
    (blocks : ∀ block ∈ graph.blocks.values, block.level = .notComputed)
    (skewed : graph.skewed = []) :
    graph.IsFresh where
  levels := by
    intro address
    rw [Option.eq_none_iff_forall_ne_some]
    intro level known
    rcases levelAt_eq_some_iff.mp known with ⟨block, found, isKnown⟩
    rw [blocks block (Table.mem_values_iff.mpr ⟨address, found⟩)] at isKnown
    cases isKnown
  skewed := skewed

/-- Without an entry there is no walk at all. -/
theorem Reachable.contains_entry
    {graph : Graph} {address : Nat}
    (reachable : graph.Reachable address) :
    graph.blocks.contains graph.entry = true := by
  rcases reachable with ⟨length, total, walk⟩
  induction walk with
  | entry present => exact Option.isSome_iff_exists.mpr ⟨_, present⟩
  | step _ _ _ _ hypothesis => exact hypothesis

/--
Propagation over any graph without levels gives every reachable block the level
of a shortest walk and reports skews by the distance of their source, unless
the level after a shortest walk leaves its word.
-/
theorem propagateLevels_shortest
    {graph : Graph}
    (fresh : graph.IsFresh)
    (procedure : Nat) :
    Delivers (graph.propagateLevels procedure).outcome
      (fun final => HasShortestLevels graph final procedure
        (diagnosticsOf (graph.propagateLevels procedure).events))
      (ShortestExcuse graph) := by
  cases present : graph.blocks.contains graph.entry with
  | false =>
      have unreachable : ∀ address, ¬ graph.Reachable address := by
        intro address reachable
        rw [reachable.contains_entry] at present
        cases present
      simp only [propagateLevels, present, Bool.false_eq_true, ↓reduceIte]
      refine
        { shortest := fun address reachable =>
            (unreachable address reachable).elim
          reported := ?_
          reachable := ?_
          ascending := ?_ }
      · rw [fresh.skewed]
        exact .nil
      · rw [fresh.skewed]
        exact List.forall_mem_nil _
      · rw [fresh.skewed]
        exact .nil
  | true =>
      rcases Option.isSome_iff_exists.mp present with ⟨block, found⟩
      have consistent := consistent_start fresh found procedure
      have ran := (searchesInBreadth_start fresh found).run consistent
      simp only [propagateLevels, present, ↓reduceIte]
      change Delivers (Except.map _ (Propagation.start graph).run.2)
        (fun final => HasShortestLevels graph final procedure
          ((Propagation.start graph).run.1.reports procedure))
          (ShortestExcuse graph)
      cases outcome : (Propagation.start graph).run.2 with
      | error fault => exact ran.of_error outcome
      | ok done =>
          rcases ran.of_ok outcome with ⟨last, searches⟩
          rcases consistent.run.of_ok outcome with ⟨finished, idle⟩
          exact searches.hasShortestLevels finished idle

/--
Four blocks, of which the third can be reached in two ways and the fourth leads
back.
-/
def forkingGraph : Graph :=
  ofEdges 0x10
    (Table.ofList
      [ (0x10, { lo := 0x10, hi := 0x20, start := 0, stop := 1, delta := -4 }),
        (0x20, { lo := 0x20, hi := 0x30, start := 1, stop := 2, delta := -2 }),
        (0x30, { lo := 0x30, hi := 0x40, start := 2, stop := 3, delta := 0 }),
        (0x40, { lo := 0x40, hi := 0x50, start := 3, stop := 4, delta := -8 })
        ])
    [(0x10, 0x20), (0x10, 0x30), (0x20, 0x30), (0x30, 0x40), (0x40, 0x20)]

theorem propagateLevels_shortest_forkingGraph :
    ∃ final, (forkingGraph.propagateLevels 0x10).outcome = .ok final ∧
      final.skewed = [(0x20, 0x30), (0x40, 0x20)] ∧
      levelAt final.blocks 0x30 = some (-4) ∧
      HasShortestLevels forkingGraph final 0x10
        (diagnosticsOf (forkingGraph.propagateLevels 0x10).events) := by
  have fresh : forkingGraph.IsFresh :=
    isFresh_of_notComputed (by decide) (by decide)
  have promised := propagateLevels_shortest fresh 0x10
  have propagates : (forkingGraph.propagateLevels 0x10).outcome.toOption.map
      (fun final => (final.skewed, levelAt final.blocks 0x30)) =
        some ([(0x20, 0x30), (0x40, 0x20)], some (-4)) := by
    decide +kernel
  cases finished : (forkingGraph.propagateLevels 0x10).outcome with
  | error fault =>
      rw [finished] at propagates
      cases propagates
  | ok final =>
      rw [finished] at propagates
      have shown := Option.some.inj propagates
      exact ⟨final, rfl, congrArg Prod.fst shown, congrArg Prod.snd shown,
        promised.of_ok finished⟩

end ProcRecovery.Graph
