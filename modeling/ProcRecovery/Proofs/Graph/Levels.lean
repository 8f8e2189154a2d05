import ProcRecovery.Proofs.Graph.Propagation
import ProcRecovery.Proofs.Table

/-!
# Exactness of stack levels

Propagation gives a level to exactly the blocks that a walk reaches, the level
of some walk to each, and it reports exactly the edges along which the level
would be a different one.  Without a report all walks to a block agree,
whichever way they go.
-/

namespace ProcRecovery.Graph

/-! ## Exact levels -/

/--
The levels of a graph after propagation, and what was reported, are exactly
those that the walks of the graph call for.
-/
structure HasExactLevels
    (graph final : Graph)
    (procedure : Nat)
    (reports : List (Nat × Diagnostic)) :
    Prop where
  entry_eq : final.entry = graph.entry
  /-- Nothing but levels changes in the blocks. -/
  shape : ∀ address,
    (final.blocks.get? address).map Block.unleveled =
      (graph.blocks.get? address).map Block.unleveled
  /--
  A block has a known level exactly if a walk ends there, and then it is the
  level of one.
  -/
  known_iff : ∀ address block, final.blocks.get? address = some block →
    ((∃ level, block.level = .known level) ↔ graph.Reachable address)
  walks : ∀ address level, levelAt final.blocks address = some level →
    ∃ length, Walk graph length address level ∧ length < graph.blocks.size
  unrecoverable : ∀ address block, final.blocks.get? address = some block →
    ¬ graph.Reachable address → block.level = .unrecoverable
  entry_level : levelAt final.blocks graph.entry = some 0
  /--
  The skewed edges are the edges from reachable blocks to blocks with another
  level than the one passed on.
  -/
  skewed_iff : ∀ source target, (source, target) ∈ final.skewed ↔
    graph.Reachable source ∧ (final.blocks.get? target).isSome ∧
      (∃ block, final.blocks.get? source = some block ∧
        target ∈ block.successors) ∧
      levelAfter final.blocks source ≠ levelAt final.blocks target
  /--
  There is one report for each skewed edge, with the final levels, and no
  other.
  -/
  reported :
    List.Forall₂ (ReportsSkew final.blocks procedure) final.skewed reports
  nodup : final.skewed.Nodup
  /--
  Without reports all walks to a block agree with its level, loops included.
  -/
  balanced : reports = [] → ∀ length address total,
    Walk graph length address total →
    levelAt final.blocks address = some total

/-- A graph that no level has been given to. -/
structure IsFresh (graph : Graph) : Prop where
  levels : ∀ address, levelAt graph.blocks address = none
  skewed : graph.skewed = []

/-- A propagation at its start. -/
def Propagation.start (graph : Graph) : Propagation where
  blocks := graph.blocks.modify graph.entry (Block.settle 0)
  skewed := graph.skewed
  pending := Worklist.empty.push graph.entry
  trail := []

/-- At the start nothing but the entry has a level. -/
theorem levelAt_start
    {graph : Graph}
    (fresh : graph.IsFresh)
    {block : Block}
    (present : graph.blocks.get? graph.entry = some block)
    (address : Nat) :
    levelAt (Propagation.start graph).blocks address =
      if address = graph.entry then some 0 else none := by
  simp only [Propagation.start]
  rw [levelAt_modify_settle present, fresh.levels]

theorem consistent_start
    {graph : Graph}
    (fresh : graph.IsFresh)
    {block : Block}
    (present : graph.blocks.get? graph.entry = some block)
    (procedure : Nat) :
    Consistent graph procedure graph.entry [] (Propagation.start graph) := by
  have isOpen := fresh.levels graph.entry
  have known_iff : ∀ address level,
      levelAt (Propagation.start graph).blocks address = some level ↔
        address = graph.entry ∧ level = 0 := by
    intro address level
    rw [levelAt_start fresh present]
    split
    next same => simp [same, eq_comm]
    next other => simp [other]
  have pending : (Propagation.start graph).pending.pending = [graph.entry] :=
    rfl
  have noneSkewed : (Propagation.start graph).skewed = [] := fresh.skewed
  refine
    { shape := (settles_modify present isOpen 0).shape
      entry := (known_iff _ _).mpr ⟨rfl, rfl⟩
      walks := ?_
      pending := ?_
      complete := ?_
      reports := ?_
      nodup := ?_ }
  · intro address level known
    obtain ⟨rfl, rfl⟩ := (known_iff address level).mp known
    have fewer : unsettled (Propagation.start graph).blocks + 1 ≤
        unsettled graph.blocks :=
      unsettled_modify present isOpen 0
    have counted : unsettled graph.blocks ≤ graph.blocks.size := by
      unfold unsettled
      apply Nat.le_trans List.countP_le_length
      simp [Table.values, Table.size]
    exact ⟨0, .entry present, by omega⟩
  · intro address member
    rw [pending, List.mem_singleton] at member
    exact ⟨0, (known_iff address 0).mpr ⟨member, rfl⟩⟩
  · intro source sourceBlock sourcePresent seen passes target edge
      targetPresent
    obtain ⟨-, level, -, known, -⟩ := levelAfter_eq_some_iff.mp passes
    left
    rw [pending, ((known_iff source level).mp known).1]
    exact List.mem_singleton_self _
  · rw [noneSkewed]
    exact .nil
  · rw [noneSkewed]
    exact List.nodup_nil

theorem levelAt_close
    (blocks : Table Nat Block)
    (address : Nat) :
    levelAt (blocks.map (fun _ block => block.close)) address =
      levelAt blocks address := by
  unfold levelAt
  rw [Table.get?_map]
  cases blocks.get? address with
  | none => rfl
  | some block =>
      simp only [Option.map_some, Option.bind_some, Block.close]
      split
      next => rfl
      next unsettled =>
        simp only [Block.isSettled, Resolution.isKnown, Bool.not_eq_true,
          Option.isSome_eq_false_iff, Option.isNone_iff_eq_none] at unsettled
        rw [unsettled]
        rfl

theorem settles_close (blocks : Table Nat Block) :
    Settles blocks (blocks.map (fun _ block => block.close)) ∧
      Settles (blocks.map (fun _ block => block.close)) blocks := by
  have shape : ∀ address,
      ((blocks.map (fun _ block => block.close)).get? address).map
      Block.unleveled =
        (blocks.get? address).map Block.unleveled := by
    intro address
    rw [Table.get?_map, Option.map_map]
    congr 1
    funext block
    simp only [Function.comp_apply, Block.close]
    split
    · rfl
    · rfl
  refine ⟨⟨shape, ?_⟩, ⟨fun address => (shape address).symm, ?_⟩⟩
  · intro address level known
    rw [levelAt_close]
    exact known
  · intro address level known
    rw [levelAt_close] at known
    exact known

/--
With nothing pending a level has been passed along every edge from a block with
a level.
-/
theorem Consistent.passed
    {graph : Graph} {procedure expanding : Nat} {state : Propagation}
    (consistent : Consistent graph procedure expanding [] state)
    (idle : state.pending.pending = [])
    {source target : Nat} {block : Block} {seen : Int}
    (present : state.blocks.get? source = some block)
    (passes : levelAfter state.blocks source = some seen)
    (edge : target ∈ block.successors)
    (found : (state.blocks.get? target).isSome) :
    ∃ kept, levelAt state.blocks target = some kept ∧
      (kept ≠ seen → (source, target) ∈ state.skewed) := by
  rcases consistent.complete source block present seen passes target edge
    found with
    isPending | ⟨-, impossible⟩ | done
  · rw [idle] at isPending
    cases isPending
  · cases impossible
  · exact done

/--
Every walk ends at a block with a level, and if no edge is skewed then it is
that of the walk.
-/
theorem Consistent.walk_level
    {graph : Graph} {procedure expanding : Nat} {state : Propagation}
    (consistent : Consistent graph procedure expanding [] state)
    (idle : state.pending.pending = [])
    {length address : Nat} {total : Int}
    (walk : Walk graph length address total) :
    ∃ level, levelAt state.blocks address = some level ∧
      (state.skewed = [] → level = total) := by
  induction walk with
  | entry present => exact ⟨0, consistent.entry, fun _ => rfl⟩
  | @step length source target total block next walk present edge found
    hypothesis =>
      obtain ⟨level, known, exactly⟩ := hypothesis
      have sourceShape := consistent.shape source
      have targetShape := congrArg Option.isSome (consistent.shape target)
      rw [present, Option.map_some] at sourceShape
      rw [Option.isSome_map, Option.isSome_map, found] at targetShape
      obtain ⟨current, currentPresent, same⟩ :=
        Option.map_eq_some_iff.mp sourceShape
      have passes : levelAfter state.blocks source =
          some (level + current.delta) :=
        levelAfter_eq_some_iff.mpr ⟨current, level, currentPresent, known, rfl⟩
      rw [← Block.successors_of_unleveled same] at edge
      obtain ⟨kept, keeps, listed⟩ :=
        consistent.passed idle currentPresent passes edge targetShape
      refine ⟨kept, keeps, ?_⟩
      intro straight
      rw [← Block.delta_of_unleveled same, ← exactly straight]
      by_contra differ
      have member := listed differ
      rw [straight] at member
      cases member

section Finished

variable {graph : Graph} {procedure expanding : Nat} {state : Propagation}

/-- The blocks of a propagation with those given up that have no level. -/
def Propagation.closed (state : Propagation) : Table Nat Block :=
  state.blocks.map (fun _ block => block.close)

theorem Consistent.reachable_iff
    (consistent : Consistent graph procedure expanding [] state)
    (idle : state.pending.pending = [])
    (address : Nat) :
    graph.Reachable address ↔ ∃ level,
      levelAt state.closed address = some level := by
  rw [Propagation.closed, levelAt_close]
  constructor
  · rintro ⟨length, total, walk⟩
    obtain ⟨level, known, -⟩ := consistent.walk_level idle walk
    exact ⟨level, known⟩
  · rintro ⟨level, known⟩
    obtain ⟨length, walk, -⟩ := consistent.walks address level known
    exact ⟨length, level, walk⟩

theorem Consistent.level_of_unreachable
    (consistent : Consistent graph procedure expanding [] state)
    (idle : state.pending.pending = [])
    {address : Nat} {block : Block}
    (present : state.closed.get? address = some block)
    (unreachable : ¬ graph.Reachable address) :
    block.level = .unrecoverable := by
  rw [consistent.reachable_iff idle, not_exists] at unreachable
  rw [Propagation.closed, Table.get?_map] at present
  obtain ⟨earlier, found, rfl⟩ := Option.map_eq_some_iff.mp present
  unfold Block.close
  split
  next settled =>
    obtain ⟨level, known⟩ := Option.isSome_iff_exists.mp settled
    have atAddress : levelAt state.blocks address = some level := by
      unfold levelAt
      rw [found]
      exact known
    exact (unreachable level
      ((settles_close state.blocks).1.levels _ _ atAddress)).elim
  next => rfl

/--
The skewed edges are those from reachable blocks along which the level does not
agree.
-/
theorem Consistent.mem_skewed_iff
    (consistent : Consistent graph procedure expanding [] state)
    (idle : state.pending.pending = [])
    (source target : Nat) :
    (source, target) ∈ state.skewed ↔
      graph.Reachable source ∧ (state.closed.get? target).isSome ∧
        (∃ block, state.closed.get? source = some block ∧
          target ∈ block.successors) ∧
        levelAfter state.closed source ≠ levelAt state.closed target := by
  have closes := (settles_close state.blocks).1
  constructor
  · intro member
    obtain ⟨report, -, kept, seen, skewed, -⟩ :=
      exists_of_mem_left (closes.reports consistent.reports) member
    obtain ⟨-, level, -, known, -⟩ := levelAfter_eq_some_iff.mp skewed.passes
    obtain ⟨targetBlock, targetPresent, -⟩ :=
      levelAt_eq_some_iff.mp skewed.keeps
    refine ⟨(consistent.reachable_iff idle source).mpr ⟨level, known⟩, ?_,
      skewed.edge, ?_⟩
    · rw [Propagation.closed, targetPresent]
      rfl
    · rw [Propagation.closed, skewed.passes, skewed.keeps]
      intro same
      cases same
      exact skewed.differ rfl
  · rintro ⟨reachable, found, ⟨block, present, edge⟩, differ⟩
    obtain ⟨level, known⟩ :=
      (consistent.reachable_iff idle source).mp reachable
    obtain ⟨current, currentPresent, same⟩ := closes.block_eq present
    rw [Block.successors_of_unleveled same] at edge
    rw [Propagation.closed, levelAt_close] at known
    have passes : levelAfter state.blocks source =
        some (level + current.delta) :=
      levelAfter_eq_some_iff.mpr ⟨current, level, currentPresent, known, rfl⟩
    rw [Propagation.closed, Table.get?_map, Option.isSome_map] at found
    obtain ⟨kept, keeps, listed⟩ :=
      consistent.passed idle currentPresent passes edge found
    apply listed
    intro equal
    apply differ
    rw [Propagation.closed, closes.levelAfter passes,
      closes.levels target kept keeps, equal]

theorem Consistent.skewed_eq_nil
    (consistent : Consistent graph procedure expanding [] state)
    (silent : state.reports procedure = []) :
    state.skewed = [] := by
  have reported := consistent.reports
  rw [silent] at reported
  cases shape : state.skewed with
  | nil => rfl
  | cons first later =>
      rw [shape] at reported
      cases reported

/--
A propagation that is finished has the exact levels, once the blocks without a
level have been given up.
-/
theorem Consistent.hasExactLevels
    (consistent : Consistent graph procedure expanding [] state)
    (idle : state.pending.pending = []) :
    HasExactLevels graph
      { graph with blocks := state.closed, skewed := state.skewed } procedure
      (state.reports procedure) := by
  have closes := (settles_close state.blocks).1
  refine
    { entry_eq := rfl
      shape :=
        fun address => (closes.shape address).trans (consistent.shape address)
      known_iff := ?_
      walks := ?_
      unrecoverable := fun _ _ => consistent.level_of_unreachable idle
      entry_level := closes.levels _ _ consistent.entry
      skewed_iff := consistent.mem_skewed_iff idle
      reported := closes.reports consistent.reports
      nodup := consistent.nodup
      balanced := ?_ }
  · intro address block present
    rw [consistent.reachable_iff idle]
    apply exists_congr
    intro level
    rw [levelAt_eq_some_iff]
    constructor
    · intro known
      exact ⟨block, present, known⟩
    · rintro ⟨other, found, known⟩
      rw [present] at found
      cases found
      exact known
  · intro address level known
    rw [Propagation.closed, levelAt_close] at known
    obtain ⟨length, walk, short⟩ := consistent.walks address level known
    exact ⟨length, walk, by omega⟩
  · intro silent length address total walk
    obtain ⟨level, known, exactly⟩ := consistent.walk_level idle walk
    rw [Propagation.closed, levelAt_close, known,
      exactly (consistent.skewed_eq_nil silent)]

end Finished

/-! ## Graphs built by adding edges -/

/-- The graph of some blocks with edges added one after the other. -/
def ofEdges
    (entry : Nat)
    (blocks : Table Nat Block)
    (edges : List (Nat × Nat)) :
    Graph :=
  edges.foldl (fun graph edge => graph.addEdge edge.1 edge.2) { entry, blocks }

theorem levelAt_modify
    {blocks : Table Nat Block} {change : Block → Block}
    (keeps : ∀ block, (change block).level = block.level)
    (changed address : Nat) :
    levelAt (blocks.modify changed change) address =
      levelAt blocks address := by
  unfold levelAt
  rw [Table.get?_modify]
  split
  next =>
    cases blocks.get? address with
    | none => rfl
    | some block => simp [keeps]
  next => rfl

theorem levelAt_addEdge
    (graph : Graph)
    (source target address : Nat) :
    levelAt (graph.addEdge source target).blocks address =
      levelAt graph.blocks address := by
  simp only [addEdge]
  rw [levelAt_modify, levelAt_modify]
  · intro block
    rfl
  · intro block
    rfl

theorem contains_addEdge
    (graph : Graph)
    (source target address : Nat) :
    (graph.addEdge source target).blocks.contains address =
      graph.blocks.contains address := by
  simp only [addEdge, Table.contains, Table.get?_modify]
  split <;> split <;> simp

/--
Adding edges changes neither the entry, nor levels, nor which blocks there are.
-/
theorem foldl_addEdge
    (graph : Graph)
    (edges : List (Nat × Nat)) :
    let extended :=
  edges.foldl (fun graph edge => graph.addEdge edge.1 edge.2) graph
    extended.entry = graph.entry ∧ extended.skewed = graph.skewed ∧
      (∀ address, levelAt extended.blocks address =
        levelAt graph.blocks address) ∧
      (∀ address, extended.blocks.contains address =
        graph.blocks.contains address) := by
  induction edges generalizing graph with
  | nil => exact ⟨rfl, rfl, fun _ => rfl, fun _ => rfl⟩
  | cons edge later hypothesis =>
      obtain ⟨entry, skewed, levels, present⟩ :=
        hypothesis (graph.addEdge edge.1 edge.2)
      refine ⟨entry, skewed, ?_, ?_⟩
      · intro address
        exact (levels address).trans
          (levelAt_addEdge graph edge.1 edge.2 address)
      · intro address
        exact (present address).trans
          (contains_addEdge graph edge.1 edge.2 address)

theorem delivers_propagateLevels
    {graph : Graph}
    (fresh : graph.IsFresh)
    (present : graph.blocks.contains graph.entry = true)
    (procedure : Nat) :
    Delivers (graph.propagateLevels procedure).outcome
      (fun final => HasExactLevels graph final procedure
        (diagnosticsOf (graph.propagateLevels procedure).events))
      (LevelExcuse graph) := by
  obtain ⟨block, found⟩ := Option.isSome_iff_exists.mp present
  have ran := (consistent_start fresh found procedure).run
  simp only [propagateLevels, present, ↓reduceIte]
  change Delivers (Except.map _ (Propagation.start graph).run.2)
    (fun final => HasExactLevels graph final procedure
      ((Propagation.start graph).run.1.reports procedure)) (LevelExcuse graph)
  cases outcome : (Propagation.start graph).run.2 with
  | error fault => exact ran.of_error outcome
  | ok done =>
      obtain ⟨consistent, idle⟩ := ran.of_ok outcome
      exact consistent.hasExactLevels idle

/--
Propagation over blocks without levels, joined by any edges, computes exactly
the levels of walks and reports exactly the skewed edges, unless the level
after a walk leaves its word.
-/
theorem propagateLevels_exact
    (entry : Nat)
    (blocks : Table Nat Block)
    (edges : List (Nat × Nat))
    (procedure : Nat)
    (fresh : ∀ address block, blocks.get? address = some block →
      block.level = .notComputed)
    (present : blocks.contains entry = true) :
    Delivers ((ofEdges entry blocks edges).propagateLevels procedure).outcome
      (fun final => HasExactLevels (ofEdges entry blocks edges) final procedure
        (diagnosticsOf
          ((ofEdges entry blocks edges).propagateLevels procedure).events))
      (LevelExcuse (ofEdges entry blocks edges)) := by
  obtain ⟨sameEntry, sameSkewed, sameLevels, samePresent⟩ :=
    foldl_addEdge { entry, blocks } edges
  apply delivers_propagateLevels
  · refine ⟨?_, sameSkewed⟩
    intro address
    rw [ofEdges, sameLevels]
    cases known : levelAt blocks address with
    | none => rfl
    | some level =>
        obtain ⟨block, found, isKnown⟩ := levelAt_eq_some_iff.mp known
        rw [fresh address block found] at isKnown
        cases isKnown
  · rw [ofEdges, samePresent, sameEntry]
    exact present

/--
Three blocks: an entry, a block that pushes two bytes, and one that nothing
leads to.
-/
def loopingBlocks : Table Nat Block :=
  Table.ofList
    [ (0x10, { lo := 0x10, hi := 0x20, start := 0, stop := 1, delta := -4 }),
      (0x20, { lo := 0x20, hi := 0x30, start := 1, stop := 2, delta := -2 }),
      (0x30, { lo := 0x30, hi := 0x40, start := 2, stop := 3, delta := 0 }) ]

theorem propagateLevels_exact_loopingBlocks :
    ∃ final,
      ((ofEdges 0x10 loopingBlocks [(0x10, 0x20),
        (0x20, 0x20)]).propagateLevels
        0x10).outcome = .ok final ∧ final.skewed = [(0x20, 0x20)] ∧
      HasExactLevels (ofEdges 0x10 loopingBlocks [(0x10, 0x20), (0x20, 0x20)])
        final 0x10
        (diagnosticsOf ((ofEdges 0x10 loopingBlocks
          [(0x10, 0x20), (0x20, 0x20)]).propagateLevels 0x10).events) := by
  have unlevel : ∀ block ∈ loopingBlocks.values, block.level = .notComputed :=
    by decide
  have fresh : ∀ address block, loopingBlocks.get? address = some block →
      block.level = .notComputed :=
    fun address block found =>
      unlevel block (Table.mem_values_iff.mpr ⟨address, found⟩)
  have promised :=
    propagateLevels_exact 0x10 loopingBlocks [(0x10, 0x20), (0x20, 0x20)] 0x10
      fresh
    (by decide)
  have propagates :
      ((ofEdges 0x10 loopingBlocks [(0x10, 0x20),
        (0x20, 0x20)]).propagateLevels
      0x10).outcome.toOption.map Graph.skewed = some [(0x20, 0x20)] := by
    decide +kernel
  cases finished :
    ((ofEdges 0x10 loopingBlocks [(0x10, 0x20), (0x20, 0x20)]).propagateLevels
      0x10).outcome with
  | error fault =>
      rw [finished] at propagates
      cases propagates
  | ok final =>
      rw [finished] at propagates
      exact ⟨final, rfl, Option.some.inj propagates, promised.of_ok finished⟩

end ProcRecovery.Graph
