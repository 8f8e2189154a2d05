import ProcRecovery.Procedure.Analysis
import ProcRecovery.Proofs.Graph.Annotation
import ProcRecovery.Proofs.Idiom.Conservation

/-!
# The analysis of a procedure

The parts of the analysis are put together here.  A run of abutting
instructions goes in.  What comes out holds the same instructions, its blocks
tile its body, its nodes have the levels of their blocks, and every stack
effect is the movement of its node.  The only faults on the way are sums that
leave their words.
-/

namespace ProcRecovery

/-! ## Replay of the blocks -/

/-- The node without the text of the stack after it. -/
def Node.unstacked (node : Node) : Node := { node with stackAfter := none }

theorem ReplayContext.Run.map_unstacked
    {context : ReplayContext} {state final : ReplayState}
    {nodes annotated : List Node}
    (run : context.Run state nodes annotated final) :
    annotated.map Node.unstacked = nodes.map Node.unstacked := by
  induction run with
  | stay state => rfl
  | step tracked applied rest hypothesis =>
      rw [List.map_cons, List.map_cons, hypothesis]
      rfl

/--
A replay changes nothing about nodes but the text of the stack after them.
-/
theorem ReplayContext.Result.map_unstacked
    {context : ReplayContext} {state : ReplayState} {nodes : List Node}
    {replayed : Replayed}
    (result : context.Result state nodes replayed) :
    replayed.nodes.map Node.unstacked = nodes.map Node.unstacked := by
  cases result with
  | finished run tracked => exact run.map_unstacked
  | lost shape run tracked applied mangled =>
      rw [shape, List.map_append, List.map_append, run.map_unstacked,
        List.map_cons, List.map_cons]
      rfl

/--
However a replay ends, the nodes are the same apart from the texts of stacks.
-/
theorem map_unstacked_of_replay
    {context : ReplayContext} {nodes : List Node} {state : ReplayState}
    {replayed : Replayed}
    (finished : (replay context nodes state).outcome = .ok replayed) :
    replayed.nodes.map Node.unstacked = nodes.map Node.unstacked := by
  induction nodes generalizing state replayed with
  | nil =>
      cases finished
      rfl
  | cons node later hypothesis =>
      rw [replay] at finished
      split at finished
      next =>
        cases finished
        rfl
      next =>
        simp only [Traced.outcome_bind, Traced.outcome_ofExcept] at finished
        rcases bind_eq_ok_iff.mp finished with ⟨before, -, finished⟩
        rcases bind_eq_ok_iff.mp finished with ⟨next, -, finished⟩
        rcases bind_eq_ok_iff.mp finished with ⟨_, -, finished⟩
        rcases bind_eq_ok_iff.mp finished with ⟨rest, isRest, same⟩
        cases same
        rw [List.map_cons, List.map_cons, hypothesis isRest]
        rfl

theorem BlockReplay.map_unstacked_of_step
    {context : ReplayContext} {state next : BlockReplay} {block : Block}
    (stepped : (BlockReplay.step context state block).outcome = .ok next) :
    next.body.map Node.unstacked = state.body.map Node.unstacked := by
  unfold step at stepped
  split at stepped
  next =>
    simp only [Traced.outcome_bind, Traced.outcome_ofExcept] at stepped
    rcases bind_eq_ok_iff.mp stepped with ⟨own, isOwn, stepped⟩
    rcases Block.nodesIn_eq_ok_iff.mp isOwn with ⟨proper, -, rfl⟩
    rcases bind_eq_ok_iff.mp stepped with ⟨replayed, isReplayed, rest⟩
    have view := Block.map_splice proper (map_unstacked_of_replay isReplayed)
    cases lost : replayed.lostAt with
    | some address =>
        rw [lost] at rest
        cases rest
        exact view
    | none =>
        rw [lost] at rest
        cases rest
        exact view
  next =>
    cases stepped
    rfl

/--
The replay of blocks leaves the body as it is apart from the texts of stacks.
-/
theorem map_unstacked_of_replayBlocks
    {context : ReplayContext} {graph : Graph} {body : List Node}
    {slots : FrameSlots} {replayed : BlockReplay}
    (finished :
      (replayBlocks context graph body slots).outcome = .ok replayed) :
    replayed.body.map Node.unstacked = body.map Node.unstacked := by
  unfold replayBlocks at finished
  split at finished
  next =>
    rw [Traced.outcome_foldlM] at finished
    have promised : Delivers (graph.blocks.values.foldlM
        (fun state block => (BlockReplay.step context state block).outcome)
        { body, slots, lostAt := none })
        (fun state => state.body.map Node.unstacked = body.map Node.unstacked)
        (fun _ => True) := by
      refine Delivers.foldlM rfl (fun state same block member => ?_)
      apply delivers_of_outcome
      · intro next stepped
        exact (BlockReplay.map_unstacked_of_step stepped).trans same
      · intro fault _
        trivial
    exact promised.of_ok finished
  next =>
    cases finished
    rfl

/-- A sum has left its word. -/
def IsOverflow (fault : Fault) : Prop :=
  fault = .deltaOverflow ∨ fault = .levelOverflow ∨ fault = .widthOverflow

theorem OverflowExcuse.isOverflow
    {width : Nat} {fault : Fault}
    (excused : OverflowExcuse width fault) :
    IsOverflow fault := by
  rcases excused.1 with isWidth | isDelta
  · exact .inr (.inr isWidth)
  · exact .inl isDelta

theorem isMangled_of_entryStack?
    {level : Resolution Int} {stack : SymbolicStack}
    (entered : entryStack? level = some stack) :
    stack.isMangled = false := by
  unfold entryStack? at entered
  split at entered
  · split at entered
    · cases entered
      rfl
    · cases entered
  · cases entered

/-- The stack on entry to a block is as wide as its level is deep. -/
theorem totalWidth_of_entryStack?
    {level : Int} {stack : SymbolicStack}
    (entered : entryStack? (.known level) = some stack) :
    (stack.totalWidth : Int) = -level := by
  simp only [entryStack?] at entered
  split at entered
  next below =>
    cases entered
    have pushed := SymbolicStack.movedBy_push .empty (.unknown level.natAbs)
    obtain ⟨-, width⟩ := pushed rfl
    have wide : ((SymbolicStack.withUnknown level.natAbs).totalWidth : Int) =
        0 - -(level.natAbs : Int) := width
    omega
  next => cases entered

/--
What the replay of the blocks leaves of the nodes of one block: the result of a
replay from the stack on entry to the block, or the nodes as they were if
nothing is known of that stack or the replay has ended before.
-/
inductive Block.ReplayedAs
    (context : ReplayContext)
    (hasEnded : Prop)
    (block : Block)
    (before : List Node) :
    List Node → Prop
  | left (idle : entryStack? block.level = none ∨ hasEnded) :
      ReplayedAs context hasEnded block before before
  | replayed {stack : SymbolicStack} {slots : FrameSlots} {replayed : Replayed}
      (entered : entryStack? block.level = some stack)
      (result : context.Result { stack, slots } before replayed) :
      ReplayedAs context hasEnded block before replayed.nodes

theorem Block.ReplayedAs.mono
    {context : ReplayContext} {hasEnded ended : Prop} {block : Block}
    {before after : List Node}
    (ends : hasEnded → ended)
    (replayedAs : block.ReplayedAs context hasEnded before after) :
    block.ReplayedAs context ended before after := by
  cases replayedAs with
  | left idle => exact .left (idle.imp_right ends)
  | replayed entered result => exact .replayed entered result

theorem ReplayContext.Result.exists_of_lostAt
    {context : ReplayContext} {state : ReplayState} {nodes : List Node}
    {replayed : Replayed}
    (result : context.Result state nodes replayed)
    {address : Nat}
    (lost : replayed.lostAt = some address) :
    ∃ node ∈ nodes, node.lo = address := by
  cases result with
  | finished run tracked => cases lost
  | @lost _ _ _ node _ _ shape run tracked applied mangled =>
      cases lost
      exact ⟨node, by simp [shape], rfl⟩

namespace BlockReplay

/-- If tracking has been lost, then at one of the nodes up to a position. -/
def Reaches (position : Nat) (state : BlockReplay) : Prop :=
  ∀ address, state.lostAt = some address →
    address ∈ (state.body.take position).map Node.lo

/-- Tracking has been lost at a node before a block. -/
def LostBefore (state : BlockReplay) (block : Block) : Prop :=
  ∃ address, state.lostAt = some address ∧
    address ∈ (state.body.take block.start).map Node.lo

/-- What is promised of a step for a block of a body. -/
abbrev Proceeds
    (context : ReplayContext)
    (block : Block)
    (state next : BlockReplay) :
    Prop :=
  Graph.RewritesOwn body Node.unstacked Reaches
    (fun state block => block.ReplayedAs context (state.LostBefore block))
    block state next

/-- A step that leaves a block as it is. -/
theorem proceeds_refl
    (context : ReplayContext)
    {state : BlockReplay} {block : Block}
    (proper : block.start ≤ block.stop)
    (reached : state.Reaches block.start)
    (idle : state.lostAt = none → entryStack? block.level = none) :
    Proceeds context block state state where
  rewrites := by
    refine ⟨block.nodes state.body, (Block.splice_nodes proper).symm, rfl,
      .left ?_⟩
    cases lost : state.lostAt with
    | none => exact .inl (idle lost)
    | some address => exact .inr ⟨address, lost, reached address lost⟩
  reaches := by
    intro address lost
    have earlier := reached address lost
    rw [List.map_take] at earlier ⊢
    exact List.mem_of_mem_take (i := block.start) (by
      rwa [List.take_take, Nat.min_eq_left proper])
  persists := fun _ _ _ held => held

/-- A step that replays a block. -/
theorem proceeds_of_result
    {context : ReplayContext} {state next : BlockReplay} {block : Block}
    (proper : block.start ≤ block.stop)
    (notLost : state.lostAt = none)
    {stack : SymbolicStack}
    (entered : entryStack? block.level = some stack)
    {slots : FrameSlots} {replayed : Replayed}
    (result :
      context.Result { stack, slots } (block.nodes state.body) replayed)
    (isNext : next.body = block.splice state.body replayed.nodes)
    (sameLoss : next.lostAt = replayed.lostAt) :
    Proceeds context block state next where
  rewrites :=
    ⟨replayed.nodes, isNext, result.map_unstacked, .replayed entered result⟩
  reaches := by
    intro address lost
    rw [sameLoss] at lost
    rcases result.exists_of_lostAt lost with ⟨node, member, rfl⟩
    have sameBody : next.body.map Node.unstacked =
        state.body.map Node.unstacked := by
      rw [isNext, Block.map_splice proper result.map_unstacked]
    have sameAddresses : next.body.map Node.lo = state.body.map Node.lo := by
      have viewed := congrArg (List.map Node.lo) sameBody
      rwa [List.map_map, List.map_map] at viewed
    rw [List.map_take, sameAddresses, ← List.map_take]
    apply List.mem_map_of_mem
    rw [Block.nodes_eq_drop_take] at member
    exact List.mem_of_mem_drop member
  persists := by
    intro other before after held
    apply held.mono
    rintro ⟨address, lost, -⟩
    rw [notLost] at lost
    cases lost

end BlockReplay

theorem BlockReplay.delivers_step
    (context : ReplayContext)
    (state : BlockReplay)
    (block : Block)
    (measured : ∀ node ∈ state.body, node.IsMeasured)
    (reached : state.Reaches block.start)
    (proper : block.start ≤ block.stop)
    (within : block.stop ≤ state.body.length) :
    Delivers (BlockReplay.step context state block).outcome
      (Proceeds context block state)
      IsOverflow := by
  unfold step
  split
  next stack notLost entered =>
    have blockMeasured : ∀ node ∈ block.nodes state.body, node.IsMeasured := by
      intro node member
      exact measured node (List.mem_of_mem_drop (List.mem_of_mem_take member))
    simp only [Traced.outcome_bind, Traced.outcome_ofExcept,
      Block.nodesIn_of_within proper within, ok_bind]
    apply ((context.delivers_replay (block.nodes state.body)
      { stack, slots := state.slots } (isMangled_of_entryStack? entered)
      blockMeasured).mono
        (fun _ result => result) (fun _ => OverflowExcuse.isOverflow)).bind
    intro replayed result
    cases lost : replayed.lostAt with
    | some address =>
        exact proceeds_of_result proper notLost entered result rfl lost.symm
    | none =>
        exact proceeds_of_result proper notLost entered result rfl lost.symm
  next idle =>
    apply proceeds_refl context proper reached
    intro notLost
    cases entered : entryStack? block.level with
    | none => rfl
    | some stack => exact (idle stack notLost entered).elim

/--
Replaying the blocks of a body changes nothing but the texts of stacks, and
leaves every block as its replay has left it.
-/
theorem delivers_replayBlocks
    (context : ReplayContext)
    {graph : Graph} {body : List Node}
    (slots : FrameSlots)
    (measured : ∀ node ∈ body, node.IsMeasured)
    (tiled : graph.tiles body = true) :
    Delivers (replayBlocks context graph body slots).outcome
      (fun replayed => replayed.body.map Node.unstacked =
        body.map Node.unstacked ∧
        ∀ block ∈ graph.blocks.values,
          block.ReplayedAs context
            (context.options.replaysBlocks = false ∨ replayed.LostBefore block)
            (block.nodes body) (block.nodes replayed.body))
      IsOverflow := by
  unfold replayBlocks
  split
  next =>
    rw [Traced.outcome_foldlM]
    have each : ∀ (state : BlockReplay) (block : Block),
        state.body.map Node.unstacked = body.map Node.unstacked →
        state.Reaches block.start →
        block.start ≤ block.stop → block.stop ≤ state.body.length →
        Delivers (BlockReplay.step context state block).outcome
          (BlockReplay.Proceeds context block state) IsOverflow := by
      intro state block same reached proper within
      refine BlockReplay.delivers_step context state block ?_ reached proper
        within
      have keeps : ∀ node : Node, node.unstacked.IsMeasured ↔
          node.IsMeasured :=
        fun _ => Iff.rfl
      exact forall_mem_of_map_eq same.symm keeps measured
    have startTiled :
        Graph.tilesFrom (BlockReplay.body { body, slots, lostAt := none }) 0
        graph.blocks.values = true := tiled
    have notLost : BlockReplay.Reaches 0 { body, slots, lostAt := none } := by
      intro address impossible
      cases impossible
    apply (Graph.delivers_pass BlockReplay.Reaches each (fun _ => rfl) rfl
      notLost startTiled).weaken
    rintro replayed ⟨viewed, -, related, -⟩
    exact ⟨viewed, fun block member => (related block member).mono .inr⟩
  next switchedOff =>
    exact ⟨rfl, fun _ _ =>
      .left (.inr (.inl (Bool.eq_false_iff.mpr switchedOff)))⟩

/-! ## Transfer between the bodies of an analysis -/

theorem Block.map_nodes_congr
    {view : Node → Node} {first second : List Node}
    (block : Block)
    (same : first.map view = second.map view) :
    (block.nodes first).map view = (block.nodes second).map view := by
  simp only [nodes, List.map_take, List.map_drop, same]

theorem RunningLevels.of_unstacked
    {level : Resolution Int} {first second : List Node}
    (same : first.map Node.unstacked = second.map Node.unstacked)
    (running : RunningLevels level first) :
    RunningLevels level second := by
  have viewed : ∀ (nodes : List Node) (level : Resolution Int),
      RunningLevels level (nodes.map Node.unstacked) ↔
      RunningLevels level nodes := by
    intro nodes
    induction nodes with
    | nil => exact fun _ => Iff.rfl
    | cons node later hypothesis =>
        intro level
        exact and_congr Iff.rfl (hypothesis _)
  rw [← viewed, ← same, viewed]
  exact running

/-- Levels do not change what blocks cover. -/
theorem Graph.HasExactLevels.tiles_eq
    {graph final : Graph} {procedure : Nat} {reports : List (Nat × Diagnostic)}
    (exactly : HasExactLevels graph final procedure reports)
    (body : List Node) :
    final.tiles body = graph.tiles body := by
  have sameTables : final.blocks.map (fun _ block => block.unleveled) =
      graph.blocks.map (fun _ block => block.unleveled) := by
    apply Table.ext_get?
    intro address
    rw [Table.get?_map, Table.get?_map]
    exact exactly.shape address
  have sameValues : final.blocks.values.map Block.unleveled =
      graph.blocks.values.map Block.unleveled := by
    have values := congrArg Table.values sameTables
    simp only [Table.values, Table.map, List.map_map] at values ⊢
    exact values
  apply tilesFrom_congr rfl
  have extents := congrArg (List.map Block.extent) sameValues
  rw [List.map_map, List.map_map] at extents
  exact extents

theorem instructionsOf_of_assigned
    {body measured : List Node}
    (assigned : List.Forall₂ Node.Assigned body measured) :
    instructionsOf measured = instructionsOf body := by
  induction assigned with
  | nil => rfl
  | cons first later hypothesis =>
      rw [instructionsOf_cons, instructionsOf_cons, hypothesis, first.same]
      rfl

theorem SameCode.head?_lo
    {before after : List Instruction}
    (same : SameCode before after) :
    after.head?.map Instruction.lo = before.head?.map Instruction.lo := by
  cases same with
  | nil => rfl
  | cons head rest =>
      simp only [List.head?_cons, Option.map_some, head.lo_eq]

theorem SameCode.getLast?_hi
    {before after : List Instruction}
    (same : SameCode before after) :
    after.getLast?.map Instruction.hi =
      before.getLast?.map Instruction.hi := by
  induction same with
  | nil => rfl
  | cons head rest hypothesis =>
      cases rest with
      | nil => simp only [List.getLast?_singleton, Option.map_some, head.hi_eq]
      | cons next others =>
          rw [List.getLast?_cons_cons, List.getLast?_cons_cons]
          exact hypothesis

/-! ## Bodies on the way through an analysis -/

/--
A body that holds some instructions, with stack effects that are the movements
of its nodes.
-/
structure IsMeasuredBody
    (instructions : List Instruction)
    (body : List Node) :
    Prop where
  /-- No instruction is lost, repeated or moved. -/
  code : SameCode instructions (instructionsOf body)
  onWords : ∀ node ∈ body, node.IsMeasured
  exactly : ∀ node ∈ body, node.byteMovement = node.stackDelta

theorem isMeasuredBody_of_assigned
    {instructions : List Instruction} {recognized measured : List Node}
    (like : HoldsLike instructions recognized)
    (assigned : List.Forall₂ Node.Assigned recognized measured) :
    IsMeasuredBody instructions measured where
  code := by
    rw [instructionsOf_of_assigned assigned]
    exact like.same
  onWords := by
    intro node member
    obtain ⟨original, -, isAssigned⟩ := exists_of_mem_right assigned member
    exact isAssigned.onWords
  exactly := by
    intro node member
    obtain ⟨original, isOriginal, isAssigned⟩ :=
      exists_of_mem_right assigned member
    exact isAssigned.exactly (like.sound original isOriginal).fitsSigned

theorem IsMeasuredBody.ne_nil
    {instructions : List Instruction} {body : List Node}
    (measured : IsMeasuredBody instructions body)
    (nonempty : instructions ≠ []) :
    body ≠ [] := by
  rintro rfl
  cases measured.code
  exact nonempty rfl

/--
Levels and texts of stacks do not matter to what a body holds and how it moves
the stack.
-/
theorem IsMeasuredBody.of_map_eq
    {instructions : List Instruction} {first second : List Node}
    {view : Node → Node}
    (measured : IsMeasuredBody instructions first)
    (same : first.map view = second.map view)
    (instructions_eq : ∀ node, (view node).instructions = node.instructions)
    (movement_eq : ∀ node, (view node).byteMovement = node.byteMovement)
    (delta_eq : ∀ node, (view node).stackDelta = node.stackDelta) :
    IsMeasuredBody instructions second where
  code := by
    rw [← instructionsOf_congr same instructions_eq]
    exact measured.code
  onWords := by
    apply forall_mem_of_map_eq same _ measured.onWords
    intro node
    unfold Node.IsMeasured
    rw [movement_eq, delta_eq]
  exactly := by
    apply forall_mem_of_map_eq same _ measured.exactly
    intro node
    rw [movement_eq, delta_eq]

/--
A body that the blocks of a graph tile, with the levels of the blocks in its
nodes.
-/
structure IsLeveledBy (graph : Graph) (body : List Node) : Prop where
  tiled : graph.tiles body = true
  levels : ∀ block ∈ graph.blocks.values,
    RunningLevels block.level (block.nodes body)

theorem IsLeveledBy.of_unstacked
    {graph : Graph} {first second : List Node}
    (leveled : IsLeveledBy graph first)
    (same : first.map Node.unstacked = second.map Node.unstacked) :
    IsLeveledBy graph second where
  tiled := by
    rw [← leveled.tiled]
    exact Graph.tilesFrom_congr (map_range_congr same.symm (fun _ => rfl)) rfl
      0
  levels := by
    intro block member
    exact (leveled.levels block member).of_unstacked
      (block.map_nodes_congr same)

/-! ## The whole analysis -/

namespace Procedure

/--
Every block of an analyzed procedure is as the replay in some context has left
it.  A block is passed over only if nothing is known of the stack on entry to
it, if replay is switched off, or if tracking was lost at a node before the
block.
-/
def IsReplayedIn (context : ReplayContext) (analyzed : Procedure) : Prop :=
  ∀ block ∈ analyzed.graph.blocks.values, ∃ before,
    before.map Node.unstacked =
      (block.nodes analyzed.body).map Node.unstacked ∧
      block.ReplayedAs context
        (context.options.replaysBlocks = false ∨
          ∃ address, analyzed.trackingLostAt = some address ∧
            address ∈ (analyzed.body.take block.start).map Node.lo)
        before (block.nodes analyzed.body)

/-- What the analysis of a run of instructions promises. -/
structure IsAnalysisOf
    (context : ReplayContext)
    (instructions : List Instruction)
    (analyzed : Procedure) :
    Prop
      extends IsMeasuredBody instructions analyzed.body,
        IsLeveledBy analyzed.graph analyzed.body where
  replays : analyzed.IsReplayedIn context

/-- The procedure begins and ends where a run of instructions does. -/
structure Spans
    (instructions : List Instruction)
    (procedure : Procedure) :
    Prop where
  lo_eq : instructions.head?.map Instruction.lo = some procedure.lo
  hi_eq : instructions.getLast?.map Instruction.hi = some procedure.hi

theorem isTiledBy_of_sameCode
    {instructions : List Instruction} {procedure : Procedure}
    {body : List Node}
    (spans : procedure.Spans instructions)
    (abuts : Abutting Instruction.lo Instruction.hi instructions)
    (same : SameCode instructions (instructionsOf body)) :
    procedure.isTiledBy body = true := by
  have starts : body.head?.map Node.lo = some procedure.lo := by
    rw [← head?_instructionsOf, same.head?_lo, spans.lo_eq]
  have ends : body.getLast?.map Node.hi = some procedure.hi := by
    rw [← getLast?_instructionsOf, same.getLast?_hi, spans.hi_eq]
  simp [isTiledBy, abutting_nodes (same.abutting abuts), starts, ends]

/--
The analysis of a body in which the prologue is recognized keeps its promises,
unless a sum leaves its word.
-/
theorem delivers_analyzeBody
    (options : Options)
    (image : Image)
    {procedure : Procedure} {instructions : List Instruction}
    {body : List Node}
    (nonempty : instructions ≠ [])
    (spans : procedure.Spans instructions)
    (abuts : Abutting Instruction.lo Instruction.hi instructions)
    (holds : HoldsSoundly instructions body) :
    Delivers (procedure.analyzeBody options image body).outcome
      (fun analyzed => analyzed.lo = procedure.lo ∧
        analyzed.hi = procedure.hi ∧
        analyzed.progress = .analyzed ∧
        IsAnalysisOf { options, image, procedure := procedure.lo }
          instructions analyzed)
      IsOverflow := by
  have bodyAbuts := holds.holds.symm ▸ abuts
  unfold analyzeBody
  simp only [Traced.outcome_bind, Traced.outcome_ofExcept, Traced.outcome_emit,
    ok_bind]
  apply ((delivers_recognize options image procedure.lo holds.sound
    bodyAbuts).mono (fun _ like => like)
    (fun _ impossible => impossible.elim)).bind
  intro recognized like
  rw [holds.holds] at like
  apply ((delivers_assignDeltas _ procedure.lo recognized).mono
    (fun _ assigned => assigned) (fun _ excused => .inl excused)).bind
  intro measured assigned
  have isMeasured := isMeasuredBody_of_assigned like assigned
  have ascending := ascending_nodes (isMeasured.code.abutting abuts)
  apply ((Graph.delivers_partition (isMeasured.ne_nil nonempty) ascending
    procedure.lo).mono (fun _ partitioned => partitioned)
    (fun _ excused => .inl excused)).bind
  intro parts partitioned
  apply ((Graph.delivers_propagateLevels partitioned.fresh partitioned.entered
    procedure.lo).mono (fun _ leveled => leveled)
    (fun _ excused => .inr (.inl excused.1))).bind
  intro graph exactLevels
  have tiled : graph.tiles measured = true := by
    rw [exactLevels.tiles_eq]
    exact partitioned.tiled
  apply ((Graph.delivers_annotateLevels tiled).mono
    (fun _ annotated => annotated) (fun _ excused => .inr (.inl excused))).bind
  rintro leveled ⟨sameLeveled, running⟩
  have leveledMeasured :=
    isMeasured.of_map_eq sameLeveled.symm (fun _ => rfl) (fun _ => rfl)
    (fun _ => rfl)
  have isLeveled : IsLeveledBy graph leveled := by
    refine ⟨?_, running⟩
    rw [← tiled]
    exact Graph.tilesFrom_congr (map_range_congr sameLeveled (fun _ => rfl))
      rfl 0
  apply (delivers_replayBlocks { options, image, procedure := procedure.lo }
    (FrameSlots.collect leveled) leveledMeasured.onWords isLeveled.tiled).bind
  rintro replayed ⟨sameReplayed, related⟩
  have finalMeasured :=
    leveledMeasured.of_map_eq sameReplayed.symm (fun _ => rfl) (fun _ => rfl)
    (fun _ => rfl)
  rw [if_pos (isTiledBy_of_sameCode spans abuts finalMeasured.code)]
  refine ⟨rfl, rfl, rfl, finalMeasured,
    isLeveled.of_unstacked sameReplayed.symm, ?_⟩
  intro block member
  exact ⟨block.nodes leveled, (block.map_nodes_congr sameReplayed).symm,
    related block member⟩

/--
A procedure as it is before its analysis: the given instructions, one node
each.
-/
structure IsPendingOn
    (instructions : List Instruction)
    (procedure : Procedure) :
    Prop where
  spans : procedure.Spans instructions
  body_eq : procedure.body = instructions.map Node.raw
  progress_eq : procedure.progress = .pending

theorem isPendingOn_ofInstructions
    {instructions : List Instruction}
    (nonempty : instructions ≠ []) :
    (ofInstructions instructions).IsPendingOn instructions := by
  obtain ⟨first, later, rfl⟩ := List.exists_cons_of_ne_nil nonempty
  refine ⟨⟨rfl, ?_⟩, rfl, rfl⟩
  obtain ⟨last, isLast⟩ : ∃ last, (first :: later).getLast? = some last :=
    Option.isSome_iff_exists.mp (by simp)
  simp only [ofInstructions, isLast, Option.map_some, Option.getD_some]

/--
The analysis of a procedure gives up for lack of a prologue or keeps its
promises, unless a sum leaves its word.
-/
theorem delivers_analyze
    (options : Options)
    (image : Image)
    {procedure : Procedure} {instructions : List Instruction}
    (nonempty : instructions ≠ [])
    (abuts : Abutting Instruction.lo Instruction.hi instructions)
    (pending : procedure.IsPendingOn instructions) :
    Delivers (procedure.analyze options image).outcome
      (fun analyzed => analyzed.Spans instructions ∧
        (analyzed.progress = .failed ∨
          analyzed.progress = .analyzed ∧
            IsAnalysisOf { options, image, procedure := procedure.lo }
              instructions analyzed))
      IsOverflow := by
  have sound : ∀ node ∈ procedure.body, node.IsSound := by
    intro node member
    rw [pending.body_eq] at member
    obtain ⟨instruction, -, rfl⟩ := List.mem_map.mp member
    exact Node.isSound_raw instruction
  have holds : instructionsOf procedure.body = instructions := by
    rw [pending.body_eq, instructionsOf_map_raw]
  have filled : procedure.body ≠ [] := by
    rw [pending.body_eq, Ne, List.map_eq_nil_iff]
    exact nonempty
  have bodyAbuts := holds.symm ▸ abuts
  simp only [analyze, pending.progress_eq, Traced.outcome_bind,
    Traced.outcome_note, Traced.outcome_ofExcept, ok_bind]
  apply ((Idiom.delivers_matchPrologue image filled sound bodyAbuts).mono
    (fun _ matched => matched) (fun _ impossible => impossible.elim)).bind
  intro matched keeps
  rw [holds] at keeps
  cases matched with
  | none => exact ⟨⟨pending.spans.lo_eq, pending.spans.hi_eq⟩, .inl rfl⟩
  | some body =>
      apply (delivers_analyzeBody options image nonempty pending.spans abuts
        (keeps body rfl)).weaken
      rintro analyzed ⟨sameLo, sameHi, isAnalyzed, promises⟩
      refine ⟨⟨?_, ?_⟩, .inr ⟨isAnalyzed, promises⟩⟩
      · rw [sameLo]
        exact pending.spans.lo_eq
      · rw [sameHi]
        exact pending.spans.hi_eq

end Procedure

end ProcRecovery
