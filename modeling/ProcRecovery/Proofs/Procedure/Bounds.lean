import Mathlib.Data.List.Perm.Subperm
import ProcRecovery.Proofs.Graph.Bounds
import ProcRecovery.Proofs.Procedure.Levels

/-!
# Analyses that come to their end

The contracts of the analysis excuse sums that leave their words.  For
sixteen-bit code there is nothing to excuse: the stack effects of its nodes are
modest, so are the levels that they add up to, and a symbolic stack is as wide
as a level is deep.  Every part of the analysis of such code ends with a value,
and so does the whole.
-/

namespace ProcRecovery

/-! ## Replay -/

/-- A node whose movement is its stack effect reaches no further than that. -/
theorem reachSum_le
    {nodes : List Node}
    (modest : ∀ node ∈ nodes, node.IsModest)
    (exactly : ∀ node ∈ nodes, node.byteMovement = node.stackDelta) :
    reachSum nodes ≤ movementBound * nodes.length := by
  induction nodes with
  | nil => exact Nat.zero_le _
  | cons node later hypothesis =>
      have first : node.reach ≤ movementBound := by
        rw [Node.reach, exactly node (by simp), Nat.max_self]
        exact modest node (by simp)
      have rest :=
        hypothesis (fun other member =>
          modest other (List.mem_cons_of_mem _ member))
        (fun other member => exactly other (List.mem_cons_of_mem _ member))
      rw [reachSum, List.length_cons, Nat.mul_succ]
      omega

/--
A body with modest stack effects that are the movements of its nodes, no longer
than the address space.
-/
structure IsModestBody (body : List Node) : Prop where
  modest : ∀ node ∈ body, node.IsModest
  onWords : ∀ node ∈ body, node.IsMeasured
  exactly : ∀ node ∈ body, node.byteMovement = node.stackDelta
  length_le : body.length ≤ addressSpace

/-- Levels and texts of stacks do not matter to stack effects. -/
theorem IsModestBody.of_map_eq
    {first second : List Node} {view : Node → Node}
    (isModest : IsModestBody first)
    (same : first.map view = second.map view)
    (movement_eq : ∀ node, (view node).byteMovement = node.byteMovement)
    (delta_eq : ∀ node, (view node).stackDelta = node.stackDelta) :
    IsModestBody second where
  modest := by
    apply forall_mem_of_map_eq same _ isModest.modest
    intro node
    unfold Node.IsModest
    rw [delta_eq]
  onWords := by
    apply forall_mem_of_map_eq same _ isModest.onWords
    intro node
    unfold Node.IsMeasured
    rw [movement_eq, delta_eq]
  exactly := by
    apply forall_mem_of_map_eq same _ isModest.exactly
    intro node
    rw [movement_eq, delta_eq]
  length_le := by
    have length := congrArg List.length same
    rw [List.length_map, List.length_map] at length
    rw [← length]
    exact isModest.length_le

/--
The stack on entry to a block with a bounded level, and the nodes of the block,
stay far from the sign bit of a word.
-/
theorem BlockReplay.exists_step
    (context : ReplayContext)
    {state : BlockReplay} {block : Block}
    (isModest : IsModestBody state.body)
    (leveled : ∀ level, block.level = .known level → level.natAbs ≤ levelBound)
    (proper : block.start ≤ block.stop)
    (within : block.stop ≤ state.body.length) :
    ∃ next, (BlockReplay.step context state block).outcome = .ok next := by
  have inBlock : ∀ node ∈ block.nodes state.body, node ∈ state.body :=
    fun node member =>
    List.mem_of_mem_drop (List.mem_of_mem_take member)
  have shorter : (block.nodes state.body).length ≤ addressSpace := by
    have whole := isModest.length_le
    rw [Block.nodes, List.length_take, List.length_drop]
    omega
  unfold step
  split
  next stack notLost entered =>
    have replays :=
      context.delivers_replay (block.nodes state.body)
        { stack, slots := state.slots } (isMangled_of_entryStack? entered)
        (fun node member => isModest.onWords node (inBlock node member))
    have reaches :=
      reachSum_le (fun node member =>
        isModest.modest node (inBlock node member))
      (fun node member => isModest.exactly node (inBlock node member))
    have narrow : stack.totalWidth ≤ levelBound := by
      obtain ⟨level, known⟩ := Procedure.known_of_entryStack? entered
      rw [known] at entered
      have width := totalWidth_of_entryStack? entered
      have bounded := leveled level known
      omega
    simp only [Traced.outcome_bind, Traced.outcome_ofExcept,
      Block.nodesIn_of_within proper within, ok_bind]
    cases outcome : (replay context (block.nodes state.body)
        { stack, slots := state.slots }).outcome with
    | error fault =>
        obtain ⟨-, wide⟩ := replays.of_error outcome
        have product := Nat.mul_le_mul_left movementBound shorter
        have room : levelBound + movementBound * addressSpace <
            0x8000000000000000 := by decide
        dsimp only at wide
        omega
    | ok replayed =>
        rw [ok_bind]
        cases replayed.lostAt with
        | some address => exact ⟨_, rfl⟩
        | none => exact ⟨_, rfl⟩
  next => exact ⟨state, rfl⟩

/-- The blocks of a modest body are replayed without overflow. -/
theorem exists_replayBlocks
    (context : ReplayContext)
    {graph : Graph} {body : List Node}
    (slots : FrameSlots)
    (isModest : IsModestBody body)
    (tiled : graph.tiles body = true)
    (leveled : graph.HasBoundedLevels) :
    ∃ replayed, (replayBlocks context graph body slots).outcome =
      .ok replayed := by
  unfold replayBlocks
  split
  next =>
    rw [Traced.outcome_foldlM]
    have replays : Delivers (graph.blocks.values.foldlM
        (fun state block => (BlockReplay.step context state block).outcome)
        { body, slots, lostAt := none })
        (fun replayed => replayed.body.map Node.unstacked =
          body.map Node.unstacked)
        (fun _ => False) := by
      refine Delivers.foldlM rfl (fun state same block member => ?_)
      obtain ⟨-, proper, within, -⟩ :=
        (Graph.within_of_tilesFrom tiled).2 block member
      have stateModest :=
        isModest.of_map_eq same.symm (fun _ => rfl) (fun _ => rfl)
      have length : state.body.length = body.length := by
        simpa using congrArg List.length same
      obtain ⟨next, stepped⟩ := BlockReplay.exists_step context stateModest
        (leveled block member) (Nat.le_of_lt proper) (by omega)
      rw [stepped, delivers_ok]
      exact (BlockReplay.map_unstacked_of_step stepped).trans same
    obtain ⟨replayed, finished, -⟩ := replays.exists_ok
    exact ⟨replayed, finished⟩
  next => exact ⟨_, rfl⟩

/-! ## The whole analysis -/

/-- Every node of a body holds an instruction. -/
theorem length_le_length_instructionsOf (body : List Node) :
    body.length ≤ (instructionsOf body).length := by
  induction body with
  | nil => exact Nat.zero_le _
  | cons node later hypothesis =>
      rw [instructionsOf_cons, List.length_append, List.length_cons,
        Node.instructions, List.length_cons]
      omega

/-- There are no more sixteen-bit instructions in a row than addresses. -/
theorem length_le_addressSpace
    {instructions : List Instruction}
    (abuts : Abutting Instruction.lo Instruction.hi instructions)
    (sixteenBit : ∀ instruction ∈ instructions, instruction.IsSixteenBit) :
    instructions.length ≤ addressSpace := by
  have ascending := abuts.ascending (fun instruction _ => instruction.lo_lt_hi)
  have distinct : (instructions.map Instruction.lo).Nodup :=
    List.pairwise_map.mpr (ascending.imp Nat.ne_of_lt)
  have contained :
    instructions.map Instruction.lo ⊆ List.range addressSpace := by
    intro address member
    obtain ⟨instruction, isInstruction, rfl⟩ := List.mem_map.mp member
    exact List.mem_range.mpr (sixteenBit instruction isInstruction).lo_lt
  have bound := (distinct.subperm contained).length_le
  rwa [List.length_map, List.length_range] at bound

theorem IsMeasuredBody.isModestBody
    {instructions : List Instruction} {body : List Node}
    (measured : IsMeasuredBody instructions body)
    (modest : ∀ node ∈ body, node.IsModest)
    (short : instructions.length ≤ addressSpace) :
    IsModestBody body where
  modest := modest
  onWords := measured.onWords
  exactly := measured.exactly
  length_le := by
    have nodes := length_le_length_instructionsOf body
    have same := measured.code.length_eq
    omega

namespace Procedure

/--
The analysis of a body whose nodes move the stack within the address space
comes to its end.
-/
theorem exists_analyzeBody
    (options : Options)
    (image : Image)
    {procedure : Procedure} {instructions : List Instruction}
    {body : List Node}
    (nonempty : instructions ≠ [])
    (spans : procedure.Spans instructions)
    (abuts : Abutting Instruction.lo Instruction.hi instructions)
    (holds : HoldsSoundly instructions body)
    (within : ∀ node ∈ body, node.MovesWithin)
    (short : instructions.length ≤ addressSpace) :
    ∃ analyzed, (procedure.analyzeBody options image body).outcome =
      .ok analyzed := by
  have bodyAbuts := holds.holds.symm ▸ abuts
  obtain ⟨recognized, isRecognized, like⟩ :=
    (delivers_recognize options image procedure.lo holds.sound
      bodyAbuts).exists_ok
  rw [holds.holds] at like
  obtain ⟨measured, isAssigned, modest⟩ := (delivers_modest_assignDeltas
    (movesWithin_of_recognize within isRecognized) (frameSizeOf_le within)
    procedure.lo).exists_ok
  have isMeasured := isMeasuredBody_of_assigned like
    ((delivers_assignDeltas _ procedure.lo recognized).of_ok isAssigned)
  have isModest := isMeasured.isModestBody modest short
  obtain ⟨parts, isPartition, partitioned, bounded⟩ :=
    Graph.exists_partition (isMeasured.ne_nil nonempty)
      (ascending_nodes (isMeasured.code.abutting abuts)) modest
      isModest.length_le procedure.lo
  obtain ⟨graph, isPropagated, exactly, leveled⟩ :=
    Graph.exists_propagateLevels partitioned.fresh partitioned.entered bounded
      procedure.lo
  have tiled : graph.tiles measured = true := by
    rw [exactly.tiles_eq]
    exact partitioned.tiled
  obtain ⟨annotated, isAnnotated⟩ :=
    Graph.exists_annotateLevels tiled leveled modest isModest.length_le
  obtain ⟨sameLeveled, -⟩ :=
    (Graph.delivers_annotateLevels tiled).of_ok isAnnotated
  have annotatedModest :=
    isModest.of_map_eq sameLeveled.symm (fun _ => rfl) (fun _ => rfl)
  have annotatedTiled : graph.tiles annotated = true := by
    rw [← tiled]
    exact Graph.tilesFrom_congr (map_range_congr sameLeveled (fun _ => rfl))
      rfl 0
  obtain ⟨replayed, isReplayed⟩ :=
    exists_replayBlocks { options, image, procedure := procedure.lo }
      (FrameSlots.collect annotated) annotatedModest annotatedTiled leveled
  obtain ⟨sameReplayed, -⟩ :=
    (delivers_replayBlocks _ _ annotatedModest.onWords annotatedTiled).of_ok
      isReplayed
  have code : SameCode instructions (instructionsOf replayed.body) := by
    rw [instructionsOf_congr sameReplayed (fun _ => rfl),
      instructionsOf_congr sameLeveled (fun _ => rfl)]
    exact isMeasured.code
  unfold analyzeBody
  simp only [Traced.outcome_bind, Traced.outcome_ofExcept, Traced.outcome_emit,
    ok_bind, isRecognized, isAssigned, isPartition, isPropagated, isAnnotated,
    isReplayed, isTiledBy_of_sameCode spans abuts code, ↓reduceIte]
  exact ⟨_, rfl⟩

/-- The analysis of sixteen-bit code comes to its end. -/
theorem exists_analyze
    (options : Options)
    (image : Image)
    {procedure : Procedure} {instructions : List Instruction}
    (nonempty : instructions ≠ [])
    (abuts : Abutting Instruction.lo Instruction.hi instructions)
    (pending : procedure.IsPendingOn instructions)
    (valid : ∀ instruction ∈ instructions, instruction.defect? = none)
    (sixteenBit : ∀ instruction ∈ instructions, instruction.IsSixteenBit) :
    ∃ analyzed, (procedure.analyze options image).outcome = .ok analyzed := by
  have sound : ∀ node ∈ instructions.map Node.raw, node.IsSound := by
    intro node member
    obtain ⟨instruction, -, rfl⟩ := List.mem_map.mp member
    exact Node.isSound_raw instruction
  have bodyAbuts := (instructionsOf_map_raw instructions).symm ▸ abuts
  obtain ⟨matched, isMatched, keeps⟩ := (Idiom.delivers_matchPrologue image
    (mt List.map_eq_nil_iff.mp nonempty) sound bodyAbuts).exists_ok
  rw [instructionsOf_map_raw] at keeps
  simp only [analyze, pending.progress_eq, pending.body_eq,
    Traced.outcome_bind, Traced.outcome_note, Traced.outcome_ofExcept, ok_bind,
    isMatched]
  cases matched with
  | none => exact ⟨_, rfl⟩
  | some body =>
      exact exists_analyzeBody options image nonempty pending.spans abuts
        (keeps body rfl)
        (Idiom.movesWithin_of_matchPrologue sixteenBit valid isMatched)
        (length_le_addressSpace abuts sixteenBit)

end Procedure

end ProcRecovery
