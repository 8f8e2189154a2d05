import ProcRecovery.Proofs.Graph.Accounting
import ProcRecovery.Proofs.Idiom.Containment
import ProcRecovery.Proofs.Procedure.Stages

/-!
# Control flow of an analyzed procedure

Recognizing idioms, dividing a body into blocks and annotating it lose no
control flow without saying so.  The jumps of instructions that an operation
stands for stay within the operation, and on every way out of a node control
either stays in the body as the graph says, or falls off its end, or is
reported to be lost.
-/

namespace ProcRecovery

/--
The ways reported to lead nowhere in a procedure: where from, and where to.
-/
def lostReports (procedure : Nat) (diagnostics : List (Nat × Diagnostic)) :
    List (Nat × Option Nat) :=
  diagnostics.filterMap (fun report =>
    match report.2 with
    | .missingFlowTarget address target =>
      if report.1 = procedure then some (address, target) else none
    | _ => none)

theorem lostReports_append
    (procedure : Nat)
    (first second : List (Nat × Diagnostic)) :
    lostReports procedure (first ++ second) =
      lostReports procedure first ++ lostReports procedure second :=
  List.filterMap_append

theorem lostReports_eq_nil
    {procedure : Nat} {events : List Event}
    (silent : ∀ address target,
      Event.diagnosed procedure (.missingFlowTarget address target) ∉ events) :
    lostReports procedure (diagnosticsOf events) = [] := by
  rw [lostReports, diagnosticsOf, List.filterMap_filterMap,
    List.filterMap_eq_nil_iff]
  intro event member
  cases event with
  | diagnosed owner diagnostic =>
      cases diagnostic with
      | missingFlowTarget address target =>
          show (if owner = procedure then some (address, target) else none) =
              none
          rw [if_neg]
          rintro rfl
          exact silent address target member
      | _ => rfl
  | _ => rfl

/-- Events inside of a procedure do not report lost ways. -/
theorem lostReports_of_internal
    {owner procedure : Nat} {events : List Event}
    (internal : ∀ event ∈ events, event.IsInternal owner) :
    lostReports procedure (diagnosticsOf events) = [] := by
  apply lostReports_eq_nil
  intro address target member
  cases (internal _ member).2

theorem lostReports_lostEvents
    (procedure : Nat)
    (lost : List (Nat × Option Nat)) :
    lostReports procedure
      (diagnosticsOf (lost.map (Graph.lostEvent procedure))) = lost := by
  rw [lostReports, diagnosticsOf, List.filterMap_map, List.filterMap_filterMap]
  simp [Graph.lostEvent, Event.diagnostic?]

namespace Procedure

/--
Control flow is kept in an analyzed procedure, given what has been reported.
-/
structure KeepsFlow
    (analyzed : Procedure)
    (diagnostics : List (Nat × Diagnostic)) :
    Prop where
  /-- A way out of a machine instruction is a way out of its node. -/
  plain : ∀ node ∈ analyzed.body, node.op = none →
    ∀ instruction ∈ node.instructions,
    ∀ way ∈ instruction.flow, way.kind ≠ .call → way ∈ node.flow
  /--
  A way out of an instruction that an operation stands for stays within the
  operation.
  -/
  absorbed : ∀ node ∈ analyzed.body, ∀ op, node.op = some op →
    (∀ slot, op ≠ .bailout slot) →
    ∀ instruction ∈ node.instructions, ∀ way ∈ instruction.flow,
    way.kind ≠ .call →
      ∃ target, way.destination = some target ∧ node.lo ≤ target ∧
      target ≤ node.hi
  accounted :
    analyzed.graph.AccountsForFlow analyzed.body
      (lostReports analyzed.lo diagnostics)

end Procedure

/-! ## Nodes with their ways -/

/--
A node that stands for one instruction or for an operation falls through to its
own end.
-/
theorem Node.destination_of_normal
    {node : Node}
    (plain : node.op = none → node.rest = [])
    {way : Flow}
    (isWay : way ∈ node.flow)
    (normal : way.kind = .normal) :
    way.destination = some node.hi := by
  unfold flow at isWay
  split at isWay
  next isNone =>
    rcases Instruction.mem_flow_cases isWay with isCall | same | ⟨-, jumps⟩
    · rw [isCall] at normal
      cases normal
    · rw [same, hi, plain isNone]
      rfl
    · exact absurd normal jumps
  next => cases isWay
  next => cases isWay
  next =>
    rcases List.mem_cons.mp isWay with rfl | isNext
    · cases normal
    · rw [List.mem_singleton.mp isNext]
  next => rw [List.mem_singleton.mp isWay]

/--
What a node is contained in depends on its operation and its instructions only.
-/
theorem Node.IsContained.congr
    {first second : Node}
    (contained : first.IsContained)
    (sameOp : second.op = first.op)
    (sameFirst : second.first = first.first)
    (sameRest : second.rest = first.rest) :
    second.IsContained := by
  have sameInstructions : second.instructions = first.instructions := by
    rw [instructions, sameFirst, sameRest, instructions]
  refine ⟨?_, ?_, ?_⟩
  · rw [sameOp, sameRest]
    exact contained.plain
  · rw [sameInstructions]
    exact contained.once
  · rw [sameOp, sameInstructions]
    exact contained.jumps

theorem isContained_of_assigned
    {body measured : List Node}
    (contained : ∀ node ∈ body, node.IsContained)
    (assigned : List.Forall₂ Node.Assigned body measured) :
    ∀ node ∈ measured, node.IsContained := by
  intro node member
  rcases exists_of_mem_right assigned member with
    ⟨original, isOriginal, isAssigned⟩
  rw [isAssigned.same]
  exact (contained original isOriginal).congr rfl rfl rfl

/-- Bodies with the same outlines have contained nodes alike. -/
theorem isContained_of_outline
    {first second : List Node}
    (same : first.map Node.outline = second.map Node.outline)
    (contained : ∀ node ∈ first, node.IsContained) :
    ∀ node ∈ second, node.IsContained := by
  apply forall_mem_of_map_eq same _ contained
  intro node
  constructor
  · intro outlined
    exact outlined.congr rfl rfl rfl
  · intro inFull
    exact inFull.congr rfl rfl rfl

/-- A body of contained nodes over abutting instructions is laid out. -/
theorem isLaidOut_of_contained
    {body : List Node}
    (abuts : Abutting Instruction.lo Instruction.hi (instructionsOf body))
    (contained : ∀ node ∈ body, node.IsContained) :
    Graph.IsLaidOut body where
  abuts := abutting_nodes abuts
  proper :=
    fun _ member =>
      Node.lo_lt_hi_of_abutting (abutting_instructions abuts member)
  falls := fun node member _ isWay normal =>
    Node.destination_of_normal (contained node member).plain isWay normal

/-! ## From the code of a procedure to its analysis -/

namespace Procedure

namespace Stages

variable {options : Options} {image : Image} {procedure analyzed : Procedure}
  {body : List Node} {events : List Event} {instructions : List Instruction}

theorem isMeasuredBody
    (stages : Stages options image procedure body events analyzed)
    (abuts : Abutting Instruction.lo Instruction.hi instructions)
    (holds : HoldsSoundly instructions body) :
    IsMeasuredBody instructions stages.measured := by
  have like := (delivers_recognize options image procedure.lo holds.sound
    (holds.holds.symm ▸ abuts)).of_ok stages.recognizes
  rw [holds.holds] at like
  exact isMeasuredBody_of_assigned like
    ((delivers_assignDeltas _ _ _).of_ok stages.measures)

theorem isLaidOut
    (stages : Stages options image procedure body events analyzed)
    (abuts : Abutting Instruction.lo Instruction.hi instructions)
    (holds : HoldsSoundly instructions body)
    (contained : ∀ node ∈ body, node.IsContained) :
    (∀ node ∈ stages.measured, node.IsContained) ∧
      Graph.IsLaidOut stages.measured := by
  have measuredContained := isContained_of_assigned
    (isContained_of_recognize contained stages.recognizes)
    ((delivers_assignDeltas _ _ _).of_ok stages.measures)
  exact ⟨measuredContained,
    isLaidOut_of_contained
    ((stages.isMeasuredBody abuts holds).code.abutting abuts)
      measuredContained⟩

/--
After the division into blocks the stages change the levels of nodes and the
texts of stacks only, and of blocks their levels.
-/
theorem annotatesImage
    (stages : Stages options image procedure body events analyzed)
    (measured : IsMeasuredBody instructions stages.measured)
    (nonempty : stages.measured ≠ [])
    (ascending :
      stages.measured.Pairwise (fun earlier later => earlier.lo < later.lo)) :
    stages.replayed.body.map Node.outline = stages.measured.map Node.outline ∧
      stages.graph.tiles stages.measured = true ∧
      ∀ address, (stages.graph.blocks.get? address).map Block.unleveled =
        (stages.parts.blocks.get? address).map Block.unleveled := by
  have parted :=
    (Graph.delivers_partition nonempty ascending procedure.lo).of_ok
    stages.divides.outcome_eq
  have exactLevels :=
    (Graph.delivers_propagateLevels parted.fresh parted.entered
      procedure.lo).of_ok stages.propagates
  have tiled : stages.graph.tiles stages.measured = true := by
    rw [exactLevels.tiles_eq]
    exact parted.tiled
  rcases (Graph.delivers_annotateLevels tiled).of_ok stages.levels with
    ⟨sameLeveled, -⟩
  have leveledMeasured :=
    measured.of_map_eq sameLeveled.symm (fun _ => rfl) (fun _ => rfl)
    (fun _ => rfl)
  have leveledTiled : stages.graph.tiles stages.leveled = true := by
    rw [← tiled]
    exact Graph.tilesFrom_congr (map_range_congr sameLeveled (fun _ => rfl))
      rfl 0
  rcases (delivers_replayBlocks _ _ leveledMeasured.onWords leveledTiled).of_ok
    stages.replays with
    ⟨sameReplayed, -⟩
  refine ⟨?_, tiled, exactLevels.shape⟩
  have replayed := congrArg (List.map Node.outline) sameReplayed
  have leveled := congrArg (List.map Node.outline) sameLeveled
  simp only [List.map_map] at replayed leveled
  exact replayed.trans leveled

/-- The reports of lost ways are those of the division into blocks. -/
theorem lostReports_eq
    (stages : Stages options image procedure body events analyzed)
    {lost : List (Nat × Option Nat)}
    (dividing : stages.dividing = lost.map (Graph.lostEvent procedure.lo)) :
    lostReports procedure.lo (diagnosticsOf events) = lost := by
  rw [stages.events_eq, diagnosticsOf_append, diagnosticsOf_append,
    lostReports_append, lostReports_append,
    lostReports_of_internal stages.earlier_internal,
    lostReports_of_internal stages.later_internal, dividing,
    lostReports_lostEvents, List.nil_append, List.append_nil]

/-- An analysis from a body of contained nodes on keeps control flow. -/
theorem keepsFlow
    (stages : Stages options image procedure body events analyzed)
    (nonempty : instructions ≠ [])
    (abuts : Abutting Instruction.lo Instruction.hi instructions)
    (holds : HoldsSoundly instructions body)
    (contained : ∀ node ∈ body, node.IsContained) :
    analyzed.KeepsFlow (diagnosticsOf events) := by
  have measured := stages.isMeasuredBody abuts holds
  rcases stages.isLaidOut abuts holds contained with
    ⟨measuredContained, measuredLaidOut⟩
  rcases stages.annotatesImage measured (measured.ne_nil nonempty)
    measuredLaidOut.ascending with
    ⟨same, tiled, shape⟩
  have final :=
    measured.of_map_eq same.symm (fun _ => rfl) (fun _ => rfl) (fun _ => rfl)
  have finalContained := isContained_of_outline same.symm measuredContained
  have finalAbuts := final.code.abutting abuts
  have laidOut := isLaidOut_of_contained finalAbuts finalContained
  -- The final body is divided the way the measured one was.
  have divided :
      (Graph.partition stages.replayed.body procedure.lo).Finishes
        stages.dividing
      stages.parts := by
    rw [← Graph.partition_outline, same, Graph.partition_outline]
    exact stages.divides
  have finalTiled : stages.graph.tiles stages.replayed.body = true := by
    rw [← tiled]
    exact Graph.tilesFrom_congr (map_range_congr same (fun _ => rfl)) rfl 0
  have division := (Graph.isDivision_of_partition laidOut divided
    (final.ne_nil nonempty)).of_unleveled finalTiled shape
  have reports := stages.lostReports_eq
    (Graph.events_of_partition laidOut divided (final.ne_nil nonempty))
  have accounted := division.accountsForFlow laidOut
  rw [← reports] at accounted
  rw [stages.analyzed_eq]
  refine ⟨?_, ?_, accounted⟩
  · intro node member isNone instruction owned way isWay _
    rw [Node.instructions, (finalContained node member).plain isNone,
      List.mem_singleton] at owned
    rw [Node.flow, isNone, ← owned]
    exact isWay
  · intro node member op isOp noBailout instruction owned way isWay noCall
    exact (finalContained node member).destination_within
      (abutting_instructions finalAbuts member) isOp noBailout owned isWay
      noCall

end Stages

/-- The analysis of a run of instructions keeps its control flow. -/
theorem keepsFlow_of_analyze
    {options : Options} {image : Image} {instructions : List Instruction}
    (nonempty : instructions ≠ [])
    (abuts : Abutting Instruction.lo Instruction.hi instructions)
    (once : BranchesOnce instructions)
    {procedure analyzed : Procedure}
    (pending : procedure.IsPendingOn instructions)
    {events : List Event}
    (finished : (procedure.analyze options image).Finishes events analyzed)
    (isAnalyzed : analyzed.progress = .analyzed) :
    analyzed.KeepsFlow (diagnosticsOf events) := by
  rcases analyze_cases pending.progress_eq finished with
    ⟨rfl, -⟩ | ⟨body, later, matched, rfl, ⟨stages⟩⟩
  · cases isAnalyzed
  rw [pending.body_eq] at matched
  have filled : instructions.map Node.raw ≠ [] := by
    rw [Ne, List.map_eq_nil_iff]
    exact nonempty
  have raw : ∀ node ∈ instructions.map Node.raw, node.IsSound ∧
      node.IsContained := by
    intro node member
    rcases List.mem_map.mp member with ⟨instruction, isInstruction, rfl⟩
    exact ⟨Node.isSound_raw instruction,
      Node.isContained_raw (once instruction isInstruction)⟩
  have holds :=
    (Idiom.delivers_matchPrologue image filled
      (fun node member => (raw node member).1)
      (by rwa [instructionsOf_map_raw])).of_ok matched body rfl
  rw [instructionsOf_map_raw] at holds
  have contained := Idiom.isContained_of_matchPrologue
    (fun node member => (raw node member).2) matched
  exact stages.keepsFlow nonempty abuts holds contained

end Procedure

end ProcRecovery
