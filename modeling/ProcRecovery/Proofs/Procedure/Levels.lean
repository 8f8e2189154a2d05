import ProcRecovery.Proofs.Procedure.Analysis

/-!
# Replay and levels agree

There are two accounts of where the stack pointer is: the stack effects and
levels that are summed up before any replay, and the symbolic stack during a
replay.  They agree.  The check that a replay makes after every node cannot
fail, the width of the stack is the starting width less the stack effects so
far, and in an analyzed procedure the stack before a node is as wide as the
level of the node is deep.
-/

namespace ProcRecovery

namespace ReplayContext

/--
As long as it is tracked, a stack is as wide as it was at the start, less the
stack effects of the nodes that have been replayed.
-/
def TracksEffects
    (context : ReplayContext)
    (state : ReplayState)
    (nodes : List Node) :
    Prop :=
  ∀ earlier later annotated reached, nodes = earlier ++ later →
    context.Run state earlier annotated reached →
    reached.stack.isMangled = true ∨
      (reached.stack.totalWidth : Int) =
        state.stack.totalWidth - deltaSum earlier

theorem tracksEffects_of_exact
    (context : ReplayContext)
    (state : ReplayState)
    {nodes : List Node}
    (exactly : ∀ node ∈ nodes, node.byteMovement = node.stackDelta) :
    context.TracksEffects state nodes := by
  intro earlier later annotated reached shape run
  subst shape
  have moved :=
    run.movedBy (fun node member =>
      exactly node (List.mem_append_left later member))
  cases mangled : reached.stack.isMangled with
  | true => exact .inl rfl
  | false => exact .inr (moved mangled).2

end ReplayContext

namespace Procedure

/--
Before each node of a block that is replayed from the stack on entry to the
block, the stack is as wide as the level of the node is deep.
-/
def LevelsMatchStacks (analyzed : Procedure) : Prop :=
  ∀ block ∈ analyzed.graph.blocks.values, ∀ stack,
    entryStack? block.level = some stack →
    ∀ nodes, nodes.map Node.unstacked =
      (block.nodes analyzed.body).map Node.unstacked →
      ∀ (context : ReplayContext) (slots : FrameSlots)
        (earlier later annotated : List Node)
        (node : Node) (before : ReplayState),
        nodes = earlier ++ node :: later →
        context.Run { stack, slots } earlier annotated before →
        before.stack.isMangled = false →
        ∃ depth, node.stackLevel = .known depth ∧
        (before.stack.totalWidth : Int) = -depth

theorem known_of_entryStack?
    {level : Resolution Int} {stack : SymbolicStack}
    (entered : entryStack? level = some stack) :
    ∃ depth, level = .known depth := by
  unfold entryStack? at entered
  split at entered
  next depth => exact ⟨depth, rfl⟩
  next => cases entered

theorem IsAnalysisOf.levelsMatchStacks
    {context : ReplayContext} {instructions : List Instruction}
    {analyzed : Procedure}
    (promises : IsAnalysisOf context instructions analyzed) :
    analyzed.LevelsMatchStacks := by
  intro block member stack entered nodes same other slots earlier later
    annotated node before
    shape run tracked
  obtain ⟨level, isKnown⟩ := known_of_entryStack? entered
  have running := (promises.levels block member).of_unstacked same.symm
  have inBlock : ∀ node ∈ block.nodes analyzed.body,
      node.byteMovement = node.stackDelta :=
    fun node isNode =>
      promises.exactly node
        (List.mem_of_mem_drop (List.mem_of_mem_take isNode))
  have exactly : ∀ node ∈ nodes, node.byteMovement = node.stackDelta :=
    forall_mem_of_map_eq same.symm (fun _ => Iff.rfl) inBlock
  rw [isKnown] at entered running
  have width := totalWidth_of_entryStack? entered
  subst shape
  rcases other.tracksEffects_of_exact { stack, slots } exactly earlier
    (node :: later) annotated
    before rfl run with mangled | moved
  · rw [mangled] at tracked
    cases tracked
  · refine ⟨level + deltaSum earlier, running.level_eq, ?_⟩
    have narrowed : (before.stack.totalWidth : Int) =
        stack.totalWidth - deltaSum earlier := moved
    omega

/-- Without instructions there is no prologue, and the analysis gives up. -/
theorem progress_analyze_nil (options : Options) (image : Image) :
    Delivers ((ofInstructions []).analyze options image).outcome
      (fun analyzed => analyzed.progress = .failed) (fun _ => False) := by
  simp [analyze, ofInstructions, Idiom.matchPrologue, Idiom.firstMatch?,
    Idiom.prologues, Idiom.Template.match?]
  exact rfl

end Procedure

/--
Replay and stack effects agree.  A replay of nodes with their stack effects
gives back what it has to unless widths reach the sign bit of a word, in
particular the check after each node does not fail; with widths that words read
as they are, the stack follows the stack effects exactly.  So in every
procedure the levels of nodes are the widths of the stacks before them.
-/
theorem replay_agrees_with_levels :
    (∀ (frameSize procedure : Nat) (body nodes : List Node),
      (assignDeltas frameSize procedure body).outcome = .ok nodes →
      ∀ (context : ReplayContext) (state : ReplayState),
        state.stack.isMangled = false →
        Delivers (replay context nodes state).outcome
          (context.Result state nodes)
            (OverflowExcuse (state.stack.totalWidth + reachSum nodes)) ∧
          ((∀ node ∈ body, FitsSigned node.pushedBytes) →
            context.TracksEffects state nodes)) ∧
    (∀ (options : Options) (image : Image) (instructions : List Instruction),
      Abutting Instruction.lo Instruction.hi instructions →
      Delivers ((Procedure.ofInstructions instructions).analyze options
        image).outcome
        (fun analyzed => analyzed.progress = .analyzed →
          analyzed.LevelsMatchStacks ∧
            analyzed.IsReplayedIn
              { options, image,
                procedure := (Procedure.ofInstructions instructions).lo })
        IsOverflow) := by
  constructor
  · intro frameSize procedure body nodes finished context state tracked
    have assigned :=
      (delivers_assignDeltas frameSize procedure body).of_ok finished
    constructor
    · apply context.delivers_replay nodes state tracked
      intro node member
      obtain ⟨original, -, isAssigned⟩ := exists_of_mem_right assigned member
      exact isAssigned.onWords
    · intro fits
      apply context.tracksEffects_of_exact state
      intro node member
      obtain ⟨original, isOriginal, isAssigned⟩ :=
        exists_of_mem_right assigned member
      exact isAssigned.exactly (fits original isOriginal)
  · intro options image instructions abuts
    by_cases empty : instructions = []
    · subst empty
      apply (Procedure.progress_analyze_nil options image).mono
      · intro analyzed failed isAnalyzed
        rw [failed] at isAnalyzed
        cases isAnalyzed
      · intro fault impossible
        exact impossible.elim
    · apply (Procedure.delivers_analyze options image empty abuts
        (Procedure.isPendingOn_ofInstructions empty)).weaken
      rintro analyzed ⟨-, failed | ⟨-, promises⟩⟩ isAnalyzed
      · rw [failed] at isAnalyzed
        cases isAnalyzed
      · exact ⟨promises.levelsMatchStacks, promises.replays⟩

/--
A procedure that sets up its frame, pushes a literal, overwrites it and
returns.
-/
def pushingCode : List Instruction :=
  [ ⟨0x1000, 0x1002, .mov, .word, [.register .fp, .autoDecrement .sp],
    by decide⟩,
    ⟨0x1002, 0x1004, .mov, .word, [.register .sp, .register .fp], by decide⟩,
    ⟨0x1004, 0x1008, .cmp, .word, [.register .sp, .absolute 0x2100],
      by decide⟩,
    ⟨0x1008, 0x100a, .branch .higher, .word, [.target 0x100e], by decide⟩,
    ⟨0x100a, 0x100c, .sev, .word, [], by decide⟩,
    ⟨0x100c, 0x100e, .trap, .word, [], by decide⟩,
    ⟨0x100e, 0x1012, .mov, .word, [.immediate 5, .autoDecrement .sp],
      by decide⟩,
    ⟨0x1012, 0x1018, .mov, .word, [.immediate 7, .indexed 0 .sp], by decide⟩,
    ⟨0x1018, 0x101a, .rts, .word, [.register .pc], by decide⟩ ]

/-- The only block of the procedure is replayed to its end. -/
theorem replay_agrees_with_levels_pushingCode :
    (∃ nodes, (assignDeltas 0 0x1000 (pushingCode.map Node.raw)).outcome =
      .ok nodes ∧
      ReplayContext.TracksEffects
        { options := {}, image := { name := "pushing" }, procedure := 0 }
        { stack := .empty, slots := ∅ } nodes) ∧
    (∃ analyzed,
      ((Procedure.ofInstructions pushingCode).analyze {}
        { name := "pushing" }).outcome =
        .ok analyzed ∧
      analyzed.progress = .analyzed ∧ analyzed.LevelsMatchStacks ∧
      analyzed.IsReplayedIn
        { options := {}
          image := { name := "pushing" }
          procedure := (Procedure.ofInstructions pushingCode).lo } ∧
      analyzed.trackingLostAt = none ∧
      analyzed.body.map Node.stackAfter =
        [some "\x7b?2\x7d", some "\x7b#5|?2\x7d", some "\x7b#7|?2\x7d",
          some "\x7b#7|?2\x7d"]) := by
  have fits : ∀ node ∈ pushingCode.map Node.raw, FitsSigned node.pushedBytes :=
    by decide
  have assigns :
      ((assignDeltas 0 0x1000
        (pushingCode.map Node.raw)).outcome.toOption).isSome := by
    decide +kernel
  have analyzes :
      ((Procedure.ofInstructions pushingCode).analyze {}
        { name := "pushing" }).outcome.toOption.map
        (fun analyzed => (analyzed.progress, analyzed.trackingLostAt,
          analyzed.body.map Node.stackAfter)) =
        some (.analyzed, none, [some "\x7b?2\x7d", some "\x7b#5|?2\x7d",
          some "\x7b#7|?2\x7d", some "\x7b#7|?2\x7d"]) := by
    decide +kernel
  constructor
  · cases assigned :
      (assignDeltas 0 0x1000 (pushingCode.map Node.raw)).outcome with
    | error fault =>
        rw [assigned] at assigns
        cases assigns
    | ok nodes =>
        exact ⟨nodes, rfl,
          (replay_agrees_with_levels.1 _ _ _ _ assigned _ _ rfl).2 fits⟩
  · have promised :=
      replay_agrees_with_levels.2 {} { name := "pushing" } pushingCode
        (by decide)
    rcases Option.map_eq_some_iff.mp analyzes with ⟨analyzed, isOk, computed⟩
    have finished := eq_ok_of_toOption isOk
    simp only [Prod.mk.injEq] at computed
    rcases computed with ⟨isAnalyzed, notLost, remaining⟩
    rcases promised.of_ok finished isAnalyzed with ⟨levelsMatch, replays⟩
    exact ⟨analyzed, finished, isAnalyzed, levelsMatch, replays, notLost,
      remaining⟩

end ProcRecovery
