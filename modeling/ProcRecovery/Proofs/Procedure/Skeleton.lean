import ProcRecovery.Proofs.Lockstep
import ProcRecovery.Proofs.Procedure.Locality
import ProcRecovery.Proofs.Procedure.Stages

/-!
# Skeletons of procedures

Whether blocks are replayed, strings are materialized and leftover instructions
are reported makes a difference to what is said about a procedure, but not to
its structure.  The skeleton of a procedure is what remains when everything is
left out that such options may change: labels, texts of stacks and of frame
slots, and the place where tracking was lost.  Two analyses that agree on the
substitution of cached registers come to the same skeleton, and report the same
oddities apart from leftovers, lost stacks and failed reads.
-/

namespace ProcRecovery

/-! ## Structural oddities -/

/--
Whether the oddity is one of the structure of the code, and not of its idioms,
its symbolic stack or its memory.
-/
def Diagnostic.isStructural : Diagnostic → Bool
  | unrecognizedIdiom _ _ | stackTrackingLost _ | memoryUnavailable _ _ =>
      false
  | _ => true

/-- Whether an event reports an oddity of the structure of the code. -/
def Event.isStructural : Event → Bool
  | .diagnosed _ diagnostic => diagnostic.isStructural
  | .stringFound _ | .commented _ _ | .noted _ => false

/--
Two computations are in step if they come to related values and report the same
oddities of the structure.
-/
abbrev Traced.InStructuralStep
    {α β : Type}
    (relates : α → β → Prop)
    (first : Traced α)
    (second : Traced β) :
    Prop :=
  Traced.InStep Event.isStructural relates first second

theorem Event.IsOfReplay.isStructural_eq
    {procedure : Nat} {event : Event}
    (replayed : event.IsOfReplay procedure) :
    event.isStructural = false := by
  cases event with
  | diagnosed owner diagnostic =>
      cases diagnostic with
      | memoryUnavailable address read => rfl
      | stackTrackingLost address => rfl
      | _ => cases replayed
  | _ => rfl

/-! ## Frame slots -/

/-- The slot without its text. -/
def FrameSlot.untexted (slot : FrameSlot) : FrameSlot :=
  { slot with text := none }

/-- Whether the code uses a slot, whatever text may be stored in it. -/
def FrameSlot.isUsed (slot : FrameSlot) : Bool :=
  slot.untexted ≠ { offset := slot.offset }

namespace FrameSlots

/-- The slots that the code uses, without their texts. -/
def uses (slots : FrameSlots) : FrameSlots :=
  (slots.filter FrameSlot.isUsed).map (fun _ slot => slot.untexted)

/--
A text that is attached to a slot changes nothing about the uses of slots.
-/
theorem uses_update_text
    (slots : FrameSlots)
    (offset : Int)
    (text : Option String) :
    (slots.update offset (fun slot => { slot with text })).uses =
      slots.uses := by
  apply Table.ext_get?
  intro other
  simp only [uses, update, Table.get?_map, Table.get?_filter,
    Table.get?_insert]
  split
  next same =>
    subst same
    cases slots.get? other with
    | none => simp [FrameSlot.isUsed, FrameSlot.untexted]
    | some slot =>
        have used : FrameSlot.isUsed { slot with text } = slot.isUsed := rfl
        simp only [Option.getD_some, Option.filter_some, used]
        split <;> rfl
  next => rfl

end FrameSlots

/-! ## Replay -/

namespace ReplayState

theorem delivers_slots_push
    (state : ReplayState)
    (item : StackItem) :
    Delivers (state.push item) (fun next => next.slots = state.slots) (fun _ =>
      True) :=
  (delivers_trivially _).bind (fun _ _ => rfl)

theorem delivers_slots_move
    (state : ReplayState)
    (delta : Int) :
    Delivers (state.move delta) (fun next => next.slots = state.slots)
      (fun _ => True) := by
  unfold move
  split
  next => exact state.delivers_slots_push _
  next => rfl

end ReplayState

namespace ReplayContext

/-- The uses of slots are the same as in some slots. -/
def HasUsesOf
    (slots : FrameSlots)
    (state : ReplayState) :
    Prop :=
  state.slots.uses = slots.uses

theorem delivers_slots_applyInstruction
    (instruction : Instruction)
    (delta : Int)
    (state : ReplayState) :
    Delivers (applyInstruction instruction delta state) (fun next =>
      next.slots = state.slots)
      (fun _ => True) := by
  unfold applyInstruction
  apply (state.delivers_slots_move delta).bind
  intro moved same
  split
  next =>
    split
    next => exact (delivers_trivially _).bind (fun _ _ => same)
    next => exact same
  next => exact same

theorem delivers_slots_callRoutine
    (routine : Routine)
    (site : Nat)
    (state : ReplayState) :
    Delivers (callRoutine routine site state).outcome (fun next =>
      next.slots = state.slots)
      (fun _ => True) := by
  simp only [callRoutine]
  split
  next => exact (state.withStack _).delivers_slots_push _
  next => rfl

theorem delivers_uses_attachText
    (site length : Nat)
    (text : String)
    (state : ReplayState) :
    Delivers (attachText site length text state).outcome
      (HasUsesOf state.slots)
      (fun _ => True) := by
  unfold attachText
  rw [Traced.outcome_bind]
  apply (delivers_trivially _).bind
  rintro ⟨stack, destination⟩ -
  dsimp only
  split
  next => exact state.slots.uses_update_text _ _
  next =>
    rw [Traced.outcome_bind]
    apply (delivers_trivially _).bind
    rintro ⟨resolved, target⟩ -
    cases target with
    | none => rfl
    | some offset =>
        rw [Traced.outcome_bind]
        exact (delivers_trivially _).bind (fun _ _ => rfl)
  next => rfl

theorem delivers_uses_constructString
    (context : ReplayContext)
    (site : Nat)
    (state : ReplayState) :
    Delivers (context.constructString site state).outcome
      (HasUsesOf state.slots)
      (fun _ => True) := by
  unfold constructString
  rw [Traced.outcome_bind]
  apply (delivers_trivially _).bind
  rintro ⟨once, length⟩ -
  rw [Traced.outcome_bind]
  apply (delivers_trivially _).bind
  rintro ⟨stack, address⟩ -
  dsimp only
  split
  next =>
    split
    next =>
      split
      next => exact delivers_uses_attachText _ _ _ (state.withStack stack)
      next => rfl
    next => rfl
  next => rfl

/--
Nodes use slots before they are replayed, and replaying them attaches texts
only.
-/
theorem delivers_uses_apply
    (context : ReplayContext)
    (node : Node)
    (state : ReplayState) :
    Delivers (context.apply node state).outcome (HasUsesOf state.slots)
      (fun _ => True) := by
  have kept : ∀ {outcome : Except Fault ReplayState},
      Delivers outcome (fun next => next.slots = state.slots) (fun _ => True) →
        Delivers outcome (HasUsesOf state.slots) (fun _ => True) := by
    intro outcome contract
    exact contract.weaken (fun _ same => congrArg FrameSlots.uses same)
  unfold apply
  split
  case h_1 => exact kept (delivers_slots_applyInstruction _ _ _)
  case h_7 => exact context.delivers_uses_constructString _ _
  case h_8 => exact kept (delivers_slots_callRoutine _ _ _)
  case h_9 => exact kept (state.delivers_slots_move _)
  all_goals exact kept (state.delivers_slots_push _)

end ReplayContext

theorem delivers_uses_replay
    (context : ReplayContext)
    (nodes : List Node)
    (state : ReplayState) :
    Delivers (replay context nodes state).outcome
      (fun replayed => replayed.state.slots.uses = state.slots.uses) (fun _ =>
        True) := by
  induction nodes generalizing state with
  | nil => rfl
  | cons node later hypothesis =>
      rw [replay]
      split
      next => rfl
      next =>
        simp only [Traced.outcome_bind, Traced.outcome_ofExcept]
        apply (delivers_trivially _).bind
        intro before _
        apply (context.delivers_uses_apply node state).bind
        intro next same
        apply (delivers_trivially _).bind
        intro _ _
        apply (hypothesis next).bind
        intro rest sameRest
        exact sameRest.trans same

theorem delivers_uses_replayBlocks
    (context : ReplayContext)
    (graph : Graph)
    (body : List Node)
    (slots : FrameSlots) :
    Delivers (replayBlocks context graph body slots).outcome
      (fun replayed => replayed.slots.uses = slots.uses) (fun _ => True) := by
  unfold replayBlocks
  split
  next =>
    rw [Traced.outcome_foldlM]
    refine Delivers.foldlM rfl (fun state same block _ => ?_)
    unfold BlockReplay.step
    split
    next =>
      simp only [Traced.outcome_bind]
      apply (delivers_trivially _).bind
      intro own _
      apply (delivers_uses_replay context _ _).bind
      intro replayed sameReplayed
      cases replayed.lostAt with
      | some address => exact sameReplayed.trans same
      | none => exact sameReplayed.trans same
    next => exact same
  next => rfl

/-! ## Bodies -/

/-- The node without what labels and the replay of its block add to it. -/
def Node.bare (node : Node) : Node := node.unlabeled.unstacked

theorem map_bare (nodes : List Node) :
    nodes.map Node.bare = (nodes.map Node.unstacked).map Node.unlabeled := by
  rw [List.map_map]
  rfl

theorem calls_of_bare
    (caller : Nat)
    {body other : List Node}
    (same : body.map Node.bare = other.map Node.bare) :
    (body.filterMap (Node.callSite? caller)).map CallSite.unlabeled =
      (other.filterMap (Node.callSite? caller)).map CallSite.unlabeled := by
  have stacked : ∀ nodes : List Node,
      (nodes.map Node.unstacked).filterMap (Node.callSite? caller) =
        nodes.filterMap (Node.callSite? caller) := by
    intro nodes
    rw [List.filterMap_map]
    rfl
  rw [map_bare, map_bare] at same
  rw [← stacked body, ← stacked other]
  exact Procedure.calls_unlabeled caller same

/--
Replays of bodies that differ in labels leave bodies that differ in labels and
texts of stacks.
-/
theorem bare_of_unstacked
    {body other replayed another : List Node}
    (same : body.map Node.unlabeled = other.map Node.unlabeled)
    (first : replayed.map Node.unstacked = body.map Node.unstacked)
    (second : another.map Node.unstacked = other.map Node.unstacked) :
    replayed.map Node.bare = another.map Node.bare := by
  have swapped : ∀ nodes : List Node,
      (nodes.map Node.unstacked).map Node.unlabeled =
        (nodes.map Node.unlabeled).map Node.unstacked := by
    intro nodes
    rw [List.map_map, List.map_map]
    rfl
  rw [map_bare, first, swapped, same, ← swapped, ← second, ← map_bare]

namespace Procedure

/--
The structure of a procedure: all of it but labels, the texts of stacks and
slots, slots that nothing but a text is known of, and where tracking was lost.
-/
def skeleton (procedure : Procedure) : Procedure :=
  { procedure with
    body := procedure.body.map Node.bare
    slots := procedure.slots.uses
    calls := procedure.calls.map CallSite.unlabeled
    trackingLostAt := none }

/-! ## Two analyses -/

section Analyses

variable {options others : Options} {first second : Image}

theorem registerCache_congr
    (sameCaches : options.substitutesCachedRegisters =
      others.substitutesCachedRegisters)
    (body : List Node) :
    Idiom.registerCache options body = Idiom.registerCache others body := by
  have substitutes : Idiom.substituteNode options =
      Idiom.substituteNode others := by
    funext cached node
    unfold Idiom.substituteNode
    rw [sameCaches]
  unfold Idiom.registerCache
  rw [substitutes]

theorem inStep_recognize
    (sameCaches : options.substitutesCachedRegisters =
      others.substitutesCachedRegisters)
    (shares : first.SharesProgram second)
    (procedure : Nat)
    (body : List Node) :
    Traced.InStructuralStep
      (fun recognized another =>
        recognized.map Node.unlabeled = another.map Node.unlabeled)
      (recognize options first procedure body)
        (recognize others second procedure body) := by
  apply Traced.inStep_bind_of_eq (registerCache_congr sameCaches body)
  intro cached
  apply (Idiom.collapseAll_unlabeled shares cached).inStep.bind
  intro collapsed another _ _ same
  have leftovers : ∀ (options : Options) (body : List Node),
      ∀ event ∈ Idiom.reportLeftovers options procedure body,
      event.isStructural = false := by
    intro options body event member
    rcases exists_of_mem_reportLeftovers member with ⟨address, text, rfl⟩
    rfl
  apply (Traced.inStep_emit (leftovers options collapsed)
    (leftovers others another)).bind
  intro _ _ _ _ _
  apply Traced.inStep_bind_of_eq
    (congrArg Traced.emit (reportUnreadable_unlabeled procedure same))
  intro _
  exact Traced.inStep_pure same

/--
What blocks look like to one replay and to another: the same bodies, apart from
labels and texts of stacks, and the same uses of slots.
-/
def ReplaysAlike (replayed another : BlockReplay) : Prop :=
  replayed.body.map Node.bare = another.body.map Node.bare ∧
    replayed.slots.uses = another.slots.uses

theorem inStep_replayBlocks
    (context other : ReplayContext)
    {graph : Graph} {body otherBody : List Node}
    (slots : FrameSlots)
    (same : body.map Node.unlabeled = otherBody.map Node.unlabeled) :
    Traced.InStructuralStep ReplaysAlike
      (replayBlocks context graph body slots)
      (replayBlocks other graph otherBody slots) := by
  have silent : ∀ (context : ReplayContext) (body : List Node),
      Traced.EmitsOnly (fun event => event.isStructural = false)
        (replayBlocks context graph body slots) := by
    intro context body
    exact (emitsOnly_replayBlocks context graph body slots).mono
      (fun _ replayed => replayed.isStructural_eq)
  apply Traced.inStep_of_silent (silent context body) (silent other otherBody)
  constructor
  intro replayed another isReplayed isAnother
  constructor
  · exact bare_of_unstacked same (map_unstacked_of_replayBlocks isReplayed)
      (map_unstacked_of_replayBlocks isAnother)
  · rw [(delivers_uses_replayBlocks context graph body slots).of_ok isReplayed,
      (delivers_uses_replayBlocks other graph otherBody slots).of_ok isAnother]

theorem inStep_analyzeBody
    (sameCaches : options.substitutesCachedRegisters =
      others.substitutesCachedRegisters)
    (shares : first.SharesProgram second)
    (procedure : Procedure)
    (body : List Node) :
    Traced.InStructuralStep (fun analyzed another =>
      analyzed.skeleton = another.skeleton)
      (procedure.analyzeBody options first body)
        (procedure.analyzeBody others second body) := by
  unfold analyzeBody
  apply (inStep_recognize sameCaches shares procedure.lo body).bind
  intro recognized recognized' _ _ sameRecognized
  apply (assignDeltas_unlabeled _ procedure.lo sameRecognized).inStep.bind
  intro measured measured' _ _ sameMeasured
  apply Traced.inStep_bind_of_eq
    (partition_unlabeled procedure.lo sameMeasured)
  intro parts
  apply Traced.inStep_bind_of_eq rfl
  intro graph
  apply (Traced.agreeBy_ofExcept
    (annotateLevels_unlabeled graph sameMeasured)).inStep.bind
  intro leveled leveled' _ _ sameLeveled
  -- From here on the two bodies differ in the texts of stacks as well.
  rw [collect_unlabeled sameLeveled]
  apply (inStep_replayBlocks _ _ _ sameLeveled).bind
  rintro replayed replayed' - - ⟨sameBody, sameSlots⟩
  have literals : ∀ (options : Options) (body : List Node),
      ∀ event ∈ literalEvents options body, event.isStructural = false := by
    intro options body event member
    exact ((emitsOnly_literalEvents options procedure.lo body).each event
      member).isStructural_eq
  apply (Traced.inStep_emit (literals options replayed.body)
    (literals others replayed'.body)).bind
  intro _ _ _ _ _
  split
  next =>
    split
    next =>
      apply (Traced.inStep_emit (by simp [Event.isStructural])
        (by simp [Event.isStructural])).bind
      intro _ _ _ _ _
      apply Traced.inStep_pure
      simp only [skeleton, sameBody, sameSlots,
        calls_of_bare procedure.lo sameBody]
    next => exact Traced.inStep_stop_right _
  next => exact Traced.inStep_stop_left _

/--
In two images of the same program, analyses of a procedure that agree on the
substitution of cached registers come to the same skeleton and report the same
oddities of the structure.
-/
theorem inStep_analyze
    (sameCaches : options.substitutesCachedRegisters =
      others.substitutesCachedRegisters)
    (shares : first.SharesProgram second)
    (procedure : Procedure) :
    Traced.InStructuralStep (fun analyzed another =>
      analyzed.skeleton = another.skeleton)
      (procedure.analyze options first) (procedure.analyze others second) := by
  unfold analyze
  split
  next => exact Traced.inStep_pure rfl
  next => exact Traced.inStep_pure rfl
  next =>
    apply Traced.inStep_bind_of_eq rfl
    intro _
    rw [Idiom.matchPrologue_congr first second]
    apply Traced.inStep_bind_of_eq rfl
    intro matched
    cases matched with
    | some body => exact inStep_analyzeBody sameCaches shares procedure body
    | none =>
        apply Traced.inStep_bind_of_eq rfl
        intro _
        exact Traced.inStep_pure rfl

end Analyses

end Procedure

end ProcRecovery
