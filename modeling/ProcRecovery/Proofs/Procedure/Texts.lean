import ProcRecovery.Proofs.Procedure.Locality
import ProcRecovery.Proofs.Procedure.Operations

/-!
# Recovered texts

An analysis annotates the image for one reason only: it has recovered a text.
There are two ways to do so.  A loop that pushes a text byte by byte is
recognized as such, and the replay of a block may come to a call that copies a
text whose length and address are on the stack.  Either way the text stands in
the memory of the image.
-/

namespace ProcRecovery

/--
The events that annotate the image do so because a text has been recovered: for
the code at a site, from an address, with some spelling.
-/
def Event.IsDueTo
    (options : Options)
    (recovers : Nat → Nat → String → Prop) :
    Event → Prop
  | .stringFound address =>
    options.materializesStrings = true ∧ ∃ site text,
      recovers site address text
  | .commented site content =>
    options.materializesStrings = true ∧
      ∃ address text, recovers site address text ∧ content = Text.quoted text
  | .diagnosed _ _ | .noted _ => True

theorem Event.IsDueTo.mono
    {options : Options} {recovers also : Nat → Nat → String → Prop}
    (weaker : ∀ site address text, recovers site address text →
      also site address text)
    {event : Event}
    (due : event.IsDueTo options recovers) :
    event.IsDueTo options also := by
  cases event with
  | stringFound address =>
      rcases due with ⟨materializes, site, text, recovered⟩
      exact ⟨materializes, site, text, weaker site address text recovered⟩
  | commented site content =>
      rcases due with ⟨materializes, address, text, recovered, quoted⟩
      exact ⟨materializes, address, text, weaker site address text recovered,
        quoted⟩
  | _ => trivial

theorem Event.isDueTo_of_plain
    {options : Options} {recovers : Nat → Nat → String → Prop} {event : Event}
    (plain : event.annotatesImage = false) :
    event.IsDueTo options recovers := by
  cases event with
  | stringFound address => cases plain
  | commented site content => cases plain
  | _ => trivial

/-! ## Texts that are pushed -/

/-- A text that an operation pushes is written in the image. -/
def PseudoOp.IsSpelledIn (image : Image) : PseudoOp → Prop
  | .stringLiteral source width (.known text) =>
    (image.read source width).map Text.ofBytes = .ok text
  | _ => True

/-- A text that a node pushes is written in the image. -/
def Node.IsSpelledIn
    (image : Image)
    (node : Node) :
    Prop :=
  ∀ op ∈ node.op, op.IsSpelledIn image

/-- The operation of a node that was recognized has read its text. -/
theorem Node.IsRecognizedIn.isSpelledIn
    {image : Image} {node : Node}
    (recognized : node.IsRecognizedIn image) :
    node.IsSpelledIn image := by
  intro op isOp
  have isRead := (recognized op isOp).isReadFrom
  unfold PseudoOp.IsSpelledIn
  split
  next => exact isRead
  next => trivial

/-! ## Texts that are copied -/

namespace ReplayContext

/--
In a state of a replay, the call at a node copies the text at an address: from
the top of the stack, its length and its address are known.
-/
structure Copies
    (context : ReplayContext)
    (node : Node)
    (state : ReplayState)
    (address : Nat)
    (text : String) :
    Prop where
  calls : ∃ destination label,
    node.op = some (.call destination label (some .stringLiteral))
  arguments : ∃ once rest length, 0 < length ∧
    smallArgument state.stack 0 = .ok (once, some length) ∧
    smallArgument once 2 = .ok (rest, some (address : Int)) ∧
    (context.image.read address length.toNat).map Text.ofBytes = .ok text

/--
A replay of some nodes comes to a node at a site that copies the text at an
address.
-/
def CopiesText
    (context : ReplayContext)
    (start : ReplayState)
    (nodes : List Node)
    (site address : Nat)
    (text : String) :
    Prop :=
  ∃ earlier node later annotated state, nodes = earlier ++ node :: later ∧
    node.lo = site ∧
    Run context start earlier annotated state ∧
    context.Copies node state address text

/-- A run depends on nothing but the memory of the image. -/
theorem Run.congr
    {options : Options} {first second : Image} {entry : Nat}
    (reads : second.read = first.read)
    {start final : ReplayState} {nodes annotated : List Node}
    (run :
      Run { options, image := first, procedure := entry } start nodes annotated
        final) :
    Run { options, image := second, procedure := entry } start nodes annotated
      final := by
  induction run with
  | stay state => exact .stay state
  | step tracked applied rest hypothesis =>
      rw [apply_congr options entry reads] at applied
      exact .step tracked applied hypothesis

theorem CopiesText.congr
    {options : Options} {first second : Image} {entry : Nat}
    (reads : second.read = first.read)
    {start : ReplayState} {nodes : List Node} {site address : Nat}
    {text : String}
    (copies :
      CopiesText { options, image := first, procedure := entry } start nodes
        site address text) :
    CopiesText { options, image := second, procedure := entry } start nodes
      site address text := by
  rcases copies with
    ⟨earlier, node, later, annotated, state, shape, isSite, run, calls, once,
      rest, length, proper, isLength, isAddress, isRead⟩
  refine ⟨earlier, node, later, annotated, state, shape, isSite,
    run.congr reads, calls, once, rest, length, proper, isLength, isAddress,
    ?_⟩
  rw [reads]
  exact isRead

theorem emitsOnly_due_constructString
    (context : ReplayContext)
    {node : Node}
    (calls : ∃ destination label,
      node.op = some (.call destination label (some .stringLiteral)))
    (state : ReplayState) :
    Traced.EmitsOnly (Event.IsDueTo context.options
        (fun site address text => node.lo = site ∧
          context.Copies node state address text))
      (context.constructString node.lo state) := by
  have unknown : ∀ stack, Traced.EmitsOnly (Event.IsDueTo context.options
      (fun site address text => node.lo = site ∧
        context.Copies node state address text)) (do
        Traced.note (.stringArgumentsUnknown node.lo)
        return state.withStack stack) := by
    intro stack
    apply (Traced.emitsOnly_note trivial).bind
    intro _
    exact Traced.emitsOnly_pure _
  unfold constructString
  apply (Traced.emitsOnly_ofExcept _).bind_of_outcome
  rintro ⟨once, length⟩ isLength
  apply (Traced.emitsOnly_ofExcept _).bind_of_outcome
  rintro ⟨rest, address⟩ isAddress
  dsimp only
  split
  next length address =>
    split
    next proper =>
      split
      next bytes isRead =>
        have copies :
            context.Copies node state address.toNat (Text.ofBytes bytes) := by
          refine ⟨calls, once, rest, length, proper.1, isLength, ?_, ?_⟩
          · rw [Int.toNat_of_nonneg proper.2]
            exact isAddress
          · rw [isRead]
            rfl
        have emits : Traced.EmitsOnly (Event.IsDueTo context.options
            (fun site address text => node.lo = site ∧
              context.Copies node state address text))
            (Traced.emit
              (context.textEvents node.lo address.toNat
              (Text.ofBytes bytes))) := by
          apply Traced.emitsOnly_emit
          unfold textEvents
          split
          next materializes =>
            simp only [List.forall_mem_cons, List.not_mem_nil, false_implies,
              implies_true, and_true]
            exact ⟨⟨materializes, node.lo, _, rfl, copies⟩, materializes, _, _,
              ⟨rfl, copies⟩, rfl⟩
          next => simp
        apply emits.bind
        intro _
        exact (emitsOnly_attachText _ _ _ _).mono
          (fun _ mention =>
            Event.isDueTo_of_plain (mention.isRemark context.procedure).2)
      next =>
        apply (Traced.emitsOnly_report trivial).bind
        intro _
        exact Traced.emitsOnly_pure _
    next => exact unknown rest
  next => exact unknown rest

theorem emitsOnly_due_apply
    (context : ReplayContext)
    (node : Node)
    (state : ReplayState) :
    Traced.EmitsOnly (Event.IsDueTo context.options
        (fun site address text => node.lo = site ∧
          context.Copies node state address text))
      (context.apply node state) := by
  unfold apply
  split
  case h_7 destination label isOp =>
    exact context.emitsOnly_due_constructString ⟨destination, label, isOp⟩
      state
  case h_8 =>
    exact (emitsOnly_callRoutine _ _ _).mono
      (fun _ mention =>
        Event.isDueTo_of_plain (mention.isRemark context.procedure).2)
  all_goals exact Traced.emitsOnly_ofExcept _

/--
The annotations of a replay are due to the texts that it comes to.  Along the
nodes, the run up to a node is what places its call in the replay as a whole.
-/
theorem emitsOnly_due_replay
    (context : ReplayContext)
    (nodes : List Node)
    (state : ReplayState) :
    Traced.EmitsOnly
      (Event.IsDueTo context.options (context.CopiesText state nodes))
      (replay context nodes state) := by
  induction nodes generalizing state with
  | nil => exact Traced.emitsOnly_pure _
  | cons node later hypothesis =>
      rw [replay]
      split
      next => exact Traced.emitsOnly_pure _
      next tracked =>
        have isTracked : state.stack.isMangled = false := by
          simpa using tracked
        apply (Traced.emitsOnly_ofExcept _).bind
        intro before
        have first : Traced.EmitsOnly (Event.IsDueTo context.options
            (context.CopiesText state (node :: later)))
            (context.apply node state) := by
          apply (context.emitsOnly_due_apply node state).mono
          intro event due
          apply due.mono
          rintro site address text ⟨isSite, copies⟩
          exact ⟨[], node, later, [], state, rfl, isSite, .stay state, copies⟩
        apply first.bind_of_outcome
        intro next applied
        apply (Traced.emitsOnly_ofExcept _).bind
        intro _
        have onward : Traced.EmitsOnly (Event.IsDueTo context.options
            (context.CopiesText state (node :: later)))
            (replay context later next) := by
          apply (hypothesis next).mono
          intro event due
          apply due.mono
          rintro site address text
            ⟨earlier, other, after, annotated, final, rfl, isSite, run, copies⟩
          exact ⟨node :: earlier, other, after, _, final, rfl, isSite,
            .step isTracked applied run, copies⟩
        apply onward.bind
        intro rest
        exact Traced.emitsOnly_pure _

end ReplayContext

/-! ## Texts of a procedure -/

namespace Procedure

/--
The analysis of a procedure recovers the text at an address for the code at a
site: a node there pushes the text, or the replay of a block, which knows the
stack on entry, comes to a node there that copies it.
-/
inductive RecoversText (context : ReplayContext) (procedure : Procedure) :
    Nat → Nat → String → Prop
  | pushed
      {node : Node} {address width : Nat} {text : String}
      (member : node ∈ procedure.body)
      (pushes : node.op = some (.stringLiteral address width (.known text)))
      (spelled :
        (context.image.read address width).map Text.ofBytes = .ok text) :
      RecoversText context procedure node.lo address text
  | copied
      {block : Block} {stack : SymbolicStack} {slots : FrameSlots}
      {nodes : List Node} {site address : Nat} {text : String}
      (replays : context.options.replaysBlocks = true)
      (member : block ∈ procedure.graph.blocks.values)
      (holds :
        nodes.map Node.unstacked =
          (block.nodes procedure.body).map Node.unstacked)
      (entered : entryStack? block.level = some stack)
      (copies : context.CopiesText { stack, slots } nodes site address text) :
      RecoversText context procedure site address text

theorem emitsOnly_due_replayBlocks
    (context : ReplayContext)
    {procedure : Procedure} {body : List Node}
    (slots : FrameSlots)
    (same : body.map Node.unstacked = procedure.body.map Node.unstacked) :
    Traced.EmitsOnly
      (Event.IsDueTo context.options (procedure.RecoversText context))
      (replayBlocks context procedure.graph body slots) := by
  unfold replayBlocks
  split
  next replays =>
    apply Traced.EmitsOnly.foldlM_of_invariant
      (fun state => state.body.map Node.unstacked =
        procedure.body.map Node.unstacked)
    · intro state alike block member
      unfold BlockReplay.step
      split
      next stack _ entered =>
        apply (Traced.emitsOnly_ofExcept _).bind_of_outcome
        intro own isOwn
        rcases Block.nodesIn_eq_ok_iff.mp isOwn with ⟨-, -, rfl⟩
        have replayed : Traced.EmitsOnly
            (Event.IsDueTo context.options (procedure.RecoversText context))
            (replay context (block.nodes state.body)
              { stack, slots := state.slots }) := by
          apply (context.emitsOnly_due_replay _ _).mono
          intro event due
          apply due.mono
          intro site address text copies
          exact .copied replays member (block.map_nodes_congr alike) entered
            copies
        apply replayed.bind
        intro result
        cases result.lostAt with
        | none => exact Traced.emitsOnly_pure _
        | some address =>
            apply (Traced.emitsOnly_report trivial).bind
            intro _
            exact Traced.emitsOnly_pure _
      next => exact Traced.emitsOnly_pure _
    · intro state alike block member next stepped
      exact (BlockReplay.map_unstacked_of_step stepped).trans alike
    · exact same
  next => exact Traced.emitsOnly_pure _

theorem isDueTo_of_literalEvents
    (context : ReplayContext)
    {procedure : Procedure} {event : Event}
    (spelled : ∀ node ∈ procedure.body, node.IsSpelledIn context.image)
    (member : event ∈ literalEvents context.options procedure.body) :
    event.IsDueTo context.options (procedure.RecoversText context) := by
  unfold literalEvents at member
  split at member
  next materializes =>
    rcases List.mem_flatMap.mp member with ⟨node, isNode, isEvent⟩
    split at isEvent
    next source width text isOp =>
      have recovered : procedure.RecoversText context node.lo source text :=
        .pushed isNode isOp (spelled node isNode _ isOp)
      simp only [List.mem_cons, List.not_mem_nil, or_false] at isEvent
      rcases isEvent with rfl | rfl
      · exact ⟨materializes, node.lo, text, recovered⟩
      · exact ⟨materializes, source, text, recovered, rfl⟩
    next => cases isEvent
  next => cases member

/-- What is recovered depends on nothing but the memory of the image. -/
theorem RecoversText.congr
    {options : Options} {first second : Image} {entry : Nat}
    {procedure : Procedure} {site address : Nat} {text : String}
    (reads : second.read = first.read)
    (recovers :
      procedure.RecoversText { options, image := first, procedure := entry }
        site address text) :
    procedure.RecoversText { options, image := second, procedure := entry }
      site address text := by
  cases recovers with
  | pushed member pushes spelled =>
      refine .pushed member pushes ?_
      rw [reads]
      exact spelled
  | copied replays member holds entered copies =>
      exact .copied replays member holds entered (copies.congr reads)

/--
What an analysis has to say about the image is due to texts that it recovers.
-/
theorem isDueTo_of_analyze
    {options : Options} {image : Image} {procedure analyzed : Procedure}
    {instructions : List Instruction} {events : List Event}
    (pending : procedure.IsPendingOn instructions)
    (finished : (procedure.analyze options image).Finishes events analyzed) :
    ∀ event ∈ events, event.IsDueTo options (fun site address text =>
      analyzed.progress = .analyzed ∧
        analyzed.RecoversText { options, image, procedure := analyzed.lo } site
          address text) := by
  rcases analyze_cases pending.progress_eq finished with
    ⟨-, remarks⟩ | ⟨body, later, matched, rfl, ⟨stages⟩⟩
  · intro event member
    exact Event.isDueTo_of_plain (remarks event member).2
  · have recognized :=
      stages.isRecognizedIn (pending.isRecognizedIn_of_matchPrologue matched)
    have spelled := fun node member => (recognized node member).isSpelledIn
    have sameReplayed := map_unstacked_of_replayBlocks stages.replays
    rw [List.forall_mem_cons]
    refine ⟨trivial, ?_⟩
    intro event member
    cases annotates : event.annotatesImage with
    | false => exact Event.isDueTo_of_plain annotates
    | true =>
        have due : event.IsDueTo options
            (analyzed.RecoversText
              { options, image, procedure := analyzed.lo }) := by
          rw [stages.analyzed_eq]
          rcases stages.annotations event member annotates with
            isReplayed | isLiteral
          · exact (emitsOnly_due_replayBlocks
              { options, image, procedure := procedure.lo }
              (FrameSlots.collect stages.leveled)
                sameReplayed.symm).each event isReplayed
          · apply isDueTo_of_literalEvents
              { options, image, procedure := procedure.lo }
            · exact spelled
            · exact isLiteral
        apply due.mono
        intro site address text recovers
        refine ⟨?_, recovers⟩
        rw [stages.analyzed_eq]

end Procedure

end ProcRecovery
