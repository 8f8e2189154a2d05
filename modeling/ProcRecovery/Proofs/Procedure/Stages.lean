import ProcRecovery.Proofs.Emission
import ProcRecovery.Proofs.Procedure.Analysis

/-!
# Stages of an analysis

An analysis that comes to its end has gone through a fixed sequence of stages,
each with its result and its events.  Of all stages only the division into
blocks reports ways that lead nowhere, and no stage says anything about calls
or other procedures.
-/

namespace ProcRecovery

/-! ## Events inside a procedure -/

/--
Whether the oddity is one of the procedure's own code, and neither a way that
leads nowhere nor something about a call.
-/
def Diagnostic.isInternal : Diagnostic → Bool
  | missingFlowTarget _ _ | unresolvedCall _ | undecodableTarget _ _ => false
  | _ => true

/-- An event that says nothing about lost ways, calls or other procedures. -/
def Event.IsInternal (procedure : Nat) : Event → Prop
  | .diagnosed owner diagnostic =>
      owner = procedure ∧ diagnostic.isInternal = true
  | .noted (.procedureFound _ _ _) => False
  | _ => True

/-- An event about a procedure, but not about a call or another procedure. -/
def Event.IsLocal (procedure : Nat) : Event → Prop
  | .diagnosed owner diagnostic =>
    owner = procedure ∧
      (diagnostic.isInternal = true ∨ ∃ address target,
        diagnostic = .missingFlowTarget address target)
  | .noted (.procedureFound _ _ _) => False
  | _ => True

/-- Whether an event says how to annotate the image. -/
def Event.annotatesImage : Event → Bool
  | .stringFound _ | .commented _ _ => true
  | .diagnosed _ _ | .noted _ => false

/-- An event inside a procedure that leaves the image as it is. -/
def Event.IsRemark (procedure : Nat) (event : Event) : Prop :=
  event.IsInternal procedure ∧ event.annotatesImage = false

/-- A note that finds no procedure. -/
def Event.IsMention : Event → Prop
  | .noted (.procedureFound _ _ _) => False
  | .noted _ => True
  | _ => False

/--
An event that comes of the texts and stacks of a procedure: an annotation of
the image, a note, or an oddity of what the replay has read or lost.
-/
def Event.IsOfReplay (procedure : Nat) : Event → Prop
  | .diagnosed owner (.memoryUnavailable _ _)
  | .diagnosed owner (.stackTrackingLost _) =>
    owner = procedure
  | .diagnosed _ _ | .noted (.procedureFound _ _ _) => False
  | _ => True

/-- An event that reports a way that leads nowhere. -/
def Event.IsLostWay (procedure : Nat) (event : Event) : Prop :=
  ∃ address target,
    event = .diagnosed procedure (.missingFlowTarget address target)

theorem Event.IsLostWay.annotatesImage_eq
    {procedure : Nat} {event : Event} (lost : event.IsLostWay procedure) :
    event.annotatesImage = false := by
  rcases lost with ⟨address, target, rfl⟩
  rfl

theorem Event.IsInternal.isLocal
    {procedure : Nat} {event : Event}
    (internal : event.IsInternal procedure) :
    event.IsLocal procedure := by
  cases event with
  | diagnosed owner diagnostic => exact ⟨internal.1, .inl internal.2⟩
  | noted note =>
      cases note with
      | procedureFound entry stop name => exact internal
      | _ => trivial
  | _ => trivial

theorem Event.IsMention.isRemark
    {event : Event}
    (mention : event.IsMention)
    (procedure : Nat) :
    event.IsRemark procedure := by
  cases event with
  | noted note =>
      refine ⟨?_, rfl⟩
      cases note with
      | procedureFound entry stop name => exact mention
      | _ => trivial
  | _ => cases mention

theorem Event.IsMention.isOfReplay
    {event : Event}
    (mention : event.IsMention)
    (procedure : Nat) :
    event.IsOfReplay procedure := by
  cases event with
  | noted note =>
      cases note with
      | procedureFound entry stop name => exact mention
      | _ => trivial
  | _ => cases mention

theorem Event.IsOfReplay.isInternal
    {procedure : Nat} {event : Event}
    (replayed : event.IsOfReplay procedure) :
    event.IsInternal procedure := by
  cases event with
  | diagnosed owner diagnostic =>
      cases diagnostic with
      | memoryUnavailable address read => exact ⟨replayed, rfl⟩
      | stackTrackingLost address => exact ⟨replayed, rfl⟩
      | _ => cases replayed
  | noted note =>
      cases note with
      | procedureFound entry stop name => exact replayed
      | _ => trivial
  | _ => trivial

section Emissions

variable {procedure : Nat}

theorem exists_of_mem_reportLeftovers
    {options : Options} {body : List Node} {event : Event}
    (member : event ∈ Idiom.reportLeftovers options procedure body) :
    ∃ address text,
      event = .diagnosed procedure (.unrecognizedIdiom address text) := by
  unfold Idiom.reportLeftovers at member
  split at member
  next =>
    rcases List.mem_map.mp member with ⟨diagnostic, isDiagnostic, rfl⟩
    rcases List.mem_filterMap.mp isDiagnostic with ⟨node, -, isLeftover⟩
    simp only [Idiom.leftover?, Option.bind_eq_bind, Option.bind_eq_some_iff]
      at isLeftover
    rcases isLeftover with ⟨instruction, -, isLeftover⟩
    split at isLeftover
    next =>
      cases isLeftover
      exact ⟨_, _, rfl⟩
    next => cases isLeftover
  next => cases member

theorem emitsOnly_reportLeftovers (options : Options) (body : List Node) :
    Traced.EmitsOnly (Event.IsRemark procedure)
      (Traced.emit (Idiom.reportLeftovers options procedure body)) := by
  apply Traced.emitsOnly_emit
  intro event member
  rcases exists_of_mem_reportLeftovers member with ⟨address, text, rfl⟩
  exact ⟨⟨rfl, rfl⟩, rfl⟩

theorem emitsOnly_reportUnreadable (body : List Node) :
    Traced.EmitsOnly (Event.IsRemark procedure)
      (Traced.emit (Idiom.reportUnreadable procedure body)) := by
  apply Traced.emitsOnly_emit
  intro event member
  rcases List.mem_map.mp member with ⟨diagnostic, isDiagnostic, rfl⟩
  refine ⟨⟨rfl, ?_⟩, rfl⟩
  rcases List.mem_filterMap.mp isDiagnostic with ⟨node, -, isUnreadable⟩
  unfold Idiom.unreadable? at isUnreadable
  split at isUnreadable
  next =>
    cases isUnreadable
    rfl
  next =>
    cases isUnreadable
    rfl
  next => cases isUnreadable

theorem emitsOnly_registerCache
    (options : Options)
    (body : List Node) :
    Traced.EmitsOnly (Event.IsRemark procedure)
      (Idiom.registerCache options body) := by
  simp only [Idiom.registerCache]
  split
  next => exact Traced.emitsOnly_pure _
  next =>
    apply (Traced.emitsOnly_note ⟨trivial, rfl⟩).bind
    intro _
    apply (Traced.emitsOnly_ofExcept _).bind
    intro _
    exact Traced.emitsOnly_pure _

theorem emitsOnly_collapseFamily
    (family : List Idiom.Template)
    (image : Image)
    (body : List Node) :
    Traced.EmitsOnly (Event.IsRemark procedure)
      (Idiom.collapseFamily family image body) := by
  have matched : ∀ segments : List Idiom.Segment,
      ∀ event ∈ segments.flatMap Idiom.Segment.events,
      event.IsRemark procedure := by
    intro segments event member
    rcases List.mem_flatMap.mp member with ⟨segment, -, isEvent⟩
    cases segment with
    | kept node => cases isEvent
    | collapsed template op nodes =>
        rw [List.mem_singleton.mp isEvent]
        exact ⟨trivial, rfl⟩
  fun_induction Idiom.collapseFamily family image body with
  | case1 body collapses fault events built => exact ⟨matched _⟩
  | case2 body collapses next events built fewer rest hypothesis =>
      constructor
      intro event member
      rcases List.mem_append.mp member with isEarlier | isLater
      · exact matched _ event isEarlier
      · exact hypothesis.each event isLater
  | case3 body done => exact Traced.emitsOnly_pure _

theorem emitsOnly_recognize
    (options : Options)
    (image : Image)
    (body : List Node) :
    Traced.EmitsOnly (Event.IsRemark procedure)
      (Procedure.recognize options image procedure body) := by
  apply (emitsOnly_registerCache options body).bind
  intro cached
  have collapses :
      Traced.EmitsOnly (Event.IsRemark procedure)
        (Idiom.collapseAll image cached) :=
    Traced.EmitsOnly.foldlM (fun current family =>
      emitsOnly_collapseFamily family image current) _ _
  apply collapses.bind
  intro collapsed
  apply (emitsOnly_reportLeftovers options collapsed).bind
  intro _
  apply (emitsOnly_reportUnreadable collapsed).bind
  intro _
  exact Traced.emitsOnly_pure _

theorem emitsOnly_assignDeltas
    (frameSize : Nat)
    (body : List Node) :
    Traced.EmitsOnly (Event.IsRemark procedure)
      (assignDeltas frameSize procedure body) := by
  apply Traced.EmitsOnly.mapM
  intro node
  unfold Node.assignDelta
  apply (Traced.emitsOnly_ofExcept _).bind
  intro effect
  cases effect with
  | delta bytes => exact Traced.emitsOnly_pure _
  | unrecognized =>
      apply (Traced.emitsOnly_report ⟨⟨rfl, rfl⟩, rfl⟩).bind
      intro _
      exact Traced.emitsOnly_pure _

theorem emitsOnly_partition
    (body : List Node) :
    Traced.EmitsOnly (Event.IsLostWay procedure)
      (Graph.partition body procedure) := by
  have lost : ∀ address target (edges : List (Nat × Nat)),
      Traced.EmitsOnly (Event.IsLostWay procedure) (do
        Traced.report procedure (.missingFlowTarget address target)
        return edges) := by
    intro address target edges
    apply (Traced.emitsOnly_report ⟨address, target, rfl⟩).bind
    intro _
    exact Traced.emitsOnly_pure _
  have leaves : ∀ block, Traced.EmitsOnly (Event.IsLostWay procedure)
      (Graph.exits body procedure block) := by
    intro block
    unfold Graph.exits
    split
    next =>
      apply Traced.EmitsOnly.foldlM
      intro edges way
      split
      next =>
        split
        next => exact Traced.emitsOnly_pure _
        next =>
          split
          next => exact Traced.emitsOnly_pure _
          next => exact lost _ _ edges
      next => exact lost _ _ edges
    next => exact Traced.emitsOnly_stop _
  cases body with
  | nil => exact Traced.emitsOnly_pure _
  | cons first later =>
      apply (Traced.emitsOnly_ofExcept _).bind
      intro blocks
      apply (Traced.EmitsOnly.mapM leaves _).bind
      intro edges
      dsimp only
      split
      next => exact Traced.emitsOnly_pure _
      next => exact Traced.emitsOnly_stop _

theorem emitsOnly_propagateLevels
    (graph : Graph) :
    Traced.EmitsOnly (Event.IsRemark procedure)
      (graph.propagateLevels procedure) := by
  unfold Graph.propagateLevels
  split
  next =>
    constructor
    intro event member
    rcases List.mem_map.mp member with ⟨step, -, rfl⟩
    cases step with
    | settled block level => exact ⟨trivial, rfl⟩
    | skewed source target kept seen => exact ⟨⟨rfl, rfl⟩, rfl⟩
  next => exact Traced.emitsOnly_pure _

end Emissions

/-! ## Replay -/

namespace ReplayContext

theorem emitsOnly_callRoutine
    (routine : Routine)
    (site : Nat)
    (state : ReplayState) :
    Traced.EmitsOnly Event.IsMention (callRoutine routine site state) := by
  simp only [callRoutine]
  split
  next =>
    apply (Traced.emitsOnly_note trivial).bind
    intro _
    exact Traced.emitsOnly_ofExcept _
  next => exact Traced.emitsOnly_pure _

theorem emitsOnly_attachText
    (site length : Nat)
    (text : String)
    (state : ReplayState) :
    Traced.EmitsOnly Event.IsMention (attachText site length text state) := by
  unfold attachText
  apply (Traced.emitsOnly_ofExcept _).bind
  rintro ⟨stack, destination⟩
  dsimp only
  split
  next => exact Traced.emitsOnly_pure _
  next =>
    apply (Traced.emitsOnly_ofExcept _).bind
    rintro ⟨resolved, target⟩
    cases target with
    | none => exact Traced.emitsOnly_pure _
    | some offset =>
        apply (Traced.emitsOnly_ofExcept _).bind
        intro stored
        exact Traced.emitsOnly_pure _
  next =>
    apply (Traced.emitsOnly_note trivial).bind
    intro _
    exact Traced.emitsOnly_pure _

variable (context : ReplayContext)

theorem emitsOnly_textEvents (site address : Nat) (text : String) :
    Traced.EmitsOnly (Event.IsOfReplay context.procedure)
      (Traced.emit (context.textEvents site address text)) := by
  apply Traced.emitsOnly_emit
  unfold textEvents
  split
  next => simp [Event.IsOfReplay]
  next => simp

theorem emitsOnly_constructString
    (site : Nat)
    (state : ReplayState) :
    Traced.EmitsOnly (Event.IsOfReplay context.procedure)
      (context.constructString site state) := by
  have unknown :
      ∀ stack, Traced.EmitsOnly (Event.IsOfReplay context.procedure) (do
      Traced.note (.stringArgumentsUnknown site)
      return state.withStack stack) := by
    intro stack
    apply (Traced.emitsOnly_note trivial).bind
    intro _
    exact Traced.emitsOnly_pure _
  unfold constructString
  apply (Traced.emitsOnly_ofExcept _).bind
  rintro ⟨once, length⟩
  apply (Traced.emitsOnly_ofExcept _).bind
  rintro ⟨stack, address⟩
  dsimp only
  split
  next =>
    split
    next =>
      split
      next =>
        apply (context.emitsOnly_textEvents _ _ _).bind
        intro _
        exact (emitsOnly_attachText _ _ _ _).mono (fun _ mention =>
          mention.isOfReplay _)
      next =>
        refine (Traced.emitsOnly_report ?_).bind ?_
        · exact rfl
        · intro _
          exact Traced.emitsOnly_pure _
    next => exact unknown stack
  next => exact unknown stack

theorem emitsOnly_apply
    (node : Node)
    (state : ReplayState) :
    Traced.EmitsOnly (Event.IsOfReplay context.procedure)
      (context.apply node state) := by
  unfold apply
  split
  case h_7 => exact context.emitsOnly_constructString _ _
  case h_8 =>
    exact (emitsOnly_callRoutine _ _ _).mono (fun _ mention =>
      mention.isOfReplay _)
  all_goals exact Traced.emitsOnly_ofExcept _

end ReplayContext

theorem emitsOnly_replay
    (context : ReplayContext)
    (nodes : List Node)
    (state : ReplayState) :
    Traced.EmitsOnly (Event.IsOfReplay context.procedure)
      (replay context nodes state) := by
  induction nodes generalizing state with
  | nil => exact Traced.emitsOnly_pure _
  | cons node later hypothesis =>
      rw [replay]
      split
      next => exact Traced.emitsOnly_pure _
      next =>
        apply (Traced.emitsOnly_ofExcept _).bind
        intro before
        apply (context.emitsOnly_apply node state).bind
        intro next
        apply (Traced.emitsOnly_ofExcept _).bind
        intro _
        apply (hypothesis next).bind
        intro rest
        exact Traced.emitsOnly_pure _

theorem emitsOnly_replayBlocks
    (context : ReplayContext)
    (graph : Graph)
    (body : List Node)
    (slots : FrameSlots) :
    Traced.EmitsOnly (Event.IsOfReplay context.procedure)
      (replayBlocks context graph body slots) := by
  unfold replayBlocks
  split
  next =>
    apply Traced.EmitsOnly.foldlM
    intro state block
    unfold BlockReplay.step
    split
    next =>
      apply (Traced.emitsOnly_ofExcept _).bind
      intro own
      apply (emitsOnly_replay context _ _).bind
      intro replayed
      cases replayed.lostAt with
      | none => exact Traced.emitsOnly_pure _
      | some address =>
          refine (Traced.emitsOnly_report ?_).bind ?_
          · exact rfl
          · intro _
            exact Traced.emitsOnly_pure _
    next => exact Traced.emitsOnly_pure _
  next => exact Traced.emitsOnly_pure _

theorem emitsOnly_literalEvents
    (options : Options)
    (procedure : Nat)
    (body : List Node) :
    Traced.EmitsOnly (Event.IsOfReplay procedure)
      (Traced.emit (literalEvents options body)) := by
  apply Traced.emitsOnly_emit
  intro event member
  unfold literalEvents at member
  split at member
  next =>
    rcases List.mem_flatMap.mp member with ⟨node, -, isEvent⟩
    split at isEvent
    next =>
      simp only [List.mem_cons, List.not_mem_nil, or_false] at isEvent
      rcases isEvent with rfl | rfl <;> trivial
    next => cases isEvent
  next => cases member

/-! ## The sequence of stages -/

namespace Procedure

/--
The stages of an analysis that has come to its end, from a body with a
recognized prologue on: what each stage results in, and the events around the
division into blocks.
-/
structure Stages
    (options : Options)
    (image : Image)
    (procedure : Procedure)
    (body : List Node)
    (events : List Event)
    (analyzed : Procedure) where
  recognized : List Node
  measured : List Node
  parts : Graph
  graph : Graph
  leveled : List Node
  replayed : BlockReplay
  /-- The events before the division into blocks. -/
  earlier : List Event
  /-- The events of the division into blocks. -/
  dividing : List Event
  /-- The events after it. -/
  later : List Event
  recognizes : (recognize options image procedure.lo body).outcome =
    .ok recognized
  measures :
    (assignDeltas (frameSizeOf body) procedure.lo recognized).outcome =
      .ok measured
  divides : (Graph.partition measured procedure.lo).Finishes dividing parts
  propagates : (parts.propagateLevels procedure.lo).outcome = .ok graph
  levels : graph.annotateLevels measured = .ok leveled
  replays :
    (replayBlocks { options, image, procedure := procedure.lo } graph leveled
        (FrameSlots.collect leveled)).outcome =
      .ok replayed
  tiled : procedure.isTiledBy replayed.body = true
  events_eq : events = earlier ++ dividing ++ later
  earlier_internal : ∀ event ∈ earlier, event.IsInternal procedure.lo
  later_internal : ∀ event ∈ later, event.IsInternal procedure.lo
  /-- The image is annotated by the replay and by the texts that are pushed. -/
  annotations : ∀ event ∈ events, event.annotatesImage = true →
    event ∈
      (replayBlocks { options, image, procedure := procedure.lo } graph leveled
        (FrameSlots.collect leveled)).events ∨
      event ∈ literalEvents options replayed.body
  /-- Every text that is pushed is mentioned. -/
  literals : ∀ event ∈ literalEvents options replayed.body, event ∈ events
  analyzed_eq : analyzed = { procedure with
    body := replayed.body
    slots := replayed.slots
    frameSize := some (frameSizeOf body)
    graph
    calls := replayed.body.filterMap (Node.callSite? procedure.lo)
    progress := .analyzed
    trackingLostAt := replayed.lostAt }

/-- What annotates the image is not among events that leave it as it is. -/
theorem not_mem_of_annotates
    {events : List Event} {event : Event}
    (silent : ∀ other ∈ events, other.annotatesImage = false)
    (annotates : event.annotatesImage = true) : event ∉ events := by
  intro member
  rw [silent event member] at annotates
  cases annotates

/-- Of the events of all stages only two kinds annotate the image. -/
theorem mem_of_annotates
    {procedure : Nat}
    {recognizing measuring dividing leveling replaying texts noting :
      List Event}
    (recognizes : ∀ event ∈ recognizing, event.IsRemark procedure)
    (measures : ∀ event ∈ measuring, event.IsRemark procedure)
    (divides : ∀ event ∈ dividing, event.IsLostWay procedure)
    (propagates : ∀ event ∈ leveling, event.IsRemark procedure)
    (notes : ∀ event ∈ noting, event.IsRemark procedure)
    {event : Event}
    (annotates : event.annotatesImage = true)
    (member : event ∈ recognizing ++ measuring ++ dividing ++
      (leveling ++ replaying ++ texts ++ noting)) :
    event ∈ replaying ∨ event ∈ texts := by
  have noRemark {others : List Event}
      (remarks : ∀ other ∈ others, other.IsRemark procedure) :
      event ∉ others :=
    not_mem_of_annotates (fun other isOther => (remarks other isOther).2)
      annotates
  have noLostWay : event ∉ dividing :=
    not_mem_of_annotates
      (fun other isOther => (divides other isOther).annotatesImage_eq)
      annotates
  simpa [noRemark recognizes, noRemark measures, noLostWay,
    noRemark propagates, noRemark notes] using member

theorem exists_stages
    {options : Options} {image : Image} {procedure analyzed : Procedure}
    {body : List Node} {events : List Event}
    (finished :
      (procedure.analyzeBody options image body).Finishes events analyzed) :
    Nonempty (Stages options image procedure body events analyzed) := by
  unfold analyzeBody at finished
  simp only [Traced.finishes_bind_iff] at finished
  rcases finished with ⟨recognizing, recognized, _, isRecognized,
    ⟨measuring, measured, _, isMeasured,
      ⟨dividing, parts, _, isDivided,
        ⟨leveling, graph, _, isPropagated,
          ⟨none, leveled, _, isLeveled,
            ⟨replaying, replayed, _, isReplayed,
              ⟨literals, _, ending, isEmitted, isEnd, rfl⟩,
              rfl⟩, rfl⟩, rfl⟩, rfl⟩, rfl⟩, rfl⟩
  rcases Traced.finishes_ofExcept_iff.mp isLeveled with ⟨rfl, levels⟩
  split at isEnd
  next tiled =>
    rcases Traced.finishes_bind_iff.mp isEnd with
      ⟨noting, _, nothing, isNoted, isValue, rfl⟩
    rcases Traced.finishes_pure_iff.mp isValue with ⟨rfl, rfl⟩
    obtain rfl : literalEvents options replayed.body = literals :=
      isEmitted.events_eq
    have recognizes :=
      (emitsOnly_recognize options image body).of_finishes isRecognized
    have measures := (emitsOnly_assignDeltas _ _).of_finishes isMeasured
    have divides := (emitsOnly_partition measured).of_finishes isDivided
    have propagates :=
      (emitsOnly_propagateLevels parts).of_finishes isPropagated
    have replays := (emitsOnly_replayBlocks _ _ _ _).of_finishes isReplayed
    have emits :=
      (emitsOnly_literalEvents options procedure.lo _).of_finishes isEmitted
    have notes : ∀ event ∈ noting, event.IsRemark procedure.lo :=
      (Traced.emitsOnly_note (by exact ⟨trivial, rfl⟩)).of_finishes isNoted
    refine ⟨{
      recognized, measured, parts, graph, leveled, replayed
      earlier := recognizing ++ measuring
      dividing
      later :=
        leveling ++ replaying ++ literalEvents options replayed.body ++ noting
      recognizes := isRecognized.outcome_eq
      measures := isMeasured.outcome_eq
      divides := isDivided
      propagates := isPropagated.outcome_eq
      levels
      replays := isReplayed.outcome_eq
      tiled
      events_eq := by simp
      earlier_internal := ?_
      later_internal := ?_
      annotations := ?_
      literals := ?_
      analyzed_eq := rfl }⟩
    · rw [List.forall_mem_append]
      exact ⟨fun event member => (recognizes event member).1,
        fun event member => (measures event member).1⟩
    · rw [List.forall_mem_append, List.forall_mem_append,
        List.forall_mem_append]
      exact ⟨⟨⟨fun event member => (propagates event member).1,
        fun event member => (replays event member).isInternal⟩,
        fun event member => (emits event member).isInternal⟩,
        fun event member => (notes event member).1⟩
    · intro event member annotates
      rw [isReplayed.events_eq]
      exact mem_of_annotates recognizes measures divides propagates notes
        annotates
        (by simpa using member)
    · intro event member
      simp [member]
  next => cases isEnd.outcome_eq

/-- All events of the stages are about the procedure. -/
theorem Stages.isLocal
    {options : Options} {image : Image} {procedure analyzed : Procedure}
    {body : List Node} {events : List Event}
    (stages : Stages options image procedure body events analyzed) :
    ∀ event ∈ events, event.IsLocal procedure.lo := by
  rw [stages.events_eq, List.forall_mem_append, List.forall_mem_append]
  refine ⟨⟨?_, ?_⟩, ?_⟩
  · intro event member
    exact (stages.earlier_internal event member).isLocal
  · intro event member
    rw [← stages.divides.events_eq] at member
    rcases (emitsOnly_partition stages.measured).each event member with
      ⟨address, target, rfl⟩
    exact ⟨rfl, .inr ⟨address, target, rfl⟩⟩
  · intro event member
    exact (stages.later_internal event member).isLocal

/--
An analysis gives up for lack of a prologue, or goes through its stages after
the prologue is recognized.
-/
theorem analyze_cases
    {options : Options} {image : Image} {procedure analyzed : Procedure}
    {events : List Event}
    (pending : procedure.progress = .pending)
    (finished : (procedure.analyze options image).Finishes events analyzed) :
    analyzed = { procedure with progress := .failed } ∧
        (∀ event ∈ events, event.IsRemark procedure.lo) ∨
      ∃ body later, Idiom.matchPrologue image procedure.body =
        .ok (some body) ∧
        events =
          .noted (.analysisStarted procedure.lo procedure.body.length) ::
            later ∧
        Nonempty (Stages options image procedure body later analyzed) := by
  simp only [analyze, pending, Traced.finishes_bind_iff] at finished
  rcases finished with
    ⟨starting, _, _, isStarted, ⟨none, matched, later, isMatched, isEnd, rfl⟩,
      rfl⟩
  rcases Traced.finishes_ofExcept_iff.mp isMatched with ⟨rfl, isPrologue⟩
  have started := isStarted.events_eq
  subst started
  cases matched with
  | none =>
      rcases Traced.finishes_bind_iff.mp isEnd with
        ⟨reporting, _, _, isReported, isValue, rfl⟩
      rcases Traced.finishes_pure_iff.mp isValue with ⟨rfl, rfl⟩
      have reported := isReported.events_eq
      subst reported
      left
      constructor
      · rfl
      · simp [Traced.report, Traced.note, Traced.emit, Event.IsRemark,
          Event.IsInternal, Diagnostic.isInternal, Event.annotatesImage]
  | some body => exact .inr ⟨body, later, isPrologue, rfl, exists_stages isEnd⟩

/--
An analysis that comes to its end leaves the procedure analyzed or failed.
-/
theorem progress_of_analyze
    {options : Options} {image : Image} {procedure analyzed : Procedure}
    {events : List Event}
    (pending : procedure.progress = .pending)
    (finished : (procedure.analyze options image).Finishes events analyzed) :
    analyzed.progress = .analyzed ∨ analyzed.progress = .failed := by
  rcases analyze_cases pending finished with
    ⟨rfl, -⟩ | ⟨body, later, -, -, ⟨stages⟩⟩
  · exact .inr rfl
  · rw [stages.analyzed_eq]
    exact .inl rfl

/-- All events of an analysis are about the procedure. -/
theorem isLocal_of_analyze
    {options : Options} {image : Image} {procedure analyzed : Procedure}
    {events : List Event}
    (pending : procedure.progress = .pending)
    (finished : (procedure.analyze options image).Finishes events analyzed) :
    ∀ event ∈ events, event.IsLocal procedure.lo := by
  rcases analyze_cases pending finished with
    ⟨-, remarks⟩ | ⟨body, later, -, rfl, ⟨stages⟩⟩
  · intro event member
    exact (remarks event member).1.isLocal
  · rw [List.forall_mem_cons]
    exact ⟨trivial, stages.isLocal⟩

end Procedure

end ProcRecovery
