import ProcRecovery.Proofs.Session.Append

/-!
# Comments of a listing

A listing may comment on its instructions, and so does an analysis: it notes
every text that it recovers at the place that uses it.  There is one comment
for an address, so where the two meet the analysis replaces what the listing
says.  The comments that are left after a run are described exactly, and so are
the places where a comment of the listing is lost.
-/

namespace ProcRecovery

/-- The comment on an address contains a given one. -/
def Image.KeepsComment
    (image : Image)
    (address : Nat)
    (comment : String) :
    Prop :=
  ∃ stored, image.comments.get? address = some stored ∧ comment.toList <:+:
    stored.toList

namespace Session

/--
Every text that an analyzed procedure pushes is mentioned in the journal.
-/
def MentionsLiterals (options : Options) (session : Session) : Prop :=
  ∀ entry procedure, session.procedures.get? entry = some procedure →
    procedure.progress = .analyzed →
    ∀ event ∈ literalEvents options procedure.body, event ∈ session.journal

section Mentions

variable {options : Options}

theorem MentionsLiterals.append
    {before after : Session} {events : List Event}
    (mentions : before.MentionsLiterals options)
    (procedures : after.procedures = before.procedures)
    (journal : after.journal = before.journal ++ events) :
    after.MentionsLiterals options := by
  intro entry procedure known isAnalyzed event member
  rw [procedures] at known
  rw [journal]
  exact List.mem_append_left events
    (mentions entry procedure known isAnalyzed event member)

theorem MentionsLiterals.insert
    {session : Session}
    (mentions : session.MentionsLiterals options)
    {entry : Nat} {procedure : Procedure} {events : List Event}
    (literals : procedure.progress = .analyzed →
      ∀ event ∈ literalEvents options procedure.body, event ∈ events) :
    ({ session.record events with
      procedures := session.procedures.insert entry procedure } :
        Session).MentionsLiterals options := by
  intro other another known isAnalyzed event member
  rw [journal_record, List.mem_append]
  rw [Table.get?_insert] at known
  split at known
  next =>
    cases known
    exact .inr (literals isAnalyzed event member)
  next => exact .inl (mentions other another known isAnalyzed event member)

theorem MentionsLiterals.move
    {work next : Work}
    (mentions : work.session.MentionsLiterals options)
    (moves : Move options work next) :
    next.session.MentionsLiterals options := by
  cases moves with
  | decode session waiting address => exact mentions.append rfl rfl
  | label session waiting address label =>
      exact mentions.append rfl (List.append_nil _).symm
  | mention session waiting other => exact mentions.append rfl rfl
  | count session waiting => exact mentions.append rfl (List.append_nil _).symm
  | @find session waiting entry found unclaimed coded found_eq =>
      apply mentions.insert
      intro isAnalyzed
      rw [found_eq] at isAnalyzed
      cases isAnalyzed
  | @analyze session waiting entry procedure analyzed events known pending
    finished =>
      apply mentions.insert
      intro isAnalyzed event member
      rcases Procedure.analyze_cases pending finished with
        ⟨rfl, -⟩ | ⟨body, later, -, rfl, ⟨stages⟩⟩
      · cases isAnalyzed
      · rw [stages.analyzed_eq] at member
        exact List.mem_cons_of_mem _ (stages.literals event member)
  | register session site waiting count =>
      rcases exists_events_registerCall session count site with
        ⟨procedures, events, journal, -⟩
      exact mentions.append procedures journal

end Mentions

/-- What a session leaves of the comments in an image. -/
structure ReplacesComments
    (options : Options)
    (image : Image)
    (session : Session) :
    Prop where
  /--
  The comment on an address is the last one that the analysis has made, or else
  the one that was there.
  -/
  stored : ∀ address, session.image.comments.get? address =
    (commentsOf address session.journal).getLast?.or
    (image.comments.get? address)
  /-- The analysis comments on texts that it has recovered at the address. -/
  made : ∀ address, ∀ content ∈ commentsOf address session.journal,
    options.materializesStrings = true ∧
      ∃ source text, session.RecoversText options address source text ∧
      content = Text.quoted text
  /-- It comments on every text that an analyzed procedure pushes. -/
  pushed : options.materializesStrings = true →
    ∀ entry procedure, session.procedures.get? entry = some procedure →
      procedure.progress = .analyzed →
      ∀ node ∈ procedure.body, ∀ source width text,
        node.op = some (.stringLiteral source width (.known text)) →
        Text.quoted text ∈ commentsOf node.lo session.journal
  /-- A comment stays as it is where no text is recovered. -/
  kept : ∀ address comment, image.comments.get? address = some comment →
    (∀ source text, ¬ session.RecoversText options address source text) →
    session.image.comments.get? address = some comment
  /--
  A comment survives exactly where the last comment that the analysis has made,
  if there is one, happens to contain it.
  -/
  survives_iff : ∀ address comment,
    image.comments.get? address = some comment →
    (session.image.KeepsComment address comment ↔
      ∀ content ∈ (commentsOf address session.journal).getLast?,
        comment.toList <:+: content.toList)

theorem replacesComments_of_explained
    {options : Options} {image : Image} {session : Session}
    (stored : ∀ address, session.image.comments.get? address =
      (commentsOf address session.journal).getLast?.or
        (image.comments.get? address))
    (explained : session.IsExplained options)
    (mentions : session.MentionsLiterals options) :
    session.ReplacesComments options image where
  stored := stored
  made := by
    intro address content member
    exact explained _ (mem_commentsOf_iff.mp member)
  pushed := by
    intro materializes entry procedure known isAnalyzed node isNode source
      width text isOp
    apply mem_commentsOf_iff.mpr
    apply mentions entry procedure known isAnalyzed
    rw [literalEvents, if_pos materializes, List.mem_flatMap]
    refine ⟨node, isNode, ?_⟩
    simp [isOp]
  kept := by
    intro address comment commented unrecovered
    have silent : commentsOf address session.journal = [] := by
      apply List.eq_nil_iff_forall_not_mem.mpr
      intro content member
      rcases explained _ (mem_commentsOf_iff.mp member) with
        ⟨-, source, text, recovered, -⟩
      exact unrecovered source text recovered
    rw [stored, silent, List.getLast?_nil, Option.none_or, commented]
  survives_iff := by
    intro address comment commented
    unfold Image.KeepsComment
    rw [stored, commented]
    cases (commentsOf address session.journal).getLast? with
    | none => simp
    | some content => simp

/--
After a run every comment of a listing is still there except where the analysis
has made one, which then stands in its place.
-/
theorem run_replaces_comments
    {text : String} {lifted : Listing.Lifted}
    (isLifted : Listing.lift text = .ok lifted)
    (options : Options) :
    Delivers ((ofListing lifted).run options)
      (ReplacesComments options lifted.image)
      HaltsByOverflow := by
  have keyed := Listing.isKeyed_of_lift isLifted
  have plain := plain_ofListing isLifted
  have accounted := isAccounted_ofListing lifted
  apply delivers_of_outcome
  · intro session finished
    have proceeds : Proceeds options ⟨ofListing lifted, []⟩ ⟨session, []⟩ :=
      proceeds_runPasses finished
    have kept := proceeds.reaches.keeps_accounted
      (fun work => work.session.IsExplained options ∧
        work.session.MentionsLiterals options) keyed
      accounted
      ⟨fun event member => Event.isDueTo_of_plain (plain event member), by
        intro entry procedure known
        cases known⟩
      (fun _ _ isAccounted holds moves =>
        ⟨holds.1.move keyed isAccounted moves, holds.2.move moves⟩)
    apply replacesComments_of_explained _ kept.2.1 kept.2.2
    rcases proceeds.annotates with ⟨events, journal, annotated⟩
    intro address
    have silent : commentsOf address (ofListing lifted).journal = [] := by
      apply List.eq_nil_iff_forall_not_mem.mpr
      intro content member
      have isComment := plain _ (mem_commentsOf_iff.mp member)
      cases isComment
    rw [annotated.comments, journal, commentsOf_append, silent,
      List.nil_append]
    rfl
  · intro halt stopped
    exact (delivers_perform keyed options accounted .run).of_error stopped

/-- What the listing says about the push is not there any more after a run. -/
theorem not_keepsComment_greetingListing :
    ∃ lifted session, Listing.lift greetingListing = .ok lifted ∧
      (ofListing lifted).run {} = .ok session ∧
      lifted.image.comments.get? 0x100e = some "greet" ∧
      ¬ session.image.KeepsComment 0x100e "greet" := by
  rcases exists_run_greetingListing with
    ⟨lifted, session, isLifted, ran, -, comments, -⟩
  rcases Prod.mk.inj comments with ⟨given, left⟩
  refine ⟨lifted, session, isLifted, ran, given, ?_⟩
  rintro ⟨stored, isStored, within⟩
  rw [left] at isStored
  cases isStored
  revert within
  decide

/-- The comment on the push is replaced, and the one on the return is not. -/
theorem run_replaces_comments_greetingListing :
    ∃ lifted session, Listing.lift greetingListing = .ok lifted ∧
      (ofListing lifted).run {} = .ok session ∧
      commentsOf 0x100e session.journal = ["\"HI\""] ∧
      commentsOf 0x101c session.journal = [] ∧
      session.ReplacesComments {} lifted.image := by
  rcases exists_run_greetingListing with
    ⟨lifted, session, isLifted, ran, -, -, made⟩
  rcases Prod.mk.inj made with ⟨replaced, silent⟩
  exact ⟨lifted, session, isLifted, ran, replaced, silent,
    (run_replaces_comments isLifted {}).of_ok ran⟩

end Session

end ProcRecovery
