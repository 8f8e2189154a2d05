import ProcRecovery.Proofs.Procedure.Texts
import ProcRecovery.Proofs.Session.Growth

/-!
# Sessions only grow

Whatever a session has found out stays in it.  A step adds procedures, settles
those that were pending, and adds to the ends of its lists.  One lemma for each
move shows that nothing is lost, and by induction nothing is lost along any
number of them.  Labels are added for texts that an analysis has recovered, and
for nothing else: every annotation in the journal is due to such a text.
-/

namespace ProcRecovery

/--
How a procedure may change: one that is pending may fail, which changes nothing
else about it, or be analyzed, and every other one stays as it is.
-/
inductive Procedure.Settles (before : Procedure) : Procedure → Prop
  | same : Settles before before
  | failed (pending : before.progress = .pending) :
      Settles before { before with progress := .failed }
  | analyzed {after : Procedure} (pending : before.progress = .pending)
      (isAnalyzed : after.progress = .analyzed) (lo_eq : after.lo = before.lo)
      (hi_eq : after.hi = before.hi) : Settles before after

namespace Procedure

theorem Settles.eq_of_settled
    {before after : Procedure}
    (settles : before.Settles after)
    (settled : before.progress ≠ .pending) :
    after = before := by
  cases settles with
  | same => rfl
  | failed pending => exact absurd pending settled
  | analyzed pending => exact absurd pending settled

theorem Settles.trans
    {first second third : Procedure}
    (early : first.Settles second)
    (late : second.Settles third) :
    first.Settles third := by
  cases early with
  | same => exact late
  | failed pending =>
      have same := late.eq_of_settled (by simp)
      rw [same]
      exact .failed pending
  | analyzed pending isAnalyzed lo_eq hi_eq =>
      have same := late.eq_of_settled (by simp [isAnalyzed])
      rw [same]
      exact .analyzed pending isAnalyzed lo_eq hi_eq

theorem settles_of_analyze
    {options : Options} {image : Image} {procedure analyzed : Procedure}
    {events : List Event}
    (pending : procedure.progress = .pending)
    (finished : (procedure.analyze options image).Finishes events analyzed) :
    procedure.Settles analyzed := by
  rcases analyze_cases pending finished with
    ⟨rfl, -⟩ | ⟨body, later, -, -, ⟨stages⟩⟩
  · exact .failed pending
  · rw [stages.analyzed_eq]
    exact .analyzed pending rfl rfl rfl

end Procedure

theorem Event.IsAboutCall.annotatesImage
    {event : Event}
    (about : event.IsAboutCall) :
    event.annotatesImage = false := by
  cases event with
  | stringFound address => exact about.elim
  | commented site content => exact about.elim
  | _ => rfl

/-- The calls to a destination keep its label and are added to at the end. -/
structure CalledProcedure.GrowsTo (before after : CalledProcedure) : Prop where
  destination_eq : after.destination = before.destination
  label_eq : after.label = before.label
  sites : before.sites <+: after.sites

namespace Session

/-- What a session holds is still there in a later one. -/
structure Retains (before after : Session) : Prop where
  procedures : ∀ entry procedure,
    before.procedures.get? entry = some procedure →
    ∃ later, after.procedures.get? entry = some later ∧ procedure.Settles later
  called : ∀ destination calls, before.called.get? destination = some calls →
    ∃ later, after.called.get? destination = some later ∧ calls.GrowsTo later
  unresolved : before.unresolved <+: after.unresolved
  diagnostics : before.diagnostics <+: after.diagnostics
  program : before.image.SharesProgram after.image
  decoded : ∀ address, before.image.decoded.contains address = true →
    after.image.decoded.contains address = true

theorem Retains.refl (session : Session) : session.Retains session where
  procedures := fun _ procedure known => ⟨procedure, known, .same⟩
  called := fun _ calls known => ⟨calls, known, rfl, rfl, List.prefix_rfl⟩
  unresolved := List.prefix_rfl
  diagnostics := List.prefix_rfl
  program := .refl session.image
  decoded := fun _ held => held

theorem Retains.trans
    {first second third : Session}
    (early : first.Retains second)
    (late : second.Retains third) :
    first.Retains third where
  procedures := by
    intro entry procedure known
    rcases early.procedures entry procedure known with
      ⟨middle, isMiddle, settles⟩
    rcases late.procedures entry middle isMiddle with
      ⟨last, isLast, settlesAgain⟩
    exact ⟨last, isLast, settles.trans settlesAgain⟩
  called := by
    intro destination calls known
    rcases early.called destination calls known with ⟨middle, isMiddle, grows⟩
    rcases late.called destination middle isMiddle with
      ⟨last, isLast, growsAgain⟩
    exact ⟨last, isLast, growsAgain.destination_eq.trans grows.destination_eq,
      growsAgain.label_eq.trans grows.label_eq,
      grows.sites.trans growsAgain.sites⟩
  unresolved := early.unresolved.trans late.unresolved
  diagnostics := early.diagnostics.trans late.diagnostics
  program := early.program.trans late.program
  decoded :=
    fun address held => late.decoded address (early.decoded address held)

theorem retained_procedures (procedures : Table Nat Procedure) :
    ∀ entry procedure, procedures.get? entry = some procedure →
      ∃ later, procedures.get? entry = some later ∧ procedure.Settles later :=
  fun _ procedure known => ⟨procedure, known, .same⟩

theorem retained_calls (called : Table Nat CalledProcedure) :
    ∀ destination calls, called.get? destination = some calls →
      ∃ later, called.get? destination = some later ∧ calls.GrowsTo later :=
  fun _ calls known => ⟨calls, known, rfl, rfl, List.prefix_rfl⟩

/--
The journal holds the diagnostics, and images grow by themselves, so there are
three parts of a session left to look at.
-/
theorem retains_of_grows
    {before after : Session}
    (grows : Grows before.image after.image)
    (journal : ∃ events, after.journal = before.journal ++ events)
    (procedures : ∀ entry procedure,
      before.procedures.get? entry = some procedure →
      ∃ later, after.procedures.get? entry = some later ∧
      procedure.Settles later)
    (called : ∀ destination calls,
      before.called.get? destination = some calls →
      ∃ later, after.called.get? destination = some later ∧
      calls.GrowsTo later)
    (unresolved : before.unresolved <+: after.unresolved) :
    before.Retains after where
  procedures := procedures
  called := called
  unresolved := unresolved
  diagnostics := by
    rcases journal with ⟨events, same⟩
    rw [diagnostics, diagnostics, same, diagnosticsOf_append]
    exact List.prefix_append _ _
  program := grows.shares
  decoded := grows.extends.decoded

/-! ## Moves -/

section Moves

variable {options : Options} {code : Table Nat Instruction} {session : Session}

theorem retained_calls_insert
    {destination : Nat} {calls : CalledProcedure}
    (replaces : ∀ earlier, session.called.get? destination = some earlier →
      earlier.GrowsTo calls) :
    ∀ other earlier, session.called.get? other = some earlier →
      ∃ later, (session.called.insert destination calls).get? other =
        some later ∧
        earlier.GrowsTo later := by
  intro other earlier known
  rw [Table.get?_insert]
  by_cases same : other = destination
  · subst same
    exact ⟨calls, if_pos rfl, replaces earlier known⟩
  · rw [if_neg same]
    exact ⟨earlier, known, rfl, rfl, List.prefix_rfl⟩

theorem retained_procedures_insert
    {entry : Nat} {procedure : Procedure}
    (replaces : ∀ earlier, session.procedures.get? entry = some earlier →
      earlier.Settles procedure) :
    ∀ other earlier, session.procedures.get? other = some earlier →
      ∃ later, (session.procedures.insert entry procedure).get? other =
        some later ∧
        earlier.Settles later := by
  intro other earlier known
  rw [Table.get?_insert]
  by_cases same : other = entry
  · subst same
    exact ⟨procedure, if_pos rfl, replaces earlier known⟩
  · rw [if_neg same]
    exact ⟨earlier, known, .same⟩

/--
The registration of a call adds a site to the calls to its destination, or a
destination, or a call without one.
-/
theorem retained_by_registerCall
    (session : Session)
    (count : Nat)
    (site : CallSite) :
    (∀ destination calls, session.called.get? destination = some calls →
      ∃ later, (registerCall (session, count) site).1.called.get? destination =
        some later ∧
        calls.GrowsTo later) ∧
    session.unresolved <+:
      (registerCall (session, count) site).1.unresolved := by
  rcases registerCall_cases session count site with
    ⟨destination, earlier, -, known, same⟩ | ⟨destination, -, isNew,
      same⟩ | ⟨-, same⟩
  · rw [same]
    refine ⟨retained_calls_insert ?_, List.prefix_rfl⟩
    intro other isOther
    rw [known] at isOther
    cases isOther
    exact ⟨rfl, rfl, List.prefix_append _ _⟩
  · have called : ∀ other calls, session.called.get? other = some calls →
        ∃ later, (session.called.insert destination
          { destination, label := site.label, sites := [site] }).get? other =
            some later ∧
          calls.GrowsTo later := by
      apply retained_calls_insert
      intro other isOther
      rw [isNew] at isOther
      cases isOther
    rw [same]
    rcases decodeDestination_cases { session with
        called := session.called.insert destination
          { destination, label := site.label,
            sites := [site] } } site destination with
      ⟨-, decoded⟩ | ⟨-, -, decoded⟩ | ⟨-, -, decoded⟩
    · rw [decoded]
      exact ⟨called, List.prefix_rfl⟩
    · rw [decoded]
      exact ⟨called, List.prefix_rfl⟩
    · rw [decoded]
      exact ⟨called, List.prefix_rfl⟩
  · rw [same]
    exact ⟨retained_calls session.called, List.prefix_append _ _⟩

/-- A move loses nothing. -/
theorem Move.retains
    (keyed : IsKeyed code)
    {work next : Work}
    (accounted : work.session.IsAccounted code)
    (moves : Move options work next) :
    work.session.Retains next.session := by
  have grows := moves.grows
  cases moves with
  | decode session waiting address =>
      exact retains_of_grows grows ⟨_, rfl⟩ (retained_procedures _)
        (retained_calls _)
        List.prefix_rfl
  | label session waiting address label =>
      exact retains_of_grows grows ⟨[], (List.append_nil _).symm⟩
        (retained_procedures _)
        (retained_calls _) List.prefix_rfl
  | mention session waiting other =>
      exact retains_of_grows grows ⟨_, rfl⟩ (retained_procedures _)
        (retained_calls _)
        List.prefix_rfl
  | count session waiting =>
      exact retains_of_grows grows ⟨[], (List.append_nil _).symm⟩
        (retained_procedures _)
        (retained_calls _) List.prefix_rfl
  | @find session waiting entry found unclaimed coded found_eq =>
      refine retains_of_grows grows ⟨_, rfl⟩ (retained_procedures_insert ?_)
        (retained_calls _)
        List.prefix_rfl
      intro earlier known
      have isNew := accounted.not_contains keyed unclaimed
      simp [Table.contains, known] at isNew
  | @analyze session waiting entry procedure analyzed events known pending
    finished =>
      refine retains_of_grows grows ⟨_, rfl⟩ (retained_procedures_insert ?_)
        (retained_calls _)
        List.prefix_rfl
      intro earlier isEarlier
      rw [known] at isEarlier
      cases isEarlier
      exact Procedure.settles_of_analyze pending finished
  | register session site waiting count =>
      rcases exists_events_registerCall session count site with
        ⟨procedures, events, journal, -⟩
      rcases retained_by_registerCall session count site with
        ⟨called, unresolved⟩
      refine retains_of_grows grows ⟨events, journal⟩ ?_ called unresolved
      rw [procedures]
      exact retained_procedures _

end Moves

/-! ## Recovered texts -/

/--
An analyzed procedure of the session recovers the text at an address for the
code at a site.
-/
def RecoversText
    (options : Options)
    (session : Session)
    (site address : Nat)
    (text : String) :
    Prop :=
  ∃ entry procedure, session.procedures.get? entry = some procedure ∧
    procedure.progress = .analyzed ∧
    procedure.RecoversText
      { options, image := session.image, procedure := procedure.lo } site
      address text

/-- Every annotation in the journal is due to a recovered text. -/
def IsExplained (options : Options) (session : Session) : Prop :=
  ∀ event ∈ session.journal,
    event.IsDueTo options (session.RecoversText options)

section Texts

variable {options : Options} {code : Table Nat Instruction}

theorem Retains.recoversText
    {before after : Session}
    (retains : before.Retains after)
    {site address : Nat} {text : String}
    (recovers : before.RecoversText options site address text) :
    after.RecoversText options site address text := by
  rcases recovers with ⟨entry, procedure, known, isAnalyzed, recovered⟩
  rcases retains.procedures entry procedure known with
    ⟨later, isLater, settles⟩
  have same := settles.eq_of_settled (by simp [isAnalyzed])
  subst same
  exact ⟨entry, later, isLater, isAnalyzed,
    recovered.congr retains.program.read_eq⟩

/--
What has been explained stays so, and there are only new events to explain.
-/
theorem IsExplained.append
    {before after : Session} {events : List Event}
    (explained : before.IsExplained options)
    (retains : before.Retains after)
    (journal : after.journal = before.journal ++ events)
    (new :
      ∀ event ∈ events, event.IsDueTo options (after.RecoversText options)) :
    after.IsExplained options := by
  intro event member
  rw [journal] at member
  rcases List.mem_append.mp member with isOld | isNew
  · exact (explained event isOld).mono (fun _ _ _ recovers =>
      retains.recoversText recovers)
  · exact new event isNew

theorem IsExplained.move
    (keyed : IsKeyed code)
    {work next : Work}
    (accounted : work.session.IsAccounted code)
    (explained : work.session.IsExplained options)
    (moves : Move options work next) :
    next.session.IsExplained options := by
  have retains := moves.retains keyed accounted
  cases moves with
  | decode session waiting address =>
      exact explained.append retains rfl (by simp [Event.IsDueTo])
  | label session waiting address label =>
      exact explained.append retains (List.append_nil _).symm (by simp)
  | mention session waiting other =>
      exact explained.append retains rfl (by simp [Event.IsDueTo])
  | count session waiting =>
      exact explained.append retains (List.append_nil _).symm (by simp)
  | find session waiting unclaimed coded found_eq =>
      exact explained.append retains rfl (by simp [Event.IsDueTo])
  | @analyze session waiting entry procedure analyzed events known pending
    finished =>
      refine explained.append retains rfl ?_
      rcases accounted.procedures entry procedure known with
        ⟨chain, -, byChain⟩
      intro event member
      apply (Procedure.isDueTo_of_analyze (byChain.isPendingOn pending)
        finished event member).mono
      rintro site address text ⟨isAnalyzed, recovers⟩
      refine ⟨entry, analyzed,
        by rw [Table.get?_insert, if_pos rfl], isAnalyzed, ?_⟩
      exact recovers.congr
        (session.image.sharesProgram_absorbAll events).1.read_eq
  | register session site waiting count =>
      rcases exists_events_registerCall session count site with
        ⟨-, events, journal, about⟩
      refine explained.append retains journal ?_
      intro event member
      exact Event.isDueTo_of_plain (about event member).annotatesImage

/-- Before the first command there are no annotations to explain. -/
theorem plain_decodeEntries
    (image : Image)
    (addresses : List Nat) :
    ∀ event ∈ (Listing.decodeEntries image addresses).2,
      event.annotatesImage = false := by
  induction addresses generalizing image with
  | nil =>
      intro event member
      cases member
  | cons address later hypothesis =>
      simp only [Listing.decodeEntries, Listing.decodeEntry, List.cons_append,
        List.forall_mem_cons, List.forall_mem_append]
      refine ⟨rfl, ?_, hypothesis _⟩
      split
      next => simp
      next => simp [Event.annotatesImage]

theorem plain_ofListing
    {text : String} {lifted : Listing.Lifted}
    (isLifted : Listing.lift text = .ok lifted) :
    ∀ event ∈ (ofListing lifted).journal, event.annotatesImage = false := by
  rcases bind_eq_ok_iff.mp isLifted with ⟨draft, -, rest⟩
  cases rest
  simp only [ofListing, List.forall_mem_append]
  exact ⟨plain_decodeEntries _ _, by simp [Event.annotatesImage]⟩

end Texts

/-! ## Steps -/

/--
A later session has everything that a session has.  Its labels are those from
before and labels of recovered texts.
-/
structure AppendsTo (options : Options) (before after : Session) : Prop
    extends Retains before after where
  labels : ∀ address label, before.image.labels.get? address = some label →
    after.image.labels.get? address = some label
  added : ∀ address label, before.image.labels.get? address = none →
    after.image.labels.get? address = some label →
    label = Image.stringLabel address ∧ ∃ site text,
    after.RecoversText options site address text

/-- The labels that a step adds are accounted for by its journal. -/
theorem Retains.appendsTo
    {options : Options} {before after : Session}
    (retains : before.Retains after)
    (annotates : before.Annotates after)
    (explained : after.IsExplained options) :
    before.AppendsTo options after where
  toRetains := retains
  labels := by
    intro address label labeled
    rcases annotates with ⟨events, -, annotated⟩
    rw [annotated.labels, labeled, Option.some_or]
  added := by
    intro address label unlabeled labeled
    rcases annotates with ⟨events, journal, annotated⟩
    rw [annotated.labels, unlabeled, Option.none_or] at labeled
    rcases mem_labelsOf_iff.mp (List.mem_of_mem_head? labeled) with
      ⟨found, isLabel⟩
    have inJournal : Event.stringFound address ∈ after.journal := by
      rw [journal]
      exact List.mem_append_right before.journal found
    exact ⟨isLabel, (explained _ inJournal).2⟩

/--
After any commands, every step that a session can take only adds to it, and the
only way to halt is a sum that leaves its word.
-/
theorem perform_appends
    {text : String} {lifted : Listing.Lifted}
    (isLifted : Listing.lift text = .ok lifted)
    (options : Options)
    (commands : List Command)
    (step : Step) :
    Delivers ((ofListing lifted).executeAll options commands)
      (fun session =>
        Delivers (session.perform options step) (session.AppendsTo options)
          HaltsByOverflow)
      HaltsByOverflow := by
  have keyed := Listing.isKeyed_of_lift isLifted
  have initial : (ofListing lifted).IsExplained options := fun event member =>
    Event.isDueTo_of_plain (plain_ofListing isLifted event member)
  apply (delivers_executeAll (fun work => work.session.IsExplained options)
    keyed (isAccounted_ofListing lifted) initial
    (fun _ _ accounted explained moves => explained.move keyed accounted moves)
    commands).weaken
  rintro session ⟨accounted, explained⟩
  apply delivers_of_outcome
  · intro next finished
    have proceeds := proceeds_perform finished
    have kept := proceeds.reaches.keeps_accounted
      (fun work => session.Retains work.session ∧
        work.session.IsExplained options) keyed accounted
      ⟨.refl session, explained⟩
      (fun _ _ isAccounted holds moves =>
        ⟨holds.1.trans (moves.retains keyed isAccounted),
        holds.2.move keyed isAccounted moves⟩)
    exact kept.2.1.appendsTo proceeds.annotates kept.2.2
  · intro halt stopped
    exact (delivers_perform keyed options accounted step).of_error stopped

/--
A procedure that pushes a text, with comments on the push and on the return.
-/
def greetingListing : String := "LISTING greeting

MEMORY
2000: 48 49

ENTRY 1000

CODE
1000 mov fp,-(sp)
1002 mov sp,fp
1004 cmp sp,@#0x2100
1008 bhi 0x100e
100a sev
100c trap
100e mov #0x2002,r1 ; greet
1012 mov #1,r2
1016 movb -(r1),-(sp)
1018 sob r2,0x1016
101a movb -(r1),-(sp)
101c rts pc ; done
"

/-- A run of the procedure labels the text and comments on the push. -/
theorem exists_run_greetingListing :
    ∃ lifted session, Listing.lift greetingListing = .ok lifted ∧
      (ofListing lifted).run {} = .ok session ∧
      (lifted.image.labels.get? 0x2000, session.image.labels.get? 0x2000) =
        (none, some "str_2000") ∧
      (lifted.image.comments.get? 0x100e, session.image.comments.get? 0x100e) =
        (some "greet", some "\"HI\"") ∧
      (commentsOf 0x100e session.journal, commentsOf 0x101c session.journal) =
        (["\"HI\""], []) := by
  have works : ((Listing.lift greetingListing).toOption.bind (fun lifted =>
      ((ofListing lifted).run {}).toOption.map (fun session =>
        ((lifted.image.labels.get? 0x2000, session.image.labels.get? 0x2000),
          (lifted.image.comments.get? 0x100e,
            session.image.comments.get? 0x100e),
          (commentsOf 0x100e session.journal,
            commentsOf 0x101c session.journal))))) =
      some ((none, some "str_2000"), (some "greet", some "\"HI\""),
        (["\"HI\""], [])) := by
    decide +kernel
  rcases Option.bind_eq_some_iff.mp works with ⟨lifted, isLifted, rest⟩
  rcases Option.map_eq_some_iff.mp rest with ⟨session, ran, same⟩
  rcases Prod.mk.inj same with ⟨labels, rest⟩
  rcases Prod.mk.inj rest with ⟨comments, made⟩
  exact ⟨lifted, session, eq_ok_of_toOption isLifted, eq_ok_of_toOption ran,
    labels, comments, made⟩

/-- A run labels the text that is pushed, where there was no label. -/
theorem perform_appends_greetingListing :
    ∃ lifted session, Listing.lift greetingListing = .ok lifted ∧
      (ofListing lifted).perform {} .run = .ok session ∧
      lifted.image.labels.get? 0x2000 = none ∧
      session.image.labels.get? 0x2000 = some "str_2000" ∧
      (ofListing lifted).AppendsTo {} session := by
  rcases exists_run_greetingListing with
    ⟨lifted, session, isLifted, ran, labels, -, -⟩
  rcases Prod.mk.inj labels with ⟨unlabeled, labeled⟩
  have executed : (ofListing lifted).executeAll {} [] =
      .ok (ofListing lifted) := rfl
  exact ⟨lifted, session, isLifted, ran, unlabeled, labeled,
    ((perform_appends isLifted {} [] .run).of_ok executed).of_ok ran⟩

end Session

end ProcRecovery
