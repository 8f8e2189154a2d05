import Mathlib.Logic.Relation
import ProcRecovery.Proofs.Image.Annotations
import ProcRecovery.Proofs.Procedure.Stages
import ProcRecovery.Proofs.Session.Conservation

/-!
# Moves of a session

Everything that a session does comes down to a few moves: it decodes code,
labels an address, writes a note, counts a pass, adds a procedure that no other
one claims, analyzes a procedure that is waiting for it, and registers a call.
Calls wait between the analysis that finds them and their registration.  What
every move keeps holds after any commands, because commands are made of moves.
-/

namespace ProcRecovery

/-- The entry of the procedure that an event says was found. -/
def Event.finding? : Event → Option Nat
  | .noted (.procedureFound entry _ _) => some entry
  | _ => none

/-- An event of the registration of a call. -/
def Event.IsAboutCall : Event → Prop
  | .diagnosed _ (.unresolvedCall _) | .diagnosed _ (.undecodableTarget _ _) =>
      True
  | .noted note => (Event.noted note).finding? = none
  | _ => False

namespace Session

/-- Something to do in a session: one of its steps, or to label an address. -/
inductive Command where
  | step (step : Step)
  | setLabel (address : Nat) (label : String)
  deriving Repr, DecidableEq

/-- Carry out a command. -/
def execute (options : Options) (session : Session) : Command → Stepped Session
  | .step step => session.perform options step
  | .setLabel address label => .ok (session.setLabel address label)

/-- Carry out commands one after the other. -/
def executeAll
    (options : Options)
    (session : Session)
    (commands : List Command) :
    Stepped Session :=
  commands.foldlM (execute options) session

/--
A session at work, and the calls it has found that are not registered yet.
-/
structure Work where
  session : Session
  waiting : List CallSite

/-- What a session does at once. -/
inductive Move (options : Options) : Work → Work → Prop
  | decode (session : Session) (waiting : List CallSite) (address : Nat) :
      Move options ⟨session, waiting⟩ ⟨(session.requestDecode address).1,
        waiting⟩
  | label
      (session : Session)
      (waiting : List CallSite)
      (address : Nat)
      (label : String) :
      Move options ⟨session, waiting⟩ ⟨session.setLabel address label, waiting⟩
  | mention (session : Session) (waiting : List CallSite) {note : Note}
      (other : (Event.noted note).finding? = none) :
      Move options ⟨session, waiting⟩ ⟨session.record [.noted note], waiting⟩
  | count (session : Session) (waiting : List CallSite) :
      Move options ⟨session, waiting⟩
      ⟨{ session with passes := session.passes + 1 }, waiting⟩
  /--
  The procedure at an address with code that no procedure claims is added.
  -/
  | find
      (session : Session)
      (waiting : List CallSite)
      {entry : Nat} {found : Procedure}
      (unclaimed : session.procedureContaining? entry = none)
      (coded : (session.image.code.get? entry).isSome)
      (found_eq : found = .ofInstructions (session.image.chainFrom entry)) :
      Move options ⟨session, waiting⟩
        ⟨{ session.record
            [.noted
              (.procedureFound entry found.hi
              (session.image.labels.get? entry))] with
          procedures := session.procedures.insert entry found }, waiting⟩
  /-- A procedure is analyzed, and the calls it makes have to wait. -/
  | analyze (session : Session) (waiting : List CallSite) {entry : Nat}
      {procedure analyzed : Procedure} {events : List Event}
      (known : session.procedures.get? entry = some procedure)
      (pending : procedure.progress = .pending)
      (finished :
        (procedure.analyze options session.image).Finishes events analyzed) :
      Move options ⟨session, waiting⟩
        ⟨{ session.record events with
            procedures := session.procedures.insert entry analyzed },
          waiting ++ analyzed.calls⟩
  | register
      (session : Session)
      (site : CallSite)
      (waiting : List CallSite)
      (count : Nat) :
      Move options ⟨session, site :: waiting⟩
      ⟨(registerCall (session, count) site).1, waiting⟩

/-- What a session gets to by moves. -/
def Reaches (options : Options) : Work → Work → Prop :=
  Relation.ReflTransGen (Move options)

/-- What every move keeps holds of everything that is reached. -/
theorem Reaches.keeps
    {options : Options}
    (invariant : Work → Prop)
    {work next : Work}
    (reached : Reaches options work next)
    (initial : invariant work)
    (each : ∀ work next, invariant work → Move options work next →
      invariant next) :
    invariant next := by
  induction reached with
  | refl => exact initial
  | tail _ move hypothesis => exact each _ _ hypothesis move

/-! ## Registration -/

/--
A destination is decoded unless that is not needed, and reported if there is no
code.
-/
theorem decodeDestination_cases
    (session : Session)
    (site : CallSite)
    (destination : Nat) :
    session.needsDecoding destination = false ∧
        session.decodeDestination site destination = session ∨
      session.needsDecoding destination = true ∧
        (session.image.requestDecode destination).found = true ∧
        session.decodeDestination site destination =
          (session.requestDecode destination).1 ∨
      session.needsDecoding destination = true ∧
        (session.image.requestDecode destination).found = false ∧
        session.decodeDestination site destination =
          (session.requestDecode destination).1.record
            [.diagnosed site.caller
              (.undecodableTarget site.address destination)] := by
  unfold decodeDestination
  cases session.needsDecoding destination with
  | false => exact .inl ⟨rfl, rfl⟩
  | true =>
      cases found : (session.image.requestDecode destination).found with
      | true => exact .inr (.inl ⟨rfl, rfl, by simp [requestDecode, found]⟩)
      | false => exact .inr (.inr ⟨rfl, rfl, by simp [requestDecode, found]⟩)

/--
A call goes to where its destination is known from before, to a new
destination, or to the calls without one.
-/
theorem registerCall_cases
    (session : Session)
    (count : Nat)
    (site : CallSite) :
    (∃ destination earlier, site.destination = .known destination ∧
      session.called.get? destination = some earlier ∧
      (registerCall (session, count) site).1 =
        { session with
          called := session.called.insert destination
            { earlier with sites := earlier.sites ++ [site] } }) ∨
    (∃ destination, site.destination = .known destination ∧
      session.called.get? destination = none ∧
      (registerCall (session, count) site).1 =
        decodeDestination
          { session with
            called := session.called.insert destination
              { destination, label := site.label,
                sites := [site] } } site destination) ∨
    ((∀ destination, site.destination ≠ .known destination) ∧
      (registerCall (session, count) site).1 =
        { session.record
          [.diagnosed site.caller (.unresolvedCall site.address)] with
          unresolved := session.unresolved ++ [site] }) := by
  simp only [registerCall]
  split
  next destination known =>
    split
    next earlier found => exact .inl ⟨destination, earlier, known, found, rfl⟩
    next isNew => exact .inr (.inl ⟨destination, known, isNew, rfl⟩)
  next unknown => exact .inr (.inr ⟨unknown, rfl⟩)

theorem finding?_requestDecode (image : Image) (address : Nat) :
    (Event.noted (image.requestDecode address).note).finding? = none := by
  unfold Image.requestDecode
  split <;> rfl

/--
The registration of a call leaves procedures alone and speaks of calls only.
-/
theorem exists_events_registerCall
    (session : Session)
    (count : Nat)
    (site : CallSite) :
    (registerCall (session, count) site).1.procedures = session.procedures ∧
      ∃ events, (registerCall (session, count) site).1.journal =
        session.journal ++ events ∧
        ∀ event ∈ events, event.IsAboutCall := by
  rcases registerCall_cases session count site with
    ⟨destination, earlier, -, -, same⟩ | ⟨destination, -, -, same⟩ | ⟨-, same⟩
  · rw [same]
    exact ⟨rfl, [], (List.append_nil _).symm, by simp⟩
  · rw [same]
    rcases decodeDestination_cases { session with
        called := session.called.insert destination
          { destination, label := site.label,
            sites := [site] } } site destination with
      ⟨-, decoded⟩ | ⟨-, -, decoded⟩ | ⟨-, -, decoded⟩
    · rw [decoded]
      exact ⟨rfl, [], (List.append_nil _).symm, by simp⟩
    · rw [decoded]
      refine ⟨rfl, _, rfl, ?_⟩
      simpa [Event.IsAboutCall] using finding?_requestDecode session.image
        destination
    · rw [decoded]
      refine ⟨rfl, _, List.append_assoc _ _ _, ?_⟩
      simpa [Event.IsAboutCall] using finding?_requestDecode session.image
        destination
  · rw [same]
    exact ⟨rfl, _, rfl, by simp [Event.IsAboutCall]⟩

/-! ## Annotation -/

/-- Whatever is new in the journal says how the image has been annotated. -/
def Annotates (before after : Session) : Prop :=
  ∃ events, after.journal = before.journal ++ events ∧
    before.image.IsAnnotatedBy events after.image

theorem Annotates.trans
    {first second third : Session}
    (early : first.Annotates second)
    (late : second.Annotates third) :
    first.Annotates third := by
  rcases early with ⟨earlier, earlyJournal, earlyImage⟩
  rcases late with ⟨later, lateJournal, lateImage⟩
  refine ⟨earlier ++ later, ?_, earlyImage.trans lateImage⟩
  rw [lateJournal, earlyJournal, List.append_assoc]

theorem annotates_of_eq
    {before after : Session}
    (image_eq : after.image = before.image)
    (journal_eq : after.journal = before.journal) :
    before.Annotates after := by
  refine ⟨[], journal_eq.trans (List.append_nil _).symm, ?_⟩
  rw [image_eq]
  exact Image.isAnnotatedBy_absorbAll before.image []

theorem annotates_record (session : Session) (events : List Event) :
    session.Annotates (session.record events) :=
  ⟨events, rfl, session.image.isAnnotatedBy_absorbAll events⟩

theorem annotates_requestDecode (session : Session) (address : Nat) :
    session.Annotates (session.requestDecode address).1 :=
  ⟨_, rfl, session.image.isAnnotatedBy_requestDecode address⟩

theorem annotates_registerCall
    (session : Session)
    (count : Nat)
    (site : CallSite) :
    session.Annotates (registerCall (session, count) site).1 := by
  rcases registerCall_cases session count site with
    ⟨destination, earlier, -, -, same⟩ | ⟨destination, -, -, same⟩ | ⟨-, same⟩
  · rw [same]
    exact annotates_of_eq rfl rfl
  · rw [same]
    rcases decodeDestination_cases { session with
        called := session.called.insert destination
          { destination, label := site.label,
            sites := [site] } } site destination with
      ⟨-, decoded⟩ | ⟨-, -, decoded⟩ | ⟨-, -, decoded⟩
    · rw [decoded]
      exact annotates_of_eq rfl rfl
    · rw [decoded]
      exact annotates_requestDecode session destination
    · rw [decoded]
      exact (annotates_requestDecode session destination).trans
        (annotates_record _ _)
  · rw [same]
    exact annotates_record session _

/--
What a session gets to by moves of its own.  None of them labels an address by
hand, so the journal accounts for all annotations.
-/
structure Proceeds (options : Options) (work next : Work) : Prop where
  reaches : Reaches options work next
  annotates : work.session.Annotates next.session

section Proceeding

variable {options : Options} {session : Session}

theorem Proceeds.refl (work : Work) : Proceeds options work work where
  reaches := .refl
  annotates := annotates_of_eq rfl rfl

theorem Proceeds.trans
    {first second third : Work}
    (early : Proceeds options first second)
    (late : Proceeds options second third) :
    Proceeds options first third where
  reaches := early.reaches.trans late.reaches
  annotates := early.annotates.trans late.annotates

theorem Proceeds.single
    {work next : Work}
    (move : Move options work next)
    (annotates : work.session.Annotates next.session) :
    Proceeds options work next where
  reaches := .single move
  annotates := annotates

/-! ## Scanning -/

theorem proceeds_decodeChain
    (session : Session)
    (waiting : List CallSite)
    (chain : List Instruction) :
    Proceeds options ⟨session, waiting⟩
      ⟨{ session with
          image := (decodeChain session.image chain).1
          journal :=
            session.journal ++ (decodeChain session.image chain).2 },
              waiting⟩ := by
  induction chain generalizing session with
  | nil =>
      simp only [decodeChain, List.append_nil]
      exact .refl _
  | cons instruction later hypothesis =>
      simp only [decodeChain]
      split
      next => exact hypothesis session
      next =>
        apply (Proceeds.single (.decode session waiting instruction.lo)
          (annotates_requestDecode session instruction.lo)).trans
        have rest := hypothesis (session.requestDecode instruction.lo).1
        simp only [requestDecode, List.append_assoc, List.singleton_append]
          at rest
        exact rest

theorem proceeds_mentions
    (session : Session)
    (waiting : List CallSite)
    (notes : List Note)
    (others : ∀ note ∈ notes, (Event.noted note).finding? = none) :
    Proceeds options ⟨session, waiting⟩
      ⟨{ session with journal := session.journal ++ notes.map Event.noted },
        waiting⟩ := by
  induction notes generalizing session with
  | nil =>
      simp only [List.map_nil, List.append_nil]
      exact .refl _
  | cons note later hypothesis =>
      apply (Proceeds.single (.mention session waiting (others note (by simp)))
        (annotates_record session _)).trans
      have rest := hypothesis (session.record [.noted note])
        (fun other member => others other (List.mem_cons_of_mem note member))
      simp only [journal_record, List.append_assoc, List.singleton_append]
        at rest
      exact rest

/-- What is said at the end of a chain are notes that find no procedure. -/
theorem exists_chainEndNotes (entry : Nat) (chain : List Instruction) :
    ∃ notes : List Note, chainEndEvents entry chain = notes.map Event.noted ∧
      ∀ note ∈ notes, (Event.noted note).finding? = none := by
  unfold chainEndEvents
  split
  next last _ =>
    split
    next => exact ⟨[], rfl, by simp⟩
    next =>
      exact ⟨[.nothingToDecode last.hi, .bodyEnds entry last.hi], rfl,
        by simp [Event.finding?]⟩
  next =>
    exact ⟨[.nothingToDecode entry, .bodyEnds entry entry], rfl,
      by simp [Event.finding?]⟩

theorem chainFrom_decodeChain
    (image : Image)
    (chain : List Instruction)
    (address : Nat) :
    (decodeChain image chain).1.chainFrom address =
      image.chainFrom address := by
  rw [Image.chainFrom, code_decodeChain, Image.chainFrom]

theorem proceeds_addProcedure
    {next : Session} {entry : Nat}
    (waiting : List CallSite)
    (unclaimed : session.procedureContaining? entry = none)
    (coded : (session.image.code.get? entry).isSome)
    (added : session.addProcedure entry = .ok next) :
    Proceeds options ⟨session, waiting⟩ ⟨next, waiting⟩ := by
  rcases exists_chainEndNotes entry (session.image.chainFrom entry) with
    ⟨notes, ends, others⟩
  simp only [addProcedure, ends] at added
  split at added
  next => cases added
  next =>
    cases added
    apply (proceeds_decodeChain session waiting
      (session.image.chainFrom entry)).trans
    apply (proceeds_mentions _ waiting notes others).trans
    have isCoded := coded
    rw [← code_decodeChain session.image (session.image.chainFrom entry)]
      at isCoded
    exact .single (.find _ waiting unclaimed isCoded
      (congrArg Procedure.ofInstructions (chainFrom_decodeChain _ _ _).symm))
      ⟨_, rfl, Image.isAnnotatedBy_absorbAll _ _⟩

theorem proceeds_scanAddress
    {next : Session} {found after address : Nat}
    (waiting : List CallSite)
    (finished : scanAddress (session, found) address = .ok (next, after)) :
    Proceeds options ⟨session, waiting⟩ ⟨next, waiting⟩ := by
  simp only [scanAddress] at finished
  split at finished
  next isNew =>
    simp only [Bool.and_eq_true, Option.isNone_iff_eq_none] at isNew
    rcases bind_eq_ok_iff.mp finished with ⟨extended, added, same⟩
    cases same
    exact proceeds_addProcedure waiting isNew.1
      (isSome_get?_of_isEntry isNew.2) added
  next =>
    cases finished
    exact .refl _

theorem proceeds_scan
    {next : Session} {found : Nat}
    (waiting : List CallSite)
    (finished : session.scan = .ok (next, found)) :
    Proceeds options ⟨session, waiting⟩ ⟨next, waiting⟩ := by
  have reached : Delivers session.scan
      (fun state => Proceeds options ⟨session, waiting⟩ ⟨state.1, waiting⟩)
      (fun _ => True) := by
    apply Delivers.foldlM
    · exact Proceeds.refl _
    · rintro ⟨current, count⟩ soFar address _
      apply delivers_of_outcome
      · rintro ⟨after, total⟩ scanned
        exact soFar.trans (proceeds_scanAddress waiting scanned)
      · intro halt _
        trivial
  exact reached.of_ok finished

/-! ## Analysis -/

/--
The procedures are analyzed as they stood at the start: none is touched before
its turn.
-/
theorem proceeds_analyzeAll
    {next : Session} {entries : List (Nat × Procedure)}
    {sites after : List CallSite}
    (distinct : entries.Pairwise (fun first second => first.1 ≠ second.1))
    (known : ∀ entry ∈ entries, session.procedures.get? entry.1 = some entry.2)
    (finished : entries.foldlM (analyzeProcedure options) (session, sites) =
      .ok (next, after)) :
    Proceeds options ⟨session, sites⟩ ⟨next, after⟩ := by
  induction entries generalizing session sites with
  | nil =>
      cases finished
      exact .refl _
  | cons first later hypothesis =>
      rw [List.pairwise_cons] at distinct
      rw [List.forall_mem_cons] at known
      rw [List.foldlM_cons] at finished
      rcases bind_eq_ok_iff.mp finished with
        ⟨⟨middle, gathered⟩, isFirst, isLater⟩
      simp only [analyzeProcedure] at isFirst
      split at isFirst
      next =>
        cases isFirst
        exact hypothesis distinct.2 known.2 isLater
      next =>
        cases isFirst
        exact hypothesis distinct.2 known.2 isLater
      next isPending =>
        split at isFirst
        next analyzed ended =>
          cases isFirst
          apply (Proceeds.single
            (.analyze session sites known.1 isPending ⟨rfl, ended⟩)
            (annotates_record session _)).trans
          apply hypothesis distinct.2 _ isLater
          intro entry member
          rw [Table.get?_insert, if_neg (distinct.1 entry member).symm]
          exact known.2 entry member
        next => cases isFirst

theorem proceeds_registerAll
    (session : Session)
    (count : Nat)
    (sites : List CallSite) :
    Proceeds options ⟨session, sites⟩
      ⟨(sites.foldl registerCall (session, count)).1, []⟩ := by
  induction sites generalizing session count with
  | nil => exact .refl _
  | cons site later hypothesis =>
      apply (Proceeds.single (.register session site later count)
        (annotates_registerCall session count site)).trans
      exact hypothesis _ _

theorem proceeds_analyzePending
    {next : Session} {count : Nat}
    (finished : session.analyzePending options = .ok (next, count)) :
    Proceeds options ⟨session, []⟩ ⟨next, []⟩ := by
  rcases bind_eq_ok_iff.mp finished with
    ⟨⟨analyzed, sites⟩, isAnalyzed, isRegistered⟩
  have distinct :
      session.procedures.entries.Pairwise (fun first second =>
        first.1 ≠ second.1) :=
    session.procedures.sorted.imp Nat.ne_of_lt
  have first := proceeds_analyzeAll distinct
    (fun entry member => Table.get?_eq_some_iff.mpr member) isAnalyzed
  have second : Proceeds options ⟨analyzed, sites⟩ _ :=
    proceeds_registerAll analyzed 0 sites
  simp only [Except.ok.injEq] at isRegistered
  rw [isRegistered] at second
  exact first.trans second

/-! ## Commands -/

theorem proceeds_pass
    {next : Session} {news : Bool}
    (finished : session.pass options = .ok (next, news)) :
    Proceeds options ⟨session, []⟩ ⟨next, []⟩ := by
  rcases bind_eq_ok_iff.mp finished with ⟨⟨scanned, found⟩, isScanned, rest⟩
  rcases bind_eq_ok_iff.mp rest with ⟨⟨analyzed, targets⟩, isAnalyzed, same⟩
  cases same
  apply (Proceeds.single (.count session []) (annotates_of_eq rfl rfl)).trans
  apply (proceeds_scan [] isScanned).trans
  apply (proceeds_analyzePending isAnalyzed).trans
  exact .single (.mention analyzed [] rfl) (annotates_record analyzed _)

theorem proceeds_runPasses
    {next : Session} {remaining : Nat}
    (finished : session.runPasses options remaining = .ok next) :
    Proceeds options ⟨session, []⟩ ⟨next, []⟩ := by
  induction remaining generalizing session with
  | zero =>
      cases finished
      exact .single (.mention session [] rfl) (annotates_record session _)
  | succ remaining hypothesis =>
      rw [runPasses] at finished
      rcases bind_eq_ok_iff.mp finished with ⟨⟨passed, news⟩, isPassed, rest⟩
      have first := proceeds_pass isPassed
      cases news with
      | true => exact first.trans (hypothesis rest)
      | false =>
          cases rest
          exact first

/-- A step of a session is a sequence of moves of its own. -/
theorem proceeds_perform
    {next : Session} {step : Step}
    (finished : session.perform options step = .ok next) :
    Proceeds options ⟨session, []⟩ ⟨next, []⟩ := by
  cases step with
  | scan =>
      rcases bind_eq_ok_iff.mp finished with
        ⟨⟨scanned, found⟩, isScanned, same⟩
      cases same
      exact proceeds_scan [] isScanned
  | analyzePending =>
      rcases bind_eq_ok_iff.mp finished with
        ⟨⟨analyzed, count⟩, isAnalyzed, same⟩
      cases same
      exact proceeds_analyzePending isAnalyzed
  | run => exact proceeds_runPasses finished
  | requestDecode address =>
      cases finished
      exact .single (.decode session [] address)
        (annotates_requestDecode session address)

/-- A command is a sequence of moves. -/
theorem reaches_execute
    {next : Session} {command : Command}
    (finished : session.execute options command = .ok next) :
    Reaches options ⟨session, []⟩ ⟨next, []⟩ := by
  cases command with
  | setLabel address label =>
      cases finished
      exact Relation.ReflTransGen.single (.label session [] address label)
  | step step => exact (proceeds_perform finished).reaches

end Proceeding

/-! ## The start of a session -/

/-- Nothing odd is found and no procedure before the first command. -/
theorem silent_decodeEntries (image : Image) (addresses : List Nat) :
    ∀ event ∈ (Listing.decodeEntries image addresses).2,
      event.diagnostic? = none ∧ event.finding? = none := by
  induction addresses generalizing image with
  | nil =>
      intro event member
      cases member
  | cons address later hypothesis =>
      simp only [Listing.decodeEntries, Listing.decodeEntry, List.cons_append,
        List.forall_mem_cons, List.forall_mem_append]
      refine ⟨⟨rfl, finding?_requestDecode image address⟩, ?_, hypothesis _⟩
      split
      next => simp
      next => simp [Event.diagnostic?, Event.finding?]

theorem silent_ofListing
    {text : String} {lifted : Listing.Lifted}
    (isLifted : Listing.lift text = .ok lifted) :
    ∀ event ∈ (ofListing lifted).journal, event.diagnostic? = none ∧
      event.finding? = none := by
  rcases bind_eq_ok_iff.mp isLifted with ⟨draft, -, rest⟩
  cases rest
  simp only [ofListing, List.forall_mem_append]
  exact ⟨silent_decodeEntries _ _, by simp [Event.diagnostic?, Event.finding?]⟩

/-- A session of a listing starts without oddities. -/
theorem diagnostics_ofListing
    {text : String} {lifted : Listing.Lifted}
    (isLifted : Listing.lift text = .ok lifted) :
    (ofListing lifted).diagnostics = [] := by
  rw [diagnostics, diagnosticsOf, List.filterMap_eq_nil_iff]
  intro event member
  exact (silent_ofListing isLifted event member).1

/-! ## Accounts -/

section Accounts

variable {options : Options} {code : Table Nat Instruction}

/-- A move keeps the accounts. -/
theorem IsAccounted.move
    (keyed : IsKeyed code)
    {work next : Work}
    (accounted : work.session.IsAccounted code)
    (moves : Move options work next) :
    next.session.IsAccounted code := by
  cases moves with
  | decode session waiting address => exact accounted.requestDecode address
  | label session waiting address label => exact accounted.congr rfl rfl
  | mention session waiting other => exact accounted.record _
  | count session waiting => exact accounted.congr rfl rfl
  | @find session waiting entry found unclaimed coded found_eq =>
      have isChain := accounted.chainAt keyed entry
      rw [accounted.code_eq] at coded
      have isPending :=
        Procedure.isPendingOn_ofInstructions (isChain.ne_nil coded)
      rw [← found_eq] at isPending
      exact (accounted.record _).insert isChain
        ⟨isChain.ne_nil coded, isPending.spans, .inl isPending⟩
  | @analyze session waiting entry procedure analyzed events known pending
        finished =>
      rcases accounted.procedures entry procedure known with
        ⟨chain, isChain, byChain⟩
      have analyzes :
          analyzeProcedure options (session, waiting) (entry, procedure) =
          .ok ({ session.record events with
            procedures := session.procedures.insert entry analyzed },
            waiting ++ analyzed.calls) := by
        simp only [analyzeProcedure, pending, finished.outcome_eq,
          finished.events_eq]
        rfl
      exact (delivers_analyzeProcedure keyed options accounted waiting isChain
        byChain).of_ok analyzes
  | register session site waiting count =>
      exact accounted.registerCall count site

theorem delivers_execute
    (keyed : IsKeyed code)
    {session : Session}
    (accounted : session.IsAccounted code)
    (command : Command) :
    Delivers (session.execute options command) (IsAccounted code)
      HaltsByOverflow := by
  cases command with
  | step step => exact delivers_perform keyed options accounted step
  | setLabel address label => exact accounted.congr rfl rfl

/--
What every move keeps as long as the accounts are right holds of everything
that is reached.
-/
theorem Reaches.keeps_accounted
    (invariant : Work → Prop)
    (keyed : IsKeyed code)
    {work next : Work}
    (reached : Reaches options work next)
    (accounted : work.session.IsAccounted code)
    (initial : invariant work)
    (each : ∀ work next, work.session.IsAccounted code → invariant work →
      Move options work next → invariant next) :
    next.session.IsAccounted code ∧ invariant next := by
  apply reached.keeps (fun work => work.session.IsAccounted code ∧
    invariant work)
    ⟨accounted, initial⟩
  rintro before after ⟨beforeAccounted, holds⟩ moves
  exact ⟨beforeAccounted.move keyed moves,
    each before after beforeAccounted holds moves⟩

/--
What every move keeps as long as the accounts are right holds after any
commands, and the only way to halt is a sum that leaves its word.
-/
theorem delivers_executeAll
    (invariant : Work → Prop)
    (keyed : IsKeyed code)
    {session : Session}
    (accounted : session.IsAccounted code)
    (initial : invariant ⟨session, []⟩)
    (each : ∀ work next, work.session.IsAccounted code → invariant work →
      Move options work next → invariant next)
    (commands : List Command) :
    Delivers (session.executeAll options commands)
      (fun final => final.IsAccounted code ∧ invariant ⟨final, []⟩)
        HaltsByOverflow := by
  apply Delivers.foldlM ⟨accounted, initial⟩
  rintro current ⟨currentAccounted, holds⟩ command _
  apply delivers_of_outcome
  · intro next finished
    exact (reaches_execute finished).keeps_accounted invariant keyed
      currentAccounted holds each
  · intro halt stopped
    exact (delivers_execute keyed currentAccounted command).of_error stopped

/-- The session of a listing has no procedures to account for. -/
theorem isAccounted_ofListing (lifted : Listing.Lifted) :
    (ofListing lifted).IsAccounted lifted.image.code := by
  refine ⟨rfl, ?_⟩
  intro entry procedure found
  cases found

/-- Every analyzed procedure of a session has a property. -/
def EachAnalyzed (holds : Procedure → Prop) (session : Session) : Prop :=
  ∀ entry procedure, session.procedures.get? entry = some procedure →
    procedure.progress = .analyzed → holds procedure

theorem EachAnalyzed.insert
    {holds : Procedure → Prop} {session : Session}
    (each : session.EachAnalyzed holds)
    {entry : Nat} {procedure : Procedure}
    (isHeld : procedure.progress = .analyzed → holds procedure) :
    EachAnalyzed holds
      { session with
        procedures := session.procedures.insert entry procedure } := by
  intro other found isFound
  rw [Table.get?_insert] at isFound
  split at isFound
  next =>
    cases isFound
    exact isHeld
  next => exact each other found isFound

/--
What every analysis establishes holds of the procedures that any commands have
analyzed.
-/
theorem delivers_eachAnalyzed
    {holds : Procedure → Prop} {lifted : Listing.Lifted}
    (keyed : IsKeyed lifted.image.code)
    (establishes : ∀ image instructions procedure analyzed events,
      Procedure.IsPendingOn instructions procedure →
      (procedure.analyze options image).Finishes events analyzed →
      analyzed.progress = .analyzed → holds analyzed)
    (commands : List Command) :
    Delivers ((ofListing lifted).executeAll options commands)
      (EachAnalyzed holds)
      HaltsByOverflow := by
  apply (delivers_executeAll (fun work => work.session.EachAnalyzed holds)
    keyed (isAccounted_ofListing lifted) ?_ ?_ commands).weaken
  · exact fun session promised => promised.2
  · intro entry procedure found
    cases found
  · intro work next accounted each moves
    cases moves with
    | decode session waiting address => exact each
    | label session waiting address label => exact each
    | mention session waiting other => exact each
    | count session waiting => exact each
    | find session waiting unclaimed coded found_eq =>
        apply each.insert
        rw [found_eq]
        intro impossible
        cases impossible
    | @analyze session waiting entry procedure analyzed events known pending
        finished =>
        apply each.insert
        rcases accounted.procedures entry procedure known with
          ⟨chain, -, byChain⟩
        exact establishes _ chain procedure analyzed events
          (byChain.isPendingOn pending) finished
    | register session site waiting count =>
        intro entry procedure found
        rw [(exists_events_registerCall session count site).1] at found
        exact each entry procedure found

end Accounts

/--
What has been computed of a session of a listing was computed of one that has
not halted.
-/
theorem exists_of_computed
    {text : String} {options : Options} {commands : List Command} {α : Type}
    {view : Session → Option α} {result : α}
    (computed :
      ((Listing.lift text).toOption.bind
        (fun lifted =>
        ((ofListing lifted).executeAll options commands).toOption)).bind view =
        some result) :
    ∃ lifted session, Listing.lift text = .ok lifted ∧
      (ofListing lifted).executeAll options commands = .ok session ∧
        view session = some result := by
  rcases Option.bind_eq_some_iff.mp computed with ⟨session, run, viewed⟩
  rcases Option.bind_eq_some_iff.mp run with ⟨lifted, isLifted, executed⟩
  exact ⟨lifted, session, eq_ok_of_toOption isLifted,
    eq_ok_of_toOption executed, viewed⟩

/--
The same, computed of the characters of the listing: it takes much longer to
compute the characters of a literal than to read them.
-/
theorem exists_of_characters
    {text : String} {options : Options} {commands : List Command} {α : Type}
    {view : Session → Option α} {result : α}
    (computed : ∃ characters, text = String.ofList characters ∧
      ∀ spelled : String, spelled.toList = characters →
      ((Listing.lift spelled).toOption.bind
        (fun lifted =>
        ((ofListing lifted).executeAll options commands).toOption)).bind view =
        some result) :
    ∃ lifted session, Listing.lift text = .ok lifted ∧
      (ofListing lifted).executeAll options commands = .ok session ∧
        view session = some result := by
  rcases computed with ⟨characters, rfl, works⟩
  exact exists_of_computed (works _ String.toList_ofList)

end Session

end ProcRecovery
