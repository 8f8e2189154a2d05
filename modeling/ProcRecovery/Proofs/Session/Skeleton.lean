import ProcRecovery.Proofs.Procedure.Skeleton
import ProcRecovery.Proofs.Session.Append
import ProcRecovery.Proofs.Session.FaultFreedom
import ProcRecovery.Proofs.Session.Locality

/-!
# Skeletons of sessions

A replay labels strings in the image and comments on code, and the procedures
that are analyzed later see the labels.  Still none of this comes back into
what is recovered.  Two sessions of a listing whose options agree on the
substitution of cached registers and on the number of passes go through the
same passes side by side: after each of them they have the same skeleton, which
is all of a session but labels, comments, and what the replay has to say about
stacks and texts.
-/

namespace ProcRecovery

/-! ## Images without annotations -/

namespace Image

/-- The image without labels and comments. -/
def unannotated (image : Image) : Image :=
  { image with labels := ∅, comments := ∅ }

/--
What looks the same without annotations is the same on images that differ in
annotations only.
-/
theorem eq_of_unannotated
    {α : Type}
    (look : Image → α)
    (keeps : ∀ image : Image, look image.unannotated = look image)
    {first second : Image}
    (same : first.unannotated = second.unannotated) :
    look first = look second := by
  rw [← keeps first, same, keeps second]

theorem unannotated_absorbAll (image : Image) (events : List Event) :
    (image.absorbAll events).unannotated = image.unannotated := by
  induction events generalizing image with
  | nil => rfl
  | cons event later hypothesis =>
      have first : (image.absorb event).unannotated = image.unannotated := by
        cases event <;> rfl
      exact (hypothesis (image.absorb event)).trans first

/-- Decoding takes no notice of labels and comments. -/
theorem requestDecode_unannotated (image : Image) (address : Nat) :
    image.unannotated.requestDecode address =
      { image.requestDecode address with
        image := (image.requestDecode address).image.unannotated } := by
  have chains : image.unannotated.chainFrom address =
      image.chainFrom address := rfl
  simp only [requestDecode, chains]
  split <;> rfl

theorem decodeChain_unannotated
    (image : Image)
    (chain : List Instruction) :
    (decodeChain image.unannotated chain).1 =
      (decodeChain image chain).1.unannotated := by
  induction chain generalizing image with
  | nil => rfl
  | cons instruction later hypothesis =>
      have decoded : image.unannotated.decoded = image.decoded := rfl
      simp only [decodeChain, decoded]
      split
      next => exact hypothesis image
      next =>
        rw [requestDecode_unannotated]
        exact hypothesis _

theorem sharesProgram_of_unannotated
    {first second : Image}
    (same : first.unannotated = second.unannotated) :
    first.SharesProgram second where
  code_eq := eq_of_unannotated code (fun _ => rfl) same.symm
  memory_eq := eq_of_unannotated memory (fun _ => rfl) same.symm
  runtime_eq := eq_of_unannotated runtime (fun _ => rfl) same.symm

end Image

/-- The calls of a destination without labels. -/
def CalledProcedure.unlabeled (called : CalledProcedure) : CalledProcedure :=
  { called with
    label := none
    sites := called.sites.map CallSite.unlabeled }

namespace Session

/--
The structure that a session has recovered: all of it but labels and comments,
what goes beyond the structure of procedures, and what the journal says besides
oddities of the structure.
-/
def skeleton (session : Session) : Session :=
  { session with
    image := session.image.unannotated
    procedures :=
      session.procedures.map (fun _ procedure => procedure.skeleton)
    called := session.called.map (fun _ called => called.unlabeled)
    unresolved := session.unresolved.map CallSite.unlabeled
    journal := session.journal.filter Event.isStructural }

/-- Two sessions with the same skeleton, part by part. -/
structure Parallel (first second : Session) : Prop where
  image : first.image.unannotated = second.image.unannotated
  procedures : first.procedures.map (fun _ procedure => procedure.skeleton) =
    second.procedures.map (fun _ procedure => procedure.skeleton)
  called : first.called.map (fun _ called => called.unlabeled) =
    second.called.map (fun _ called => called.unlabeled)
  unresolved : first.unresolved.map CallSite.unlabeled =
    second.unresolved.map CallSite.unlabeled
  journal : first.journal.filter Event.isStructural =
    second.journal.filter Event.isStructural
  passes : first.passes = second.passes

theorem Parallel.skeleton_eq
    {first second : Session}
    (parallel : Parallel first second) :
    first.skeleton = second.skeleton := by
  simp only [skeleton, parallel.image, parallel.procedures, parallel.called,
    parallel.unresolved, parallel.journal, parallel.passes]

theorem Parallel.refl (session : Session) : Parallel session session :=
  ⟨rfl, rfl, rfl, rfl, rfl, rfl⟩

/-- Two parallel sessions, each with something that looks the same. -/
def ParallelWith
    {α β : Type}
    (view : α → β)
    (state other : Session × α) :
    Prop :=
  Parallel state.1 other.1 ∧ view state.2 = view other.2

section Steps

variable {first second : Session}

theorem Parallel.get?_called
    (parallel : Parallel first second)
    (destination : Nat) :
    (first.called.get? destination).map CalledProcedure.unlabeled =
      (second.called.get? destination).map CalledProcedure.unlabeled := by
  have same :=
    congrArg (fun table => Table.get? table destination) parallel.called
  simpa only [Table.get?_map] using same

theorem Parallel.record
    (parallel : Parallel first second)
    {events others : List Event}
    (same : events.filter Event.isStructural =
      others.filter Event.isStructural) :
    Parallel (first.record events) (second.record others) :=
  { parallel with
    image := by
      simp only [Session.record, Image.unannotated_absorbAll, parallel.image]
    journal := by
      simp only [Session.record, List.filter_append, parallel.journal, same] }

/-! ## Discovery -/

theorem Parallel.isNone_procedureContaining?
    (parallel : Parallel first second)
    (address : Nat) :
    (first.procedureContaining? address).isNone =
      (second.procedureContaining? address).isNone := by
  have viewed : ∀ session : Session,
      (session.procedureContaining? address).map Procedure.skeleton =
      ((((session.procedures.map
        (fun _ procedure => procedure.skeleton)).floor? address).map
        Prod.snd).filter (fun procedure => procedure.contains address)) := by
    intro session
    rw [Table.floor?_map, procedureContaining?]
    cases session.procedures.floor? address with
    | none => rfl
    | some entry =>
        simp only [Option.map_some, Option.filter_some]
        have contains : entry.2.skeleton.contains address =
            entry.2.contains address := rfl
        rw [contains]
        split <;> rfl
  have same := viewed first
  rw [parallel.procedures, ← viewed second] at same
  simpa using congrArg Option.isNone same

theorem Parallel.instruction? (parallel : Parallel first second) :
    first.image.instruction? = second.image.instruction? :=
  Image.eq_of_unannotated Image.instruction? (fun _ => rfl) parallel.image

theorem Parallel.isEntry (parallel : Parallel first second) (address : Nat) :
    first.isEntry address = second.isEntry address := by
  simp only [Session.isEntry, parallel.instruction?]

/-- The notes on a decoded chain are no oddities. -/
theorem filter_isStructural_decodeChain
    (image : Image)
    (chain : List Instruction) :
    (decodeChain image chain).2.filter Event.isStructural = [] := by
  induction chain generalizing image with
  | nil => rfl
  | cons instruction later hypothesis =>
      simp only [decodeChain]
      split
      next => exact hypothesis image
      next => exact hypothesis _

theorem filter_isStructural_chainEndEvents
    (entry : Nat)
    (chain : List Instruction) :
    (chainEndEvents entry chain).filter Event.isStructural = [] := by
  rcases exists_chainEndNotes entry chain with ⟨notes, ends, -⟩
  rw [ends, List.filter_map, List.map_eq_nil_iff, List.filter_eq_nil_iff]
  intro note _
  exact Bool.false_ne_true

theorem inStep_addProcedure (parallel : Parallel first second) (entry : Nat) :
    InStep Parallel (first.addProcedure entry) (second.addProcedure entry)
    where
  related := by
    intro next another added addedToo
    simp only [addProcedure] at added addedToo
    split at added
    next => cases added
    next =>
      split at addedToo
      next => cases addedToo
      next =>
        cases added
        cases addedToo
        have chains : first.image.chainFrom entry =
            second.image.chainFrom entry :=
          Image.eq_of_unannotated (fun image => image.chainFrom entry)
            (fun _ => rfl) parallel.image
        refine { parallel with image := ?_, procedures := ?_, journal := ?_ }
        · dsimp only
          rw [← Image.decodeChain_unannotated, ← Image.decodeChain_unannotated,
            parallel.image, chains]
        · dsimp only
          rw [Table.map_insert, Table.map_insert, parallel.procedures, chains]
        · simp only [List.filter_append, filter_isStructural_decodeChain,
            filter_isStructural_chainEndEvents, parallel.journal]
          rfl

theorem inStep_scanAddress
    {state other : Session × Nat}
    (parallel : ParallelWith id state other)
    (address : Nat) :
    InStep (ParallelWith id) (scanAddress state address)
      (scanAddress other address) := by
  rcases state with ⟨first, found⟩
  rcases other with ⟨second, foundToo⟩
  rcases parallel with ⟨sessions, counts⟩
  simp only [scanAddress, sessions.isNone_procedureContaining? address,
    sessions.isEntry address]
  split
  next =>
    apply (inStep_addProcedure sessions address).bind
    intro extended another _ _ alike
    exact inStep_ok ⟨alike, congrArg (· + 1) counts⟩
  next => exact inStep_ok ⟨sessions, counts⟩

theorem inStep_scan (parallel : Parallel first second) :
    InStep (ParallelWith id) first.scan second.scan := by
  have addresses : first.image.decodedAddresses =
      second.image.decodedAddresses :=
    Image.eq_of_unannotated Image.decodedAddresses (fun _ => rfl)
      parallel.image
  have paired :
      List.Forall₂ Eq second.image.decodedAddresses
        second.image.decodedAddresses :=
    List.forall₂_refl _
  rw [scan, scan, addresses]
  apply InStep.foldlM paired
  · rintro address - _ - rfl state another alike
    exact inStep_scanAddress alike address
  · exact ⟨parallel, rfl⟩

/-! ## Registration -/

theorem Parallel.requestDecode
    (parallel : Parallel first second)
    (address : Nat) :
    Parallel (first.requestDecode address).1 (second.requestDecode address).1 ∧
      (first.requestDecode address).2 = (second.requestDecode address).2 := by
  have decodings : first.image.unannotated.requestDecode address =
      second.image.unannotated.requestDecode address := by
    rw [parallel.image]
  rw [Image.requestDecode_unannotated, Image.requestDecode_unannotated]
    at decodings
  rcases Image.Decoding.mk.inj decodings with ⟨images, found, -⟩
  refine ⟨{ parallel with image := images, journal := ?_ }, found⟩
  simp only [Session.requestDecode, List.filter_append, parallel.journal]
  rfl

theorem Parallel.decodeDestination
    (parallel : Parallel first second)
    {site another : CallSite}
    (same : site.unlabeled = another.unlabeled)
    (destination : Nat) :
    Parallel (first.decodeDestination site destination)
      (second.decodeDestination another destination) := by
  have needs : first.needsDecoding destination =
      second.needsDecoding destination := by
    have routines : first.image.runtime = second.image.runtime :=
      Image.eq_of_unannotated Image.runtime (fun _ => rfl) parallel.image
    simp only [needsDecoding, routines, parallel.instruction?]
  rcases CallSite.mk.inj same with ⟨addresses, callers, -, -⟩
  rcases parallel.requestDecode destination with ⟨decoded, found⟩
  simp only [Session.decodeDestination, needs, found, callers, addresses]
  split
  next =>
    split
    next => exact decoded
    next => exact decoded.record rfl
  next => exact parallel

theorem parallelWith_registerCall
    {state other : Session × Nat}
    (parallel : ParallelWith id state other)
    {site another : CallSite}
    (same : site.unlabeled = another.unlabeled) :
    ParallelWith id (registerCall state site)
      (registerCall other another) := by
  rcases state with ⟨first, count⟩
  rcases other with ⟨second, countToo⟩
  rcases parallel with ⟨sessions, counts⟩
  rcases CallSite.mk.inj same with ⟨addresses, callers, destinations, -⟩
  simp only [registerCall, destinations]
  split
  next destination _ =>
    have lookups := sessions.get?_called destination
    cases isFirst : first.called.get? destination with
    | some earlier =>
        cases isSecond : second.called.get? destination with
        | some earlierToo =>
            rw [isFirst, isSecond] at lookups
            rcases CalledProcedure.mk.inj (Option.some.inj lookups) with
              ⟨sameCalled, -, sameSites⟩
            refine ⟨{ sessions with called := ?_ }, counts⟩
            dsimp only
            rw [Table.map_insert, Table.map_insert, sessions.called]
            simp only [CalledProcedure.unlabeled, List.map_append,
              List.map_singleton, sameCalled, sameSites, same]
        | none =>
            rw [isFirst, isSecond] at lookups
            cases lookups
    | none =>
        cases isSecond : second.called.get? destination with
        | some earlierToo =>
            rw [isFirst, isSecond] at lookups
            cases lookups
        | none =>
            refine ⟨?_, congrArg (· + 1) counts⟩
            apply Parallel.decodeDestination _ same destination
            refine { sessions with called := ?_ }
            dsimp only
            rw [Table.map_insert, Table.map_insert, sessions.called]
            simp only [CalledProcedure.unlabeled, List.map_singleton, same]
  next =>
    have reported :
        Parallel
          (first.record
          [.diagnosed site.caller (.unresolvedCall site.address)])
        (second.record
          [.diagnosed another.caller (.unresolvedCall another.address)]) := by
      rw [callers, addresses]
      exact sessions.record rfl
    refine ⟨{ reported with unresolved := ?_ }, counts⟩
    simp only [List.map_append, reported.unresolved, List.map_singleton, same]

theorem parallelWith_registerAll
    {state other : Session × Nat}
    (parallel : ParallelWith id state other)
    {sites others : List CallSite}
    (same : sites.map CallSite.unlabeled = others.map CallSite.unlabeled) :
    ParallelWith id (sites.foldl registerCall state)
      (others.foldl registerCall other) := by
  induction sites generalizing others state other with
  | nil =>
      have empty := List.map_eq_nil_iff.mp same.symm
      subst empty
      exact parallel
  | cons site later hypothesis =>
      rcases List.map_eq_cons_iff.mp same.symm with
        ⟨site', later', rfl, sameSite, sameLater⟩
      exact hypothesis (parallelWith_registerCall parallel sameSite.symm)
        sameLater.symm

end Steps

/-! ## Analysis -/

/--
A session that works on the program of an image, with its accounts right and
all that it knows of procedures local.
-/
structure WorksOn
    (options : Options)
    (image : Image)
    (session : Session) :
    Prop where
  accounted : session.IsAccounted image.code
  isLocal : session.IsLocalTo options image

section Passes

variable {options others : Options} {image : Image} {first second : Session}

theorem WorksOn.reach
    (keyed : IsKeyed image.code)
    {work next : Work}
    (works : work.session.WorksOn options image)
    (reached : Reaches options work next) :
    next.session.WorksOn options image := by
  rcases reached.keeps_accounted (fun work =>
    work.session.IsLocalTo options image) keyed
    works.accounted works.isLocal
    (fun _ _ accounted isLocal moves =>
      isLocal.move keyed accounted moves) with
    ⟨accounted, isLocal⟩
  exact ⟨accounted, isLocal⟩

/-- A procedure that waits for its analysis is the same in both sessions. -/
theorem WorksOn.eq_of_pending
    (works : first.WorksOn options image)
    (worksToo : second.WorksOn others image)
    {entry : Nat} {procedure counterpart : Procedure}
    (found : first.procedures.get? entry = some procedure)
    (foundToo : second.procedures.get? entry = some counterpart)
    (isPending : procedure.progress = .pending)
    (isPendingToo : counterpart.progress = .pending) :
    procedure = counterpart := by
  have knows := works.isLocal.knows entry
  have knowsToo := worksToo.isLocal.knows entry
  rw [found] at knows
  rw [foundToo] at knowsToo
  exact (knows.eq_of_pending isPending).1.trans
    (knowsToo.eq_of_pending isPendingToo).1.symm

/--
What two sessions know of the procedure at an entry: the same skeleton, and the
same procedure as long as it waits for its analysis.
-/
structure KnownAlike (entry other : Nat × Procedure) : Prop where
  entries : entry.1 = other.1
  skeletons : entry.2.skeleton = other.2.skeleton
  waiting : entry.2.progress = .pending → entry.2 = other.2

theorem inStep_analyzeProcedure
    (sameCaches : options.substitutesCachedRegisters =
      others.substitutesCachedRegisters)
    {state other : Session × List CallSite}
    (parallel : ParallelWith (List.map CallSite.unlabeled) state other)
    {entry counterpart : Nat × Procedure}
    (alike : KnownAlike entry counterpart) :
    InStep (ParallelWith (List.map CallSite.unlabeled))
      (analyzeProcedure options state entry)
      (analyzeProcedure others other counterpart) := by
  rcases state with ⟨first, sites⟩
  rcases other with ⟨second, sitesToo⟩
  rcases entry with ⟨address, procedure⟩
  rcases counterpart with ⟨_, counterpart⟩
  rcases parallel with ⟨sessions, sameSites⟩
  rcases alike with ⟨rfl, skeletons, waiting⟩
  have progress : procedure.skeleton.progress =
      counterpart.skeleton.progress :=
    congrArg Procedure.progress skeletons
  cases isProgress : procedure.progress with
  | analyzed =>
      have isProgressToo : counterpart.progress = .analyzed :=
        progress.symm.trans isProgress
      simp only [analyzeProcedure, isProgress, isProgressToo]
      exact inStep_ok ⟨sessions, sameSites⟩
  | failed =>
      have isProgressToo : counterpart.progress = .failed :=
        progress.symm.trans isProgress
      simp only [analyzeProcedure, isProgress, isProgressToo]
      exact inStep_ok ⟨sessions, sameSites⟩
  | pending =>
      have same := waiting isProgress
      dsimp only at same
      subst same
      -- The images may be labeled differently by now, but they are images of
      -- the same program.
      have analyses := Procedure.inStep_analyze sameCaches
        (Image.sharesProgram_of_unannotated sessions.image) procedure
      simp only [analyzeProcedure, isProgress]
      constructor
      intro next another isNext isAnother
      split at isNext
      next analyzed ended =>
        split at isAnother
        next analyzedToo endedToo =>
          cases isNext
          cases isAnother
          rcases analyses.related analyzed analyzedToo ended endedToo with
            ⟨sameSkeleton, sameReports⟩
          have recorded := sessions.record sameReports
          refine ⟨{ recorded with procedures := ?_ }, ?_⟩
          · dsimp only
            rw [Table.map_insert, Table.map_insert, recorded.procedures,
              sameSkeleton]
          · have calls := congrArg Procedure.calls sameSkeleton
            simp only [List.map_append]
            exact congrArg₂ (· ++ ·) sameSites calls
        next => cases isAnother
      next => cases isNext

theorem inStep_analyzePending
    (sameCaches : options.substitutesCachedRegisters =
      others.substitutesCachedRegisters)
    (works : first.WorksOn options image)
    (worksToo : second.WorksOn others image)
    (parallel : Parallel first second) :
    InStep (ParallelWith id) (first.analyzePending options)
      (second.analyzePending others) := by
  have paired := congrArg Table.entries parallel.procedures
  simp only [Table.map] at paired
  rw [← List.forall₂_eq_eq_eq, List.forall₂_map_left_iff,
    List.forall₂_map_right_iff] at paired
  unfold analyzePending
  have analyses : InStep (ParallelWith (List.map CallSite.unlabeled))
      (first.procedures.entries.foldlM (analyzeProcedure options) (first, []))
      (second.procedures.entries.foldlM (analyzeProcedure others) (second,
        [])) := by
    apply InStep.foldlM paired
    · rintro ⟨entry, procedure⟩ member ⟨other, counterpart⟩ memberToo same
        state another alike
      rcases Prod.mk.inj same with ⟨rfl, skeletons⟩
      apply inStep_analyzeProcedure sameCaches alike
      refine ⟨rfl, skeletons, ?_⟩
      intro isPending
      have progress : procedure.skeleton.progress =
          counterpart.skeleton.progress :=
        congrArg Procedure.progress skeletons
      exact works.eq_of_pending worksToo (Table.get?_eq_some_iff.mpr member)
        (Table.get?_eq_some_iff.mpr memberToo) isPending
        (progress.symm.trans isPending)
    · exact ⟨parallel, rfl⟩
  apply analyses.bind
  rintro ⟨analyzed, sites⟩ ⟨another, sitesToo⟩ - - ⟨sessions, sameSites⟩
  have uncounted : ParallelWith id (analyzed, 0) (another, 0) :=
    ⟨sessions, rfl⟩
  exact inStep_ok (parallelWith_registerAll uncounted sameSites)

/-! ## Passes -/

theorem inStep_pass
    (keyed : IsKeyed image.code)
    (sameCaches : options.substitutesCachedRegisters =
      others.substitutesCachedRegisters)
    (works : first.WorksOn options image)
    (worksToo : second.WorksOn others image)
    (parallel : Parallel first second) :
    InStep (ParallelWith id) (first.pass options) (second.pass others) := by
  have counted : Parallel { first with passes := first.passes + 1 }
      { second with passes := second.passes + 1 } :=
    { parallel with passes := congrArg (· + 1) parallel.passes }
  unfold pass
  apply (inStep_scan counted).bind
  rintro ⟨scanned, found⟩ ⟨scannedToo, foundToo⟩ isScanned isScannedToo
    ⟨scans, sameFound⟩
  have worksScanned : scanned.WorksOn options image :=
    (works.reach keyed (.single (.count first []))).reach keyed
      (proceeds_scan [] isScanned).reaches
  have worksScannedToo : scannedToo.WorksOn others image :=
    (worksToo.reach keyed (.single (.count second []))).reach keyed
      (proceeds_scan [] isScannedToo).reaches
  apply (inStep_analyzePending sameCaches worksScanned worksScannedToo
    scans).bind
  rintro ⟨analyzed, targets⟩ ⟨analyzedToo, targetsToo⟩ - -
    ⟨analyses, sameTargets⟩
  have foundAlike : found = foundToo := sameFound
  have targetsAlike : targets = targetsToo := sameTargets
  subst foundAlike targetsAlike
  exact inStep_ok ⟨analyses.record rfl, rfl⟩

/--
Pass after pass two sessions stay parallel: whether a pass finds anything new
is the same for both.
-/
theorem inStep_runPasses
    (keyed : IsKeyed image.code)
    (sameCaches : options.substitutesCachedRegisters =
      others.substitutesCachedRegisters)
    (works : first.WorksOn options image)
    (worksToo : second.WorksOn others image)
    (parallel : Parallel first second)
    (remaining : Nat) :
    InStep Parallel (first.runPasses options remaining)
      (second.runPasses others remaining) := by
  induction remaining generalizing first second with
  | zero => exact inStep_ok (parallel.record rfl)
  | succ remaining hypothesis =>
      rw [runPasses, runPasses]
      apply (inStep_pass keyed sameCaches works worksToo parallel).bind
      rintro ⟨next, news⟩ ⟨another, newsToo⟩ isPassed isPassedToo
        ⟨sessions, sameNews⟩
      have newsAlike : news = newsToo := sameNews
      subst newsAlike
      cases news with
      | true =>
          exact hypothesis (works.reach keyed (proceeds_pass isPassed).reaches)
            (worksToo.reach keyed (proceeds_pass isPassedToo).reaches) sessions
      | false => exact inStep_ok sessions

end Passes

/--
A run from the start of a session halts only because a sum leaves its word, and
in sixteen-bit code it does not.
-/
theorem delivers_run
    {text : String} {lifted : Listing.Lifted}
    (isLifted : Listing.lift text = .ok lifted)
    (options : Options) :
    Delivers ((ofListing lifted).run options) (IsAccounted lifted.image.code)
      (fun halt => HaltsByOverflow halt ∧
        ¬ IsSixteenBitCode lifted.image.code) := by
  have sound := Listing.isSoundCode_of_lift isLifted
  have accounted := isAccounted_ofListing lifted
  have contract :=
    delivers_runPasses sound.keyed options options.maxPasses accounted
  apply delivers_of_outcome
  · intro final finished
    exact contract.of_ok finished
  · intro halt stopped
    refine ⟨contract.of_error stopped, ?_⟩
    intro sixteenBit
    exact (delivers_runPasses_faultless sound sixteenBit options _
      accounted).of_error stopped

/--
Options that agree on the substitution of cached registers and on the number of
passes lead from a listing to the same structure.  Either run can halt only
because a sum leaves its word, and in sixteen-bit code neither does.
-/
theorem run_recovers_same_skeleton
    {text : String} {lifted : Listing.Lifted}
    (isLifted : Listing.lift text = .ok lifted)
    (options others : Options)
    (sameCaches :
      options.substitutesCachedRegisters = others.substitutesCachedRegisters)
    (samePasses : options.maxPasses = others.maxPasses) :
    Delivers ((ofListing lifted).run options)
      (fun first =>
        Delivers ((ofListing lifted).run others)
          (fun second => first.skeleton = second.skeleton)
          (fun halt => HaltsByOverflow halt ∧
            ¬ IsSixteenBitCode lifted.image.code))
      (fun halt => HaltsByOverflow halt ∧
        ¬ IsSixteenBitCode lifted.image.code) := by
  have keyed := Listing.isKeyed_of_lift isLifted
  have works : ∀ options, (ofListing lifted).WorksOn options lifted.image :=
    fun options =>
    ⟨isAccounted_ofListing lifted, isLocalTo_ofListing isLifted options⟩
  have inStep : InStep Parallel ((ofListing lifted).run options)
      ((ofListing lifted).run others) := by
    rw [run, run, samePasses]
    exact inStep_runPasses keyed sameCaches (works options) (works others)
      (.refl _) _
  have alike : InStep (fun first second => first.skeleton = second.skeleton)
      ((ofListing lifted).run options) ((ofListing lifted).run others) :=
    ⟨fun first second isFirst isSecond =>
      (inStep.related first second isFirst isSecond).skeleton_eq⟩
  exact alike.delivers (delivers_run isLifted options)
    (delivers_run isLifted others)

/--
A run that replays blocks and materializes strings labels the text that is
pushed.  One that does neither leaves it without a label, and still recovers
the same structure.
-/
theorem run_recovers_same_skeleton_greetingListing :
    ∃ lifted first second, Listing.lift greetingListing = .ok lifted ∧
      (ofListing lifted).run {} = .ok first ∧
      (ofListing lifted).run
          { replaysBlocks := false, materializesStrings := false } =
        .ok second ∧
      first.procedures.keys = [0x1000] ∧
      first.image.labels.get? 0x2000 = some "str_2000" ∧
      second.image.labels.get? 0x2000 = none ∧
      first.skeleton = second.skeleton := by
  have works : (Listing.lift greetingListing).toOption.bind (fun lifted =>
      ((ofListing lifted).run {}).toOption.bind (fun first =>
        ((ofListing lifted).run
          { replaysBlocks := false,
            materializesStrings := false }).toOption.map (fun second =>
            (first.procedures.keys, first.image.labels.get? 0x2000,
              second.image.labels.get? 0x2000)))) =
                some ([0x1000], some "str_2000", none) := by
    decide +kernel
  rcases Option.bind_eq_some_iff.mp works with ⟨lifted, lifts, rest⟩
  rcases Option.bind_eq_some_iff.mp rest with ⟨first, ran, rest⟩
  rcases Option.map_eq_some_iff.mp rest with ⟨second, ranToo, same⟩
  simp only [Prod.mk.injEq] at same
  rcases same with ⟨keys, labeled, unlabeled⟩
  have isLifted := eq_ok_of_toOption lifts
  have finished := eq_ok_of_toOption ran
  have finishedToo := eq_ok_of_toOption ranToo
  have promised := run_recovers_same_skeleton isLifted {}
    { replaysBlocks := false, materializesStrings := false } rfl rfl
  exact ⟨lifted, first, second, isLifted, finished, finishedToo, keys, labeled,
    unlabeled, (promised.of_ok finished).of_ok finishedToo⟩

end Session

end ProcRecovery
