import Mathlib.Data.List.Perm.Subperm
import ProcRecovery.Proofs.Session.FaultFreedom
import ProcRecovery.Proofs.Session.Growth

/-!
# The fixpoint of discovery

Passes go on as long as they find something new.  A pass starts with nothing
waiting for its analysis, so what it analyzes and registers comes from the
procedures that its own scan has found.  A pass that finds no procedure
therefore finds no call either and changes nothing.  So every pass but the last
adds a procedure, and a session whose last pass has found nothing new is at
rest.
-/

namespace ProcRecovery

/-! ## Frame setups -/

/--
Whether a frame setup begins at an address, as far as instructions can be
looked up.
-/
def beginsFrame (lookup : Nat → Option Instruction) (address : Nat) : Bool :=
  match lookup address with
  | some save =>
    match lookup save.hi with
    | some set => save.isFrameSetup set
    | none => false
  | none => false

/-- The number of frame setups in some code. -/
def frameCount (code : Table Nat Instruction) : Nat :=
  (code.keys.filter (beginsFrame code.get?)).length

theorem beginsFrame_iff {lookup : Nat → Option Instruction} {address : Nat} :
    beginsFrame lookup address = true ↔
      ∃ save set, lookup address = some save ∧ lookup save.hi = some set ∧
        save.isFrameSetup set = true := by
  unfold beginsFrame
  constructor
  · intro begins
    split at begins
    next save isSave =>
      split at begins
      next set isSet => exact ⟨save, set, isSave, isSet, begins⟩
      next => cases begins
    next => cases begins
  · rintro ⟨save, set, isSave, isSet, sets⟩
    simp only [isSave, isSet, sets]

theorem Instruction.isReturn_of_isFrameSetup
    {save set : Instruction}
    (sets : save.isFrameSetup set = true) :
    save.isReturn = false := by
  simp only [isFrameSetup, Bool.and_eq_true, decide_eq_true_eq] at sets
  simp [isReturn, sets]

namespace Image

/--
In a swept image the first instruction of a frame setup is decoded only with
the second.
-/
theorem IsSwept.beginsFrame_iff
    {image : Image}
    (swept : image.IsSwept)
    {address : Nat} :
    beginsFrame image.instruction? address = true ↔
      image.decoded.contains address = true ∧
        beginsFrame image.code.get? address = true := by
  simp only [ProcRecovery.beginsFrame_iff, instruction?_eq_some_iff]
  constructor
  · rintro ⟨save, set, ⟨held, isSave⟩, ⟨-, isSet⟩, sets⟩
    exact ⟨held, save, set, isSave, isSet, sets⟩
  · rintro ⟨held, save, set, isSave, isSet, sets⟩
    have follows : image.decoded.contains save.hi = true :=
      swept address save held isSave
        (Instruction.isReturn_of_isFrameSetup sets)
        (Option.isSome_iff_exists.mpr ⟨set, isSet⟩)
    exact ⟨save, set, ⟨held, isSave⟩, ⟨follows, isSet⟩, sets⟩

/-- A frame setup that is decoded stays so. -/
theorem Extends.beginsFrame
    {before after : Image}
    (grows : before.Extends after)
    {address : Nat}
    (begins : beginsFrame before.instruction? address = true) :
    ProcRecovery.beginsFrame after.instruction? address = true := by
  simp only [ProcRecovery.beginsFrame_iff, instruction?_eq_some_iff]
    at begins ⊢
  rcases begins with ⟨save, set, ⟨held, isSave⟩, ⟨follows, isSet⟩, sets⟩
  rw [← grows.code_eq] at isSave isSet
  exact ⟨save, set, ⟨grows.decoded _ held, isSave⟩,
    ⟨grows.decoded _ follows, isSet⟩, sets⟩

end Image

namespace Session

/-! ## Scanning -/

/--
Whether a scan passes over an address: it lies in a procedure, or no frame
setup is decoded there.
-/
def passesOver (session : Session) (address : Nat) : Bool :=
  !((session.procedureContaining? address).isNone && session.isEntry address)

/-- Every procedure of a session begins with a frame setup in decoded code. -/
def EntersFrames (session : Session) : Prop :=
  ∀ entry, session.procedures.contains entry = true →
    session.isEntry entry = true

section Scanning

variable {session next : Session} {found after : Nat}

theorem EntersFrames.extends
    (enters : session.EntersFrames)
    (grows : session.image.Extends next.image)
    (sameKeys : ∀ entry, next.procedures.contains entry = true →
      session.procedures.contains entry = true) :
    next.EntersFrames :=
  fun entry known => grows.beginsFrame (enters entry (sameKeys entry known))

/-- An address that is not passed over adds a procedure. -/
theorem scanAddress_cases
    {address : Nat}
    (finished : scanAddress (session, found) address = .ok (next, after)) :
    session.passesOver address = true ∧ next = session ∧ after = found ∨
      session.isEntry address = true ∧ next.passes = session.passes ∧
        after = found + 1 ∧
        session.procedures.contains address = false ∧
        ∃ procedure, next.procedures =
          session.procedures.insert address procedure := by
  simp only [scanAddress] at finished
  split at finished
  next isNew =>
    simp only [Bool.and_eq_true] at isNew
    rcases bind_eq_ok_iff.mp finished with ⟨extended, added, same⟩
    cases same
    simp only [addProcedure] at added
    split at added
    next => cases added
    next unknown =>
      cases added
      exact .inr ⟨isNew.2, rfl, rfl, by simpa using unknown, _, rfl⟩
  next passed =>
    cases finished
    have isPassed : session.passesOver address = true := by
      simpa only [passesOver, Bool.not_eq_true', Bool.not_eq_true] using passed
    exact .inl ⟨isPassed, rfl, rfl⟩

/--
A scan counts the procedures it adds, and changes nothing where it adds none.
-/
theorem foldlM_scanAddress
    {addresses : List Nat}
    (enters : session.EntersFrames)
    (finished : addresses.foldlM scanAddress (session, found) =
      .ok (next, after)) :
    next.EntersFrames ∧ next.passes = session.passes ∧ found ≤ after ∧
      next.procedures.size + found = session.procedures.size + after ∧
      (after = found → next = session ∧
        ∀ address ∈ addresses, session.passesOver address = true) := by
  induction addresses generalizing session found with
  | nil =>
      cases finished
      exact ⟨enters, rfl, Nat.le_refl _, rfl, fun _ => ⟨rfl, by simp⟩⟩
  | cons address later hypothesis =>
      rw [List.foldlM_cons] at finished
      rcases bind_eq_ok_iff.mp finished with
        ⟨⟨middle, count⟩, isFirst, isLater⟩
      rcases scanAddress_cases isFirst with
        ⟨passed, rfl, rfl⟩ | ⟨isEntry, samePasses, rfl, unknown, procedure,
          isAdded⟩
      · rcases hypothesis enters isLater with
          ⟨entersNext, passes, grows, sizes, still⟩
        refine ⟨entersNext, passes, grows, sizes, ?_⟩
        intro none
        rcases still none with ⟨same, all⟩
        exact ⟨same, List.forall_mem_cons.mpr ⟨passed, all⟩⟩
      · have reached : Reaches {} ⟨session, []⟩ ⟨middle, []⟩ :=
            (proceeds_scanAddress [] isFirst).reaches
        have entersMiddle : middle.EntersFrames := by
          intro entry known
          apply reached.extends.beginsFrame
          rw [isAdded, Table.contains, Table.get?_insert] at known
          split at known
          next same =>
            rw [same]
            exact isEntry
          next => exact enters entry known
        rcases hypothesis entersMiddle isLater with
          ⟨entersNext, passes, grows, sizes, -⟩
        rw [isAdded, Table.size_insert, unknown] at sizes
        simp only [Bool.false_eq_true, ↓reduceIte] at sizes
        refine ⟨entersNext, passes.trans samePasses, by omega, by omega, ?_⟩
        intro none
        omega

/-- A scan that passes over everything does nothing. -/
theorem foldlM_scanAddress_of_passesOver
    {addresses : List Nat}
    (passed : ∀ address ∈ addresses, session.passesOver address = true) :
    addresses.foldlM scanAddress (session, found) = .ok (session, found) := by
  induction addresses with
  | nil => rfl
  | cons address later hypothesis =>
      rw [List.forall_mem_cons] at passed
      have first : scanAddress (session, found) address =
          .ok (session, found) := by
        have isPassed := passed.1
        simp only [passesOver, Bool.not_eq_true'] at isPassed
        simp only [scanAddress, isPassed, Bool.false_eq_true, ↓reduceIte]
      rw [List.foldlM_cons, first]
      exact hypothesis passed.2

end Scanning

/-! ## Analysis -/

/-- No procedure waits for its analysis. -/
def IsSettled (session : Session) : Prop :=
  ∀ entry procedure, session.procedures.get? entry = some procedure →
    procedure.progress = .analyzed ∨ procedure.progress = .failed

section Analysis

variable {options : Options} {session next : Session}
  {sites after : List CallSite}

/--
A procedure is passed over unless it waits for its analysis, and it no longer
waits after it.
-/
theorem analyzeProcedure_cases
    {entry : Nat × Procedure}
    (finished : analyzeProcedure options (session, sites) entry =
      .ok (next, after)) :
    entry.2.progress ≠ .pending ∧ next = session ∨
      ∃ analyzed,
        (analyzed.progress = .analyzed ∨ analyzed.progress = .failed) ∧
        next.passes = session.passes ∧
        next.procedures = session.procedures.insert entry.1 analyzed := by
  simp only [analyzeProcedure] at finished
  split at finished
  next isAnalyzed =>
    cases finished
    exact .inl ⟨by simp [isAnalyzed], rfl⟩
  next isFailed =>
    cases finished
    exact .inl ⟨by simp [isFailed], rfl⟩
  next isPending =>
    split at finished
    next analyzed ended =>
      cases finished
      exact .inr ⟨analyzed,
        Procedure.progress_of_analyze isPending ⟨rfl, ended⟩, rfl, rfl⟩
    next => cases finished

/-- Every procedure of a session that waits for its analysis is listed. -/
def WaitsIn (entries : List (Nat × Procedure)) (session : Session) : Prop :=
  ∀ entry procedure, session.procedures.get? entry = some procedure →
    procedure.progress = .pending → (entry, procedure) ∈ entries

theorem WaitsIn.isSettled
    (waits : session.WaitsIn []) :
    session.IsSettled := by
  intro entry procedure found
  cases progress : procedure.progress with
  | pending => cases waits entry procedure found progress
  | analyzed => exact .inl rfl
  | failed => exact .inr rfl

theorem WaitsIn.passOver
    {first : Nat × Procedure} {later : List (Nat × Procedure)}
    (waits : session.WaitsIn (first :: later))
    (done : first.2.progress ≠ .pending) :
    session.WaitsIn later := by
  intro entry procedure found isPending
  rcases List.mem_cons.mp (waits entry procedure found isPending) with
    same | isLater
  · rw [← same] at done
    exact absurd isPending done
  · exact isLater

theorem WaitsIn.insert
    {first : Nat × Procedure} {later : List (Nat × Procedure)}
    (waits : session.WaitsIn (first :: later))
    {analyzed : Procedure}
    (done : analyzed.progress = .analyzed ∨ analyzed.progress = .failed)
    (inserted : next.procedures = session.procedures.insert first.1 analyzed) :
    next.WaitsIn later := by
  intro entry procedure found isPending
  rw [inserted, Table.get?_insert] at found
  split at found
  next =>
    cases found
    simp [isPending] at done
  next differs =>
    rcases List.mem_cons.mp (waits entry procedure found isPending) with
      same | isLater
    · exact absurd (congrArg Prod.fst same) differs
    · exact isLater

/-- Each procedure that waits at the start is analyzed in its turn. -/
theorem foldlM_analyzeProcedure
    {entries : List (Nat × Procedure)}
    (known : ∀ entry ∈ entries, session.procedures.contains entry.1 = true)
    (waits : session.WaitsIn entries)
    (finished : entries.foldlM (analyzeProcedure options) (session, sites) =
      .ok (next, after)) :
    next.IsSettled ∧ next.passes = session.passes ∧
      next.procedures.size = session.procedures.size ∧
      ∀ entry, next.procedures.contains entry =
        session.procedures.contains entry := by
  induction entries generalizing session sites with
  | nil =>
      cases finished
      exact ⟨waits.isSettled, rfl, rfl, fun _ => rfl⟩
  | cons first later hypothesis =>
      rw [List.foldlM_cons] at finished
      rw [List.forall_mem_cons] at known
      rcases bind_eq_ok_iff.mp finished with
        ⟨⟨middle, gathered⟩, isFirst, isLater⟩
      rcases analyzeProcedure_cases isFirst with
        ⟨done, rfl⟩ | ⟨analyzed, done, passes, inserted⟩
      · exact hypothesis known.2 (waits.passOver done) isLater
      · have keys : ∀ entry, middle.procedures.contains entry =
            session.procedures.contains entry := by
          rw [inserted]
          exact Table.contains_insert_of_contains analyzed known.1
        have stillKnown : ∀ entry ∈ later, middle.procedures.contains entry.1 =
            true :=
          fun entry member => (keys entry.1).trans (known.2 entry member)
        rcases hypothesis stillKnown (waits.insert done inserted) isLater with
          ⟨settled, laterPasses, sizes, sameKeys⟩
        rw [inserted, Table.size_insert, if_pos known.1] at sizes
        exact ⟨settled, laterPasses.trans passes, sizes,
          fun entry => (sameKeys entry).trans (keys entry)⟩

theorem registerCall_keeps
    (session : Session)
    (count : Nat)
    (site : CallSite) :
    (registerCall (session, count) site).1.procedures = session.procedures ∧
      (registerCall (session, count) site).1.passes = session.passes := by
  refine ⟨(exists_events_registerCall session count site).1, ?_⟩
  rcases registerCall_cases session count site with
    ⟨destination, earlier, -, -, same⟩ | ⟨destination, -, -, same⟩ | ⟨-, same⟩
  · rw [same]
  · rw [same]
    rcases decodeDestination_cases { session with
        called := session.called.insert destination
          { destination, label := site.label,
            sites := [site] } } site destination with
      ⟨-, decoded⟩ | ⟨-, -, decoded⟩ | ⟨-, -, decoded⟩
    · rw [decoded]
    · rw [decoded]
      rfl
    · rw [decoded]
      rfl
  · rw [same]
    rfl

theorem foldl_registerCall_keeps
    (session : Session)
    (count : Nat)
    (sites : List CallSite) :
    (sites.foldl registerCall (session, count)).1.procedures =
      session.procedures ∧
      (sites.foldl registerCall (session, count)).1.passes =
        session.passes := by
  induction sites generalizing session count with
  | nil => exact ⟨rfl, rfl⟩
  | cons site later hypothesis =>
      rcases registerCall_keeps session count site with ⟨procedures, passes⟩
      rcases hypothesis (registerCall (session, count) site).1
        (registerCall (session, count) site).2 with
          ⟨laterProcedures, laterPasses⟩
      exact ⟨laterProcedures.trans procedures, laterPasses.trans passes⟩

/-- An analysis settles a session and leaves it the same procedures. -/
theorem isSettled_analyzePending
    {count : Nat}
    (finished : session.analyzePending options = .ok (next, count)) :
    next.IsSettled ∧ next.passes = session.passes ∧
      next.procedures.size = session.procedures.size ∧
      ∀ entry, next.procedures.contains entry =
        session.procedures.contains entry := by
  rcases bind_eq_ok_iff.mp finished with
    ⟨⟨analyzed, sites⟩, isAnalyzed, isRegistered⟩
  rcases foldl_registerCall_keeps analyzed 0 sites with ⟨procedures, passes⟩
  simp only [Except.ok.injEq] at isRegistered
  rw [isRegistered] at procedures passes
  have result := foldlM_analyzeProcedure
    (fun entry member => by
      rw [Table.contains, Table.get?_eq_some_iff.mpr member]
      rfl)
    (fun entry procedure found _ => Table.get?_eq_some_iff.mp found) isAnalyzed
  unfold IsSettled at result ⊢
  rw [procedures, passes]
  exact result

/-- A settled session has nothing to analyze. -/
theorem IsSettled.analyzePending (settled : session.IsSettled) :
    session.analyzePending options = .ok (session, 0) := by
  have still : ∀ entries : List (Nat × Procedure),
      (∀ entry ∈ entries, session.procedures.get? entry.1 = some entry.2) →
      entries.foldlM (analyzeProcedure options) (session, []) =
        .ok (session, []) := by
    intro entries known
    induction entries with
    | nil => rfl
    | cons first later hypothesis =>
        rw [List.forall_mem_cons] at known
        have done : analyzeProcedure options (session, []) first =
            .ok (session, []) := by
          rcases settled first.1 first.2 known.1 with isDone | isDone
          · simp only [analyzeProcedure, isDone]
          · simp only [analyzeProcedure, isDone]
        rw [List.foldlM_cons, done]
        exact hypothesis known.2
  unfold Session.analyzePending
  rw [still _ (fun entry member => Table.get?_eq_some_iff.mpr member)]
  rfl

end Analysis

/-! ## Passes -/

/--
A session between two passes: nothing waits for its analysis, and every
procedure begins with a frame setup in decoded code.
-/
structure IsBetweenPasses
    (code : Table Nat Instruction)
    (session : Session) :
    Prop where
  accounted : session.IsAccounted code
  swept : session.image.IsSwept
  enters : session.EntersFrames
  settled : session.IsSettled

/--
Discovery has nothing left to do: all procedures have been dealt with, they are
all there, and neither a scan nor an analysis changes anything.
-/
structure IsAtRest (options : Options) (session : Session) : Prop where
  settled : session.IsSettled
  claimed : ∀ address, session.image.decoded.contains address = true →
    beginsFrame session.image.code.get? address = true →
    ∃ entry procedure, session.procedures.get? entry = some procedure ∧
      procedure.contains address = true
  enters : ∀ entry procedure, session.procedures.get? entry = some procedure →
    session.isEntry entry = true
  scan_eq : session.scan = .ok (session, 0)
  analyzePending_eq : session.analyzePending options = .ok (session, 0)

section Passes

variable {options : Options} {code : Table Nat Instruction}
  {session next : Session}

/--
What a scan passes over lies in a procedure if a frame setup begins there.
-/
theorem exists_containing_of_passesOver
    (swept : session.image.IsSwept)
    {address : Nat}
    (passed : session.passesOver address = true)
    (held : session.image.decoded.contains address = true)
    (begins : beginsFrame session.image.code.get? address = true) :
    ∃ entry procedure, session.procedures.get? entry = some procedure ∧
      procedure.contains address = true := by
  have entered : session.isEntry address = true :=
    swept.beginsFrame_iff.mpr ⟨held, begins⟩
  simp only [passesOver, entered, Bool.and_true, Option.not_isNone] at passed
  rcases Option.isSome_iff_exists.mp passed with ⟨procedure, isContaining⟩
  rcases Option.filter_eq_some_iff.mp isContaining with ⟨isFloor, inside⟩
  rcases Option.map_eq_some_iff.mp isFloor with ⟨entry, atFloor, rfl⟩
  exact ⟨entry.1, entry.2, (Table.floor?_eq_some atFloor).1, inside⟩

/-- A settled session whose decoded code is passed over is at rest. -/
theorem IsBetweenPasses.isAtRest
    (between : session.IsBetweenPasses code)
    (passed : ∀ address ∈ session.image.decodedAddresses,
      session.passesOver address = true) :
    session.IsAtRest options where
  settled := between.settled
  claimed := fun address held begins =>
    exists_containing_of_passesOver between.swept
      (passed address (Table.mem_keys_iff.mpr held))
      held begins
  enters := fun entry procedure found =>
    between.enters entry (Option.isSome_iff_exists.mpr ⟨procedure, found⟩)
  scan_eq := foldlM_scanAddress_of_passesOver passed
  analyzePending_eq := between.settled.analyzePending

/--
Whether a session is between passes depends on its image and its procedures.
-/
theorem IsBetweenPasses.congr
    {other : Session}
    (between : session.IsBetweenPasses code)
    (sameImage : other.image = session.image)
    (sameProcedures : other.procedures = session.procedures) :
    other.IsBetweenPasses code := by
  refine ⟨between.accounted.congr (congrArg Image.code sameImage)
    sameProcedures, ?_, ?_, ?_⟩
  · rw [sameImage]
    exact between.swept
  · unfold EntersFrames isEntry
    rw [sameProcedures, sameImage]
    exact between.enters
  · unfold IsSettled
    rw [sameProcedures]
    exact between.settled

/-- A scan and the analysis after it, from a session between passes. -/
theorem IsBetweenPasses.scan
    (keyed : IsKeyed code)
    (between : session.IsBetweenPasses code)
    {scanned : Session} {found targets : Nat}
    (isScanned : session.scan = .ok (scanned, found))
    (isAnalyzed : scanned.analyzePending options = .ok (next, targets)) :
    next.IsBetweenPasses code ∧ next.passes = session.passes ∧
      next.procedures.size = session.procedures.size + found ∧
      (found = 0 → targets = 0 ∧ next = session ∧
        ∀ address ∈ session.image.decodedAddresses,
          session.passesOver address = true) := by
  have reached : Reaches options ⟨session, []⟩ ⟨next, []⟩ :=
    (proceeds_scan [] isScanned).reaches.trans
      (proceeds_analyzePending isAnalyzed).reaches
  have scannedAccounted :=
    (delivers_scan keyed between.accounted).of_ok isScanned
  have accounted :=
    (delivers_analyzePending keyed options scannedAccounted).of_ok isAnalyzed
  have keyedImage : IsKeyed session.image.code := by
    rw [between.accounted.code_eq]
    exact keyed
  rcases foldlM_scanAddress between.enters isScanned with
    ⟨enters, scannedPasses, -, sizes, still⟩
  rcases isSettled_analyzePending isAnalyzed with
    ⟨settled, passes, sameSize, sameKeys⟩
  refine ⟨⟨accounted, reached.isSwept keyedImage between.swept, ?_, settled⟩,
    passes.trans scannedPasses, by omega, ?_⟩
  · apply enters.extends (proceeds_analyzePending isAnalyzed).reaches.extends
    intro entry known
    exact (sameKeys entry).symm.trans known
  · intro none
    rcases still none with ⟨rfl, passed⟩
    rw [between.settled.analyzePending] at isAnalyzed
    cases isAnalyzed
    exact ⟨rfl, rfl, passed⟩

/--
A pass with news has found a procedure, and one without leaves the session at
rest.
-/
theorem IsBetweenPasses.pass
    (keyed : IsKeyed code)
    (between : session.IsBetweenPasses code)
    {news : Bool}
    (passed : session.pass options = .ok (next, news)) :
    next.IsBetweenPasses code ∧ next.passes = session.passes + 1 ∧
      session.procedures.size + news.toNat ≤ next.procedures.size ∧
      (news = false → next.IsAtRest options) := by
  rcases bind_eq_ok_iff.mp passed with ⟨⟨scanned, found⟩, isScanned, rest⟩
  rcases bind_eq_ok_iff.mp rest with ⟨⟨analyzed, targets⟩, isAnalyzed, same⟩
  simp only [Except.ok.injEq, Prod.mk.injEq] at same
  rcases same with ⟨rfl, rfl⟩
  have counted :
      ({ session with passes := session.passes + 1 } :
      Session).IsBetweenPasses code :=
    between.congr rfl rfl
  rcases counted.scan keyed isScanned isAnalyzed with
    ⟨after, passes, sizes, still⟩
  have finished :
      (analyzed.record [.noted (.passFinished analyzed.passes found targets)]
        ).IsBetweenPasses code := after.congr rfl rfl
  refine ⟨finished, passes, ?_, ?_⟩
  · -- without a new procedure there is no new destination either
    have counts :
      (decide (found ≠ 0) || decide (targets ≠ 0)).toNat ≤ found := by
      by_cases none : found = 0
      · simp [none, (still none).1]
      · have bound :=
          Bool.toNat_le (decide (found ≠ 0) || decide (targets ≠ 0))
        omega
    show session.procedures.size + _ ≤ analyzed.procedures.size
    have grown : analyzed.procedures.size = session.procedures.size + found :=
      sizes
    omega
  · intro quiet
    simp only [Bool.or_eq_false_iff, decide_eq_false_iff_not, not_not] at quiet
    rcases still quiet.1 with ⟨-, rfl, overlooked⟩
    exact finished.isAtRest overlooked

end Passes

/-! ## Runs -/

/--
A number of passes one after the other, each of which finds something new.
-/
inductive Advances (options : Options) : Nat → Session → Session → Prop where
  | start (session : Session) : Advances options 0 session session
  | more {count : Nat} {session middle next : Session}
      (passed : session.pass options = .ok (middle, true))
      (later : Advances options count middle next) :
      Advances options (count + 1) session next

/-- Pass after pass finds something new until one does not. -/
def ConvergesTo (options : Options) (session next : Session) : Prop :=
  ∃ count last, Advances options count session last ∧
    last.pass options = .ok (next, false)

section Runs

variable {options : Options} {code : Table Nat Instruction}
  {session next : Session}

/-- A run ends with a pass that finds nothing new or has used up its passes. -/
theorem runPasses_cases
    {remaining : Nat}
    (finished : session.runPasses options remaining = .ok next) :
    (∃ count last, count < remaining ∧ Advances options count session last ∧
      last.pass options = .ok (next, false)) ∨
    ∃ last, Advances options remaining session last ∧
      next = last.record [.noted (.discoveryCutShort last.passes)] := by
  induction remaining generalizing session with
  | zero =>
      cases finished
      exact .inr ⟨session, .start session, rfl⟩
  | succ remaining hypothesis =>
      rw [runPasses] at finished
      rcases bind_eq_ok_iff.mp finished with ⟨⟨middle, news⟩, passed, rest⟩
      cases news with
      | false =>
          cases rest
          exact .inl ⟨0, session, by omega, .start session, passed⟩
      | true =>
          rcases hypothesis rest with
            ⟨count, last, below, advances, ended⟩ | ⟨last, advances, same⟩
          · exact .inl ⟨count + 1, last,
              by omega, .more passed advances, ended⟩
          · exact .inr ⟨last, .more passed advances, same⟩

/-- Every pass with news adds a procedure. -/
theorem Advances.keeps
    (keyed : IsKeyed code)
    {count : Nat}
    (advances : Advances options count session next)
    (between : session.IsBetweenPasses code) :
    next.IsBetweenPasses code ∧ next.passes = session.passes + count ∧
      session.procedures.size + count ≤ next.procedures.size := by
  induction advances with
  | start session => exact ⟨between, rfl, Nat.le_refl _⟩
  | more passed later hypothesis =>
      rcases between.pass keyed passed with ⟨middleBetween, passes, sizes, -⟩
      rcases hypothesis middleBetween with
        ⟨nextBetween, laterPasses, laterSizes⟩
      rw [Bool.toNat_true] at sizes
      exact ⟨nextBetween, by omega, by omega⟩

theorem IsBetweenPasses.size_le (between : session.IsBetweenPasses code) :
    session.procedures.size ≤ frameCount code := by
  have distinct : session.procedures.keys.Nodup := by
    rw [Table.keys, List.Nodup, List.pairwise_map]
    exact session.procedures.sorted.imp Nat.ne_of_lt
  have contained :
      session.procedures.keys ⊆ code.keys.filter (beginsFrame code.get?) := by
    intro entry member
    rw [Table.mem_keys_iff] at member
    have enters := between.enters entry member
    rcases between.swept.beginsFrame_iff.mp enters with ⟨-, begins⟩
    rw [between.accounted.code_eq] at begins
    rcases beginsFrame_iff.mp begins with ⟨save, set, isSave, -⟩
    rw [List.mem_filter, Table.mem_keys_iff, Table.contains, isSave]
    exact ⟨rfl, begins⟩
  have bound := (distinct.subperm contained).length_le
  simpa [Table.keys, Table.size, frameCount] using bound

theorem isBetweenPasses_ofListing
    {text : String} {lifted : Listing.Lifted}
    (isLifted : Listing.lift text = .ok lifted) :
    (ofListing lifted).IsBetweenPasses lifted.image.code where
  accounted := isAccounted_ofListing lifted
  swept := Listing.isSwept_of_lift isLifted
  enters := by
    intro entry known
    cases known
  settled := by
    intro entry procedure found
    cases found

/-- A session whose last pass has found nothing new is at rest. -/
theorem ConvergesTo.isAtRest
    (keyed : IsKeyed code)
    (between : session.IsBetweenPasses code)
    (converges : ConvergesTo options session next) :
    next.IsAtRest options := by
  rcases converges with ⟨count, last, advances, ended⟩
  rcases advances.keeps keyed between with ⟨lastBetween, -, -⟩
  rcases lastBetween.pass keyed ended with ⟨-, -, -, atRest⟩
  exact atRest rfl

/--
A run takes at most one pass more than it finds procedures, and it is cut short
only after as many procedures as passes.
-/
theorem IsBetweenPasses.run
    (keyed : IsKeyed code)
    (between : session.IsBetweenPasses code)
    (finished : session.run options = .ok next) :
    next.IsBetweenPasses code ∧
      next.passes + session.procedures.size ≤
        session.passes + next.procedures.size + 1 ∧
      (ConvergesTo options session next ∨
        session.procedures.size + (options.maxPasses - session.passes) ≤
          next.procedures.size) := by
  rcases runPasses_cases finished with
    ⟨count, last, -, advances, ended⟩ | ⟨last, advances, rfl⟩
  · rcases advances.keeps keyed between with ⟨lastBetween, passes, sizes⟩
    rcases lastBetween.pass keyed ended with
      ⟨nextBetween, lastPass, lastSize, -⟩
    rw [Bool.toNat_false] at lastSize
    exact ⟨nextBetween, by omega, .inl ⟨count, last, advances, ended⟩⟩
  · rcases advances.keeps keyed between with ⟨lastBetween, passes, sizes⟩
    refine ⟨lastBetween.congr rfl rfl, ?_, .inr sizes⟩
    show last.passes + _ ≤ _ + last.procedures.size + 1
    omega

end Runs

/--
Discovery in a listing takes at most one pass more than it finds procedures.
It stops by itself if there are fewer frame setups in the code than passes are
allowed, and wherever it does, the session is at rest.  It can halt only
because a sum leaves its word, and in sixteen-bit code it does not.
-/
theorem run_reaches_fixpoint
    {text : String} {lifted : Listing.Lifted}
    (isLifted : Listing.lift text = .ok lifted)
    (options : Options) :
    Delivers ((ofListing lifted).run options)
      (fun final => final.passes ≤ final.procedures.size + 1 ∧
        (frameCount lifted.image.code < options.maxPasses →
          ConvergesTo options (ofListing lifted) final) ∧
        (ConvergesTo options (ofListing lifted) final →
          final.IsAtRest options))
      (fun halt => HaltsByOverflow halt ∧
        ¬ IsSixteenBitCode lifted.image.code) := by
  have sound := Listing.isSoundCode_of_lift isLifted
  have between := isBetweenPasses_ofListing isLifted
  have noPasses : (ofListing lifted).passes = 0 := rfl
  have noProcedures : (ofListing lifted).procedures.size = 0 := rfl
  apply delivers_of_outcome
  · intro final finished
    rcases between.run sound.keyed finished with ⟨finalBetween, passes, ending⟩
    have fewer := finalBetween.size_le
    refine ⟨by omega, ?_,
      fun converges => converges.isAtRest sound.keyed between⟩
    intro few
    rcases ending with converges | cutShort
    · exact converges
    · omega
  · intro halt stopped
    refine ⟨(delivers_runPasses sound.keyed options _
      between.accounted).of_error stopped, ?_⟩
    intro sixteenBit
    exact (delivers_runPasses_faultless sound sixteenBit options _
      between.accounted).of_error
      stopped

theorem run_reaches_fixpoint_pushingListing :
    ∃ lifted final, Listing.lift pushingListing = .ok lifted ∧
      (ofListing lifted).run {} = .ok final ∧ final.passes = 2 ∧
      ConvergesTo {} (ofListing lifted) final ∧ final.IsAtRest {} := by
  have works : (Listing.lift pushingListing).toOption.bind (fun lifted =>
      ((ofListing lifted).run {}).toOption.map (fun final =>
        (frameCount lifted.image.code, final.passes))) = some (1, 2) := by
    decide +kernel
  rcases Option.bind_eq_some_iff.mp works with ⟨lifted, lifts, computed⟩
  rcases Option.map_eq_some_iff.mp computed with ⟨final, runs, counts⟩
  have isLifted := eq_ok_of_toOption lifts
  have finished := eq_ok_of_toOption runs
  rcases (run_reaches_fixpoint isLifted {}).of_ok finished with
    ⟨-, converges, rests⟩
  rcases Prod.mk.inj counts with ⟨frames, passes⟩
  have converged := converges (by rw [frames]; decide)
  exact ⟨lifted, final, isLifted, finished, passes, converged, rests converged⟩

/--
A listing of one procedure whose prologue allocates all bytes that a word can
count.
-/
def deepListing : String := "LISTING deep

ENTRY 1000

CODE
1000 mov fp,-(sp)
1002 mov sp,fp
1004 sub #9223372036854775807,sp
1008 cmp sp,@#0x2100
100c bhi 0x1012
100e sev
1010 trap
1012 rts pc
"

/--
One frame setup is fewer than the passes that are allowed, and yet the run
halts and passes converge to no session.
-/
theorem not_convergesTo_deepListing :
    ∃ lifted halt, Listing.lift deepListing = .ok lifted ∧
      frameCount lifted.image.code = 1 ∧
      (ofListing lifted).run {} = .error halt ∧ halt.fault = .deltaOverflow ∧
      ¬ ∃ final, ConvergesTo {} (ofListing lifted) final := by
  have works : (Listing.lift deepListing).toOption.map (fun lifted =>
      (frameCount lifted.image.code,
        match (ofListing lifted).pass {} with
        | .ok _ => none
        | .error halt =>
            some halt.fault)) = some (1, some .deltaOverflow) := by
    decide +kernel
  rcases Option.map_eq_some_iff.mp works with ⟨lifted, lifts, computed⟩
  rcases Prod.mk.inj computed with ⟨frames, fault⟩
  cases passed : (ofListing lifted).pass {} with
  | ok next =>
      rw [passed] at fault
      cases fault
  | error halt =>
      rw [passed] at fault
      refine ⟨lifted, halt, eq_ok_of_toOption lifts, frames, ?_,
        Option.some.inj fault, ?_⟩
      · show runPasses {} (255 + 1) (ofListing lifted) = .error halt
        rw [runPasses, passed]
        rfl
      · rintro ⟨final, count, last, advances, ended⟩
        cases advances with
        | start =>
            rw [passed] at ended
            cases ended
        | more first later =>
            rw [passed] at first
            cases first

end Session

end ProcRecovery
