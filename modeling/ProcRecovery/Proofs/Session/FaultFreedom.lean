import ProcRecovery.CommandLine.Run
import ProcRecovery.Proofs.Image.Layout
import ProcRecovery.Proofs.Procedure.Bounds
import ProcRecovery.Proofs.Session.Drawings

/-!
# Sessions without faults

A session can halt only because a sum leaves its word.  In the code of a
sixteen-bit machine no sum of the analysis comes near that, so discovery ends
with a session, and all of it can be written: the report, the annotations, and
the drawing of every procedure.
-/

namespace ProcRecovery

namespace Session

/-! ## Steps that come to their end -/

/-- Every instruction of the code is one of a sixteen-bit machine. -/
def IsSixteenBitCode (code : Table Nat Instruction) : Prop :=
  ∀ address instruction, code.get? address = some instruction →
    instruction.IsSixteenBit

instance (code : Table Nat Instruction) : Decidable (IsSixteenBitCode code) :=
  decidable_of_iff (∀ entry ∈ code.entries, entry.2.IsSixteenBit) (by
    constructor
    · intro each address instruction found
      exact each (address, instruction) (Table.get?_eq_some_iff.mp found)
    · intro each entry member
      exact each entry.1 entry.2 (Table.get?_eq_some_iff.mpr member))

section Steps

variable {code : Table Nat Instruction} {session : Session}

/--
The only fault of a scan is an entry that is taken, and entries are looked up
before.
-/
theorem exists_scanAddress
    (keyed : IsKeyed code)
    (accounted : session.IsAccounted code)
    (found address : Nat) :
    ∃ next, scanAddress (session, found) address = .ok next := by
  cases outcome : scanAddress (session, found) address with
  | ok next => exact ⟨next, rfl⟩
  | error halt =>
      have overflows : IsOverflow halt.fault :=
        (delivers_scanAddress keyed accounted address).of_error outcome
      have taken : halt.fault = .entryTaken address := by
        simp only [scanAddress] at outcome
        split at outcome
        next =>
          rcases bind_eq_error_iff.mp outcome with stopped | ⟨_, _, impossible⟩
          · simp only [addProcedure] at stopped
            split at stopped
            next =>
              cases stopped
              rfl
            next => cases stopped
          · cases impossible
        next => cases outcome
      rw [taken] at overflows
      rcases overflows with
        impossible | impossible | impossible <;> cases impossible

theorem delivers_scan_faultless
    (keyed : IsKeyed code)
    (accounted : session.IsAccounted code) :
    Delivers session.scan (fun next => next.1.IsAccounted code) (fun _ =>
      False) := by
  apply Delivers.foldlM
  · exact accounted
  · rintro ⟨current, found⟩ stillAccounted address _
    exact (delivers_scanAddress keyed stillAccounted address).without_excuse
      (exists_scanAddress keyed stillAccounted found address)

/-- A procedure of sixteen-bit code is analyzed without a fault. -/
theorem exists_analyzeProcedure
    (sound : IsSoundCode code)
    (sixteenBit : IsSixteenBitCode code)
    (options : Options)
    (sites : List CallSite)
    {entry : Nat} {procedure : Procedure} {chain : List Instruction}
    (isChain : ChainAt code entry chain)
    (byChain : procedure.IsAccountedBy chain) :
    ∃ next, analyzeProcedure options (session, sites) (entry, procedure) =
      .ok next := by
  simp only [analyzeProcedure]
  split
  next => exact ⟨_, rfl⟩
  next => exact ⟨_, rfl⟩
  next isPending =>
    have inCode : ∀ instruction ∈ chain,
        code.get? instruction.lo = some instruction :=
      fun instruction member => isChain.get?_of_mem sound.keyed member
    rcases Procedure.exists_analyze options session.image byChain.nonempty
      (isChain.abutting sound.keyed) (byChain.isPendingOn isPending)
      (fun instruction member => sound.valid _ _ (inCode instruction member))
      (fun instruction member =>
        sixteenBit _ _ (inCode instruction member)) with
      ⟨analyzed, finished⟩
    rw [finished]
    exact ⟨_, rfl⟩

theorem delivers_analyzePending_faultless
    (sound : IsSoundCode code)
    (sixteenBit : IsSixteenBitCode code)
    (options : Options)
    (accounted : session.IsAccounted code) :
    Delivers (session.analyzePending options) (fun next =>
      next.1.IsAccounted code)
      (fun _ => False) := by
  have analyzed : Delivers
      (session.procedures.entries.foldlM (analyzeProcedure options) (session,
        []))
      (fun next => next.1.IsAccounted code) (fun _ => False) := by
    apply Delivers.foldlM
    · exact accounted
    · rintro ⟨current, sites⟩ stillAccounted ⟨entry, procedure⟩ member
      rcases accounted.procedures entry procedure
        (Table.get?_eq_some_iff.mpr member) with
        ⟨chain, isChain, byChain⟩
      exact (delivers_analyzeProcedure sound.keyed options stillAccounted sites
        isChain byChain).without_excuse
        (exists_analyzeProcedure sound sixteenBit options sites isChain
          byChain)
  apply analyzed.bind
  rintro ⟨current, sites⟩ stillAccounted
  exact stillAccounted.foldl_registerCall 0 sites

theorem delivers_pass_faultless
    (sound : IsSoundCode code)
    (sixteenBit : IsSixteenBitCode code)
    (options : Options)
    (accounted : session.IsAccounted code) :
    Delivers (session.pass options) (fun next => next.1.IsAccounted code)
      (fun _ => False) := by
  have counted :
      ({ session with passes := session.passes + 1 } :
      Session).IsAccounted code :=
    accounted.congr rfl rfl
  apply (delivers_scan_faultless sound.keyed counted).bind
  rintro ⟨scanned, newProcedures⟩ scannedAccounted
  apply (delivers_analyzePending_faultless sound sixteenBit options
    scannedAccounted).bind
  rintro ⟨analyzed, newTargets⟩ analyzedAccounted
  exact analyzedAccounted.record _

/-- Passes over sixteen-bit code come to their end. -/
theorem delivers_runPasses_faultless
    (sound : IsSoundCode code)
    (sixteenBit : IsSixteenBitCode code)
    (options : Options)
    (remaining : Nat)
    (accounted : session.IsAccounted code) :
    Delivers (session.runPasses options remaining) (IsAccounted code) (fun _ =>
      False) := by
  induction remaining generalizing session with
  | zero => exact accounted.record _
  | succ remaining hypothesis =>
      rw [runPasses]
      apply (delivers_pass_faultless sound sixteenBit options accounted).bind
      rintro ⟨next, news⟩ nextAccounted
      cases news with
      | true => exact hypothesis nextAccounted
      | false => exact nextAccounted

end Steps

/-! ## Sixteen-bit code -/

/--
Discovery in sixteen-bit code comes to its end whatever the options are, and
with a library that writes drawings in some layout so does the drawing of every
procedure.  The command line then has a report, the annotations and the bytes
of its drawings.
-/
theorem run_of_sixteenBitCode
    {text : String} {lifted : Listing.Lifted}
    (isLifted : Listing.lift text = .ok lifted)
    (sixteenBit : IsSixteenBitCode lifted.image.code)
    (options : Options)
    {library : Graphviz.Library} {layout : Graphviz.Layout}
    (follows : library.Follows layout) :
    ∃ final, (ofListing lifted).run options = .ok final ∧
      (∀ procedure ∈ final.procedures.values, ∃ drawn,
        Graphviz.generate library final.image procedure = .ok drawn) ∧
      ∃ bytes, CommandLine.analyze library options text = .finished
        { report := Report.session options final ++ "\n" ++
            Report.annotations final.image
          graphs := .ok (.ok bytes)
          journal := final.journal } := by
  rcases (delivers_runPasses_faultless (Listing.isSoundCode_of_lift isLifted)
    sixteenBit options _ (isAccounted_ofListing lifted)).exists_ok with
    ⟨final, finished, -⟩
  have drawable : ∀ procedure ∈ final.procedures.values,
      procedure.IsDrawable :=
    fun procedure member => isDrawable_of_run isLifted finished member
  refine ⟨final, finished, ?_, ?_⟩
  · intro procedure member
    rcases Graphviz.exists_drawing follows final.image
      (drawable procedure member) with ⟨drawn, isDrawn⟩
    exact ⟨_, Graphviz.generate_of_drawing follows isDrawn⟩
  · have analyzed : ∀ procedure ∈ final.procedures.values.filter
        (fun procedure => procedure.progress = .analyzed),
        procedure.IsDrawable :=
      fun procedure member =>
        drawable procedure (List.mem_of_mem_filter member)
    rcases Graphviz.exists_writeAll follows final.image analyzed with
      ⟨bytes, areWritten⟩
    have finished : Session.run options
        { image := lifted.image, journal := lifted.events } = .ok final :=
      finished
    refine ⟨bytes, ?_⟩
    simp only [CommandLine.analyze, isLifted, finished, areWritten]

theorem run_of_sixteenBitCode_pushingListing :
    ∃ lifted final, Listing.lift pushingListing = .ok lifted ∧
      IsSixteenBitCode lifted.image.code ∧
      Graphviz.Library.standard.Follows .standard ∧
      (ofListing lifted).run {} = .ok final ∧
      final.procedures.keys = [0x1000] ∧
      (∀ procedure ∈ final.procedures.values, ∃ drawn,
        Graphviz.generate .standard final.image procedure = .ok drawn) ∧
      ∃ results bytes,
        CommandLine.analyze .standard {} pushingListing = .finished results ∧
          results.graphs = .ok (.ok bytes) := by
  have works : (Listing.lift pushingListing).toOption.map (fun lifted =>
      (decide (IsSixteenBitCode lifted.image.code),
        ((ofListing lifted).run {}).toOption.map
          (fun final => final.procedures.keys))) =
      some (true, some [0x1000]) := by
    decide +kernel
  rcases Option.map_eq_some_iff.mp works with ⟨lifted, lifts, computed⟩
  simp only [Prod.mk.injEq, decide_eq_true_eq] at computed
  rcases Option.map_eq_some_iff.mp computed.2 with ⟨computedFinal, runs, keys⟩
  have isLifted := eq_ok_of_toOption lifts
  rcases run_of_sixteenBitCode isLifted computed.1 {}
    Graphviz.Library.follows_standard with
    ⟨final, finished, drawn, bytes, analyzed⟩
  have same : computedFinal = final :=
    Except.ok.inj ((eq_ok_of_toOption runs).symm.trans finished)
  rw [same] at keys
  exact ⟨lifted, final, isLifted, computed.1,
    Graphviz.Library.follows_standard, finished, keys, drawn, _, bytes,
    analyzed, rfl⟩

end Session

end ProcRecovery
