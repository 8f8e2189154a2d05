import ProcRecovery.Proofs.Image.Layout
import ProcRecovery.Proofs.Procedure.Flow
import ProcRecovery.Proofs.Procedure.Levels
import ProcRecovery.Proofs.Session.Moves

/-!
# Control flow in sessions

The lost ways that a session reports for a procedure are those of its analysis
and no others: nothing else reports lost ways, and a procedure is analyzed
once.  So control flow is kept in every procedure that a session has analyzed,
whatever commands it was given.
-/

namespace ProcRecovery

theorem Instruction.length_operands_of_isBranch
    {instruction : Instruction}
    (valid : instruction.defect? = none)
    (branches : instruction.isBranch = true) :
    instruction.operands.length = 1 := by
  unfold isBranch at branches
  split at branches
  next condition isBranch =>
    rcases operands_of_branch valid isBranch with ⟨address, operands⟩
    rw [operands]
    rfl
  next => cases branches

theorem IsSoundCode.branchesOnce
    {code : Table Nat Instruction}
    (sound : IsSoundCode code)
    {address : Nat} {chain : List Instruction}
    (isChain : ChainAt code address chain) :
    BranchesOnce chain := by
  intro instruction member branches
  exact Instruction.length_operands_of_isBranch
    (sound.valid _ _ (isChain.get?_of_mem sound.keyed member)) branches

/-! ## Reports of lost ways -/

theorem lostReports_of_isLocal
    {owner procedure : Nat} {events : List Event}
    (isLocal : ∀ event ∈ events, event.IsLocal owner)
    (other : procedure ≠ owner) :
    lostReports procedure (diagnosticsOf events) = [] := by
  apply lostReports_eq_nil
  intro address target member
  exact other (isLocal _ member).1

theorem lostReports_of_isAboutCall
    {procedure : Nat} {events : List Event}
    (aboutCalls : ∀ event ∈ events, event.IsAboutCall) :
    lostReports procedure (diagnosticsOf events) = [] := by
  apply lostReports_eq_nil
  intro address target member
  cases aboutCalls _ member

theorem Procedure.KeepsFlow.congr
    {analyzed : Procedure} {before after : List (Nat × Diagnostic)}
    (kept : analyzed.KeepsFlow before)
    (same : lostReports analyzed.lo after = lostReports analyzed.lo before) :
    analyzed.KeepsFlow after := by
  refine ⟨kept.plain, kept.absorbed, ?_⟩
  rw [same]
  exact kept.accounted

namespace Session

/--
Control flow is kept in all analyzed procedures, and no lost ways are reported
for others.
-/
structure KeepsFlow (session : Session) : Prop where
  analyzed : ∀ entry procedure,
    session.procedures.get? entry = some procedure →
    procedure.progress = .analyzed → procedure.KeepsFlow session.diagnostics
  silent :
    ∀ entry, (∀ procedure, session.procedures.get? entry = some procedure →
      procedure.progress ≠ .analyzed) →
    lostReports entry session.diagnostics = []

theorem KeepsFlow.congr
    {session other : Session}
    (kept : session.KeepsFlow)
    (sameProcedures : other.procedures = session.procedures)
    (sameReports : ∀ entry, lostReports entry other.diagnostics =
      lostReports entry session.diagnostics) :
    other.KeepsFlow where
  analyzed := by
    intro entry procedure found isAnalyzed
    rw [sameProcedures] at found
    exact (kept.analyzed entry procedure found isAnalyzed).congr
      (sameReports procedure.lo)
  silent := by
    rw [sameProcedures]
    intro entry unanalyzed
    rw [sameReports]
    exact kept.silent entry unanalyzed

/-- Notes report no lost ways. -/
theorem diagnostics_noted (session : Session) (note : Note) :
    diagnosticsOf (session.journal ++ [.noted note]) =
      session.diagnostics := by
  rw [diagnosticsOf_append]
  exact List.append_nil _

section Moves

variable {options : Options} {code : Table Nat Instruction} {session : Session}

/--
A new procedure has not been analyzed yet, and nothing was reported for it
before.
-/
theorem KeepsFlow.find
    (kept : session.KeepsFlow)
    {entry : Nat} {found : Procedure}
    (isPending : found.progress = .pending)
    (unknown : session.procedures.contains entry = false)
    {note : Note} :
    KeepsFlow { session.record [.noted note] with
      procedures := session.procedures.insert entry found } where
  analyzed := by
    intro other procedure isFound isAnalyzed
    rw [Table.get?_insert] at isFound
    split at isFound
    next =>
      cases isFound
      rw [isPending] at isAnalyzed
      cases isAnalyzed
    next =>
      apply (kept.analyzed other procedure isFound isAnalyzed).congr
      exact congrArg (lostReports procedure.lo)
        (diagnostics_noted session note)
  silent := by
    intro other unanalyzed
    refine (congrArg (lostReports other)
      (diagnostics_noted session note)).trans ?_
    apply kept.silent other
    intro procedure isKnown
    apply unanalyzed procedure
    rw [Table.get?_insert]
    split
    next same =>
      rw [← same, Table.contains, isKnown] at unknown
      cases unknown
    next => exact isKnown

/-- What was reported before stays, and later reports are added to it. -/
theorem lostReports_record
    (session : Session)
    (events : List Event)
    (entry : Nat) :
    lostReports entry (session.record events).diagnostics =
      lostReports entry session.diagnostics ++
        lostReports entry (diagnosticsOf events) := by
  rw [diagnostics_record, lostReports_append]

section Analysis

variable {entry : Nat} {procedure analyzed : Procedure} {events : List Event}

/-- Nothing is reported for a procedure before its analysis. -/
theorem KeepsFlow.lostReports_of_pending
    (kept : session.KeepsFlow)
    (known : session.procedures.get? entry = some procedure)
    (isPending : procedure.progress = .pending) :
    lostReports entry session.diagnostics = [] := by
  apply kept.silent entry
  intro other isOther
  rw [known] at isOther
  cases isOther
  rw [isPending]
  decide

/-- Where an analysis gives up, it has lost no ways. -/
theorem lostReports_of_unanalyzed
    (isPending : procedure.progress = .pending)
    (finished :
      (procedure.analyze options session.image).Finishes events analyzed)
    (unanalyzed : analyzed.progress ≠ .analyzed) :
    lostReports entry (diagnosticsOf events) = [] := by
  rcases Procedure.analyze_cases isPending finished with
    ⟨-, remarks⟩ | ⟨_, _, -, -, ⟨stages⟩⟩
  · exact lostReports_of_internal (fun event member =>
      (remarks event member).1)
  · refine absurd ?_ unanalyzed
    rw [stages.analyzed_eq]

/-- An accounted procedure stays where it is when it is analyzed. -/
theorem IsAccounted.lo_of_analyze
    (keyed : IsKeyed code)
    (accounted : session.IsAccounted code)
    (known : session.procedures.get? entry = some procedure)
    (isPending : procedure.progress = .pending)
    (finished :
      (procedure.analyze options session.image).Finishes events analyzed) :
    analyzed.lo = entry := by
  rcases accounted.procedures entry procedure known with
    ⟨chain, isChain, byChain⟩
  have analysis :=
    (Procedure.delivers_analyze options session.image byChain.nonempty
      (isChain.abutting keyed) (byChain.isPendingOn isPending)).of_ok
      finished.outcome_eq
  have starts := isChain.head?_lo keyed byChain.nonempty
  rw [analysis.1.lo_eq] at starts
  exact Option.some.inj starts

/-- An accounted procedure keeps its control flow when it is analyzed. -/
theorem IsAccounted.keepsFlow_of_analyze
    (sound : IsSoundCode code)
    (accounted : session.IsAccounted code)
    (known : session.procedures.get? entry = some procedure)
    (isPending : procedure.progress = .pending)
    (finished :
      (procedure.analyze options session.image).Finishes events analyzed)
    (isAnalyzed : analyzed.progress = .analyzed) :
    analyzed.KeepsFlow (diagnosticsOf events) := by
  rcases accounted.procedures entry procedure known with
    ⟨chain, isChain, byChain⟩
  exact Procedure.keepsFlow_of_analyze byChain.nonempty
    (isChain.abutting sound.keyed)
    (sound.branchesOnce isChain) (byChain.isPendingOn isPending) finished
    isAnalyzed

/-- The analysis of a procedure reports no lost ways of another one. -/
theorem IsAccounted.lostReports_elsewhere
    (keyed : IsKeyed code)
    (accounted : session.IsAccounted code)
    (known : session.procedures.get? entry = some procedure)
    (isPending : procedure.progress = .pending)
    (finished :
      (procedure.analyze options session.image).Finishes events analyzed)
    {other : Nat}
    (differs : other ≠ entry) :
    lostReports other (session.record events).diagnostics =
      lostReports other session.diagnostics := by
  rcases accounted.procedures entry procedure known with
    ⟨chain, isChain, byChain⟩
  have isLocal := Procedure.isLocal_of_analyze isPending finished
  rw [byChain.lo_eq keyed isChain] at isLocal
  rw [lostReports_record, lostReports_of_isLocal isLocal differs,
    List.append_nil]

/--
The analysis of a procedure reports the lost ways of that procedure and of no
other one.
-/
theorem KeepsFlow.analyze
    (sound : IsSoundCode code)
    (accounted : session.IsAccounted code)
    (kept : session.KeepsFlow)
    (known : session.procedures.get? entry = some procedure)
    (isPending : procedure.progress = .pending)
    (finished :
      (procedure.analyze options session.image).Finishes events analyzed) :
    KeepsFlow { session.record events with
      procedures := session.procedures.insert entry analyzed } := by
  have here : lostReports entry (session.record events).diagnostics =
      lostReports entry (diagnosticsOf events) := by
    rw [lostReports_record, kept.lostReports_of_pending known isPending,
      List.nil_append]
  have elsewhere : ∀ other, other ≠ entry →
      lostReports other (session.record events).diagnostics =
        lostReports other session.diagnostics :=
    fun other differs =>
      accounted.lostReports_elsewhere sound.keyed known isPending finished
        differs
  refine ⟨?_, ?_⟩
  · intro other found isFound isAnalyzed
    rw [Table.get?_insert] at isFound
    split at isFound
    next same =>
      cases isFound
      apply (accounted.keepsFlow_of_analyze sound known isPending finished
        isAnalyzed).congr
      rw [accounted.lo_of_analyze sound.keyed known isPending finished]
      exact here
    next differs =>
      apply (kept.analyzed other found isFound isAnalyzed).congr
      rcases accounted.procedures other found isFound with
        ⟨chain, isChain, byChain⟩
      rw [byChain.lo_eq sound.keyed isChain]
      exact elsewhere other differs
  · intro other unanalyzed
    by_cases same : other = entry
    · subst same
      refine here.trans (lostReports_of_unanalyzed isPending finished ?_)
      exact unanalyzed analyzed (by rw [Table.get?_insert, if_pos rfl])
    · refine (elsewhere other same).trans (kept.silent other ?_)
      intro found isFound
      apply unanalyzed found
      rw [Table.get?_insert, if_neg same]
      exact isFound

end Analysis

/-- Every move keeps control flow. -/
theorem KeepsFlow.move
    (sound : IsSoundCode code)
    {work next : Work}
    (accounted : work.session.IsAccounted code)
    (kept : work.session.KeepsFlow)
    (moves : Move options work next) :
    next.session.KeepsFlow := by
  cases moves with
  | decode session waiting address =>
      exact kept.congr rfl (fun entry =>
        congrArg (lostReports entry) (diagnostics_noted session _))
  | label session waiting address label => exact kept.congr rfl (fun _ => rfl)
  | mention session waiting other =>
      exact kept.congr rfl (fun entry =>
        congrArg (lostReports entry) (diagnostics_noted session _))
  | count session waiting => exact kept.congr rfl (fun _ => rfl)
  | find session waiting unclaimed coded found_eq =>
      apply kept.find _ (accounted.not_contains sound.keyed unclaimed)
      rw [found_eq]
      rfl
  | analyze session waiting known pending finished =>
      exact kept.analyze sound accounted known pending finished
  | register session site waiting count =>
      rcases exists_events_registerCall session count site with
        ⟨same, events, appended, aboutCalls⟩
      apply kept.congr same
      intro entry
      rw [diagnostics, appended, diagnosticsOf_append, lostReports_append,
        lostReports_of_isAboutCall aboutCalls, List.append_nil]
      rfl

end Moves

theorem keepsFlow_ofListing
    {text : String} {lifted : Listing.Lifted}
    (isLifted : Listing.lift text = .ok lifted) :
    (ofListing lifted).KeepsFlow where
  analyzed := by
    intro entry procedure found
    cases found
  silent := by
    intro entry _
    rw [diagnostics_ofListing isLifted]
    rfl

end Session

/--
Rewriting loses no control flow silently.  An analysis of a run of instructions
that comes to its end keeps every way out of every instruction: it is a way out
of a machine instruction, or it stays within the operation that the instruction
has become part of, and where control goes on each way out of a node is known
or reported.  In a listing branches have one operand each, so this holds of
every procedure that a session has analyzed, with the reports of the session.
-/
theorem analysis_loses_no_flow :
    (∀ (options : Options) (image : Image) (instructions : List Instruction),
      Abutting Instruction.lo Instruction.hi instructions →
        BranchesOnce instructions →
      Delivers ((Procedure.ofInstructions instructions).analyze options
        image).outcome
        (fun analyzed => analyzed.progress = .analyzed →
          analyzed.KeepsFlow (diagnosticsOf
            ((Procedure.ofInstructions instructions).analyze options
              image).events))
        IsOverflow) ∧
    (∀ (text : String) (lifted : Listing.Lifted),
      Listing.lift text = .ok lifted →
      ∀ (options : Options) (commands : List Session.Command),
        Delivers ((Session.ofListing lifted).executeAll options commands)
          (fun session => ∀ entry procedure,
            session.procedures.get? entry = some procedure →
            procedure.progress = .analyzed →
              procedure.KeepsFlow session.diagnostics)
          Session.HaltsByOverflow) := by
  constructor
  · intro options image instructions abuts once
    by_cases empty : instructions = []
    · subst empty
      apply (Procedure.progress_analyze_nil options image).mono
      · intro analyzed failed isAnalyzed
        rw [failed] at isAnalyzed
        cases isAnalyzed
      · intro fault impossible
        exact impossible.elim
    · have pending := Procedure.isPendingOn_ofInstructions empty
      apply delivers_of_outcome
      · intro analyzed ended isAnalyzed
        exact Procedure.keepsFlow_of_analyze empty abuts once pending ⟨rfl,
          ended⟩ isAnalyzed
      · intro fault stopped
        exact (Procedure.delivers_analyze options image empty abuts
          pending).of_error stopped
  · intro text lifted isLifted options commands
    have sound := Listing.isSoundCode_of_lift isLifted
    apply (Session.delivers_executeAll (fun work => work.session.KeepsFlow)
      sound.keyed (Session.isAccounted_ofListing lifted)
      (Session.keepsFlow_ofListing isLifted)
      (fun work next accounted kept moves => kept.move sound accounted moves)
      commands).weaken
    rintro session ⟨-, kept⟩
    exact kept.analyzed

/--
A listing of a procedure with one branch back to its start and another one into
its prologue.
-/
def branchingListing : String := "LISTING branching

ENTRY 1000

CODE
1000 mov fp,-(sp)
1002 mov sp,fp
1004 cmp sp,@#0x2100
1008 bhi 0x100e
100a sev
100c trap
100e tst r1
1010 beq 0x1000
1012 beq 0x1002
1014 rts pc
"

theorem analysis_loses_no_flow_branchingListing :
    (∃ analyzed,
      ((Procedure.ofInstructions pushingCode).analyze {}
          { name := "pushing" }).outcome =
        .ok analyzed ∧
      analyzed.progress = .analyzed ∧
      analyzed.KeepsFlow (diagnosticsOf
        ((Procedure.ofInstructions pushingCode).analyze {}
          { name := "pushing" }).events)) ∧
    (∃ lifted session procedure, Listing.lift branchingListing = .ok lifted ∧
      (Session.ofListing lifted).executeAll {} [.step .run] = .ok session ∧
      session.procedures.get? 0x1000 = some procedure ∧
      procedure.progress = .analyzed ∧
      lostReports 0x1000 session.diagnostics = [(0x1012, some 0x1002)] ∧
      procedure.KeepsFlow session.diagnostics) := by
  have once : BranchesOnce pushingCode := by
    unfold BranchesOnce
    decide
  have analyzes :
      ((Procedure.ofInstructions pushingCode).analyze {}
          { name := "pushing" }).outcome.toOption.map Procedure.progress =
        some .analyzed := by
    decide +kernel
  have works : ((Listing.lift branchingListing).toOption.bind (fun lifted =>
      ((Session.ofListing lifted).executeAll {} [.step .run]).toOption)).bind
        (fun session =>
      (session.procedures.get? 0x1000).map (fun procedure =>
        (procedure.progress, lostReports 0x1000 session.diagnostics))) =
      some (.analyzed, [(0x1012, some 0x1002)]) := by
    decide +kernel
  constructor
  · have promised :=
      analysis_loses_no_flow.1 {} { name := "pushing" } pushingCode
        (by decide) once
    cases finished :
        ((Procedure.ofInstructions pushingCode).analyze {}
          { name := "pushing" }).outcome with
    | error fault =>
        rw [finished] at analyzes
        cases analyzes
    | ok analyzed =>
        rw [finished] at analyzes
        have isAnalyzed : analyzed.progress = .analyzed :=
          Option.some.inj analyzes
        exact ⟨analyzed, rfl, isAnalyzed, promised.of_ok finished isAnalyzed⟩
  · rcases Session.exists_of_computed works with
      ⟨lifted, session, isLifted, executed, viewed⟩
    rcases Option.map_eq_some_iff.mp viewed with ⟨procedure, found, same⟩
    rw [Prod.mk.injEq] at same
    have promised :=
      analysis_loses_no_flow.2 branchingListing lifted isLifted {} [.step .run]
    exact ⟨lifted, session, procedure, isLifted, executed, found, same.1,
      same.2, promised.of_ok executed _ _ found same.1⟩

/--
A procedure whose stack check branches to two places: past its trap, which is
where the check is recognized by, and to a place of its own.  Valid branches
have one operand.
-/
def twoTargetsCode : List Instruction :=
  [ ⟨0x5000, 0x5002, .mov, .word, [.register .fp, .autoDecrement .sp],
    by decide⟩,
    ⟨0x5002, 0x5004, .mov, .word, [.register .sp, .register .fp], by decide⟩,
    ⟨0x5004, 0x5008, .cmp, .word, [.register .sp, .absolute 0x2100],
      by decide⟩,
    ⟨0x5008, 0x500a, .branch .higher, .word, [.target 0x500e, .target 0x4000],
      by decide⟩,
    ⟨0x500a, 0x500c, .sev, .word, [], by decide⟩,
    ⟨0x500c, 0x500e, .trap, .word, [], by decide⟩,
    ⟨0x500e, 0x5010, .rts, .word, [.register .pc], by decide⟩ ]

/--
Without the condition on branches control flow can be lost silently: the branch
goes outside of the prologue that has taken it in, and nothing is reported.
-/
theorem not_keepsFlow_twoTargetsCode :
    Abutting Instruction.lo Instruction.hi twoTargetsCode ∧
      ∃ analyzed,
        ((Procedure.ofInstructions twoTargetsCode).analyze {}
          { name := "two targets" }).outcome = .ok analyzed ∧
        analyzed.progress = .analyzed ∧
        analyzed.body.map Node.op = [some (.prologue 0), none] ∧
        diagnosticsOf ((Procedure.ofInstructions twoTargetsCode).analyze {}
          { name := "two targets" }).events = [] ∧
        ¬ analyzed.KeepsFlow [] := by
  -- The address that the branch leads to is before the prologue.
  have analyzes :
      ((Procedure.ofInstructions twoTargetsCode).analyze {}
        { name := "two targets" }).outcome.toOption.map (fun analyzed =>
          (analyzed.progress, analyzed.body.map Node.op,
            analyzed.body.any (fun node =>
              node.op = some (.prologue 0) && 0x4000 < node.lo &&
                node.instructions.any (fun instruction =>
                  ⟨.conditional, some 0x4000⟩ ∈ instruction.flow)))) =
      some (.analyzed, [some (.prologue 0), none], true) := by
    decide +kernel
  have silent :
      diagnosticsOf ((Procedure.ofInstructions twoTargetsCode).analyze {}
        { name := "two targets" }).events = [] := by
    decide +kernel
  rcases Option.map_eq_some_iff.mp analyzes with ⟨analyzed, ended, computed⟩
  simp only [Prod.mk.injEq, List.any_eq_true, Bool.and_eq_true,
    decide_eq_true_eq] at computed
  rcases computed with
    ⟨isAnalyzed, ops, node, member, ⟨isPrologue, before⟩, branch, owned,
      leaves⟩
  refine
    ⟨by decide, analyzed, eq_ok_of_toOption ended, isAnalyzed, ops, silent, ?_⟩
  intro keeps
  rcases keeps.absorbed node member _ isPrologue (by simp) branch owned _
    leaves
    (by simp) with ⟨target, leads, after, -⟩
  cases leads
  omega

end ProcRecovery
