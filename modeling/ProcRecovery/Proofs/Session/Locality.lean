import ProcRecovery.Proofs.Procedure.Locality
import ProcRecovery.Proofs.Session.CallGraph
import ProcRecovery.Proofs.Session.Flow
import ProcRecovery.Proofs.Session.Growth

/-!
# Locality of a session

A session analyzes its procedures one after the other in an image that changes
on the way: more of it is decoded, and addresses are labeled and commented on.
None of this matters to a procedure.  What a session knows of a procedure is
nothing, that it is there, or what its chain of instructions comes to when it
is analyzed alone in the image that the session has started with.
-/

namespace ProcRecovery

/-- Whether the oddity is about where a call goes. -/
def Diagnostic.isAboutCall : Diagnostic → Bool
  | unresolvedCall _ | undecodableTarget _ _ => true
  | _ => false

/-! ## Reports on the code of a procedure -/

/--
The oddities reported for the code of a procedure, and not for where its calls
go.
-/
def codeReports (procedure : Nat) (diagnostics : List (Nat × Diagnostic)) :
    List (Nat × Diagnostic) :=
  diagnostics.filter (fun report => report.1 = procedure &&
    !report.2.isAboutCall)

theorem codeReports_append
    (procedure : Nat)
    (first second : List (Nat × Diagnostic)) :
    codeReports procedure (first ++ second) =
      codeReports procedure first ++ codeReports procedure second :=
  List.filter_append first second

theorem mem_diagnosticsOf_iff
    {events : List Event} {procedure : Nat} {diagnostic : Diagnostic} :
    (procedure, diagnostic) ∈ diagnosticsOf events ↔
      .diagnosed procedure diagnostic ∈ events := by
  rw [diagnosticsOf, List.mem_filterMap]
  constructor
  · rintro ⟨event, member, isReport⟩
    cases event with
    | diagnosed owner oddity =>
        cases isReport
        exact member
    | _ => cases isReport
  · intro member
    exact ⟨_, member, rfl⟩

/--
Everything that is reported by local events is about the code of the procedure.
-/
theorem codeReports_of_isLocal
    {procedure : Nat} {events : List Event}
    (isLocal : ∀ event ∈ events, event.IsLocal procedure) :
    codeReports procedure (diagnosticsOf events) = diagnosticsOf events := by
  rw [codeReports, List.filter_eq_self]
  rintro ⟨owner, diagnostic⟩ member
  rcases isLocal _ (mem_diagnosticsOf_iff.mp member) with
    ⟨rfl, internal | ⟨address, target, rfl⟩⟩
  · cases diagnostic with
    | unresolvedCall address => cases internal
    | undecodableTarget address target => cases internal
    | _ => simp [Diagnostic.isAboutCall]
  · simp [Diagnostic.isAboutCall]

/-- Local events report nothing on the code of other procedures. -/
theorem codeReports_of_isLocal_of_ne
    {owner procedure : Nat} {events : List Event}
    (isLocal : ∀ event ∈ events, event.IsLocal owner)
    (other : procedure ≠ owner) :
    codeReports procedure (diagnosticsOf events) = [] := by
  rw [codeReports, List.filter_eq_nil_iff]
  rintro ⟨reporter, diagnostic⟩ member
  have isOwner : reporter = owner :=
    (isLocal _ (mem_diagnosticsOf_iff.mp member)).1
  simp [isOwner, other.symm]

theorem codeReports_of_isAboutCall
    {procedure : Nat} {events : List Event}
    (aboutCalls : ∀ event ∈ events, event.IsAboutCall) :
    codeReports procedure (diagnosticsOf events) = [] := by
  rw [codeReports, List.filter_eq_nil_iff]
  rintro ⟨reporter, diagnostic⟩ member
  have aboutCall := aboutCalls _ (mem_diagnosticsOf_iff.mp member)
  cases diagnostic with
  | unresolvedCall address => simp [Diagnostic.isAboutCall]
  | undecodableTarget address target => simp [Diagnostic.isAboutCall]
  | _ => cases aboutCall

/-! ## Procedures on their own -/

/-- The analysis of the chain of instructions at an address on its own. -/
def Image.analyzeAt
    (image : Image)
    (options : Options)
    (entry : Nat) :
    Traced Procedure :=
  (Procedure.ofInstructions (image.chainFrom entry)).analyze options image

theorem Image.SharesProgram.chainFrom_eq
    {before after : Image}
    (shares : before.SharesProgram after)
    (address : Nat) :
    after.chainFrom address = before.chainFrom address := by
  rw [Image.chainFrom, shares.code_eq, Image.chainFrom]

/--
What may be known of the procedure at an entry, with the oddities reported for
its code: nothing, that it is there, or what its analysis on its own finds out.
-/
inductive KnownLocally (options : Options) (image : Image) (entry : Nat) :
    Option Procedure → List (Nat × Diagnostic) → Prop
  | unknown : KnownLocally options image entry none []
  | pending :
      KnownLocally options image entry
      (some (.ofInstructions (image.chainFrom entry))) []
  | settled {procedure alone : Procedure} {events : List Event}
      (progress : procedure.progress ≠ .pending)
      (finished : (image.analyzeAt options entry).Finishes events alone)
      (same : procedure.unlabeled = alone.unlabeled) :
      KnownLocally options image entry (some procedure) (diagnosticsOf events)

section Knowledge

variable {options : Options} {image : Image} {entry : Nat}
  {reports : List (Nat × Diagnostic)}

theorem KnownLocally.reports_eq_nil
    (known : KnownLocally options image entry none reports) :
    reports = [] := by
  cases known with
  | unknown => rfl

/--
A procedure that waits for its analysis is its chain of instructions, and
nothing is reported for it.
-/
theorem KnownLocally.eq_of_pending
    {procedure : Procedure}
    (known : KnownLocally options image entry (some procedure) reports)
    (isPending : procedure.progress = .pending) :
    procedure = .ofInstructions (image.chainFrom entry) ∧ reports = [] := by
  cases known with
  | pending => exact ⟨rfl, rfl⟩
  | settled progress => exact absurd isPending progress

/--
An analysis in another image of the same program finds out the same as one on
its own.
-/
theorem knownLocally_of_analyze
    {other : Image}
    (shares : image.SharesProgram other)
    {analyzed : Procedure} {events : List Event}
    (finished :
      ((Procedure.ofInstructions (image.chainFrom entry)).analyze options
        other).Finishes events analyzed) :
    KnownLocally options image entry
      (some analyzed) (diagnosticsOf events) := by
  rcases (Procedure.analyze_unlabeled options shares.symm _).exists_finishes
    finished with
    ⟨alone, isAlone, same⟩
  refine .settled ?_ isAlone same
  rcases Procedure.progress_of_analyze rfl finished with done | done
  · simp [done]
  · simp [done]

end Knowledge

namespace Session

/--
A session works on the program of an image, and what it knows of each procedure
is local.
-/
structure IsLocalTo
    (options : Options)
    (image : Image)
    (session : Session) :
    Prop where
  shares : image.SharesProgram session.image
  knows :
    ∀ entry, KnownLocally options image entry (session.procedures.get? entry)
    (codeReports entry session.diagnostics)

section Moves

variable {options : Options} {image : Image} {code : Table Nat Instruction}
  {session : Session}

theorem IsLocalTo.congr
    {other : Session}
    (isLocal : session.IsLocalTo options image)
    (shares : session.image.SharesProgram other.image)
    (sameProcedures : other.procedures = session.procedures)
    (sameReports : ∀ entry, codeReports entry other.diagnostics =
      codeReports entry session.diagnostics) :
    other.IsLocalTo options image where
  shares := isLocal.shares.trans shares
  knows := by
    intro entry
    rw [sameProcedures, sameReports]
    exact isLocal.knows entry

/--
A procedure that was not known before is the chain of instructions at its
entry.
-/
theorem IsLocalTo.find
    (isLocal : session.IsLocalTo options image)
    {entry : Nat} {note : Note}
    (unknown : session.procedures.contains entry = false) :
    IsLocalTo options image { session.record [.noted note] with
      procedures := session.procedures.insert entry
        (.ofInstructions (session.image.chainFrom entry)) } where
  shares := isLocal.shares.trans (session.image.sharesProgram_absorbAll _).1
  knows := by
    intro other
    have reports :
        codeReports other (diagnosticsOf (session.journal ++ [.noted note])) =
        codeReports other session.diagnostics :=
      congrArg (codeReports other) (diagnostics_noted session note)
    have knows := isLocal.knows other
    dsimp only [diagnostics, record]
    rw [reports, Table.get?_insert]
    split
    next same =>
      subst same
      rw [Table.contains, Option.isSome_eq_false_iff,
        Option.isNone_iff_eq_none] at unknown
      rw [unknown] at knows
      rw [knows.reports_eq_nil, isLocal.shares.chainFrom_eq]
      exact .pending
    next => exact knows

/--
The analysis of a procedure finds out what it would on its own, and reports
nothing on the code of others.
-/
theorem IsLocalTo.analyze
    (keyed : IsKeyed code)
    (accounted : session.IsAccounted code)
    (isLocal : session.IsLocalTo options image)
    {entry : Nat} {procedure analyzed : Procedure} {events : List Event}
    (known : session.procedures.get? entry = some procedure)
    (isPending : procedure.progress = .pending)
    (finished :
      (procedure.analyze options session.image).Finishes events analyzed) :
    IsLocalTo options image { session.record events with
      procedures := session.procedures.insert entry analyzed } where
  shares :=
    isLocal.shares.trans (session.image.sharesProgram_absorbAll events).1
  knows := by
    have own := Procedure.isLocal_of_analyze isPending finished
    rw [(accounted.lo_eq keyed known).1] at own
    intro other
    have knows := isLocal.knows other
    have reports :
        codeReports other (diagnosticsOf (session.journal ++ events)) =
        codeReports other session.diagnostics ++
          codeReports other (diagnosticsOf events) := by
      rw [diagnosticsOf_append, codeReports_append]
      rfl
    dsimp only [diagnostics, record]
    rw [reports, Table.get?_insert]
    split
    next same =>
      subst same
      rw [known] at knows
      rcases knows.eq_of_pending isPending with ⟨rfl, silent⟩
      rw [silent, List.nil_append, codeReports_of_isLocal own]
      exact knownLocally_of_analyze isLocal.shares finished
    next differs =>
      rw [codeReports_of_isLocal_of_ne own differs, List.append_nil]
      exact knows

/-- Every move keeps what is known local. -/
theorem IsLocalTo.move
    (keyed : IsKeyed code)
    {work next : Work}
    (accounted : work.session.IsAccounted code)
    (isLocal : work.session.IsLocalTo options image)
    (moves : Move options work next) :
    next.session.IsLocalTo options image := by
  have shares := moves.grows.shares
  cases moves with
  | decode session waiting address =>
      exact isLocal.congr shares rfl
        (fun entry =>
          congrArg (codeReports entry) (diagnostics_noted session _))
  | label session waiting address label =>
      exact isLocal.congr shares rfl (fun _ => rfl)
  | mention session waiting other =>
      exact isLocal.congr shares rfl
        (fun entry =>
          congrArg (codeReports entry) (diagnostics_noted session _))
  | count session waiting => exact isLocal.congr shares rfl (fun _ => rfl)
  | find session waiting unclaimed coded found_eq =>
      subst found_eq
      exact isLocal.find (accounted.not_contains keyed unclaimed)
  | analyze session waiting known pending finished =>
      exact isLocal.analyze keyed accounted known pending finished
  | register session site waiting count =>
      rcases exists_events_registerCall session count site with
        ⟨same, events, appended, aboutCalls⟩
      apply isLocal.congr shares same
      intro entry
      rw [diagnostics, appended, diagnosticsOf_append, codeReports_append,
        codeReports_of_isAboutCall aboutCalls, List.append_nil]
      rfl

end Moves

theorem isLocalTo_ofListing
    {text : String} {lifted : Listing.Lifted}
    (isLifted : Listing.lift text = .ok lifted)
    (options : Options) :
    (ofListing lifted).IsLocalTo options lifted.image where
  shares := .refl lifted.image
  knows := by
    intro entry
    rw [diagnostics_ofListing isLifted]
    exact .unknown

/--
After any commands what a session of a listing knows of its procedures is local
to the listing.
-/
theorem delivers_isLocalTo
    {text : String} {lifted : Listing.Lifted}
    (isLifted : Listing.lift text = .ok lifted)
    (options : Options)
    (commands : List Command) :
    Delivers ((ofListing lifted).executeAll options commands)
      (IsLocalTo options lifted.image) HaltsByOverflow := by
  have keyed := (Listing.isSoundCode_of_lift isLifted).keyed
  apply (delivers_executeAll
    (fun work => work.session.IsLocalTo options lifted.image) keyed
    (isAccounted_ofListing lifted) (isLocalTo_ofListing isLifted options)
    (fun work next accounted isLocal moves =>
      isLocal.move keyed accounted moves) commands).weaken
  rintro session ⟨-, isLocal⟩
  exact isLocal

/-! ## Results -/

/--
A procedure of a session is, apart from the labels of its calls, what the
analysis of its chain of instructions on its own makes of it, and the reports
on its code are the ones of that analysis.
-/
def HoldsAsAlone
    (options : Options)
    (image : Image)
    (session : Session)
    (entry : Nat)
    (procedure : Procedure) :
    Prop :=
  ∃ events alone, (image.analyzeAt options entry).Finishes events alone ∧
    procedure.unlabeled = alone.unlabeled ∧
    codeReports entry session.diagnostics = diagnosticsOf events

theorem IsLocalTo.holdsAsAlone
    {options : Options} {image : Image} {session : Session}
    (isLocal : session.IsLocalTo options image)
    {entry : Nat} {procedure : Procedure}
    (found : session.procedures.get? entry = some procedure)
    (settled : procedure.progress ≠ .pending) :
    session.HoldsAsAlone options image entry procedure := by
  have knows := isLocal.knows entry
  rw [found] at knows
  generalize reported : codeReports entry session.diagnostics =
    reports at knows
  cases knows with
  | pending => exact absurd rfl settled
  | settled progress finished same => exact ⟨_, _, finished, same, reported⟩

/--
Analysis is local.  Whatever commands a session of a listing has carried out,
and in whatever order, each procedure that it has analyzed or given up on is
what comes of analyzing the chain of instructions at its entry once and alone
in the image of the listing, in everything but the labels of calls, and the
oddities reported for it that are not about where calls go are those of that
analysis in their order.
-/
theorem executeAll_analyzes_locally
    {text : String} {lifted : Listing.Lifted}
    (isLifted : Listing.lift text = .ok lifted)
    (options : Options)
    (commands : List Command) :
    Delivers ((ofListing lifted).executeAll options commands)
      (fun session => ∀ entry procedure,
        session.procedures.get? entry = some procedure →
        procedure.progress = .analyzed ∨ procedure.progress = .failed →
        session.HoldsAsAlone options lifted.image entry procedure)
      HaltsByOverflow := by
  apply (delivers_isLocalTo isLifted options commands).weaken
  intro session isLocal entry procedure found settled
  apply isLocal.holdsAsAlone found
  rcases settled with done | done
  · simp [done]
  · simp [done]

/--
A listing of a procedure that branches into its prologue and calls another one.
-/
def crossingListing : String := "LISTING crossing

ENTRY 1000

CODE
1000 mov fp,-(sp)
1002 mov sp,fp
1004 cmp sp,@#0x2100
1008 bhi 0x100e
100a sev
100c trap
100e jsr pc,0x1016
1012 beq 0x1002
1014 rts pc
1016 mov fp,-(sp)
1018 mov sp,fp
101a cmp sp,@#0x2100
101e bhi 0x1024
1020 sev
1022 trap
1024 rts pc
"

theorem executeAll_analyzes_locally_crossingListing :
    ∃ lifted session procedure, Listing.lift crossingListing = .ok lifted ∧
      (ofListing lifted).executeAll {} [.setLabel 0x1016 "callee",
        .step .run] = .ok session ∧
      session.procedures.get? 0x1000 = some procedure ∧
      procedure.progress = .analyzed ∧
      procedure.calls.map CallSite.label = [some "callee"] ∧
      codeReports 0x1000 session.diagnostics =
        [(0x1000, .missingFlowTarget 0x1012 (some 0x1002))] ∧
      session.HoldsAsAlone {} lifted.image 0x1000 procedure := by
  have works : ((Listing.lift crossingListing).toOption.bind (fun lifted =>
      ((ofListing lifted).executeAll {}
        [.setLabel 0x1016 "callee", .step .run]).toOption)).bind
        (fun session =>
      (session.procedures.get? 0x1000).map (fun procedure =>
        (procedure.progress, procedure.calls.map CallSite.label,
          codeReports 0x1000 session.diagnostics))) =
      some (.analyzed, [some "callee"],
        [(0x1000, .missingFlowTarget 0x1012 (some 0x1002))]) := by
    decide +kernel
  rcases exists_of_computed works with
    ⟨lifted, session, isLifted, executed, viewed⟩
  rcases Option.map_eq_some_iff.mp viewed with ⟨procedure, found, same⟩
  simp only [Prod.mk.injEq] at same
  rcases same with ⟨isAnalyzed, labels, reports⟩
  have promised :=
    executeAll_analyzes_locally isLifted {} [.setLabel 0x1016 "callee",
      .step .run]
  exact ⟨lifted, session, procedure, isLifted, executed, found, isAnalyzed,
    labels, reports,
    promised.of_ok executed 0x1000 procedure found (.inl isAnalyzed)⟩

/--
Two sessions of a listing that are both done with a procedure have found out
the same about it, whatever each of them has done before and in between.
-/
theorem settled_procedures_agree
    {text : String} {lifted : Listing.Lifted}
    (isLifted : Listing.lift text = .ok lifted)
    {options : Options} {commands others : List Command}
    {session another : Session}
    (executed : (ofListing lifted).executeAll options commands = .ok session)
    (executedOthers : (ofListing lifted).executeAll options others =
      .ok another)
    {entry : Nat} {procedure counterpart : Procedure}
    (found : session.procedures.get? entry = some procedure)
    (foundToo : another.procedures.get? entry = some counterpart)
    (settled : procedure.progress ≠ .pending)
    (settledToo : counterpart.progress ≠ .pending) :
    procedure.unlabeled = counterpart.unlabeled ∧
      codeReports entry session.diagnostics =
        codeReports entry another.diagnostics := by
  have isLocal := (delivers_isLocalTo isLifted options commands).of_ok executed
  have isLocalToo :=
    (delivers_isLocalTo isLifted options others).of_ok executedOthers
  rcases isLocal.holdsAsAlone found settled with
    ⟨events, alone, finished, same, reports⟩
  rcases isLocalToo.holdsAsAlone foundToo settledToo with
    ⟨eventsToo, aloneToo, finishedToo, sameToo, reportsToo⟩
  have sameEvents : events = eventsToo :=
    finished.events_eq.symm.trans finishedToo.events_eq
  have sameAlone : alone = aloneToo :=
    Except.ok.inj (finished.outcome_eq.symm.trans finishedToo.outcome_eq)
  subst sameEvents sameAlone
  exact ⟨same.trans sameToo.symm, reports.trans reportsToo.symm⟩

end Session

end ProcRecovery
