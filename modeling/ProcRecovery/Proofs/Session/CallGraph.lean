import Mathlib.Data.List.Nodup
import ProcRecovery.Proofs.Image.Growth
import ProcRecovery.Proofs.Session.Moves

/-!
# The call graph

A session keeps every call that it finds, once and in one place: with the other
calls to the same destination, or with the calls whose destination is not
known.  Every call of the latter kind is reported once, and so is every
destination that turns out to be neither code nor a routine.
-/

namespace ProcRecovery

theorem Resolution.isKnown_eq_false_iff
    {α : Type} {resolution : Resolution α} :
    resolution.isKnown = false ↔ ∀ value, resolution ≠ .known value := by
  cases resolution <;> simp [isKnown, value?]

/-- The calls of an analyzed procedure, one for each node that makes one. -/
def Procedure.callSites (procedure : Procedure) : List CallSite :=
  if procedure.progress = .analyzed then
    procedure.body.filterMap (Node.callSite? procedure.lo)
  else []

/--
The calls reported to have no known destination: where from, and at which
address.
-/
def unresolvedReports
    (diagnostics : List (Nat × Diagnostic)) :
    List (Nat × Nat) :=
  diagnostics.filterMap (fun report =>
    match report.2 with
    | .unresolvedCall address => some (report.1, address)
    | _ => none)

/-- The calls reported to go to a destination that is not code. -/
def undecodableReports
    (destination : Nat)
    (diagnostics : List (Nat × Diagnostic)) :
    List (Nat × Nat) :=
  diagnostics.filterMap (fun report =>
    match report.2 with
    | .undecodableTarget address target =>
      if target = destination then some (report.1, address) else none
    | _ => none)

namespace Session

/-- All calls of analyzed procedures. -/
def callSites (session : Session) : List CallSite :=
  session.procedures.values.flatMap Procedure.callSites

/-- All calls that are registered with a destination. -/
def registeredSites (session : Session) : List CallSite :=
  session.called.values.flatMap CalledProcedure.sites

/--
A destination of calls is decoded or a routine, or reported once, for one of
the calls.
-/
def AccountsFor
    (session : Session)
    (destination : Nat)
    (sites : List CallSite) :
    Prop :=
  (session.image.instruction? destination).isSome ∨
    (session.image.runtime.get? destination).isSome ∨
    ∃ site ∈ sites,
      undecodableReports destination session.diagnostics =
        [(site.caller, site.address)]

/-- Every call is kept once, in its place, and reported as it should be. -/
structure HasExactCallGraph (session : Session) : Prop where
  complete :
    (session.registeredSites ++ session.unresolved).Perm session.callSites
  distinct :
    (session.callSites.map (fun site => (site.caller, site.address))).Nodup
  known : ∀ destination called, session.called.get? destination = some called →
    called.destination = destination ∧ called.sites ≠ [] ∧
      called.sites.Perm
        (session.callSites.filter
          (fun site => site.destination = .known destination))
  unknown : session.unresolved.Perm
    (session.callSites.filter (fun site => !site.destination.isKnown))
  reported : unresolvedReports session.diagnostics =
    session.unresolved.map (fun site => (site.caller, site.address))
  targets : ∀ destination called,
    session.called.get? destination = some called →
    session.AccountsFor destination called.sites

/-! ## Where calls are kept -/

/-- Every call of a session at work waits or is kept in its place. -/
structure IsTallied (work : Work) : Prop where
  complete :
    (work.session.registeredSites ++ work.session.unresolved ++
      work.waiting).Perm
    work.session.callSites
  idle : ∀ entry procedure, work.session.procedures.get? entry =
    some procedure →
    procedure.progress = .pending → procedure.calls = []
  known : ∀ destination called, work.session.called.get? destination =
    some called →
    called.destination = destination ∧ called.sites ≠ [] ∧
      ∀ site ∈ called.sites, site.destination = .known destination
  unknown : ∀ site ∈ work.session.unresolved, site.destination.isKnown = false

section Tally

variable {options : Options} {session : Session} {waiting : List CallSite}

/--
The calls of a procedure come on top when it takes the place of one without
calls.
-/
theorem perm_callSites_insert
    (procedures : Table Nat Procedure)
    (entry : Nat)
    (procedure : Procedure)
    (silent : ∀ before, procedures.get? entry = some before →
      before.callSites = []) :
    ((procedures.insert entry procedure).values.flatMap
      Procedure.callSites).Perm
      (procedures.values.flatMap Procedure.callSites ++
        procedure.callSites) := by
  rcases procedures.exists_other_values entry with ⟨others, before, -, after⟩
  have silently : (procedures.get? entry).toList.flatMap Procedure.callSites =
      [] := by
    cases known : procedures.get? entry with
    | none => rfl
    | some held => simp [silent held known]
  have later := (after procedure).flatMap_right Procedure.callSites
  have earlier := before.flatMap_right Procedure.callSites
  rw [List.flatMap_append, silently, List.nil_append] at earlier
  rw [List.flatMap_cons] at later
  exact later.trans (List.perm_append_comm.trans (earlier.symm.append_right _))

/--
A call that is added to those with its destination comes on top of the
registered ones.
-/
theorem perm_registeredSites_insert
    (table : Table Nat CalledProcedure)
    {destination : Nat} {site : CallSite} {called : CalledProcedure}
    (extended :
      called.sites = (table.get? destination).toList.flatMap
        CalledProcedure.sites ++ [site]) :
    ((table.insert destination called).values.flatMap
      CalledProcedure.sites).Perm
      (table.values.flatMap CalledProcedure.sites ++ [site]) := by
  rcases table.exists_other_values destination with ⟨others, before, -, after⟩
  have later := (after called).flatMap_right CalledProcedure.sites
  have earlier := before.flatMap_right CalledProcedure.sites
  rw [List.flatMap_append] at earlier
  rw [List.flatMap_cons, extended, List.append_assoc] at later
  apply later.trans
  apply (List.perm_append_comm.append_left _).trans
  rw [← List.append_assoc]
  exact earlier.symm.append_right [site]

theorem IsTallied.congr
    {other : Session}
    (tallied : IsTallied ⟨session, waiting⟩)
    (sameProcedures : other.procedures = session.procedures)
    (sameCalled : other.called = session.called)
    (sameUnresolved : other.unresolved = session.unresolved) :
    IsTallied ⟨other, waiting⟩ := by
  rcases tallied with ⟨complete, idle, known, unknown⟩
  refine ⟨?_, ?_, ?_, ?_⟩
  · simp only [registeredSites, callSites, sameProcedures, sameCalled,
      sameUnresolved] at complete ⊢
    exact complete
  · simp only [sameProcedures]
    exact idle
  · simp only [sameCalled]
    exact known
  · simp only [sameUnresolved]
    exact unknown

theorem IsTallied.find
    (tallied : IsTallied ⟨session, waiting⟩)
    {entry : Nat} {found : Procedure}
    (isPending : found.progress = .pending)
    (noCalls : found.calls = [])
    (unknown : session.procedures.contains entry = false)
    (events : List Event) :
    IsTallied ⟨{ session.record events with
      procedures := session.procedures.insert entry found }, waiting⟩ where
  complete := by
    have silent : found.callSites = [] := by
      rw [Procedure.callSites, isPending]
      rfl
    have added := perm_callSites_insert session.procedures entry found (by
      intro before known
      rw [Table.contains, known] at unknown
      cases unknown)
    rw [silent, List.append_nil] at added
    exact tallied.complete.trans added.symm
  idle := by
    intro other procedure isFound pending
    rw [Table.get?_insert] at isFound
    split at isFound
    next =>
      cases isFound
      exact noCalls
    next => exact tallied.idle other procedure isFound pending
  known := tallied.known
  unknown := tallied.unknown

/-- The calls that an analysis comes back with are those of its procedure. -/
theorem calls_eq_callSites
    {image : Image} {procedure analyzed : Procedure} {events : List Event}
    (isPending : procedure.progress = .pending)
    (noCalls : procedure.calls = [])
    (finished : (procedure.analyze options image).Finishes events analyzed) :
    analyzed.calls = analyzed.callSites ∧ analyzed.progress ≠ .pending := by
  rcases Procedure.analyze_cases isPending finished with
    ⟨rfl, -⟩ | ⟨_, _, -, -, ⟨stages⟩⟩
  · refine ⟨noCalls, ?_⟩
    intro pending
    cases pending
  · rw [stages.analyzed_eq]
    refine ⟨rfl, ?_⟩
    intro pending
    cases pending

theorem IsTallied.analyze
    (tallied : IsTallied ⟨session, waiting⟩)
    {entry : Nat} {procedure analyzed : Procedure} {events : List Event}
    (known : session.procedures.get? entry = some procedure)
    (isPending : procedure.progress = .pending)
    (finished :
      (procedure.analyze options session.image).Finishes events analyzed) :
    IsTallied ⟨{ session.record events with
      procedures :=
        session.procedures.insert entry analyzed },
          waiting ++ analyzed.calls⟩ := by
  rcases calls_eq_callSites isPending
    (tallied.idle entry procedure known isPending) finished with
    ⟨sameCalls, done⟩
  refine ⟨?_, ?_, tallied.known, tallied.unknown⟩
  · have added := perm_callSites_insert session.procedures entry analyzed (by
      intro before isBefore
      rw [known] at isBefore
      cases isBefore
      rw [Procedure.callSites, isPending]
      rfl)
    rw [← sameCalls] at added
    have extended := tallied.complete.append_right analyzed.calls
    rw [List.append_assoc] at extended
    exact extended.trans added.symm
  · intro other found isFound pending
    rw [Table.get?_insert] at isFound
    split at isFound
    next =>
      cases isFound
      exact absurd pending done
    next => exact tallied.idle other found isFound pending

/-- A call that goes with others to the same destination no longer waits. -/
theorem IsTallied.enter
    {site : CallSite}
    (tallied : IsTallied ⟨session, site :: waiting⟩)
    {destination : Nat}
    (leads : site.destination = .known destination)
    (called : CalledProcedure)
    (same : called.destination = destination)
    (extended :
      called.sites = (session.called.get? destination).toList.flatMap
        CalledProcedure.sites ++ [site]) :
    IsTallied
      ⟨{ session with called := session.called.insert destination called },
        waiting⟩ where
  complete := by
    have added := perm_registeredSites_insert session.called extended
    calc
      _ =
        ((session.called.insert destination called).values.flatMap
        CalledProcedure.sites) ++
          (session.unresolved ++ waiting) := List.append_assoc _ _ _
      List.Perm _ (session.registeredSites ++ [site] ++
        (session.unresolved ++ waiting)) :=
        added.append_right _
      List.Perm _ (session.registeredSites ++ session.unresolved ++ site ::
        waiting) := by
        rw [List.append_assoc, List.append_assoc, List.singleton_append]
        exact List.perm_middle.symm.append_left _
      List.Perm _ session.callSites := tallied.complete
  idle := tallied.idle
  known := by
    intro other held isHeld
    rw [Table.get?_insert] at isHeld
    split at isHeld
    next here =>
      cases isHeld
      subst here
      refine ⟨same, by simp [extended], ?_⟩
      rw [extended, List.forall_mem_append]
      refine ⟨?_, by simpa using leads⟩
      intro earlier member
      rcases List.mem_flatMap.mp member with ⟨before, isBefore, isEarlier⟩
      exact (tallied.known _ before (Option.mem_toList.mp isBefore)).2.2
        earlier isEarlier
    next => exact tallied.known other held isHeld
  unknown := tallied.unknown

/-- A call that is registered goes to its place. -/
theorem IsTallied.register
    {site : CallSite}
    (tallied : IsTallied ⟨session, site :: waiting⟩)
    (count : Nat) :
    IsTallied ⟨(registerCall (session, count) site).1, waiting⟩ := by
  rcases registerCall_cases session count site with
    ⟨destination, earlier, leads, held, same⟩ | ⟨destination, leads, isNew,
      same⟩ | ⟨unknown, same⟩
  · rw [same]
    apply tallied.enter leads { earlier with sites := earlier.sites ++ [site] }
      (tallied.known destination earlier held).1
    rw [held]
    simp
  · rw [same]
    have entered : IsTallied ⟨{ session with
        called := session.called.insert destination
          { destination, label := site.label, sites := [site] } },
            waiting⟩ := by
      apply tallied.enter leads _ rfl
      rw [isNew]
      rfl
    rcases decodeDestination_cases { session with
        called := session.called.insert destination
          { destination, label := site.label, sites := [site] } } site
          destination with
      ⟨-, decoded⟩ | ⟨-, -, decoded⟩ | ⟨-, -, decoded⟩
    · rw [decoded]
      exact entered
    · rw [decoded]
      exact entered.congr rfl rfl rfl
    · rw [decoded]
      exact entered.congr rfl rfl rfl
  · rw [same]
    refine ⟨?_, tallied.idle, tallied.known, ?_⟩
    · have complete := tallied.complete
      rw [List.append_cons, List.append_assoc session.registeredSites]
        at complete
      exact complete
    · rw [List.forall_mem_append, List.forall_mem_singleton]
      exact ⟨tallied.unknown, Resolution.isKnown_eq_false_iff.mpr unknown⟩

end Tally

/-! ## What is reported about calls -/

theorem unresolvedReports_append
    (first second : List (Nat × Diagnostic)) :
    unresolvedReports (first ++ second) =
      unresolvedReports first ++ unresolvedReports second :=
  List.filterMap_append

theorem undecodableReports_append
    (destination : Nat)
    (first second : List (Nat × Diagnostic)) :
    undecodableReports destination (first ++ second) =
      undecodableReports destination first ++
        undecodableReports destination second :=
  List.filterMap_append

/-- The analysis of a procedure reports nothing about calls. -/
theorem noCallReports_of_isLocal
    {owner : Nat} {events : List Event}
    (isLocal : ∀ event ∈ events, event.IsLocal owner) :
    unresolvedReports (diagnosticsOf events) = [] ∧
      ∀ destination, undecodableReports destination (diagnosticsOf events) =
        [] := by
  have ignores : ∀ {pick : Nat × Diagnostic → Option (Nat × Nat)},
      (∀ reporter diagnostic, diagnostic.isInternal = true ∨
        (∃ address target, diagnostic = .missingFlowTarget address target) →
        pick (reporter, diagnostic) = none) →
      (diagnosticsOf events).filterMap pick = [] := by
    intro pick onOwn
    rw [List.filterMap_eq_nil_iff]
    rintro ⟨reporter, diagnostic⟩ member
    rcases List.mem_filterMap.mp member with ⟨event, isEvent, isReport⟩
    cases event with
    | diagnosed reporter diagnostic =>
        cases isReport
        exact onOwn reporter diagnostic (isLocal _ isEvent).2
    | _ => cases isReport
  constructor
  · apply ignores
    rintro reporter diagnostic (internal | ⟨address, target, rfl⟩)
    · cases diagnostic with
      | unresolvedCall address => cases internal
      | _ => rfl
    · rfl
  · intro destination
    apply ignores
    rintro reporter diagnostic (internal | ⟨address, target, rfl⟩)
    · cases diagnostic with
      | undecodableTarget address target => cases internal
      | _ => rfl
    · rfl

/-- The reports about calls are those of the calls that are kept. -/
structure ReportsCalls (session : Session) : Prop where
  unresolved : unresolvedReports session.diagnostics =
    session.unresolved.map (fun site => (site.caller, site.address))
  targets : ∀ destination called,
    session.called.get? destination = some called →
    session.AccountsFor destination called.sites
  fresh : ∀ destination, session.called.get? destination = none →
    undecodableReports destination session.diagnostics = []

section Reports

variable {options : Options} {code : Table Nat Instruction}
  {session next : Session}

theorem AccountsFor.mono
    {destination : Nat} {sites more : List CallSite}
    (accounts : session.AccountsFor destination sites)
    (grows : session.image.Extends next.image)
    (same : undecodableReports destination next.diagnostics =
      undecodableReports destination session.diagnostics)
    (included : sites ⊆ more) :
    next.AccountsFor destination more := by
  rcases accounts with isDecoded | isRoutine | ⟨site, member, reported⟩
  · exact .inl (grows.isSome_instruction? isDecoded)
  · refine .inr (.inl ?_)
    rw [grows.runtime_eq]
    exact isRoutine
  · refine .inr (.inr ⟨site, included member, ?_⟩)
    rw [same]
    exact reported

/--
What has nothing to do with calls does not change what is reported about them.
-/
theorem ReportsCalls.congr
    (reports : session.ReportsCalls)
    (sameCalled : next.called = session.called)
    (sameUnresolved : next.unresolved = session.unresolved)
    (grows : session.image.Extends next.image)
    {extra : List (Nat × Diagnostic)}
    (appended : next.diagnostics = session.diagnostics ++ extra)
    (silent : unresolvedReports extra = [] ∧ ∀ destination,
      undecodableReports destination extra = []) :
    next.ReportsCalls := by
  have sameReports : ∀ destination,
      undecodableReports destination next.diagnostics =
      undecodableReports destination session.diagnostics := by
    intro destination
    rw [appended, undecodableReports_append, silent.2, List.append_nil]
  refine ⟨?_, ?_, ?_⟩
  · rw [appended, unresolvedReports_append, silent.1, List.append_nil,
      sameUnresolved]
    exact reports.unresolved
  · intro destination called held
    rw [sameCalled] at held
    exact (reports.targets destination called held).mono grows
      (sameReports destination)
      (List.Subset.refl _)
  · intro destination isNew
    rw [sameCalled] at isNew
    rw [sameReports]
    exact reports.fresh destination isNew

/-- A call goes with others to the same destination, which is accounted for. -/
theorem ReportsCalls.enter
    (reports : session.ReportsCalls)
    {destination : Nat} {called : CalledProcedure}
    (sameCalled : next.called = session.called.insert destination called)
    (sameUnresolved : next.unresolved = session.unresolved)
    (grows : session.image.Extends next.image)
    {extra : List (Nat × Diagnostic)}
    (appended : next.diagnostics = session.diagnostics ++ extra)
    (noUnresolved : unresolvedReports extra = [])
    (elsewhere : ∀ other, other ≠ destination →
      undecodableReports other extra = [])
    (accounts : next.AccountsFor destination called.sites) :
    next.ReportsCalls := by
  have sameReports : ∀ other, other ≠ destination →
      undecodableReports other next.diagnostics =
      undecodableReports other session.diagnostics := by
    intro other differs
    rw [appended, undecodableReports_append, elsewhere other differs,
      List.append_nil]
  refine ⟨?_, ?_, ?_⟩
  · rw [appended, unresolvedReports_append, noUnresolved, List.append_nil,
      sameUnresolved]
    exact reports.unresolved
  · intro other held isHeld
    rw [sameCalled, Table.get?_insert] at isHeld
    split at isHeld
    next here =>
      cases isHeld
      rw [here]
      exact accounts
    next differs =>
      exact (reports.targets other held isHeld).mono grows
        (sameReports other differs)
        (List.Subset.refl _)
  · intro other isNew
    rw [sameCalled, Table.get?_insert] at isNew
    split at isNew
    next => cases isNew
    next differs =>
      rw [sameReports other differs]
      exact reports.fresh other isNew

/-- A new destination is decoded, or known from before, or reported. -/
theorem ReportsCalls.enterNew
    (keyed : IsKeyed session.image.code)
    (reports : session.ReportsCalls)
    {destination : Nat}
    (site : CallSite)
    (isNew : session.called.get? destination = none) :
    (decodeDestination { session with
      called := session.called.insert destination
        { destination, label := site.label,
          sites := [site] } } site destination).ReportsCalls := by
  rcases decodeDestination_cases { session with
      called := session.called.insert destination
        { destination, label := site.label,
          sites := [site] } } site destination with
    ⟨isKnown, decoded⟩ | ⟨-, found, decoded⟩ | ⟨-, missing, decoded⟩
  · rw [decoded]
    refine reports.enter rfl rfl (.refl _) (List.append_nil _).symm rfl
      (fun _ _ => rfl) ?_
    simp only [needsDecoding, Bool.and_eq_false_iff,
      Option.isNone_eq_false_iff] at isKnown
    rcases isKnown with isRoutine | isDecoded
    · exact .inr (.inl isRoutine)
    · exact .inl isDecoded
  · rw [decoded]
    refine reports.enter rfl rfl (Image.extends_requestDecode _ _)
      (diagnosticsOf_append _ _) rfl
      (fun _ _ => rfl) ?_
    exact .inl (Image.isSome_instruction?_requestDecode keyed found)
  · rw [decoded]
    have appended : ∀ note, diagnosticsOf (session.journal ++ [.noted note] ++
        [.diagnosed site.caller
          (.undecodableTarget site.address destination)]) =
        session.diagnostics ++
          [(site.caller, .undecodableTarget site.address destination)] := by
      intro note
      rw [diagnosticsOf_append, diagnosticsOf_append, List.append_assoc]
      rfl
    refine reports.enter rfl rfl ((Image.extends_requestDecode _ _).trans
      (Image.extends_absorbAll _ _)) (appended _) rfl ?_ ?_
    · intro other differs
      simp [undecodableReports, differs.symm]
    · refine .inr (.inr ⟨site, List.mem_singleton_self site, ?_⟩)
      refine (congrArg (undecodableReports destination) (appended _)).trans ?_
      rw [undecodableReports_append, reports.fresh destination isNew]
      simp [undecodableReports]

theorem ReportsCalls.register
    (keyed : IsKeyed session.image.code)
    (reports : session.ReportsCalls)
    (count : Nat)
    (site : CallSite) :
    (registerCall (session, count) site).1.ReportsCalls := by
  rcases registerCall_cases session count site with
    ⟨destination, earlier, -, held, same⟩ | ⟨destination, -, isNew, same⟩ | ⟨-,
      same⟩
  · rw [same]
    refine reports.enter rfl rfl (.refl _) (List.append_nil _).symm rfl
      (fun _ _ => rfl) ?_
    exact (reports.targets destination earlier held).mono (.refl _) rfl
      (List.subset_append_left _ _)
  · rw [same]
    exact reports.enterNew keyed site isNew
  · rw [same]
    have appended := diagnosticsOf_append session.journal
      [.diagnosed site.caller (.unresolvedCall site.address)]
    have sameReports : ∀ destination,
        undecodableReports destination
          (diagnosticsOf (session.journal ++
          [.diagnosed site.caller (.unresolvedCall site.address)])) =
        undecodableReports destination session.diagnostics := by
      intro destination
      rw [appended, undecodableReports_append]
      exact List.append_nil _
    refine ⟨?_, ?_, ?_⟩
    · refine (congrArg unresolvedReports appended).trans ?_
      rw [unresolvedReports_append, List.map_append]
      exact congrArg (· ++ _) reports.unresolved
    · intro destination called held
      exact (reports.targets destination called held).mono
        (Image.extends_absorbAll _ _)
        (sameReports destination) (List.Subset.refl _)
    · intro destination isNew
      exact (sameReports destination).trans (reports.fresh destination isNew)

end Reports

/-! ## Along the moves of a session -/

section Moves

variable {options : Options} {code : Table Nat Instruction} {work next : Work}

theorem IsTallied.move
    (keyed : IsKeyed code)
    (accounted : work.session.IsAccounted code)
    (tallied : IsTallied work)
    (moves : Move options work next) :
    IsTallied next := by
  cases moves with
  | decode session waiting address => exact tallied.congr rfl rfl rfl
  | label session waiting address label => exact tallied.congr rfl rfl rfl
  | mention session waiting other => exact tallied.congr rfl rfl rfl
  | count session waiting => exact tallied.congr rfl rfl rfl
  | find session waiting unclaimed coded found_eq =>
      have unknown := accounted.not_contains keyed unclaimed
      subst found_eq
      exact tallied.find rfl rfl unknown _
  | analyze session waiting known pending finished =>
      exact tallied.analyze known pending finished
  | register session site waiting count => exact tallied.register count

theorem ReportsCalls.move
    (keyed : IsKeyed code)
    (accounted : work.session.IsAccounted code)
    (reports : work.session.ReportsCalls)
    (moves : Move options work next) :
    next.session.ReportsCalls := by
  cases moves with
  | decode session waiting address =>
      exact reports.congr rfl rfl (Image.extends_requestDecode _ _)
        (diagnosticsOf_append _ _)
        ⟨rfl, fun _ => rfl⟩
  | label session waiting address label =>
      exact reports.congr rfl rfl ⟨rfl, rfl, fun _ held => held⟩
        (List.append_nil _).symm
        ⟨rfl, fun _ => rfl⟩
  | mention session waiting other =>
      exact reports.congr rfl rfl (Image.extends_absorbAll _ _)
        (diagnosticsOf_append _ _)
        ⟨rfl, fun _ => rfl⟩
  | count session waiting =>
      exact reports.congr rfl rfl (.refl _) (List.append_nil _).symm ⟨rfl,
        fun _ => rfl⟩
  | find session waiting unclaimed coded found_eq =>
      exact reports.congr rfl rfl (Image.extends_absorbAll _ _)
        (diagnosticsOf_append _ _)
        ⟨rfl, fun _ => rfl⟩
  | analyze session waiting known pending finished =>
      exact reports.congr rfl rfl (Image.extends_absorbAll _ _)
        (diagnosticsOf_append _ _)
        (noCallReports_of_isLocal
          (Procedure.isLocal_of_analyze pending finished))
  | register session site waiting count =>
      have sameCode := accounted.code_eq
      exact reports.register (by rw [sameCode]; exact keyed) count site

end Moves

/-! ## The whole call graph -/

section Whole

variable {code : Table Nat Instruction} {session : Session}

/-- The calls of one procedure have its entry and addresses of their own. -/
theorem IsAccounted.distinct_callSites
    (keyed : IsKeyed code)
    (accounted : session.IsAccounted code)
    {entry : Nat} {procedure : Procedure}
    (found : session.procedures.get? entry = some procedure) :
    (∀ site ∈ procedure.callSites, site.caller = entry) ∧
      (procedure.callSites.map
        (fun site => (site.caller, site.address))).Nodup := by
  rw [Procedure.callSites]
  split
  next isAnalyzed =>
    rcases accounted.procedures entry procedure found with
      ⟨chain, isChain, byChain⟩
    rcases byChain.isConserved keyed isChain isAnalyzed with
      ⟨sameLo, conserved⟩
    have ascending := conserved.abuts.ascending (fun node member => by
      rcases (conserved.hulls node member).starts with ⟨instruction, owned, -⟩
      have within := (conserved.hulls node member).within instruction owned
      have proper := instruction.lo_lt_hi
      omega)
    have isCall : ∀ {node : Node} {site : CallSite},
        node.callSite? procedure.lo = some site →
        site.caller = entry ∧ site.address = node.lo := by
      intro node site made
      unfold Node.callSite? at made
      split at made
      next =>
        cases made
        exact ⟨sameLo, rfl⟩
      next => cases made
    constructor
    · intro site member
      rcases List.mem_filterMap.mp member with ⟨node, -, made⟩
      exact (isCall made).1
    · rw [List.Nodup, List.pairwise_map, List.pairwise_filterMap]
      apply ascending.imp
      intro earlier later below site isSite other isOther same
      rw [Prod.mk.injEq, (isCall isSite).2, (isCall isOther).2] at same
      omega
  next => simp

/-- No call is found twice. -/
theorem IsAccounted.nodup_callSites
    (keyed : IsKeyed code)
    (accounted : session.IsAccounted code) :
    (session.callSites.map
      (fun site => (site.caller, site.address))).Nodup := by
  have each : ∀ entry ∈ session.procedures.entries,
      (∀ site ∈ entry.2.callSites, site.caller = entry.1) ∧
        (entry.2.callSites.map
          (fun site => (site.caller, site.address))).Nodup :=
    fun entry member =>
      accounted.distinct_callSites keyed (Table.get?_eq_some_iff.mpr member)
  rw [callSites, Table.values, List.flatMap_map, List.map_flatMap,
    List.nodup_flatMap]
  refine ⟨fun entry member => (each entry member).2, ?_⟩
  apply session.procedures.sorted.imp_of_mem
  intro earlier later isEarlier isLater below pair inEarlier inLater
  rcases List.mem_map.mp inEarlier with ⟨site, isSite, rfl⟩
  rcases List.mem_map.mp inLater with ⟨other, isOther, same⟩
  rw [Prod.mk.injEq, (each later isLater).1 other isOther,
    (each earlier isEarlier).1 site isSite]
    at same
  omega

/--
Among the registered calls, those to a destination are the ones registered with
it.
-/
theorem IsTallied.perm_filter_known
    (tallied : IsTallied ⟨session, []⟩)
    {destination : Nat} {called : CalledProcedure}
    (held : session.called.get? destination = some called) :
    called.sites.Perm
      (session.callSites.filter (fun site => site.destination =
        .known destination)) := by
  rcases session.called.exists_other_values destination with
    ⟨others, permuted, elsewhere, -⟩
  rw [held, Option.toList_some, List.singleton_append] at permuted
  have registered := (permuted.flatMap_right CalledProcedure.sites).filter
    (fun site => site.destination = .known destination)
  have here :
      called.sites.filter (fun site => site.destination = .known destination) =
      called.sites := by
    rw [List.filter_eq_self]
    intro site member
    simpa using (tallied.known destination called held).2.2 site member
  have others_nil : (others.flatMap CalledProcedure.sites).filter
      (fun site => site.destination = .known destination) = [] := by
    rw [List.filter_eq_nil_iff]
    intro site member
    rcases List.mem_flatMap.mp member with ⟨other, isOther, isSite⟩
    rcases elsewhere other isOther with ⟨place, differs, isHeld⟩
    rw [(tallied.known place other isHeld).2.2 site isSite]
    simpa using differs
  have unresolved_nil : session.unresolved.filter
      (fun site => site.destination = .known destination) = [] := by
    rw [List.filter_eq_nil_iff]
    intro site member
    simpa using Resolution.isKnown_eq_false_iff.mp
      (tallied.unknown site member) destination
  have complete :=
    tallied.complete.filter (fun site => site.destination = .known destination)
  rw [List.append_nil, List.filter_append, unresolved_nil, List.append_nil]
    at complete
  rw [List.flatMap_cons, List.filter_append, here, others_nil, List.append_nil]
    at registered
  exact registered.symm.trans complete

theorem IsTallied.perm_filter_unknown (tallied : IsTallied ⟨session, []⟩) :
    session.unresolved.Perm
      (session.callSites.filter (fun site => !site.destination.isKnown)) := by
  have registered_nil :
      session.registeredSites.filter (fun site => !site.destination.isKnown) =
      [] := by
    rw [List.filter_eq_nil_iff]
    intro site member
    rcases List.mem_flatMap.mp member with ⟨called, isCalled, isSite⟩
    rcases Table.mem_values_iff.mp isCalled with ⟨destination, held⟩
    rw [(tallied.known destination called held).2.2 site isSite]
    simp [Resolution.isKnown, Resolution.value?]
  have here :
      session.unresolved.filter (fun site => !site.destination.isKnown) =
      session.unresolved := by
    rw [List.filter_eq_self]
    intro site member
    simpa using tallied.unknown site member
  have complete :=
    tallied.complete.filter (fun site => !site.destination.isKnown)
  rw [List.append_nil, List.filter_append, registered_nil, here,
    List.nil_append] at complete
  exact complete

end Whole

/--
The call graph neither loses nor duplicates calls: whatever commands a session
of a listing carries out, its call graph is exact after each of them, unless a
sum leaves its word.
-/
theorem executeAll_keeps_every_call
    {text : String} {lifted : Listing.Lifted}
    (isLifted : Listing.lift text = .ok lifted)
    (options : Options)
    (commands : List Command) :
    Delivers ((ofListing lifted).executeAll options commands) HasExactCallGraph
      HaltsByOverflow := by
  have keyed := Listing.isKeyed_of_lift isLifted
  have tallied : IsTallied ⟨ofListing lifted, []⟩ := by
    refine ⟨.refl _, ?_, ?_, ?_⟩
    · intro entry procedure found
      cases found
    · intro destination called held
      cases held
    · intro site member
      cases member
  have reports : (ofListing lifted).ReportsCalls := by
    refine ⟨?_, ?_, ?_⟩
    · rw [diagnostics_ofListing isLifted]
      rfl
    · intro destination called held
      cases held
    · intro destination _
      rw [diagnostics_ofListing isLifted]
      rfl
  apply (delivers_executeAll (fun work => IsTallied work ∧
    work.session.ReportsCalls) keyed
    (isAccounted_ofListing lifted) ⟨tallied, reports⟩
    (fun work next accounted holds moves =>
      ⟨holds.1.move keyed accounted moves, holds.2.move keyed accounted moves⟩)
        commands).weaken
  rintro session ⟨accounted, isTallied, isReported⟩
  have complete := isTallied.complete
  rw [List.append_nil] at complete
  exact {
    complete
    distinct := accounted.nodup_callSites keyed
    known := fun destination called held =>
      ⟨(isTallied.known destination called held).1,
        (isTallied.known destination called held).2.1,
        isTallied.perm_filter_known held⟩
    unknown := isTallied.perm_filter_unknown
    reported := isReported.unresolved
    targets := isReported.targets }

/--
A listing of a procedure that calls itself twice, a routine, an address without
code, and what a register points to.
-/
def callingListing : String := "LISTING calling

RUNTIME
3000 memcpy

ENTRY 1000

CODE
1000 mov fp,-(sp)
1002 mov sp,fp
1004 cmp sp,@#0x2100
1008 bhi 0x100e
100a sev
100c trap
100e jsr pc,0x1000
1012 jsr pc,0x1000
1016 jsr pc,0x3000
101a jsr pc,0x5000
101e jsr pc,(r1)
1020 rts pc
"

theorem executeAll_keeps_every_call_callingListing :
    ∃ lifted session, Listing.lift callingListing = .ok lifted ∧
      (ofListing lifted).executeAll {}
        [.setLabel 0x1000 "main", .step .scan, .step .analyzePending,
          .step .run] = .ok session ∧
      session.callSites.length = 5 ∧
      session.called.keys = [0x1000, 0x3000, 0x5000] ∧
      undecodableReports 0x5000 session.diagnostics = [(0x1000, 0x101a)] ∧
      session.HasExactCallGraph := by
  have works : ((Listing.lift callingListing).toOption.bind (fun lifted =>
      ((ofListing lifted).executeAll {}
        [.setLabel 0x1000 "main", .step .scan, .step .analyzePending,
          .step .run]).toOption)).bind (fun session =>
        some (session.callSites.length, session.called.keys,
          undecodableReports 0x5000 session.diagnostics)) =
      some (5, [0x1000, 0x3000, 0x5000], [(0x1000, 0x101a)]) := by
    decide +kernel
  rcases exists_of_computed works with
    ⟨lifted, session, isLifted, executed, viewed⟩
  simp only [Option.some.injEq, Prod.mk.injEq] at viewed
  exact ⟨lifted, session, isLifted, executed, viewed.1, viewed.2.1, viewed.2.2,
    (executeAll_keeps_every_call isLifted {} _).of_ok executed⟩

end Session

end ProcRecovery
