import ProcRecovery.Proofs.Image.Chain
import ProcRecovery.Proofs.Procedure.Analysis
import ProcRecovery.Session.Discovery

/-!
# Conservation in sessions

Whatever steps a session takes, every procedure in it is accounted for by the
code of its image: it stands for the chain of code at its entry, and its
analysis keeps that chain.  One lemma for each kind of step shows that a step
keeps the accounts, and by induction so does any run of steps.  The only way
for a session to halt is a sum that leaves its word.
-/

namespace ProcRecovery

/-! ## What has to hold of an analyzed procedure -/

/-- The range of a node is the hull of its instructions. -/
structure Node.IsHull (node : Node) : Prop where
  within : ∀ instruction ∈ node.instructions, node.lo ≤ instruction.lo ∧
    instruction.hi ≤ node.hi
  starts : ∃ instruction ∈ node.instructions, instruction.lo = node.lo
  ends : ∃ instruction ∈ node.instructions, instruction.hi = node.hi

theorem Node.isHull_of_abutting
    {node : Node}
    (abuts : Abutting Instruction.lo Instruction.hi node.instructions) :
    node.IsHull where
  within := node.within_of_abutting abuts
  starts := ⟨node.first, by simp [instructions], rfl⟩
  ends := ⟨_, List.mem_of_getLast? node.getLast?_instructions, rfl⟩

namespace Procedure

/--
A procedure holds exactly the chain of code at its entry, and its nodes and
blocks tile it.
-/
structure IsConserved
    (code : Table Nat Instruction)
    (procedure : Procedure) :
    Prop where
  chained : ∃ chain, ChainAt code procedure.lo chain ∧
    SameCode chain (instructionsOf procedure.body)
  hulls : ∀ node ∈ procedure.body, node.IsHull
  abuts : Abutting Node.lo Node.hi procedure.body
  starts : procedure.body.head?.map Node.lo = some procedure.lo
  ends : procedure.body.getLast?.map Node.hi = some procedure.hi
  tiled : procedure.graph.tiles procedure.body = true

/--
A procedure stands for a chain of code: it is still as it was found, or has
been given up, or its analysis keeps its promises.
-/
structure IsAccountedBy
    (chain : List Instruction)
    (procedure : Procedure) :
    Prop where
  nonempty : chain ≠ []
  spans : procedure.Spans chain
  state : procedure.IsPendingOn chain ∨ procedure.progress = .failed ∨
    procedure.progress = .analyzed ∧ ∃ context,
    procedure.IsAnalysisOf context chain

theorem IsAccountedBy.isPendingOn
    {chain : List Instruction} {procedure : Procedure}
    (accounted : procedure.IsAccountedBy chain)
    (isPending : procedure.progress = .pending) :
    procedure.IsPendingOn chain := by
  rcases accounted.state with pending | failed | ⟨analyzed, -⟩
  · exact pending
  · rw [failed] at isPending
    cases isPending
  · rw [analyzed] at isPending
    cases isPending

/-- A procedure that is accounted for begins at its entry and contains it. -/
theorem IsAccountedBy.lo_eq
    {code : Table Nat Instruction}
    (keyed : IsKeyed code)
    {entry : Nat} {chain : List Instruction} {procedure : Procedure}
    (isChain : ChainAt code entry chain)
    (accounted : procedure.IsAccountedBy chain) :
    procedure.lo = entry := by
  have starts := isChain.head?_lo keyed accounted.nonempty
  rw [accounted.spans.lo_eq] at starts
  exact Option.some.inj starts

theorem IsAccountedBy.lo_lt_hi
    {code : Table Nat Instruction}
    (keyed : IsKeyed code)
    {entry : Nat} {chain : List Instruction} {procedure : Procedure}
    (isChain : ChainAt code entry chain)
    (accounted : procedure.IsAccountedBy chain) :
    procedure.lo < procedure.hi := by
  obtain ⟨last, isLast, lastHi⟩ :=
    Option.map_eq_some_iff.mp accounted.spans.hi_eq
  obtain ⟨first, isFirst, firstLo⟩ :=
    Option.map_eq_some_iff.mp accounted.spans.lo_eq
  have bounds :=
    (isChain.abutting keyed).within (fun instruction _ => instruction.lo_lt_hi)
      isFirst
    isLast first (List.mem_of_head? isFirst)
  have proper := first.lo_lt_hi
  omega

theorem IsAccountedBy.isConserved
    {code : Table Nat Instruction}
    (keyed : IsKeyed code)
    {entry : Nat} {chain : List Instruction} {procedure : Procedure}
    (isChain : ChainAt code entry chain)
    (accounted : procedure.IsAccountedBy chain)
    (analyzed : procedure.progress = .analyzed) :
    procedure.lo = entry ∧ procedure.IsConserved code := by
  have sameLo := accounted.lo_eq keyed isChain
  have abuts := isChain.abutting keyed
  refine ⟨sameLo, ?_⟩
  rcases accounted.state with pending | failed | ⟨-, context, promises⟩
  · rw [pending.progress_eq] at analyzed
    cases analyzed
  · rw [failed] at analyzed
    cases analyzed
  · have bodyAbuts := promises.code.abutting abuts
    refine
      { chained := ⟨chain, by rw [sameLo]; exact isChain, promises.code⟩
        hulls := fun node member =>
          Node.isHull_of_abutting (abutting_instructions bodyAbuts member)
        abuts := abutting_nodes bodyAbuts
        starts := ?_
        ends := ?_
        tiled := promises.tiled }
    · rw [← head?_instructionsOf, promises.code.head?_lo,
        accounted.spans.lo_eq]
    · rw [← getLast?_instructionsOf, promises.code.getLast?_hi,
        accounted.spans.hi_eq]

end Procedure

namespace Session

/-! ## Steps of a session -/

/-- The steps that a session can be asked to take. -/
inductive Step where
  | scan
  | analyzePending
  | run
  | requestDecode (address : Nat)
  deriving Repr, DecidableEq

/-- Take one step. -/
def perform (options : Options) (session : Session) : Step → Stepped Session
  | .scan => return (← session.scan).1
  | .analyzePending => return (← session.analyzePending options).1
  | .run => session.run options
  | .requestDecode address => .ok (session.requestDecode address).1

/-- Take steps one after the other. -/
def performAll
    (options : Options)
    (session : Session)
    (steps : List Step) :
    Stepped Session :=
  steps.foldlM (perform options) session

/-- The session of a listing before any step. -/
def ofListing (lifted : Listing.Lifted) : Session :=
  { image := lifted.image, journal := lifted.events }

/--
The code of the image is the given one, and it accounts for every procedure.
-/
structure IsAccounted
    (code : Table Nat Instruction)
    (session : Session) :
    Prop where
  code_eq : session.image.code = code
  procedures : ∀ entry procedure,
    session.procedures.get? entry = some procedure →
    ∃ chain, ChainAt code entry chain ∧ procedure.IsAccountedBy chain

/-- A session has halted because a sum has left its word. -/
def HaltsByOverflow (halt : Halt) : Prop := IsOverflow halt.fault

section Accounts

variable {code : Table Nat Instruction} {session : Session}

/-- Accounts depend on nothing but the code and the procedures. -/
theorem IsAccounted.congr
    {other : Session}
    (accounted : session.IsAccounted code)
    (sameCode : other.image.code = session.image.code)
    (sameProcedures : other.procedures = session.procedures) :
    other.IsAccounted code where
  code_eq := sameCode.trans accounted.code_eq
  procedures := by
    rw [sameProcedures]
    exact accounted.procedures

theorem IsAccounted.insert
    (accounted : session.IsAccounted code)
    {entry : Nat} {procedure : Procedure} {chain : List Instruction}
    (isChain : ChainAt code entry chain)
    (byChain : procedure.IsAccountedBy chain) :
    ({ session with procedures := session.procedures.insert entry procedure } :
      Session).IsAccounted code where
  code_eq := accounted.code_eq
  procedures := by
    intro other found isFound
    rw [Table.get?_insert] at isFound
    split at isFound
    next same =>
      cases isFound
      subst same
      exact ⟨chain, isChain, byChain⟩
    next => exact accounted.procedures other found isFound

/-- A procedure begins at its entry and is not empty. -/
theorem IsAccounted.lo_eq
    (keyed : IsKeyed code)
    (accounted : session.IsAccounted code)
    {entry : Nat} {procedure : Procedure}
    (found : session.procedures.get? entry = some procedure) :
    procedure.lo = entry ∧ entry < procedure.hi := by
  obtain ⟨chain, isChain, byChain⟩ :=
    accounted.procedures entry procedure found
  have sameLo := byChain.lo_eq keyed isChain
  have proper := byChain.lo_lt_hi keyed isChain
  exact ⟨sameLo, by omega⟩

/-! ## Scanning -/

theorem code_decodeChain (image : Image) (chain : List Instruction) :
    (decodeChain image chain).1.code = image.code := by
  induction chain generalizing image with
  | nil => rfl
  | cons instruction later hypothesis =>
      simp only [decodeChain]
      split
      · exact hypothesis image
      · rw [hypothesis]
        exact Image.code_requestDecode image instruction.lo

/-- The entry of a known procedure lies in that procedure. -/
theorem IsAccounted.procedureContaining?
    (keyed : IsKeyed code)
    (accounted : session.IsAccounted code)
    {entry : Nat}
    (known : session.procedures.contains entry = true) :
    (session.procedureContaining? entry).isSome = true := by
  obtain ⟨procedure, found⟩ := Option.isSome_iff_exists.mp known
  obtain ⟨sameLo, proper⟩ := accounted.lo_eq keyed found
  have inside : procedure.contains entry = true := by
    simp only [Procedure.contains, Bool.and_eq_true, decide_eq_true_eq]
    omega
  simp only [Session.procedureContaining?, Table.floor?_of_get? found,
    Option.map_some, Option.filter_some, inside, ↓reduceIte,
    Option.isSome_some]

/-- What follows an address in an image is the chain of its code. -/
theorem IsAccounted.chainAt
    (keyed : IsKeyed code)
    (accounted : session.IsAccounted code)
    (entry : Nat) :
    ChainAt code entry (session.image.chainFrom entry) := by
  have sameCode := accounted.code_eq
  rw [← sameCode] at keyed ⊢
  exact Image.chainAt_chainFrom keyed entry

/-- Where no procedure is, none is known. -/
theorem IsAccounted.not_contains
    (keyed : IsKeyed code)
    (accounted : session.IsAccounted code)
    {entry : Nat}
    (unclaimed : session.procedureContaining? entry = none) :
    session.procedures.contains entry = false := by
  by_contra known
  have inside := accounted.procedureContaining? keyed (by simpa using known)
  rw [unclaimed] at inside
  cases inside

theorem delivers_addProcedure
    (keyed : IsKeyed code)
    (accounted : session.IsAccounted code)
    {entry : Nat}
    (coded : (code.get? entry).isSome)
    (unknown : session.procedures.contains entry = false) :
    Delivers (session.addProcedure entry)
      (IsAccounted code) HaltsByOverflow := by
  have isChain := accounted.chainAt keyed entry
  have nonempty := isChain.ne_nil coded
  have pending := Procedure.isPendingOn_ofInstructions nonempty
  simp only [addProcedure, unknown, Bool.false_eq_true, ↓reduceIte]
  have decoded : ∀ journal,
      ({ session with
          image :=
            (decodeChain session.image (session.image.chainFrom entry)).1
          journal } : Session).IsAccounted code :=
    fun journal => accounted.congr (code_decodeChain _ _) rfl
  exact (decoded _).insert isChain ⟨nonempty, pending.spans, .inl pending⟩

theorem isSome_get?_of_isEntry
    {address : Nat}
    (entered : session.isEntry address = true) :
    (session.image.code.get? address).isSome := by
  unfold isEntry at entered
  split at entered
  next save found =>
    unfold Image.instruction? at found
    split at found
    · rw [found]
      rfl
    · cases found
  next => cases entered

theorem delivers_scanAddress
    (keyed : IsKeyed code)
    {found : Nat}
    (accounted : session.IsAccounted code)
    (address : Nat) :
    Delivers (scanAddress (session, found) address) (fun next =>
      next.1.IsAccounted code)
      HaltsByOverflow := by
  simp only [scanAddress]
  split
  next isNew =>
    simp only [Bool.and_eq_true, Option.isNone_iff_eq_none] at isNew
    have unknown := accounted.not_contains keyed isNew.1
    have coded := isSome_get?_of_isEntry isNew.2
    rw [accounted.code_eq] at coded
    apply (delivers_addProcedure keyed accounted coded unknown).bind
    intro extended stillAccounted
    exact stillAccounted
  next => exact accounted

theorem delivers_scan
    (keyed : IsKeyed code)
    (accounted : session.IsAccounted code) :
    Delivers session.scan (fun next => next.1.IsAccounted code)
    HaltsByOverflow := by
  unfold scan
  apply Delivers.foldlM
  · exact accounted
  · rintro ⟨current, found⟩ stillAccounted address _
    exact delivers_scanAddress keyed stillAccounted address

/-! ## Analysis -/

theorem IsAccounted.record
    (accounted : session.IsAccounted code)
    (events : List Event) :
    (session.record events).IsAccounted code :=
  accounted.congr (Image.code_absorbAll session.image events) rfl

theorem IsAccounted.requestDecode
    (accounted : session.IsAccounted code)
    (address : Nat) :
    (session.requestDecode address).1.IsAccounted code :=
  accounted.congr (Image.code_requestDecode session.image address) rfl

theorem delivers_analyzeProcedure
    (keyed : IsKeyed code)
    (options : Options)
    (accounted : session.IsAccounted code)
    (sites : List CallSite)
    {entry : Nat} {procedure : Procedure} {chain : List Instruction}
    (isChain : ChainAt code entry chain)
    (byChain : procedure.IsAccountedBy chain) :
    Delivers (analyzeProcedure options (session, sites) (entry, procedure))
      (fun next => next.1.IsAccounted code) HaltsByOverflow := by
  simp only [analyzeProcedure]
  split
  · exact accounted
  · exact accounted
  next isPending =>
    have analysis :=
      Procedure.delivers_analyze options session.image byChain.nonempty
      (isChain.abutting keyed) (byChain.isPendingOn isPending)
    split
    next analyzed finished =>
      obtain ⟨spans, state⟩ := analysis.of_ok finished
      apply (accounted.record _).insert isChain
      refine ⟨byChain.nonempty, spans, ?_⟩
      rcases state with failed | ⟨isAnalyzed, promises⟩
      · exact .inr (.inl failed)
      · exact .inr (.inr ⟨isAnalyzed, _, promises⟩)
    next fault stopped => exact analysis.of_error stopped

theorem IsAccounted.decodeDestination
    (accounted : session.IsAccounted code)
    (site : CallSite)
    (destination : Nat) :
    (session.decodeDestination site destination).IsAccounted code := by
  simp only [Session.decodeDestination]
  split
  · split
    · exact accounted.requestDecode destination
    · exact (accounted.requestDecode destination).record _
  · exact accounted

theorem IsAccounted.registerCall
    (accounted : session.IsAccounted code)
    (count : Nat)
    (site : CallSite) :
    (Session.registerCall (session, count) site).1.IsAccounted code := by
  simp only [Session.registerCall]
  split
  next destination _ =>
    split
    · exact accounted.congr rfl rfl
    next =>
      have registered : ∀ called,
          ({ session with called } : Session).IsAccounted code :=
        fun called => accounted.congr rfl rfl
      exact (registered _).decodeDestination site destination
  next =>
    have reported := accounted.record
      [.diagnosed site.caller (.unresolvedCall site.address)]
    exact reported.congr rfl rfl

theorem IsAccounted.foldl_registerCall
    (accounted : session.IsAccounted code)
    (count : Nat)
    (sites : List CallSite) :
    (sites.foldl Session.registerCall (session, count)).1.IsAccounted
      code := by
  induction sites generalizing session count with
  | nil => exact accounted
  | cons site later hypothesis =>
      rw [List.foldl_cons]
      exact hypothesis (accounted.registerCall count site) _

theorem delivers_analyzePending
    (keyed : IsKeyed code)
    (options : Options)
    (accounted : session.IsAccounted code) :
    Delivers (session.analyzePending options) (fun next =>
      next.1.IsAccounted code)
      HaltsByOverflow := by
  have analyzed : Delivers
      (session.procedures.entries.foldlM (analyzeProcedure options) (session,
        []))
      (fun next => next.1.IsAccounted code) HaltsByOverflow := by
    apply Delivers.foldlM
    · exact accounted
    · rintro ⟨current, sites⟩ stillAccounted ⟨entry, procedure⟩ member
      obtain ⟨chain, isChain, byChain⟩ := accounted.procedures entry procedure
        (Table.get?_eq_some_iff.mpr member)
      exact delivers_analyzeProcedure keyed options stillAccounted sites
        isChain byChain
  apply analyzed.bind
  rintro ⟨current, sites⟩ stillAccounted
  exact stillAccounted.foldl_registerCall 0 sites

/-! ## Runs of steps -/

theorem delivers_pass
    (keyed : IsKeyed code)
    (options : Options)
    (accounted : session.IsAccounted code) :
    Delivers (session.pass options) (fun next => next.1.IsAccounted code)
      HaltsByOverflow := by
  have counted :
      ({ session with passes := session.passes + 1 } :
      Session).IsAccounted code :=
    accounted.congr rfl rfl
  apply (delivers_scan keyed counted).bind
  rintro ⟨scanned, newProcedures⟩ scannedAccounted
  apply (delivers_analyzePending keyed options scannedAccounted).bind
  rintro ⟨analyzed, newTargets⟩ analyzedAccounted
  exact analyzedAccounted.record _

theorem delivers_runPasses
    (keyed : IsKeyed code)
    (options : Options)
    (remaining : Nat)
    (accounted : session.IsAccounted code) :
    Delivers (session.runPasses options remaining) (IsAccounted code)
      HaltsByOverflow := by
  induction remaining generalizing session with
  | zero => exact accounted.record _
  | succ remaining hypothesis =>
      rw [runPasses]
      apply (delivers_pass keyed options accounted).bind
      rintro ⟨next, news⟩ nextAccounted
      cases news with
      | true => exact hypothesis nextAccounted
      | false => exact nextAccounted

/-- Every step keeps the accounts. -/
theorem delivers_perform
    (keyed : IsKeyed code)
    (options : Options)
    (accounted : session.IsAccounted code)
    (step : Step) :
    Delivers (session.perform options step) (IsAccounted code)
    HaltsByOverflow := by
  cases step with
  | scan =>
      apply (delivers_scan keyed accounted).bind
      intro next nextAccounted
      exact nextAccounted
  | analyzePending =>
      apply (delivers_analyzePending keyed options accounted).bind
      intro next nextAccounted
      exact nextAccounted
  | run => exact delivers_runPasses keyed options _ accounted
  | requestDecode address => exact accounted.requestDecode address

end Accounts

/--
Whatever steps a session of a listing takes, it can halt only because a sum
leaves its word, and every procedure that it has analyzed holds exactly the
chain of code at its entry, tiled by its nodes and its blocks.
-/
theorem performAll_conserves_code
    {text : String} {lifted : Listing.Lifted}
    (isLifted : Listing.lift text = .ok lifted)
    (options : Options)
    (steps : List Step) :
    Delivers ((ofListing lifted).performAll options steps)
      (fun session => session.image.code = lifted.image.code ∧
        ∀ entry procedure, session.procedures.get? entry = some procedure →
          procedure.progress = .analyzed →
          procedure.lo = entry ∧ procedure.IsConserved lifted.image.code)
      HaltsByOverflow := by
  have keyed := Listing.isKeyed_of_lift isLifted
  have initial : (ofListing lifted).IsAccounted lifted.image.code := by
    refine ⟨rfl, ?_⟩
    intro entry procedure found
    cases found
  have performed : Delivers ((ofListing lifted).performAll options steps)
      (IsAccounted lifted.image.code) HaltsByOverflow := by
    apply Delivers.foldlM
    · exact initial
    · intro session accounted step _
      exact delivers_perform keyed options accounted step
  apply performed.weaken
  intro session accounted
  refine ⟨accounted.code_eq, ?_⟩
  intro entry procedure found analyzed
  obtain ⟨chain, isChain, byChain⟩ :=
    accounted.procedures entry procedure found
  exact byChain.isConserved keyed isChain analyzed

/-- A listing of one procedure that pushes a literal. -/
def pushingListing : String := "LISTING pushing

ENTRY 1000

CODE
1000 mov fp,-(sp)
1002 mov sp,fp
1004 cmp sp,@#0x2100
1008 bhi 0x100e
100a sev
100c trap
100e mov #5,-(sp)
1012 rts pc
"

theorem performAll_conserves_code_pushingListing :
    ∃ lifted session procedure, Listing.lift pushingListing = .ok lifted ∧
      (ofListing lifted).performAll {} [.requestDecode 0x1000, .scan,
        .analyzePending, .run] =
        .ok session ∧
      session.procedures.get? 0x1000 = some procedure ∧
      procedure.progress = .analyzed ∧
      procedure.IsConserved lifted.image.code := by
  have works : ((Listing.lift pushingListing).toOption.bind (fun lifted =>
      ((ofListing lifted).performAll {}
        [.requestDecode 0x1000, .scan, .analyzePending, .run]).toOption)).bind
        (fun session =>
      (session.procedures.get? 0x1000).map Procedure.progress) =
        some .analyzed := by
    decide +kernel
  cases isLifted : Listing.lift pushingListing with
  | error fault =>
      rw [isLifted] at works
      cases works
  | ok lifted =>
      rw [isLifted] at works
      have promised := performAll_conserves_code isLifted {}
        [.requestDecode 0x1000, .scan, .analyzePending, .run]
      cases performed : (ofListing lifted).performAll {}
          [.requestDecode 0x1000, .scan, .analyzePending, .run] with
      | error halt =>
          simp only [Except.toOption, Option.bind_some, performed] at works
          cases works
      | ok session =>
          simp only [Except.toOption, Option.bind_some, performed] at works
          obtain ⟨procedure, found, isAnalyzed⟩ :=
            Option.map_eq_some_iff.mp works
          exact ⟨lifted, session, procedure, rfl, performed, found, isAnalyzed,
            ((promised.of_ok performed).2 _ _ found isAnalyzed).2⟩

end Session

end ProcRecovery
