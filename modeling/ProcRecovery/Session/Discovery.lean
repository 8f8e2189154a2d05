import ProcRecovery.Procedure.Analysis
import ProcRecovery.Session.Basic

/-!
# Discovery

Procedures are found by scanning the decoded code for frame setups, and
analyzing a procedure finds calls whose destinations are decoded in turn.  The
two alternate until a pass finds nothing new.
-/

namespace ProcRecovery

/-- Decode the instructions of a chain that have not been decoded. -/
def decodeChain (image : Image) : List Instruction → Image × List Event
  | [] => (image, [])
  | instruction :: later =>
    if image.decoded.contains instruction.lo then decodeChain image later
    else
      let decoding := image.requestDecode instruction.lo
      let (final, events) := decodeChain decoding.image later
      (final, .noted decoding.note :: events)

/-- The events at the end of a chain that does not end with a return. -/
def chainEndEvents (entry : Nat) (chain : List Instruction) : List Event :=
  match chain.getLast? with
  | some last =>
    if last.isReturn then []
    else [.noted (.nothingToDecode last.hi), .noted (.bodyEnds entry last.hi)]
  | none => [.noted (.nothingToDecode entry), .noted (.bodyEnds entry entry)]

namespace Session

/-- Whether an address starts a frame setup in decoded code. -/
def isEntry (session : Session) (address : Nat) : Bool :=
  match session.image.instruction? address with
  | some save =>
    match session.image.instruction? save.hi with
    | some set => save.isFrameSetup set
    | none => false
  | none => false

/--
Add the procedure at an entry: the instructions that follow one another from
there up to the first return, decoded as far as they were not.
-/
def addProcedure (session : Session) (entry : Nat) : Stepped Session :=
  let chain := session.image.chainFrom entry
  let (image, events) := decodeChain session.image chain
  let procedure := Procedure.ofInstructions chain
  let found := Note.procedureFound entry procedure.hi (image.labels.get? entry)
  let noted : Session :=
    { session with
      image
      journal :=
        session.journal ++ events ++ chainEndEvents entry chain ++
          [.noted found] }
  if noted.procedures.contains entry then noted.halt (.entryTaken entry)
  else .ok { noted with procedures := noted.procedures.insert entry procedure }

/-- Add the procedure at an address, if there is one that is not known yet. -/
def scanAddress
    (state : Session × Nat)
    (address : Nat) :
    Stepped (Session × Nat) :=
  let (session, found) := state
  if (session.procedureContaining? address).isNone && session.isEntry address
    then do
    let extended ← session.addProcedure address
    .ok (extended, found + 1)
  else
    .ok (session, found)

/--
Scan the code that is decoded at the start for procedures, and count those
found.
-/
def scan (session : Session) : Stepped (Session × Nat) :=
  session.image.decodedAddresses.foldlM scanAddress (session, 0)

/--
Analyze a procedure if that has not been done, and gather the calls it makes.
-/
def analyzeProcedure
    (options : Options)
    (state : Session × List CallSite)
    (entry : Nat × Procedure) :
    Stepped (Session × List CallSite) :=
  let (session, sites) := state
  match entry.2.progress with
  | .analyzed | .failed => .ok (session, sites)
  | .pending =>
    let traced := entry.2.analyze options session.image
    let recorded := session.record traced.events
    match traced.outcome with
    | .ok procedure =>
      .ok
        ({ recorded with
            procedures := recorded.procedures.insert entry.1 procedure },
          sites ++ procedure.calls)
    | .error fault => recorded.halt fault

/-- Whether nothing is known about the code at the destination of a call. -/
def needsDecoding (session : Session) (destination : Nat) : Bool :=
  (session.image.runtime.get? destination).isNone &&
    (session.image.instruction? destination).isNone

/-- Decode the destination of a call from a site. -/
def decodeDestination
    (session : Session)
    (site : CallSite)
    (destination : Nat) :
    Session :=
  if session.needsDecoding destination then
    let (decoded, found) := session.requestDecode destination
    if found then decoded
    else
      decoded.record
        [.diagnosed site.caller (.undecodableTarget site.address destination)]
  else session

/-- Keep a call, and count its destination if that is new. -/
def registerCall (state : Session × Nat) (site : CallSite) : Session × Nat :=
  let (session, count) := state
  match site.destination with
  | .known destination =>
    match session.called.get? destination with
    | some earlier =>
      ({ session with
          called := session.called.insert destination
            { earlier with sites := earlier.sites ++ [site] } }, count)
    | none =>
      let registered : Session :=
        { session with
          called := session.called.insert destination
            { destination, label := site.label, sites := [site] } }
      (registered.decodeDestination site destination, count + 1)
  | _ =>
    let reported :=
      session.record [.diagnosed site.caller (.unresolvedCall site.address)]
    ({ reported with unresolved := reported.unresolved ++ [site] }, count)

/--
Analyze all procedures that have not been analyzed, keep their calls, and count
the new destinations.
-/
def analyzePending
    (options : Options)
    (session : Session) :
    Stepped (Session × Nat) := do
  let (analyzed, sites) ←
    session.procedures.entries.foldlM (analyzeProcedure options) (session, [])
  .ok (sites.foldl registerCall (analyzed, 0))

/--
One pass: a scan and an analysis of what it has found.  The answer says whether
anything was new.
-/
def pass
    (options : Options)
    (session : Session) :
    Stepped (Session × Bool) := do
  let (scanned, newProcedures) ←
    { session with passes := session.passes + 1 }.scan
  let (analyzed, newTargets) ← scanned.analyzePending options
  let finished := Note.passFinished analyzed.passes newProcedures newTargets
  .ok (analyzed.record [.noted finished], newProcedures ≠ 0 || newTargets ≠ 0)

/--
Pass after pass until one finds nothing new, but no more than a number of them.
-/
def runPasses (options : Options) : Nat → Session → Stepped Session
  | 0, session =>
      .ok (session.record [.noted (.discoveryCutShort session.passes)])
  | remaining + 1, session => do
    let (next, news) ← session.pass options
    if news then runPasses options remaining next else .ok next

/--
Pass after pass until one finds nothing new or the bound on passes is reached.
-/
def run (options : Options) (session : Session) : Stepped Session :=
  session.runPasses options (options.maxPasses - session.passes)

end Session

end ProcRecovery
