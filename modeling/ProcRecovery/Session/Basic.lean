import ProcRecovery.Image.Decoding
import ProcRecovery.Procedure.Basic

/-!
# Sessions

A session holds an image and everything that an analysis has found out about it
so far: the procedures, the calls between them, and a journal of events.  It
only ever grows.  If the analysis stops with a fault, the journal is what is
left.
-/

namespace ProcRecovery

/-- The calls that share a destination. -/
structure CalledProcedure where
  destination : Nat
  label : Option String
  sites : List CallSite
  deriving Repr, DecidableEq

/-- An analysis under way. -/
structure Session where
  image : Image
  /-- Procedures by their entries. -/
  procedures : Table Nat Procedure := ∅
  /-- Calls by their destinations. -/
  called : Table Nat CalledProcedure := ∅
  /-- Calls whose destination is not known. -/
  unresolved : List CallSite := []
  journal : List Event := []
  /-- Number of discovery passes so far. -/
  passes : Nat := 0

/-- A session that ended with a fault. -/
structure Halt where
  fault : Fault
  journal : List Event

/-- The outcome of a step of a session. -/
abbrev Stepped (α : Type) := Except Halt α

namespace Session

/-- The oddities found so far, with the procedures they were found in. -/
def diagnostics (session : Session) : List (Nat × Diagnostic) :=
  diagnosticsOf session.journal

/-- The oddities found in the procedure with the given entry. -/
def diagnosticsFor (session : Session) (procedure : Nat) : List Diagnostic :=
  (session.diagnostics.filter (fun entry => entry.1 = procedure)).map Prod.snd

/--
Keep events in the journal, and what they say about the image in the image.
-/
def record (session : Session) (events : List Event) : Session :=
  { session with
    image := session.image.absorbAll events
    journal := session.journal ++ events }

/-- Stop with a fault. -/
def halt {α : Type} (session : Session) (fault : Fault) : Stepped α :=
  .error { fault, journal := session.journal }

/-- The procedure whose range contains an address. -/
def procedureContaining?
    (session : Session)
    (address : Nat) :
    Option Procedure :=
  ((session.procedures.floor? address).map Prod.snd).filter (fun procedure =>
    procedure.contains address)

/-- Ask for an address to be decoded. -/
def requestDecode (session : Session) (address : Nat) : Session × Bool :=
  let decoding := session.image.requestDecode address
  ({ session with
      image := decoding.image
      journal := session.journal ++ [.noted decoding.note] }, decoding.found)

/-- Label an address of the image. -/
def setLabel (session : Session) (address : Nat) (label : String) : Session :=
  { session with image := session.image.setLabel address label }

/-- The journal grows at its end. -/
@[simp]
theorem journal_record (session : Session) (events : List Event) :
    (session.record events).journal = session.journal ++ events := rfl

@[simp]
theorem diagnostics_record
    (session : Session)
    (events : List Event) :
    (session.record events).diagnostics =
      session.diagnostics ++ diagnosticsOf events := by
  simp [diagnostics]

end Session

end ProcRecovery
