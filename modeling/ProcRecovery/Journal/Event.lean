import ProcRecovery.Diagnostic
import ProcRecovery.Fault
import ProcRecovery.Journal.Note

/-!
# Events and traced computations

The parts of the analysis are functions of the image they look at.  What they
have to say along the way is a list of events: oddities of the code, strings
found in the image, comments on places in the code, and milestones.  A traced
computation yields its events whether it ends with a value or with a fault.
-/

namespace ProcRecovery

/-- Something worth keeping that happened during an analysis. -/
inductive Event where
  /-- An oddity was found in the procedure with the given entry. -/
  | diagnosed (procedure : Nat) (diagnostic : Diagnostic)
  /-- A text constant was found at an address of the image. -/
  | stringFound (address : Nat)
  /-- There is something to say about the code at an address. -/
  | commented (address : Nat) (text : String)
  /-- A milestone was reached. -/
  | noted (note : Note)
  deriving Repr, DecidableEq

namespace Event

/-- The oddity an event reports, with the procedure it was found in. -/
def diagnostic? : Event → Option (Nat × Diagnostic)
  | diagnosed procedure diagnostic => some (procedure, diagnostic)
  | _ => none

end Event

/-- The oddities among some events, in order. -/
def diagnosticsOf (events : List Event) : List (Nat × Diagnostic) :=
  events.filterMap Event.diagnostic?

@[simp]
theorem diagnosticsOf_append
    (earlier later : List Event) :
    diagnosticsOf (earlier ++ later) =
      diagnosticsOf earlier ++ diagnosticsOf later :=
  List.filterMap_append

/-- A computation that leaves events behind, however it ends. -/
structure Traced (α : Type) where
  events : List Event
  outcome : Except Fault α

namespace Traced

variable {α β : Type}

/-- A value without events. -/
protected def pure (value : α) : Traced α := ⟨[], .ok value⟩

/-- One computation after another; a fault ends both. -/
protected def bind (first : Traced α) (next : α → Traced β) : Traced β :=
  match first.outcome with
  | .ok value => ⟨first.events ++ (next value).events, (next value).outcome⟩
  | .error fault => ⟨first.events, .error fault⟩

instance : Monad Traced where
  pure := Traced.pure
  bind := Traced.bind

/-- Leave events behind. -/
def emit (events : List Event) : Traced Unit := ⟨events, .ok ()⟩

/-- Report an oddity of a procedure. -/
def report (procedure : Nat) (diagnostic : Diagnostic) : Traced Unit :=
  emit [.diagnosed procedure diagnostic]

/-- Mention a milestone. -/
def note (milestone : Note) : Traced Unit := emit [.noted milestone]

/-- A computation without events. -/
def ofExcept (outcome : Except Fault α) : Traced α := ⟨[], outcome⟩

/-- A fault without events. -/
def stop (fault : Fault) : Traced α := ⟨[], .error fault⟩

theorem bind_eq (first : Traced α) (next : α → Traced β) :
    (first >>= next) = Traced.bind first next := rfl

theorem pure_eq (value : α) : (pure value : Traced α) = ⟨[], .ok value⟩ := rfl

instance : LawfulMonad Traced :=
  LawfulMonad.mk' Traced
    (by
      rintro α ⟨events, outcome⟩
      cases outcome <;> simp [Functor.map, Traced.bind, Traced.pure])
    (by
      intro α β value next
      simp [bind_eq, pure_eq, Traced.bind])
    (by
      rintro α β γ ⟨events, outcome⟩ next after
      cases outcome with
      | error fault => rfl
      | ok value =>
        simp only [bind_eq, Traced.bind]
        cases (next value).outcome <;> simp [List.append_assoc])

end Traced

end ProcRecovery
