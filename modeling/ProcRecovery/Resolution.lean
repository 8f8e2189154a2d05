/-!
# Resolutions

A value that an analysis still has to compute, has computed, or has given up
on.
-/

namespace ProcRecovery

/-- What is known about a value. -/
inductive Resolution (α : Type) where
  | notComputed
  | known (value : α)
  | unrecoverable
  deriving Repr, DecidableEq

namespace Resolution

variable {α : Type}

instance : Inhabited (Resolution α) := ⟨notComputed⟩

/-- The value, if it is known. -/
def value? : Resolution α → Option α
  | known value => some value
  | _ => none

/-- Whether the value is known. -/
def isKnown (resolution : Resolution α) : Bool := resolution.value?.isSome

/--
The resolution of an attempt: known if it gave a value, and given up otherwise.
-/
def ofOption : Option α → Resolution α
  | some value => known value
  | none => unrecoverable

@[simp]
theorem value?_ofOption
    (attempt : Option α) :
    (ofOption attempt).value? = attempt := by
  cases attempt <;> rfl

end Resolution

end ProcRecovery
