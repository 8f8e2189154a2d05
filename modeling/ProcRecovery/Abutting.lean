/-!
# Abutting ranges

A list of things that occupy address ranges abuts if each begins where the one
before it ends.
-/

namespace ProcRecovery

variable {α : Type}

/-- Each range of the list begins where the one before it ends. -/
def Abutting (lo hi : α → Nat) : List α → Prop
  | first :: second :: rest =>
      hi first = lo second ∧ Abutting lo hi (second :: rest)
  | _ => True

instance decidableAbutting (lo hi : α → Nat) : (ranges : List α) →
    Decidable (Abutting lo hi ranges)
  | [] => isTrue trivial
  | [_] => isTrue trivial
  | first :: second :: rest =>
    have := decidableAbutting lo hi (second :: rest)
    inferInstanceAs
      (Decidable (hi first = lo second ∧ Abutting lo hi (second :: rest)))

@[simp]
theorem abutting_nil (lo hi : α → Nat) : Abutting lo hi [] := trivial

@[simp]
theorem abutting_singleton
    (lo hi : α → Nat)
    (only : α) :
    Abutting lo hi [only] := trivial

@[simp]
theorem abutting_cons_cons
    (lo hi : α → Nat)
    (first second : α)
    (rest : List α) :
    Abutting lo hi (first :: second :: rest) ↔
      hi first = lo second ∧ Abutting lo hi (second :: rest) := Iff.rfl

end ProcRecovery
