import ProcRecovery.Text.Numeral

/-!
# Numerals that are written and read

A number that is written in some base up to sixteen is read back as the same
number, with or without zeros in front of it.  Nothing but letters and digits
stands in it.
-/

namespace ProcRecovery.Numeral

section Digits

variable {base : Nat}

theorem isAlphanum_digitChar :
    ∀ unit < 16, (Nat.digitChar unit).isAlphanum = true := by
  decide

theorem digitValue?_digitChar :
    ∀ unit < 16, digitValue? (Nat.digitChar unit) = some unit := by
  decide

theorem isAlphanum_of_mem_toDigits
    (proper : 1 < base)
    (small : base ≤ 16)
    {value : Nat} :
    ∀ char ∈ Nat.toDigits base value, char.isAlphanum = true := by
  induction value using Nat.strongRecOn with
  | ind value hypothesis =>
      rw [Nat.toDigits_eq_if proper]
      split
      next below => simpa using isAlphanum_digitChar value (by omega)
      next above =>
        rw [List.forall_mem_append]
        refine ⟨hypothesis (value / base) (Nat.div_lt_self (by omega) proper),
          ?_⟩
        have unit : value % base < 16 :=
          Nat.lt_of_lt_of_le (Nat.mod_lt value (by omega)) small
        simpa using isAlphanum_digitChar _ unit

theorem extend?_digitChar
    (small : base ≤ 16)
    (value : Nat)
    {unit : Nat}
    (below : unit < base) :
    extend? base value (Nat.digitChar unit) = some (base * value + unit) := by
  rw [extend?, digitValue?_digitChar unit (by omega), Option.bind_eq_bind,
    Option.bind_some, if_pos below]

/-- Reading digit after digit gives the number that they were taken from. -/
theorem foldlM_extend?_toDigits
    (proper : 1 < base)
    (small : base ≤ 16)
    (value : Nat) :
    (Nat.toDigits base value).foldlM (extend? base) 0 = some value := by
  induction value using Nat.strongRecOn with
  | ind value hypothesis =>
      rw [Nat.toDigits_eq_if proper]
      split
      next below =>
        rw [List.foldlM_cons, extend?_digitChar small 0 below, Nat.mul_zero,
          Nat.zero_add]
        rfl
      next above =>
        have front :=
          hypothesis (value / base) (Nat.div_lt_self (by omega) proper)
        rw [List.foldlM_append, front, Option.bind_eq_bind, Option.bind_some,
          List.foldlM_cons,
          extend?_digitChar small _ (Nat.mod_lt value (by omega)),
          Nat.div_add_mod]
        rfl

theorem foldlM_extend?_replicate
    (proper : 1 < base)
    (count : Nat)
    (digits : List Char) :
    (List.replicate count '0' ++ digits).foldlM (extend? base) 0 =
      digits.foldlM (extend? base) 0 := by
  induction count with
  | zero => rfl
  | succ count hypothesis =>
      have zero : extend? base 0 '0' = some 0 := by
        rw [extend?, show digitValue? '0' = some 0 from rfl,
          Option.bind_eq_bind, Option.bind_some, if_pos (by omega)]
        rfl
      rw [List.replicate_succ, List.cons_append, List.foldlM_cons, zero]
      exact hypothesis

theorem isAlphanum_of_mem_padded
    (proper : 1 < base)
    (small : base ≤ 16)
    {width value : Nat} :
    ∀ char ∈ padded base width value, char.isAlphanum = true := by
  rw [padded, List.forall_mem_append]
  refine ⟨?_, isAlphanum_of_mem_toDigits proper small⟩
  intro char member
  rw [List.eq_of_mem_replicate member]
  decide

theorem padded_ne_nil {width value : Nat} : padded base width value ≠ [] := by
  simp [padded, Nat.toDigits_ne_nil]

/-- Zeros in front make no difference. -/
theorem digits?_padded
    (proper : 1 < base)
    (small : base ≤ 16)
    (width value : Nat) :
    digits? base (padded base width value) = some value := by
  rw [digits?, if_neg padded_ne_nil, padded, foldlM_extend?_replicate proper,
    foldlM_extend?_toDigits proper small]

theorem padded_zero
    (value : Nat) :
    padded base 0 value = Nat.toDigits base value := by
  simp [padded]

end Digits

/-! ## Signs -/

section Signs

variable {base : Nat} {text : List Char}

/-- Letters and digits are read as they are, without a sign. -/
theorem unsigned?_of_isAlphanum
    (bare : ∀ char ∈ text, char.isAlphanum = true)
    (bound : Nat) :
    unsigned? base bound text = (digits? base text).filter (· < bound) := by
  unfold unsigned?
  split
  next rest => exact absurd (bare '+' (by simp)) (by decide)
  next => rfl

theorem signed?_of_isAlphanum
    (bare : ∀ char ∈ text, char.isAlphanum = true) :
    signed? base text =
      ((digits? base text).map Int.ofNat).filter (fun number =>
        FitsSigned number) := by
  unfold signed?
  split
  next rest => exact absurd (bare '+' (by simp)) (by decide)
  next rest => exact absurd (bare '-' (by simp)) (by decide)
  next => rfl

/-- A written number below the bound is read back. -/
theorem unsigned?_padded
    (proper : 1 < base)
    (small : base ≤ 16)
    (width : Nat)
    {bound value : Nat}
    (below : value < bound) :
    unsigned? base bound (padded base width value) = some value := by
  rw [unsigned?_of_isAlphanum (isAlphanum_of_mem_padded proper small),
    digits?_padded proper small]
  simpa using below

/-- A written number that a signed word holds is read back. -/
theorem signed?_padded
    (proper : 1 < base)
    (small : base ≤ 16)
    (width : Nat)
    {value : Nat}
    (fits : FitsSigned value) :
    signed? base (padded base width value) = some (value : Int) := by
  rw [signed?_of_isAlphanum (isAlphanum_of_mem_padded proper small),
    digits?_padded proper small]
  simpa using fits

end Signs

end ProcRecovery.Numeral
