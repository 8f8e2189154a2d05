/-!
# Machine words

Every quantity of the analysis is an exact integer: addresses and widths are
natural numbers, displacements, stack levels and literal values are integers.
They are stored in 64-bit words, so this file fixes the two ranges such a word
can hold, and the two ways of reading one and the same word, unsigned and
signed.  The bounds are written as literals, which linear arithmetic can see.
-/

namespace ProcRecovery

/--
Size of the 16-bit address space.  No stack adjustment or block copy can exceed
it.
-/
def addressSpace : Nat := 0x10000

/-- A natural number that an unsigned 64-bit word can hold. -/
def FitsUnsigned (value : Nat) : Prop := value < 0x10000000000000000

instance (value : Nat) : Decidable (FitsUnsigned value) :=
  inferInstanceAs (Decidable (value < 0x10000000000000000))

/-- An integer that a signed 64-bit word can hold. -/
def FitsSigned (value : Int) : Prop :=
  -0x8000000000000000 ≤ value ∧ value < 0x8000000000000000

instance (value : Int) : Decidable (FitsSigned value) :=
  inferInstanceAs
    (Decidable (-0x8000000000000000 ≤ value ∧ value < 0x8000000000000000))

/-- The integer a 64-bit word stands for when its top bit counts as a sign. -/
def signedReading (word : Nat) : Int :=
  if word < 0x8000000000000000 then word
    else (word : Int) - 0x10000000000000000

/--
The natural number whose signed reading is the given integer, for integers that
fit.
-/
def unsignedReading (value : Int) : Nat :=
  if 0 ≤ value then value.toNat else (value + 0x10000000000000000).toNat

/-- Small words read the same either way. -/
theorem signedReading_of_lt {word : Nat} (small : word < 0x8000000000000000) :
    signedReading word = word :=
  if_pos small

end ProcRecovery
