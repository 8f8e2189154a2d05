import ProcRecovery.Proofs.Listing.Statements
import ProcRecovery.Proofs.Text.Blank
import ProcRecovery.Proofs.Text.Numeral

/-!
# Spelling of instructions

The text of an instruction is read back as the instruction, for every
instruction that reading can give, unless it holds the least signed word, whose
digits are one too large.  The addressing modes are told apart by their first
and last characters and by the first bracket, so the texts of numbers and
registers must hold none of these marks.
-/

namespace ProcRecovery

/-! ## Marks -/

namespace Text

theorem afterMarker?_eq_none
    {marker text : List Char}
    (char : Char)
    (inMarker : char ∈ marker)
    (absent : char ∉ text) :
    afterMarker? marker text = none := by
  rw [Option.eq_none_iff_forall_ne_some]
  intro rest isRest
  rw [afterMarker?_eq_some_iff.mp isRest] at absent
  exact absent (List.mem_append_left rest inMarker)

theorem beforeMarker?_eq_none
    {marker text : List Char}
    (char : Char)
    (inMarker : char ∈ marker)
    (absent : char ∉ text) :
    beforeMarker? marker text = none := by
  rw [Option.eq_none_iff_forall_ne_some]
  intro rest isRest
  rw [beforeMarker?_eq_some_iff.mp isRest] at absent
  exact absent (List.mem_append_right rest inMarker)

theorem splitFirst_eq_none_iff {mark : Char} {text : List Char} :
    splitFirst mark text = none ↔ mark ∉ text := by
  unfold splitFirst
  rw [List.span_eq_takeWhile_dropWhile]
  cases rest : text.dropWhile (· ≠ mark) with
  | nil =>
      have passed := List.dropWhile_eq_nil_iff.mp rest
      simp only [true_iff]
      intro member
      simpa using passed mark member
  | cons first later =>
      have kept := List.head?_dropWhile_not (· ≠ mark) text
      rw [rest] at kept
      have isMark : first = mark := by simpa using kept
      have member : first ∈ text :=
        (List.dropWhile_suffix _).subset (rest ▸ List.mem_cons_self)
      simpa [isMark] using member

end Text

/-! ## Numbers -/

namespace Numeral

/-- A character that is no digit does not stand in a number. -/
theorem not_mem_padded
    {base : Nat}
    (proper : 1 < base)
    (small : base ≤ 16)
    {char : Char}
    (noDigit : digitValue? char = none)
    (width value : Nat) :
    char ∉ padded base width value := by
  intro member
  have isDigit :=
    isSome_digitValue? (digits?_padded proper small width value) char member
  rw [noDigit] at isDigit
  cases isDigit

theorem toList_decimal
    (value : Nat) :
    (decimal value).toList = padded 10 0 value := by
  rw [decimal, String.toList_ofList, padded_zero]

theorem toList_markedHex4 (value : Nat) :
    (markedHex4 value).toList = '0' :: 'x' :: padded 16 4 value := by
  rw [markedHex4, String.toList_append, hex4]
  exact congrArg (['0', 'x'] ++ ·) String.toList_ofList

theorem toList_signedDecimal (value : Int) :
    (signedDecimal value).toList =
      (if value < 0 then ['-'] else []) ++ padded 10 0 value.natAbs := by
  unfold signedDecimal
  split
  next =>
    rw [String.toList_append, toList_decimal]
    rfl
  next => rw [toList_decimal, List.nil_append]

end Numeral

namespace Listing

open Text Numeral

theorem magnitude?_padded {value : Nat} (fits : FitsSigned value) :
    magnitude? (padded 10 0 value) = some (value : Int) := by
  have unmarked : afterMarker? ['0', 'x'] (padded 10 0 value) = none :=
    afterMarker?_eq_none 'x' (by simp)
      (not_mem_padded (by decide) (by decide) (by decide) 0 value)
  rw [magnitude?, unmarked]
  exact signed?_padded (by decide) (by decide) 0 fits

/-- A written number is read back, unless it is the least signed word. -/
theorem readNumber_signedDecimal
    (line : Nat)
    {value : Int}
    (fits : FitsSigned value)
    (notLeast : value ≠ -0x8000000000000000) :
    readNumber line (signedDecimal value).toList = .ok value := by
  have fitsSize : FitsSigned value.natAbs := by
    unfold FitsSigned at fits ⊢
    omega
  rw [toList_signedDecimal]
  split
  next negative =>
    have isNegation : -(value.natAbs : Int) = value := by omega
    have marked : afterMarker? ['-'] (['-'] ++ padded 10 0 value.natAbs) =
        some (padded 10 0 value.natAbs) := afterMarker?_eq_some_iff.mpr rfl
    rw [readNumber, marked]
    dsimp only
    rw [magnitude?_padded fitsSize]
    simp only [orReject, ok_bind, isNegation]
    rw [if_pos fits]
  next nonnegative =>
    have isSize : (value.natAbs : Int) = value := by omega
    have unmarked : afterMarker? ['-'] (padded 10 0 value.natAbs) = none :=
      afterMarker?_eq_none '-' (by simp)
        (not_mem_padded (by decide) (by decide) (by decide) 0 _)
    rw [List.nil_append, readNumber, unmarked]
    dsimp only
    rw [magnitude?_padded fitsSize, isSize]
    rfl

theorem readNumber_markedHex4
    (line : Nat)
    {value : Nat}
    (fits : FitsSigned value) :
    readNumber line (markedHex4 value).toList = .ok (value : Int) := by
  rw [toList_markedHex4]
  have unmarked : afterMarker? ['-'] ('0' :: 'x' :: padded 16 4 value) =
      none := rfl
  have marked : afterMarker? ['0', 'x'] ('0' :: 'x' :: padded 16 4 value) =
      some (padded 16 4 value) := afterMarker?_eq_some_iff.mpr rfl
  rw [readNumber, unmarked]
  dsimp only
  rw [magnitude?, marked]
  dsimp only
  rw [signed?_padded (by decide) (by decide) 4 fits]
  rfl

theorem readLocation_markedHex4
    (line : Nat)
    (operand : List Char)
    {value : Nat}
    (fits : FitsSigned value) :
    readLocation line operand (markedHex4 value).toList = .ok value := by
  rw [readLocation, readNumber_markedHex4 line fits, ok_bind,
    if_pos (Int.natCast_nonneg value), Int.toNat_natCast]

end Listing

/-! ## Registers -/

namespace Register

theorem isAlphanum_of_mem_name (register : Register) :
    ∀ char ∈ register.name.toList, char.isAlphanum = true := by
  unfold name
  split
  next => exact List.all_eq_true.mp (by decide)
  split
  next => exact List.all_eq_true.mp (by decide)
  split
  next => exact List.all_eq_true.mp (by decide)
  rw [String.toList_append, List.forall_mem_append, Numeral.toList_decimal]
  exact ⟨List.all_eq_true.mp (by decide),
    Numeral.isAlphanum_of_mem_padded (by decide) (by decide)⟩

theorem ofName?_name :
    ∀ number ≤ 7, ofName? (name ⟨number⟩).toList = some ⟨number⟩ := by
  decide

end Register

/-! ## Operands -/

/--
The operands that reading can give: there are eight registers, and every number
is read as a signed word.
-/
def Operand.IsReadable : Operand → Prop
  | register base | deferred base | autoIncrement base | autoDecrement base =>
      base.number ≤ 7
  | indexed displacement base | indexedDeferred displacement base =>
    FitsSigned displacement ∧ base.number ≤ 7
  | immediate value => FitsSigned value
  | absolute address | target address => FitsSigned address

/-- The signed word in an operand: a literal or a displacement. -/
def Operand.signed? : Operand → Option Int
  | indexed value _ | indexedDeferred value _ | immediate value => some value
  | _ => none

/-- No literal and no displacement is the least signed word. -/
def Operand.AvoidsLeast (operand : Operand) : Prop :=
  ∀ value ∈ operand.signed?, value ≠ -0x8000000000000000

instance (operand : Operand) : Decidable operand.AvoidsLeast :=
  inferInstanceAs
    (Decidable (∀ value ∈ operand.signed?, value ≠ -0x8000000000000000))

namespace Listing

open Text Numeral

theorem readRegister_name
    (line : Nat)
    {base : Register}
    (exists_ : base.number ≤ 7) :
    readRegister line base.name.toList = .ok base := by
  rw [readRegister, Register.ofName?_name base.number exists_]
  rfl

/--
In front of the first bracket stands what stands there, and nothing else.
-/
theorem afterMarker?_bracket
    {front number : List Char}
    (noBracket : '(' ∉ front)
    (numberFree : '(' ∉ number)
    (differs : number ≠ front)
    (text : List Char) :
    afterMarker? (front ++ ['(']) (number ++ '(' :: text) = none := by
  rw [Option.eq_none_iff_forall_ne_some]
  intro rest isRest
  have shape := afterMarker?_eq_some_iff.mp isRest
  rw [List.append_assoc, List.singleton_append] at shape
  have first : splitFirst '(' (number ++ '(' :: text) = some (number, text) :=
    splitFirst_eq_some_iff.mpr ⟨rfl, numberFree⟩
  have second : splitFirst '(' (number ++ '(' :: text) = some (front, rest) :=
    splitFirst_eq_some_iff.mpr ⟨shape, noBracket⟩
  rw [first] at second
  cases second
  exact differs rfl

/--
A bracketed register after a number is an index, because the first bracket is
neither at the start nor behind a mere minus sign.
-/
theorem readOperand_indexed
    (line : Nat)
    {number register : List Char}
    (noBracket : '(' ∉ number)
    (given : number ≠ [])
    (notSign : number ≠ ['-'])
    (noAt : '@' ∉ number ++ register)
    (noHash : '#' ∉ number ++ register) :
    readOperand line (number ++ '(' :: (register ++ [')'])) =
      readPlainOperand line (number ++ '(' :: (register ++ [')'])) := by
  rw [List.mem_append, not_or] at noAt noHash
  have absolute :
      afterMarker? ['@', '#'] (number ++ '(' :: (register ++ [')'])) = none :=
    afterMarker?_eq_none '@' (by simp) (by simp [noAt])
  have literal : afterMarker? ['#'] (number ++ '(' :: (register ++ [')'])) =
      none :=
    afterMarker?_eq_none '#' (by simp) (by simp [noHash])
  have decrement :
      afterMarker? ['-', '('] (number ++ '(' :: (register ++ [')'])) = none :=
    afterMarker?_bracket (by decide : '(' ∉ ['-']) noBracket notSign _
  have bracket : afterMarker? ['('] (number ++ '(' :: (register ++ [')'])) =
      none :=
    afterMarker?_bracket (by decide : '(' ∉ []) noBracket given _
  simp only [readOperand, absolute, literal, between?, decrement, bracket,
    Option.bind_none]

theorem readPlainOperand_indexed
    (line : Nat)
    {number register : List Char} {base : Register} {value : Int}
    (noBracket : '(' ∉ number)
    (noAt : '@' ∉ number)
    (named : readRegister line register = .ok base)
    (spelled : readNumber line number = .ok value) :
    readPlainOperand line (number ++ '(' :: (register ++ [')'])) =
      .ok (.indexed value base) ∧
      readPlainOperand line ('@' :: number ++ '(' :: (register ++ [')'])) =
        .ok (.indexedDeferred value base) := by
  have direct : indexed? (number ++ '(' :: (register ++ [')'])) =
      some (number, register) :=
    indexed?_eq_some_iff.mpr ⟨rfl, noBracket⟩
  have deferred : indexed? ('@' :: number ++ '(' :: (register ++ [')'])) =
      some ('@' :: number, register) :=
    indexed?_eq_some_iff.mpr ⟨rfl, by simp [noBracket]⟩
  have unmarked : afterMarker? ['@'] number = none :=
    afterMarker?_eq_none '@' (by simp) noAt
  have marked : afterMarker? ['@'] ('@' :: number) = some number :=
    afterMarker?_eq_some_iff.mpr rfl
  constructor
  · simp only [readPlainOperand, direct, named, ok_bind, unmarked, spelled]
    rfl
  · simp only [readPlainOperand, deferred, named, ok_bind, marked, spelled]
    rfl

theorem not_mem_name
    {mark : Char}
    (isMark : mark.isAlphanum = false)
    (register : Register) :
    mark ∉ register.name.toList := by
  intro member
  rw [register.isAlphanum_of_mem_name mark member] at isMark
  cases isMark

theorem not_mem_signedDecimal
    {mark : Char}
    (isMark : mark.isAlphanum = false)
    (notSign : mark ≠ '-')
    (value : Int) :
    mark ∉ (signedDecimal value).toList := by
  rw [toList_signedDecimal, List.mem_append]
  rintro (isSign | isDigit)
  · split at isSign
    next => exact notSign (List.mem_singleton.mp isSign)
    next => cases isSign
  · rw [isAlphanum_of_mem_padded (by decide) (by decide) mark isDigit]
      at isMark
    cases isMark

theorem between?_eq_some (opening closing text : List Char) :
    between? opening closing (opening ++ (text ++ closing)) = some text := by
  rw [between?, afterMarker?_eq_some_iff.mpr rfl, Option.bind_some]
  exact beforeMarker?_eq_some_iff.mpr rfl

/-- A register by itself or in brackets is read back. -/
theorem readOperand_register
    (line : Nat)
    {base : Register}
    (known : base.number ≤ 7) :
    readOperand line base.name.toList = .ok (.register base) := by
  have absolute : afterMarker? ['@', '#'] base.name.toList = none :=
    afterMarker?_eq_none '@' (by simp) (not_mem_name (by decide) base)
  have literal : afterMarker? ['#'] base.name.toList = none :=
    afterMarker?_eq_none '#' (by simp) (not_mem_name (by decide) base)
  have decrement : afterMarker? ['-', '('] base.name.toList = none :=
    afterMarker?_eq_none '(' (by simp) (not_mem_name (by decide) base)
  have bracket : afterMarker? ['('] base.name.toList = none :=
    afterMarker?_eq_none '(' (by simp) (not_mem_name (by decide) base)
  have unindexed : beforeMarker? [')'] base.name.toList = none :=
    beforeMarker?_eq_none ')' (by simp) (not_mem_name (by decide) base)
  simp only [readOperand, absolute, literal, between?, decrement, bracket,
    Option.bind_none, readPlainOperand, indexed?, unindexed,
    Register.ofName?_name base.number known]

theorem readOperand_deferred
    (line : Nat)
    {base : Register}
    (known : base.number ≤ 7) :
    readOperand line ('(' :: (base.name.toList ++ [')'])) =
      .ok (.deferred base) := by
  have noPlus : '+' ∉ base.name.toList := not_mem_name (by decide) base
  have unmoved :
      between? ['('] [')', '+'] ('(' :: (base.name.toList ++ [')'])) = none :=
    beforeMarker?_eq_none '+' (by simp) (by simp [noPlus])
  have bracketed : between? ['('] [')'] ('(' :: (base.name.toList ++ [')'])) =
      some base.name.toList := between?_eq_some _ _ _
  have absolute :
      afterMarker? ['@', '#'] ('(' :: (base.name.toList ++ [')'])) = none :=
    rfl
  have literal : afterMarker? ['#'] ('(' :: (base.name.toList ++ [')'])) =
      none := rfl
  have decrement :
      between? ['-', '('] [')'] ('(' :: (base.name.toList ++ [')'])) = none :=
    rfl
  rw [readOperand, absolute, literal, decrement, unmoved, bracketed]
  dsimp only
  rw [readRegister_name line known]
  rfl

theorem readOperand_autoIncrement
    (line : Nat)
    {base : Register}
    (known : base.number ≤ 7) :
    readOperand line ('(' :: (base.name.toList ++ [')', '+'])) =
      .ok (.autoIncrement base) := by
  have moved :
      between? ['('] [')', '+'] ('(' :: (base.name.toList ++ [')', '+'])) =
      some base.name.toList := between?_eq_some _ _ _
  have absolute :
      afterMarker? ['@', '#'] ('(' :: (base.name.toList ++ [')', '+'])) =
        none := rfl
  have literal : afterMarker? ['#'] ('(' :: (base.name.toList ++ [')', '+'])) =
      none := rfl
  have decrement :
      between? ['-', '('] [')'] ('(' :: (base.name.toList ++ [')', '+'])) =
        none :=
    rfl
  rw [readOperand, absolute, literal, decrement, moved]
  dsimp only
  rw [readRegister_name line known]
  rfl

theorem readOperand_autoDecrement
    (line : Nat)
    {base : Register}
    (known : base.number ≤ 7) :
    readOperand line ('-' :: '(' :: (base.name.toList ++ [')'])) =
      .ok (.autoDecrement base) := by
  have moved :
      between? ['-', '('] [')'] ('-' :: '(' :: (base.name.toList ++ [')'])) =
      some base.name.toList := between?_eq_some _ _ _
  have absolute :
      afterMarker? ['@', '#'] ('-' :: '(' :: (base.name.toList ++ [')'])) =
        none := rfl
  have literal :
      afterMarker? ['#'] ('-' :: '(' :: (base.name.toList ++ [')'])) = none :=
    rfl
  rw [readOperand, absolute, literal, moved]
  dsimp only
  rw [readRegister_name line known]
  rfl

theorem signedDecimal_ne_nil
    (value : Int) :
    (signedDecimal value).toList ≠ [] := by
  rw [toList_signedDecimal]
  exact List.append_ne_nil_of_right_ne_nil _ padded_ne_nil

theorem signedDecimal_ne_sign
    (value : Int) :
    (signedDecimal value).toList ≠ ['-'] := by
  have noSign : '-' ∉ padded 10 0 value.natAbs :=
    not_mem_padded (by decide) (by decide) (by decide) 0 _
  have given : padded 10 0 value.natAbs ≠ [] := padded_ne_nil
  rw [toList_signedDecimal]
  split
  next => simpa using given
  next =>
    rintro same
    rw [List.nil_append] at same
    simp [same] at noSign

section Displacements

variable (line : Nat) {displacement : Int} {base : Register}
  (fits : FitsSigned displacement)
  (notLeast : displacement ≠ -0x8000000000000000) (known : base.number ≤ 7)
include fits notLeast known

/-- A displacement from a register is read back. -/
theorem readOperand_displaced :
    readOperand line ((signedDecimal displacement).toList ++
        '(' :: (base.name.toList ++ [')'])) =
          .ok (.indexed displacement base) := by
  have noBracket : '(' ∉ (signedDecimal displacement).toList :=
    not_mem_signedDecimal (by decide) (by decide) _
  have noAt : '@' ∉ (signedDecimal displacement).toList :=
    not_mem_signedDecimal (by decide) (by decide) _
  have noHash : '#' ∉ (signedDecimal displacement).toList :=
    not_mem_signedDecimal (by decide) (by decide) _
  have nameAt : '@' ∉ base.name.toList := not_mem_name (by decide) base
  have nameHash : '#' ∉ base.name.toList := not_mem_name (by decide) base
  rw [readOperand_indexed line noBracket (signedDecimal_ne_nil _)
    (signedDecimal_ne_sign _) (by simp [noAt, nameAt])
    (by simp [noHash, nameHash])]
  exact (readPlainOperand_indexed line noBracket noAt
    (readRegister_name line known)
    (readNumber_signedDecimal line fits notLeast)).1

theorem readOperand_displacedDeferred :
    readOperand line ('@' :: (signedDecimal displacement).toList ++
        '(' :: (base.name.toList ++ [')'])) =
          .ok (.indexedDeferred displacement base) := by
  have noBracket : '(' ∉ (signedDecimal displacement).toList :=
    not_mem_signedDecimal (by decide) (by decide) _
  have noAt : '@' ∉ (signedDecimal displacement).toList :=
    not_mem_signedDecimal (by decide) (by decide) _
  have noHash : '#' ∉ (signedDecimal displacement).toList :=
    not_mem_signedDecimal (by decide) (by decide) _
  have nameHash : '#' ∉ base.name.toList := not_mem_name (by decide) base
  have absolute :
      afterMarker? ['@', '#'] ('@' :: (signedDecimal displacement).toList ++
      '(' :: (base.name.toList ++ [')'])) = none :=
    afterMarker?_eq_none '#' (by simp) (by simp [noHash, nameHash])
  rw [readOperand, absolute]
  exact (readPlainOperand_indexed line noBracket noAt
    (readRegister_name line known)
    (readNumber_signedDecimal line fits notLeast)).2

end Displacements

/-- The text of an operand is read back. -/
theorem readOperand_text
    (line : Nat)
    {operand : Operand}
    (readable : operand.IsReadable)
    (avoids : operand.AvoidsLeast) :
    readOperand line operand.text.toList = .ok operand := by
  cases operand with
  | register base => exact readOperand_register line readable
  | deferred base =>
      rw [Operand.text]
      simpa using readOperand_deferred line readable
  | autoIncrement base =>
      rw [Operand.text]
      simpa using readOperand_autoIncrement line readable
  | autoDecrement base =>
      rw [Operand.text]
      simpa using readOperand_autoDecrement line readable
  | indexed displacement base =>
      rw [Operand.text]
      simpa using readOperand_displaced line readable.1 (avoids _ rfl)
        readable.2
  | indexedDeferred displacement base =>
      rw [Operand.text]
      simpa using readOperand_displacedDeferred line readable.1 (avoids _ rfl)
        readable.2
  | immediate value =>
      have text_eq : (Operand.immediate value).text.toList =
          '#' :: (signedDecimal value).toList := by simp [Operand.text]
      have absolute :
          afterMarker? ['@', '#'] ('#' :: (signedDecimal value).toList) =
            none := rfl
      have literal : afterMarker? ['#'] ('#' :: (signedDecimal value).toList) =
          some (signedDecimal value).toList := afterMarker?_eq_some_iff.mpr rfl
      rw [text_eq, readOperand, absolute, literal]
      dsimp only
      rw [readNumber_signedDecimal line readable (avoids value rfl)]
      rfl
  | absolute address =>
      have text_eq : (Operand.absolute address).text.toList =
          '@' :: '#' :: (markedHex4 address).toList := by simp [Operand.text]
      have located :
          afterMarker? ['@', '#'] ('@' :: '#' :: (markedHex4 address).toList) =
          some (markedHex4 address).toList := afterMarker?_eq_some_iff.mpr rfl
      rw [text_eq, readOperand, located]
      dsimp only
      rw [readLocation_markedHex4 line _ readable]
      rfl
  | target address =>
      have text_eq : (Operand.target address).text.toList =
          (markedHex4 address).toList := rfl
      have unindexed : beforeMarker? [')'] (markedHex4 address).toList =
          none := by
        have noBracket : ')' ∉ padded 16 4 address :=
          not_mem_padded (by decide) (by decide) (by decide) 4 address
        rw [toList_markedHex4]
        exact beforeMarker?_eq_none ')' (by simp) (by simp [noBracket])
      have plain : readOperand line (markedHex4 address).toList =
          readPlainOperand line (markedHex4 address).toList := by
        rw [toList_markedHex4]
        rfl
      have unnamed : Register.ofName? (markedHex4 address).toList = none := by
        rw [toList_markedHex4]
        rfl
      rw [text_eq, plain, readPlainOperand, indexed?, unindexed, unnamed]
      dsimp only [Option.bind_none]
      rw [readLocation_markedHex4 line _ readable]
      rfl

/-! ## What reading gives -/

theorem fitsSigned_of_readNumber
    {line : Nat} {text : List Char} {value : Int}
    (read : readNumber line text = .ok value) :
    FitsSigned value := by
  unfold readNumber at read
  dsimp only at read
  split at read
  next =>
    rcases bind_eq_ok_iff.mp read with ⟨size, -, negated⟩
    split at negated
    next fits =>
      cases negated
      exact fits
    next => cases negated
  next => exact fitsSigned_of_magnitude? (orReject_eq_ok_iff.mp read)

theorem fitsSigned_of_readLocation
    {line address : Nat} {operand text : List Char}
    (read : readLocation line operand text = .ok address) :
    FitsSigned address := by
  rcases bind_eq_ok_iff.mp read with ⟨value, isValue, rest⟩
  split at rest
  next nonnegative =>
    cases rest
    rw [Int.toNat_of_nonneg nonnegative]
    exact fitsSigned_of_readNumber isValue
  next => cases rest

theorem number_of_ofName?
    {text : List Char} {base : Register}
    (named : Register.ofName? text = some base) :
    base.number ≤ 7 := by
  unfold Register.ofName? at named
  split at named
  next =>
    cases named
    decide
  split at named
  next =>
    cases named
    decide
  split at named
  next =>
    cases named
    decide
  rcases Option.bind_eq_some_iff.mp named with ⟨digits, -, rest⟩
  rcases Option.bind_eq_some_iff.mp rest with ⟨number, -, last⟩
  split at last
  next small =>
    cases last
    exact small
  next => cases last

theorem number_of_readRegister
    {line : Nat} {text : List Char} {base : Register}
    (read : readRegister line text = .ok base) :
    base.number ≤ 7 :=
  number_of_ofName? (orReject_eq_ok_iff.mp read)

theorem isReadable_of_readPlainOperand
    {line : Nat} {text : List Char} {operand : Operand}
    (read : readPlainOperand line text = .ok operand) :
    operand.IsReadable := by
  unfold readPlainOperand at read
  split at read
  next displacement register _ =>
    rcases bind_eq_ok_iff.mp read with ⟨base, isBase, rest⟩
    split at rest
    next =>
      rcases bind_eq_ok_iff.mp rest with ⟨value, isValue, same⟩
      cases same
      exact ⟨fitsSigned_of_readNumber isValue, number_of_readRegister isBase⟩
    next =>
      rcases bind_eq_ok_iff.mp rest with ⟨value, isValue, same⟩
      cases same
      exact ⟨fitsSigned_of_readNumber isValue, number_of_readRegister isBase⟩
  next =>
    split at read
    next base named =>
      cases read
      exact number_of_ofName? named
    next =>
      rcases bind_eq_ok_iff.mp read with ⟨address, isAddress, same⟩
      cases same
      exact fitsSigned_of_readLocation isAddress

theorem isReadable_of_readOperand
    {line : Nat} {text : List Char} {operand : Operand}
    (read : readOperand line text = .ok operand) :
    operand.IsReadable := by
  unfold readOperand at read
  split at read
  next =>
    rcases bind_eq_ok_iff.mp read with ⟨address, isAddress, same⟩
    cases same
    exact fitsSigned_of_readLocation isAddress
  split at read
  next =>
    rcases bind_eq_ok_iff.mp read with ⟨value, isValue, same⟩
    cases same
    exact fitsSigned_of_readNumber isValue
  -- A register in brackets, in each of its three forms.
  iterate 3
    split at read
    next =>
      rcases bind_eq_ok_iff.mp read with ⟨base, isBase, same⟩
      cases same
      exact number_of_readRegister isBase
  exact isReadable_of_readPlainOperand read

/-! ## Mnemonics -/

theorem toList_name_of_ofExactName?
    {name : List Char} {mnemonic : Mnemonic}
    (named : Mnemonic.ofExactName? name = some mnemonic) :
    mnemonic.name.toList = name := by
  simpa using List.find?_some named

theorem toList_name_of_ofSuffixedName?
    {word : List Char} {suffix : Char} {size width : Width}
    {mnemonic : Mnemonic}
    (suffix_eq : size.suffix.toList = [suffix])
    (named : Mnemonic.ofSuffixedName? suffix size word =
      some (mnemonic, width)) :
    (mnemonic.name ++ width.suffix).toList = word := by
  rcases Option.bind_eq_some_iff.mp named with ⟨stem, isStem, rest⟩
  rcases Option.bind_eq_some_iff.mp rest with ⟨other, isOther, last⟩
  split at last
  next =>
    cases last
    rw [String.toList_append, toList_name_of_ofExactName? isOther, suffix_eq,
      ← beforeMarker?_eq_some_iff.mp isStem]
  next => cases last

/-- A name is written as it was read. -/
theorem toList_name_of_ofName
    {word : List Char} {mnemonic : Mnemonic} {width : Width}
    (named : Mnemonic.ofName word = (mnemonic, width)) :
    (mnemonic.name ++ width.suffix).toList = word := by
  unfold Mnemonic.ofName at named
  split at named
  next known isKnown =>
    cases named
    rw [String.toList_append, toList_name_of_ofExactName? isKnown]
    exact List.append_nil word
  next =>
    split at named
    next sized isSized =>
      subst named
      rw [Option.orElse_eq_orElse, Option.orElse_eq_or, Option.or_eq_some_iff]
        at isSized
      rcases isSized with isByte | ⟨-, isLong⟩
      · exact toList_name_of_ofSuffixedName? (by decide) isByte
      · exact toList_name_of_ofSuffixedName? (by decide) isLong
    next =>
      cases named
      rw [String.toList_append]
      exact (List.append_nil _).trans String.toList_ofList

end Listing

/-! ## Instructions -/

/--
The instructions that reading can give: the name is a word in front of any
comment, the operands are readable, and the extent follows from both.
-/
structure Instruction.IsReadable (instruction : Instruction) : Prop where
  named : ∃ word, word ≠ [] ∧
    (∀ char ∈ word, Text.isBlank char = false ∧ char ≠ ';') ∧
    Mnemonic.ofName word = (instruction.mnemonic, instruction.width)
  operands : ∀ operand ∈ instruction.operands, operand.IsReadable
  extent :
    Instruction.assemble instruction.lo instruction.mnemonic instruction.width
    instruction.operands = .ok instruction

/--
No literal and no displacement of an instruction is the least signed word.
-/
def Instruction.AvoidsLeast (instruction : Instruction) : Prop :=
  ∀ operand ∈ instruction.operands, operand.AvoidsLeast

instance (instruction : Instruction) : Decidable instruction.AvoidsLeast :=
  inferInstanceAs
    (Decidable (∀ operand ∈ instruction.operands, operand.AvoidsLeast))

namespace Listing

open Text Numeral

theorem isReadable_of_readInstruction
    {line : Nat} {text : List Char} {instruction : Instruction}
    (read : readInstruction line text = .ok instruction)
    (noComment : ';' ∉ text) :
    instruction.IsReadable := by
  unfold readInstruction at read
  split at read
  next address word operands parts =>
    rcases bind_eq_ok_iff.mp read with ⟨lo, -, rest⟩
    rcases bind_eq_ok_iff.mp rest with ⟨listed, isListed, last⟩
    dsimp only at last
    split at last
    next assembled isAssembled =>
      cases last
      have isWord : word ∈ words text := by simp [parts]
      rcases of_mem_words isWord with ⟨nonempty, inText⟩
      have solid : ∀ char ∈ word, isBlank char = false ∧ char ≠ ';' := by
        intro char member
        rcases inText char member with ⟨notBlank, inside⟩
        refine ⟨notBlank, ?_⟩
        rintro rfl
        exact noComment inside
      have readable : ∀ operand ∈ listed, operand.IsReadable := by
        intro operand member
        unfold readOperands at isListed
        split at isListed
        next =>
          cases isListed
          cases member
        next =>
          rcases exists_of_mem_right (mapM_eq_ok_iff.mp isListed) member with
            ⟨spelling, -, isOperand⟩
          exact isReadable_of_readOperand isOperand
      have fields := isAssembled
      unfold Instruction.assemble at fields
      split at fields
      next =>
        cases fields
        exact ⟨⟨word, nonempty, solid, rfl⟩, readable, isAssembled⟩
      next => cases fields
    next => cases last
  next => cases read

/--
A line of code: an address with any number of zeros before it, and an
instruction.
-/
def codeLine (zeros : Nat) (instruction : Instruction) : String :=
  String.ofList (padded 16 zeros instruction.lo) ++ " " ++ instruction.text

theorem readAddress_padded
    (line width : Nat)
    {address : Nat}
    (fits : FitsUnsigned address) :
    readAddress line (padded 16 width address) = .ok address := by
  have unmarked : afterMarker? ['0', 'x'] (padded 16 width address) = none :=
    afterMarker?_eq_none 'x' (by simp)
      (not_mem_padded (by decide) (by decide) (by decide) _ _)
  rw [readAddress, unmarked]
  dsimp only [Option.getD_none]
  rw [unsigned?_padded (by decide) (by decide) width fits]
  rfl

/-- The characters of operands: letters, digits, brackets and some marks. -/
def isOperandChar (char : Char) : Bool :=
  char.isAlphanum || char ∈ ['(', ')', '+', '-', '@', '#']

theorem isOperandChar_of_isAlphanum
    {char : Char}
    (alphanumeric : char.isAlphanum = true) :
    isOperandChar char = true := by
  rw [isOperandChar, alphanumeric, Bool.true_or]

theorem isOperandChar_of_mem_text (operand : Operand) :
    ∀ char ∈ operand.text.toList, isOperandChar char = true := by
  have inName (register : Register) :
      ∀ char ∈ register.name.toList, isOperandChar char = true := by
    intro char member
    exact isOperandChar_of_isAlphanum
      (register.isAlphanum_of_mem_name char member)
  have inDigits (base width value : Nat) (proper : 1 < base)
      (small : base ≤ 16) :
      ∀ char ∈ padded base width value, isOperandChar char = true := by
    intro char member
    exact isOperandChar_of_isAlphanum
      (isAlphanum_of_mem_padded proper small char member)
  have inNumber (value : Int) :
      ∀ char ∈ (signedDecimal value).toList, isOperandChar char = true := by
    rw [toList_signedDecimal, List.forall_mem_append]
    refine ⟨?_, inDigits 10 0 _ (by decide) (by decide)⟩
    split <;> exact List.all_eq_true.mp (by decide)
  have inAddress (value : Nat) :
      ∀ char ∈ (markedHex4 value).toList, isOperandChar char = true := by
    rw [toList_markedHex4, List.forall_mem_cons, List.forall_mem_cons]
    exact ⟨by decide, by decide, inDigits 16 4 _ (by decide) (by decide)⟩
  have marks : ∀ char ∈ ['(', ')', '+', '-', '@', '#'],
      isOperandChar char = true :=
    List.all_eq_true.mp (by decide)
  intro char
  cases operand <;> simp only [Operand.text, String.toList_append,
    List.mem_append] <;>
    grind

/-- Operands hold no blanks, and no commas or comments. -/
theorem solid_of_isOperandChar
    {char : Char}
    (isOperand : isOperandChar char = true) :
    isBlank char = false ∧ char ≠ ',' ∧ char ≠ ';' := by
  rw [isOperandChar, Bool.or_eq_true] at isOperand
  rcases isOperand with alphanumeric | isMark
  · refine ⟨isBlank_of_isAlphanum alphanumeric, ?_, ?_⟩
    · rintro rfl
      revert alphanumeric
      decide
    · rintro rfl
      revert alphanumeric
      decide
  · simp only [List.mem_cons, List.not_mem_nil, or_false, decide_eq_true_eq]
      at isMark
    rcases isMark with rfl | rfl | rfl | rfl | rfl | rfl <;> decide

/-- Operands with commas between them. -/
def joinedOperands (operands : List Operand) : List Char :=
  [','].intercalate (operands.map (fun operand => operand.text.toList))

/-- Operands with commas between them hold no blanks and no comments. -/
theorem solid_joinedOperands (operands : List Operand) :
    ∀ char ∈ joinedOperands operands, isBlank char = false ∧ char ≠ ';' := by
  apply forall_mem_intercalate
  · rw [List.forall_mem_singleton]
    decide
  · rw [List.forall_mem_map]
    intro operand _ char member
    rcases solid_of_isOperandChar
      (isOperandChar_of_mem_text operand char member) with
      ⟨notBlank, -, notComment⟩
    exact ⟨notBlank, notComment⟩

/-- The digits of an address hold no blanks and no comments. -/
theorem solid_padded (width value : Nat) :
    ∀ char ∈ padded 16 width value, isBlank char = false ∧ char ≠ ';' := by
  intro char member
  have alphanumeric :=
    isAlphanum_of_mem_padded (by decide) (by decide) char member
  rcases solid_of_isOperandChar (isOperandChar_of_isAlphanum alphanumeric) with
    ⟨notBlank, -, notComment⟩
  exact ⟨notBlank, notComment⟩

section Operands

variable (line : Nat) {operands : List Operand}
  (readable : ∀ operand ∈ operands, operand.IsReadable)
  (avoid : ∀ operand ∈ operands, operand.AvoidsLeast)
include readable avoid

theorem joinedOperands_ne_nil
    (given : operands ≠ []) :
    joinedOperands operands ≠ [] := by
  cases operands with
  | nil => exact absurd rfl given
  | cons first later =>
      have read :=
        readOperand_text 0 (readable first (by simp)) (avoid first (by simp))
      have written : first.text.toList ≠ [] := by
        intro empty
        rw [empty] at read
        cases read
      cases later with
      | nil => simpa [joinedOperands] using written
      | cons second others =>
          rw [joinedOperands, List.map_cons, List.map_cons,
            List.intercalate_cons_cons]
          simp

theorem readOperands_joinedOperands :
    readOperands line (joinedOperands operands) = .ok operands := by
  unfold readOperands
  by_cases given : operands = []
  · subst given
    rfl
  have split_eq : (joinedOperands operands).splitOn ',' =
      operands.map (fun operand => operand.text.toList) := by
    apply List.splitOn_intercalate _ _ (by simpa using given)
    rw [List.forall_mem_map]
    intro operand _ member
    exact (solid_of_isOperandChar
      (isOperandChar_of_mem_text operand ',' member)).2.1 rfl
  rw [if_neg (joinedOperands_ne_nil readable avoid given), split_eq,
    mapM_eq_ok_iff, List.forall₂_map_left_iff, List.forall₂_same]
  intro operand member
  exact readOperand_text line (readable operand member) (avoid operand member)

end Operands

/-- What follows the name of an instruction. -/
def operandPart (operands : List Operand) : List Char :=
  if operands = [] then [] else ' ' :: joinedOperands operands

/-- The parts of a line of code. -/
theorem toList_codeLine
    {zeros : Nat} {instruction : Instruction} {word : List Char}
    (named : Mnemonic.ofName word = (instruction.mnemonic, instruction.width)) :
    (codeLine zeros instruction).toList = padded 16 zeros instruction.lo ++
      ' ' :: (word ++ operandPart instruction.operands) := by
  have word_eq := toList_name_of_ofName named
  have tail_eq : (if (instruction.operands.map Operand.text).isEmpty then ""
      else
      " " ++ String.intercalate ","
        (instruction.operands.map Operand.text)).toList =
        operandPart instruction.operands := by
    unfold operandPart
    by_cases bare : instruction.operands = []
    · simp [bare]
    · simp [bare, joinedOperands, Function.comp_def]
  rw [codeLine, Instruction.text]
  simp only [String.toList_append, String.toList_ofList, word_eq, tail_eq,
    List.append_assoc]
  rfl

theorem words_operandPart
    {word : List Char}
    (nonempty : word ≠ [])
    (solid : ∀ char ∈ word, isBlank char = false)
    {operands : List Operand}
    (written : operands ≠ [] → joinedOperands operands ≠ []) :
    ∃ parts, words (word ++ operandPart operands) = word :: parts ∧
      parts.flatten = joinedOperands operands := by
  unfold operandPart
  by_cases bare : operands = []
  · rw [if_pos bare, List.append_nil, words_eq_singleton nonempty solid, bare]
    exact ⟨[], rfl, rfl⟩
  · rw [if_neg bare, words_append_cons (by decide),
      words_eq_singleton nonempty solid,
      words_eq_singleton (written bare)
        (fun char member => (solid_joinedOperands operands char member).1)]
    exact ⟨[joinedOperands operands], rfl, by simp⟩

/-- A line of code is read back. -/
theorem instruction?_codeLine
    (zeros : Nat)
    {instruction : Instruction}
    (readable : instruction.IsReadable)
    (avoids : instruction.AvoidsLeast) :
    instruction? (codeLine zeros instruction).toList = some instruction := by
  rcases readable.named with ⟨word, nonempty, solid, named⟩
  have fits : FitsUnsigned instruction.lo := by
    have assembled := readable.extent
    unfold Instruction.assemble at assembled
    split at assembled
    next ends =>
      unfold FitsUnsigned at ends ⊢
      omega
    next => cases assembled
  rcases words_operandPart nonempty (fun char member => (solid char member).1)
    (joinedOperands_ne_nil readable.operands avoids) with
      ⟨parts, split_eq, joined⟩
  have words_eq : words (codeLine zeros instruction).toList =
      padded 16 zeros instruction.lo :: word :: parts := by
    rw [toList_codeLine named, words_append_cons (by decide),
      words_eq_singleton padded_ne_nil (fun char member =>
        (solid_padded _ _ char member).1),
      split_eq]
    rfl
  rw [← @readInstruction_eq_ok_iff 0, readInstruction, words_eq]
  dsimp only
  rw [readAddress_padded 0 zeros fits, ok_bind, joined,
    readOperands_joinedOperands 0 readable.operands avoids, ok_bind, named]
  dsimp only
  rw [readable.extent]

end Listing

end ProcRecovery
