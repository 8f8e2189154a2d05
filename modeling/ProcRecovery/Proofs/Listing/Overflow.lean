import Mathlib.Data.List.TakeDrop
import ProcRecovery.Listing.Reader
import ProcRecovery.Proofs.Outcome

/-!
# Numbers that leave their words

Reading a listing gives its code or rejects the text and names the line.  Two
kinds of numbers escape both: a minus sign before a spelling of the least
signed word, which has no opposite, and the address past an instruction that
reaches over the last address.  Reading stops there with a fault.  The texts on
which that happens are described here by their spelling, and the main result
says that there are no others.
-/

namespace ProcRecovery

/-! ## Texts cut at marks -/

namespace Text

theorem afterMarker?_eq_some_iff {marker text rest : List Char} :
    afterMarker? marker text = some rest ↔ text = marker ++ rest := by
  unfold afterMarker?
  split
  next starts =>
    obtain ⟨tail, rfl⟩ := List.isPrefixOf_iff_prefix.mp starts
    simp
  next differs =>
    constructor
    · intro absent
      cases absent
    · rintro rfl
      exact absurd
        (List.isPrefixOf_iff_prefix.mpr (List.prefix_append marker rest))
        differs

theorem beforeMarker?_eq_some_iff {marker text rest : List Char} :
    beforeMarker? marker text = some rest ↔ text = rest ++ marker := by
  unfold beforeMarker?
  split
  next ends =>
    obtain ⟨head, rfl⟩ := List.isSuffixOf_iff_suffix.mp ends
    simp
  next differs =>
    constructor
    · intro absent
      cases absent
    · rintro rfl
      exact absurd
        (List.isSuffixOf_iff_suffix.mpr (List.suffix_append rest marker))
        differs

/-- The first mark of a text stands after a part without any. -/
theorem splitFirst_eq_some_iff {mark : Char} {text before after : List Char} :
    splitFirst mark text = some (before, after) ↔
      text = before ++ mark :: after ∧ mark ∉ before := by
  unfold splitFirst
  rw [List.span_eq_takeWhile_dropWhile]
  induction text generalizing before with
  | nil => simp
  | cons first later hypothesis =>
      by_cases isMark : first = mark
      · cases before with
        | nil => simp [isMark]
        | cons second rest =>
            simp only [isMark, ne_eq, not_true_eq_false, decide_false,
              Bool.false_eq_true, not_false_eq_true,
              List.takeWhile_cons_of_neg, List.dropWhile_cons_of_neg]
            grind
      · simp only [ne_eq, isMark, not_false_eq_true, decide_true,
          List.takeWhile_cons_of_pos, List.dropWhile_cons_of_pos]
        cases before <;> grind

end Text

/-! ## Numbers without an opposite -/

namespace Numeral

theorem isSome_digitValue?_of_foldlM
    {base start value : Nat} {digits : List Char}
    (reads : digits.foldlM (extend? base) start = some value) :
    ∀ digit ∈ digits, (digitValue? digit).isSome := by
  induction digits generalizing start with
  | nil => simp
  | cons first later hypothesis =>
      rw [List.foldlM_cons] at reads
      obtain ⟨next, extended, reads⟩ := Option.bind_eq_some_iff.mp reads
      intro digit member
      rcases List.mem_cons.mp member with rfl | member
      · obtain ⟨unit, isUnit, _⟩ := Option.bind_eq_some_iff.mp extended
        rw [isUnit]
        rfl
      · exact hypothesis reads digit member

/-- Only digits stand in a run of digits that has a value. -/
theorem isSome_digitValue?
    {base value : Nat} {digits : List Char}
    (reads : digits? base digits = some value) :
    ∀ digit ∈ digits, (digitValue? digit).isSome := by
  unfold digits? at reads
  split at reads
  · cases reads
  · exact isSome_digitValue?_of_foldlM reads

theorem fitsSigned_of_signed?
    {base : Nat} {text : List Char} {value : Int}
    (reads : signed? base text = some value) :
    FitsSigned value := by
  unfold signed? at reads
  simpa using (Option.filter_eq_some_iff.mp reads).2

/-- The least signed word is spelled with a minus sign. -/
theorem signed?_eq_least_iff
    {base : Nat} {text : List Char} :
    signed? base text = some (-0x8000000000000000) ↔
      ∃ digits, text = '-' :: digits ∧
        digits? base digits = some 0x8000000000000000 := by
  unfold signed?
  rw [Option.filter_eq_some_iff]
  split
  next rest => simp
  next rest =>
    simp only [List.cons.injEq, true_and, exists_eq_left']
    cases digits? base rest with
    | none => simp
    | some size =>
        show some (-(size : Int)) = _ ∧ _ ↔ _
        simp only [Option.some.injEq]
        constructor
        · rintro ⟨negated, -⟩
          omega
        · rintro rfl
          exact ⟨rfl, by decide⟩
  next unmarked =>
    simp only [Option.map_eq_some_iff]
    constructor
    · rintro ⟨⟨size, -, negative⟩, -⟩
      have : (0 : Int) ≤ Int.ofNat size := Int.natCast_nonneg size
      omega
    · rintro ⟨digits, rfl, -⟩
      exact absurd rfl (unmarked digits)

end Numeral

namespace Listing

/--
The spellings of a number that has no opposite in a signed word, behind a minus
sign.
-/
inductive NegatesLeast : List Char → Prop where
  | decimal {digits : List Char}
      (value : Numeral.digits? 10 digits = some 0x8000000000000000) :
      NegatesLeast ('-' :: '-' :: digits)
  | hexadecimal {digits : List Char}
      (value : Numeral.digits? 16 digits = some 0x8000000000000000) :
      NegatesLeast ('-' :: '0' :: 'x' :: '-' :: digits)

/-- A number that cannot be negated holds no brackets. -/
theorem NegatesLeast.not_mem
    {text : List Char}
    (negates : NegatesLeast text)
    {char : Char}
    (bracket : char = '(' ∨ char = ')') :
    char ∉ text := by
  have noDigit : Numeral.digitValue? char = none := by
    rcases bracket with rfl | rfl <;> decide
  have absent : ∀ {base value : Nat} {digits : List Char},
      Numeral.digits? base digits = some value → char ∉ digits := by
    intro base value digits reads member
    have isDigit := Numeral.isSome_digitValue? reads char member
    rw [noDigit] at isDigit
    cases isDigit
  have unlike : char ≠ '-' ∧ char ≠ '0' ∧ char ≠ 'x' := by
    rcases bracket with rfl | rfl <;> decide
  cases negates with
  | decimal value => simp [unlike, absent value]
  | hexadecimal value => simp [unlike, absent value]

theorem fitsSigned_of_magnitude?
    {digits : List Char} {value : Int}
    (reads : magnitude? digits = some value) :
    FitsSigned value := by
  unfold magnitude? at reads
  split at reads
  · exact Numeral.fitsSigned_of_signed? reads
  · exact Numeral.fitsSigned_of_signed? reads

theorem magnitude?_eq_least_iff
    {digits : List Char} :
    magnitude? digits = some (-0x8000000000000000) ↔
      NegatesLeast ('-' :: digits) := by
  constructor
  · intro reads
    unfold magnitude? at reads
    split at reads
    next hexadecimal marked =>
      obtain rfl := Text.afterMarker?_eq_some_iff.mp marked
      obtain ⟨run, rfl, value⟩ := Numeral.signed?_eq_least_iff.mp reads
      exact .hexadecimal value
    next unmarked =>
      obtain ⟨run, rfl, value⟩ := Numeral.signed?_eq_least_iff.mp reads
      exact .decimal value
  · intro negates
    cases negates with
    | decimal value => exact Numeral.signed?_eq_least_iff.mpr ⟨_, rfl, value⟩
    | hexadecimal value =>
        exact Numeral.signed?_eq_least_iff.mpr ⟨_, rfl, value⟩

/-! ## Where reading stops with a fault -/

@[simp]
theorem orReject_ne_fault
    {α : Type} {error : ListingError} {value : Option α} {fault : Fault} :
    orReject error value ≠ .error (.fault fault) := by
  cases value <;> simp [orReject, reject]

@[simp]
theorem reject_ne_fault {α : Type} {error : ListingError} {fault : Fault} :
    (reject error : Reading α) ≠ .error (.fault fault) := by
  simp [reject]

theorem orReject_eq_ok_iff
    {α : Type} {error : ListingError} {value : Option α} {result : α} :
    orReject error value = .ok result ↔ value = some result := by
  cases value <;> simp [orReject, reject]

theorem readNumber_eq_fault_iff
    {line : Nat} {text : List Char} {fault : Fault} :
    readNumber line text = .error (.fault fault) ↔
      fault = .negationOverflow ∧ NegatesLeast text := by
  unfold readNumber
  dsimp only
  split
  next digits marked =>
    obtain rfl := Text.afterMarker?_eq_some_iff.mp marked
    rw [List.singleton_append, ← magnitude?_eq_least_iff, bind_eq_error_iff]
    constructor
    · rintro (impossible | ⟨value, reads, stopped⟩)
      · exact absurd impossible orReject_ne_fault
      · rw [orReject_eq_ok_iff] at reads
        have fits := fitsSigned_of_magnitude? reads
        split at stopped
        · cases stopped
        next overflows =>
          cases stopped
          have least : value = -0x8000000000000000 := by
            unfold FitsSigned at fits overflows
            omega
          exact ⟨rfl, least ▸ reads⟩
    · rintro ⟨rfl, reads⟩
      exact .inr ⟨_, orReject_eq_ok_iff.mpr reads, rfl⟩
  next unmarked =>
    constructor
    · intro impossible
      exact absurd impossible orReject_ne_fault
    · rintro ⟨-, negates⟩
      cases negates <;> cases unmarked

theorem readRegister_ne_fault {line : Nat} {text : List Char} {fault : Fault} :
    readRegister line text ≠ .error (.fault fault) :=
  orReject_ne_fault

theorem readLocation_eq_fault_iff
    {line : Nat} {operand text : List Char} {fault : Fault} :
    readLocation line operand text = .error (.fault fault) ↔
      fault = .negationOverflow ∧ NegatesLeast text := by
  unfold readLocation
  rw [bind_eq_error_iff, readNumber_eq_fault_iff, or_iff_left]
  rintro ⟨value, -, stopped⟩
  split at stopped
  · cases stopped
  · exact reject_ne_fault stopped

/--
The operands that hold a number without an opposite, in every addressing mode
with a number.
-/
inductive OperandOverflows : List Char → Prop where
  | target {number : List Char} (negates : NegatesLeast number) :
    OperandOverflows number
  | immediate {number : List Char} (negates : NegatesLeast number) :
      OperandOverflows ('#' :: number)
  | absolute {number : List Char} (negates : NegatesLeast number) :
      OperandOverflows ('@' :: '#' :: number)
  | indexed
      {number register : List Char} {base : Register}
      (negates : NegatesLeast number)
      (named : Register.ofName? register = some base) :
      OperandOverflows (number ++ '(' :: (register ++ [')']))
  | indexedDeferred
      {number register : List Char} {base : Register}
      (negates : NegatesLeast number)
      (named : Register.ofName? register = some base) :
      OperandOverflows ('@' :: number ++ '(' :: (register ++ [')']))

theorem indexed?_eq_some_iff {text displacement register : List Char} :
    indexed? text = some (displacement, register) ↔
      text = displacement ++ '(' :: (register ++ [')']) ∧
        '(' ∉ displacement := by
  unfold indexed?
  rw [Option.bind_eq_some_iff]
  simp only [Text.beforeMarker?_eq_some_iff, Text.splitFirst_eq_some_iff]
  constructor
  · rintro ⟨inner, rfl, rfl, absent⟩
    exact ⟨by simp, absent⟩
  · rintro ⟨rfl, absent⟩
    exact ⟨displacement ++ '(' :: register, by simp, rfl, absent⟩

/--
A bind that only wraps the value it is given fails where its first part does.
-/
theorem bind_pure_eq_error_iff
    {ε α β : Type} {outcome : Except ε α} {wrap : α → β} {fault : ε} :
    (outcome >>= fun value => pure (wrap value)) = .error fault ↔
      outcome = .error fault := by
  cases outcome <;> simp [bind, Except.bind, pure, Except.pure]

theorem overflows_of_readPlainOperand
    {line : Nat} {text : List Char} {fault : Fault}
    (stopped : readPlainOperand line text = .error (.fault fault)) :
    fault = .negationOverflow ∧ OperandOverflows text := by
  unfold readPlainOperand at stopped
  split at stopped
  next displacement register isIndexed =>
    obtain ⟨rfl, -⟩ := indexed?_eq_some_iff.mp isIndexed
    rcases bind_eq_error_iff.mp stopped with
      impossible | ⟨base, isNamed, failed⟩
    · exact absurd impossible readRegister_ne_fault
    · have named := orReject_eq_ok_iff.mp isNamed
      split at failed
      next number marked =>
        obtain rfl := Text.afterMarker?_eq_some_iff.mp marked
        obtain ⟨isNegation, negates⟩ :=
          readNumber_eq_fault_iff.mp (bind_pure_eq_error_iff.mp failed)
        exact ⟨isNegation, .indexedDeferred negates named⟩
      next unmarked =>
        obtain ⟨isNegation, negates⟩ :=
          readNumber_eq_fault_iff.mp (bind_pure_eq_error_iff.mp failed)
        exact ⟨isNegation, .indexed negates named⟩
  next plain =>
    split at stopped
    · cases stopped
    next unnamed =>
      obtain ⟨isNegation, negates⟩ :=
        readLocation_eq_fault_iff.mp (bind_pure_eq_error_iff.mp stopped)
      exact ⟨isNegation, .target negates⟩

theorem overflows_of_readOperand
    {line : Nat} {text : List Char} {fault : Fault}
    (stopped : readOperand line text = .error (.fault fault)) :
    fault = .negationOverflow ∧ OperandOverflows text := by
  unfold readOperand at stopped
  split at stopped
  next location marked =>
    obtain rfl := Text.afterMarker?_eq_some_iff.mp marked
    obtain ⟨isNegation, negates⟩ :=
      readLocation_eq_fault_iff.mp (bind_pure_eq_error_iff.mp stopped)
    exact ⟨isNegation, .absolute negates⟩
  split at stopped
  next literal marked =>
    obtain rfl := Text.afterMarker?_eq_some_iff.mp marked
    obtain ⟨isNegation, negates⟩ :=
      readNumber_eq_fault_iff.mp (bind_pure_eq_error_iff.mp stopped)
    exact ⟨isNegation, .immediate negates⟩
  -- A register in brackets holds no number.
  iterate 3
    split at stopped
    next register marked =>
      exact absurd (bind_pure_eq_error_iff.mp stopped) readRegister_ne_fault
  exact overflows_of_readPlainOperand stopped

theorem NegatesLeast.ofName?
    {number : List Char}
    (negates : NegatesLeast number) :
    Register.ofName? number = none := by
  cases negates <;> rfl

theorem NegatesLeast.indexed?
    {number : List Char}
    (negates : NegatesLeast number) :
    Listing.indexed? number = none := by
  rw [Option.eq_none_iff_forall_ne_some]
  rintro ⟨displacement, register⟩ isIndexed
  obtain ⟨rfl, -⟩ := indexed?_eq_some_iff.mp isIndexed
  exact negates.not_mem (.inl rfl) (by simp)

/--
The forms of an operand that come before the plain ones start with other marks.
-/
theorem NegatesLeast.readOperand_append
    {number : List Char}
    (negates : NegatesLeast number)
    (line : Nat)
    (rest : List Char) :
    readOperand line (number ++ rest) =
      readPlainOperand line (number ++ rest) ∧
      readOperand line ('@' :: number ++ rest) =
        readPlainOperand line ('@' :: number ++ rest) := by
  cases negates <;> exact ⟨rfl, rfl⟩

theorem readOperand_of_overflows
    {line : Nat} {text : List Char}
    (overflows : OperandOverflows text) :
    readOperand line text = .error (.fault .negationOverflow) := by
  cases overflows with
  | target negates =>
      have plain := (negates.readOperand_append line []).1
      rw [List.append_nil] at plain
      rw [plain, readPlainOperand, negates.indexed?, negates.ofName?]
      exact bind_pure_eq_error_iff.mpr
        (readLocation_eq_fault_iff.mpr ⟨rfl, negates⟩)
  | immediate negates =>
      exact bind_pure_eq_error_iff.mpr
        (readNumber_eq_fault_iff.mpr ⟨rfl, negates⟩)
  | absolute negates =>
      exact bind_pure_eq_error_iff.mpr
        (readLocation_eq_fault_iff.mpr ⟨rfl, negates⟩)
  | @indexed number register base negates named =>
      rw [(negates.readOperand_append line _).1, readPlainOperand,
        indexed?_eq_some_iff.mpr ⟨rfl, negates.not_mem (.inl rfl)⟩]
      refine bind_eq_error_iff.mpr
        (.inr ⟨base, orReject_eq_ok_iff.mpr named, ?_⟩)
      have unmarked : Text.afterMarker? ['@'] number = none := by
        cases negates <;> rfl
      rw [unmarked]
      exact bind_pure_eq_error_iff.mpr
        (readNumber_eq_fault_iff.mpr ⟨rfl, negates⟩)
  | @indexedDeferred number register base negates named =>
      have bare : '(' ∉ '@' :: number := by
        simp [negates.not_mem (.inl rfl)]
      rw [(negates.readOperand_append line _).2, readPlainOperand,
        indexed?_eq_some_iff.mpr ⟨rfl, bare⟩]
      refine bind_eq_error_iff.mpr
        (.inr ⟨base, orReject_eq_ok_iff.mpr named, ?_⟩)
      exact bind_pure_eq_error_iff.mpr
        (readNumber_eq_fault_iff.mpr ⟨rfl, negates⟩)

/--
An operand stops the reading exactly if it holds a number without an opposite.
-/
theorem readOperand_eq_fault_iff
    {line : Nat} {text : List Char} {fault : Fault} :
    readOperand line text = .error (.fault fault) ↔
      fault = .negationOverflow ∧ OperandOverflows text := by
  constructor
  · exact overflows_of_readOperand
  · rintro ⟨rfl, overflows⟩
    exact readOperand_of_overflows overflows

/-! ## Instructions, lines and listings -/

/--
The instruction texts that reading cannot turn into an instruction: an operand
holds a number without an opposite, or the instruction would end past the last
address.
-/
inductive InstructionOverflows
    (line : Nat)
    (text : List Char) :
    Fault → Prop where
  | negation
      {address mnemonic : List Char} {words earlier later : List (List Char)}
      {operand : List Char} {lo : Nat} {operands : List Operand}
      (split : Text.words text = address :: mnemonic :: words)
      (located : readAddress line address = .ok lo)
      (listed : words.flatten.splitOn ',' = earlier ++ operand :: later)
      (before : earlier.mapM (readOperand line) = .ok operands)
      (overflows : OperandOverflows operand) :
      InstructionOverflows line text .negationOverflow
  | extent {address mnemonic : List Char} {words : List (List Char)} {lo : Nat}
      {operands : List Operand}
      (split : Text.words text = address :: mnemonic :: words)
      (located : readAddress line address = .ok lo)
      (listed : readOperands line words.flatten = .ok operands)
      (overflows : 0x10000000000000000 ≤
        lo + 2 * Instruction.wordCount (Mnemonic.ofName mnemonic).1 operands) :
      InstructionOverflows line text (.extentOverflow lo)

theorem not_operandOverflows_nil : ¬ OperandOverflows [] := by
  intro overflows
  generalize empty : ([] : List Char) = text at overflows
  cases overflows with
  | target negates => cases negates <;> cases empty
  | immediate | absolute | indexedDeferred => cases empty
  | indexed => simp at empty

theorem readOperands_eq_fault_iff
    {line : Nat} {text : List Char} {fault : Fault} :
    readOperands line text = .error (.fault fault) ↔
      fault = .negationOverflow ∧ ∃ earlier operand later operands,
        text.splitOn ',' = earlier ++ operand :: later ∧
        earlier.mapM (readOperand line) = .ok operands ∧
          OperandOverflows operand := by
  unfold readOperands
  split
  next empty =>
    subst empty
    constructor
    · intro impossible
      cases impossible
    · rintro ⟨-, earlier, operand, later, operands, listed, -, overflows⟩
      have isEmpty : operand = [] := by
        have member : operand ∈ ([] : List Char).splitOn ',' := by
          simp [listed]
        simpa using member
      exact absurd (isEmpty ▸ overflows) not_operandOverflows_nil
  next given =>
    rw [mapM_eq_error_iff]
    simp only [readOperand_eq_fault_iff]
    constructor
    · rintro ⟨earlier, operand, later, operands, listed, before, isNegation,
        overflows⟩
      exact ⟨isNegation, earlier, operand, later, operands, listed, before,
        overflows⟩
    · rintro ⟨isNegation, earlier, operand, later, operands, listed, before,
        overflows⟩
      exact ⟨earlier, operand, later, operands, listed, before, isNegation,
        overflows⟩

theorem assemble_eq_error_iff
    {lo : Nat} {mnemonic : Mnemonic} {width : Width} {operands : List Operand}
    {fault : Fault} :
    Instruction.assemble lo mnemonic width operands = .error fault ↔
      fault = .extentOverflow lo ∧
        0x10000000000000000 ≤ lo +
          2 * Instruction.wordCount mnemonic operands := by
  unfold Instruction.assemble
  split
  next fits =>
    unfold FitsUnsigned at fits
    simp only [reduceCtorEq, false_iff]
    omega
  next overflows =>
    unfold FitsUnsigned at overflows
    simp only [Except.error.injEq, eq_comm, iff_self_and]
    omega

theorem readInstruction_eq_fault_iff
    {line : Nat} {text : List Char} {fault : Fault} :
    readInstruction line text = .error (.fault fault) ↔
      InstructionOverflows line text fault := by
  unfold readInstruction
  split
  next address mnemonic words split =>
    constructor
    · intro stopped
      rcases bind_eq_error_iff.mp stopped with
        impossible | ⟨lo, located, onOperands⟩
      · exact absurd impossible orReject_ne_fault
      rcases bind_eq_error_iff.mp onOperands with
        onOperand | ⟨operands, listed, onExtent⟩
      · obtain ⟨rfl, earlier, operand, later, operands, listed, before,
            overflows⟩ :=
          readOperands_eq_fault_iff.mp onOperand
        exact .negation split located listed before overflows
      · dsimp only at onExtent
        split at onExtent
        · cases onExtent
        next raised assembled =>
          cases onExtent
          obtain ⟨rfl, overflows⟩ := assemble_eq_error_iff.mp assembled
          exact .extent split located listed overflows
    · intro overflows
      cases overflows with
      | negation listing located listed before overflows =>
          cases split.symm.trans listing
          refine bind_eq_error_iff.mpr
            (.inr ⟨_, located, bind_eq_error_iff.mpr (.inl ?_)⟩)
          exact readOperands_eq_fault_iff.mpr ⟨rfl, _, _, _, _, listed, before,
            overflows⟩
      | extent listing located listed overflows =>
          cases split.symm.trans listing
          refine bind_eq_error_iff.mpr (.inr ⟨_, located, ?_⟩)
          refine bind_eq_error_iff.mpr (.inr ⟨_, listed, ?_⟩)
          dsimp only
          rw [assemble_eq_error_iff.mpr ⟨rfl, overflows⟩]
  next short =>
    constructor
    · intro impossible
      exact absurd impossible reject_ne_fault
    · intro overflows
      cases overflows with
      | negation split => exact absurd split (short _ _ _)
      | extent split => exact absurd split (short _ _ _)

theorem readCodeLine_eq_fault_iff
    {image : Image} {line : Nat} {text : List Char} {fault : Fault} :
    readCodeLine image line text = .error (.fault fault) ↔
      InstructionOverflows line (splitComment text).1 fault := by
  unfold readCodeLine
  rw [← readInstruction_eq_fault_iff]
  dsimp only
  rw [bind_eq_error_iff, or_iff_left]
  rintro ⟨instruction, -, stopped⟩
  split at stopped
  · exact reject_ne_fault stopped
  · split at stopped
    · exact reject_ne_fault stopped
    · split at stopped <;> cases stopped

theorem readAddresses_ne_fault
    {line : Nat} {text : List Char} {fault : Fault} :
    readAddresses line text ≠ .error (.fault fault) := by
  intro stopped
  obtain ⟨_, address, _, _, _, _, failed⟩ := mapM_eq_error_iff.mp stopped
  exact orReject_ne_fault failed

theorem readSectionLine_ne_fault
    {draft : Draft} {line : Nat} {text : List Char} {fault : Fault} :
    readSectionLine draft line text ≠ .error (.fault fault) := by
  unfold readSectionLine
  dsimp only
  split
  · exact reject_ne_fault
  · intro stopped
    exact readAddresses_ne_fault (bind_pure_eq_error_iff.mp stopped)
  · split
    · simp
    · exact reject_ne_fault

theorem readMemoryLine_ne_fault
    {image : Image} {line : Nat} {text : List Char} {fault : Fault} :
    readMemoryLine image line text ≠ .error (.fault fault) := by
  intro stopped
  rcases bind_eq_error_iff.mp stopped with impossible | ⟨parts, -, stopped⟩
  · exact orReject_ne_fault impossible
  rcases bind_eq_error_iff.mp stopped with impossible | ⟨address, -, stopped⟩
  · exact orReject_ne_fault impossible
  rcases bind_eq_error_iff.mp stopped with stopped | ⟨bytes, -, impossible⟩
  · obtain ⟨_, byte, _, _, _, _, failed⟩ := mapM_eq_error_iff.mp stopped
    exact orReject_ne_fault (bind_pure_eq_error_iff.mp failed)
  · cases impossible

theorem readNameLine_ne_fault {line : Nat} {text : List Char} {fault : Fault} :
    readNameLine line text ≠ .error (.fault fault) := by
  unfold readNameLine
  split
  · intro stopped
    exact orReject_ne_fault (bind_pure_eq_error_iff.mp stopped)
  · exact reject_ne_fault

theorem not_instructionOverflows_nil {line : Nat} {fault : Fault} :
    ¬ InstructionOverflows line [] fault := by
  intro overflows
  cases overflows with
  | negation split => cases split
  | extent split => cases split

/-- Only lines of code can stop the reading with a fault. -/
theorem readLine_eq_fault_iff
    {draft : Draft} {numbered : List Char × Nat} {fault : Fault} :
    readLine draft numbered = .error (.fault fault) ↔
      draft.current = some .code ∧
        InstructionOverflows numbered.2 (splitComment (Text.trim numbered.1)).1
          fault := by
  unfold readLine
  dsimp only
  split
  next blank =>
    rw [blank]
    refine iff_of_false ?_ (fun overflows =>
      not_instructionOverflows_nil overflows.2)
    intro impossible
    cases impossible
  next written =>
    split
    next closed => simp [closed, readSectionLine_ne_fault]
    next isMemory =>
      rw [bind_pure_eq_error_iff]
      simp [isMemory, readMemoryLine_ne_fault]
    next isRuntime =>
      rw [bind_pure_eq_error_iff]
      simp [isRuntime, readNameLine_ne_fault]
    next isLabels =>
      rw [bind_pure_eq_error_iff]
      simp [isLabels, readNameLine_ne_fault]
    next isEntry =>
      rw [bind_pure_eq_error_iff]
      simp [isEntry, readAddresses_ne_fault]
    next isCode =>
      rw [bind_pure_eq_error_iff, readCodeLine_eq_fault_iff]
      simp [isCode]

/-- The lines of a listing from its header on, each with its number. -/
def contentLines (text : String) : List (List Char × Nat) :=
  ((Text.lines text.toList).zipIdx 1).dropWhile (fun line =>
    Text.trim line.1 = [])

/--
The texts on which reading stops with a fault: all lines before some line of
code can be read, and the instruction on that line overflows.
-/
def OverflowsAt (text : String) (fault : Fault) : Prop :=
  ∃ header name earlier line later draft,
    contentLines text = header :: (earlier ++ line :: later) ∧
    headerName? header.1 = some name ∧
    earlier.foldlM readLine { image := { name } } = .ok draft ∧
    draft.current = some .code ∧
    InstructionOverflows line.2 (splitComment (Text.trim line.1)).1 fault

theorem readDraft_eq_fault_iff {text : String} {fault : Fault} :
    readDraft text = .error (.fault fault) ↔ OverflowsAt text fault := by
  unfold readDraft
  dsimp only
  split
  next empty =>
    refine iff_of_false reject_ne_fault ?_
    rintro ⟨header, name, earlier, line, later, draft, lines, -⟩
    cases empty.symm.trans lines
  next header body content =>
    constructor
    · intro stopped
      rcases bind_eq_error_iff.mp stopped with
        impossible | ⟨name, named, onBody⟩
      · exact absurd impossible orReject_ne_fault
      rcases bind_eq_error_iff.mp onBody with onLine | ⟨draft, -, atEnd⟩
      · obtain ⟨earlier, line, later, draft, rfl, before, failed⟩ :=
          foldlM_eq_error_iff.mp onLine
        obtain ⟨isCode, overflows⟩ := readLine_eq_fault_iff.mp failed
        exact ⟨header, name, earlier, line, later, draft, content,
          orReject_eq_ok_iff.mp named, before, isCode, overflows⟩
      · split at atEnd
        · cases atEnd
        · exact absurd atEnd reject_ne_fault
    · rintro ⟨other, name, earlier, line, later, draft, lines, named, before,
        isCode, overflows⟩
      cases content.symm.trans lines
      refine bind_eq_error_iff.mpr
        (.inr ⟨name, orReject_eq_ok_iff.mpr named, ?_⟩)
      refine bind_eq_error_iff.mpr (.inl (foldlM_eq_error_iff.mpr ?_))
      exact ⟨earlier, line, later, draft, rfl, before,
        readLine_eq_fault_iff.mpr ⟨isCode, overflows⟩⟩

/--
Reading a text gives a listing or rejects the text, except where a line of code
can be reached whose instruction overflows; there, and only there, it stops
with the fault.
-/
theorem lift_faults_iff_overflowsAt
    (text : String) :
    ((∃ lifted, lift text = .ok lifted) ∨
      (∃ error, lift text = .error (.rejected error)) ↔
      ¬ ∃ fault, OverflowsAt text fault) ∧
    ∀ fault, lift text = .error (.fault fault) ↔ OverflowsAt text fault := by
  have faults : ∀ fault, lift text = .error (.fault fault) ↔
      OverflowsAt text fault := by
    intro fault
    rw [← readDraft_eq_fault_iff]
    exact bind_pure_eq_error_iff
  refine ⟨?_, faults⟩
  simp only [← faults]
  cases lift text with
  | ok lifted => simp
  | error interruption => cases interruption <;> simp

/-- The fault that a reading stopped with. -/
def fault? {α : Type} : Reading α → Option Fault
  | .error (.fault fault) => some fault
  | .error (.rejected _) | .ok _ => none

theorem eq_fault_of_fault?
    {α : Type} {reading : Reading α} {fault : Fault}
    (stopped : fault? reading = some fault) :
    reading = .error (.fault fault) := by
  cases reading with
  | ok value => cases stopped
  | error interruption =>
      cases interruption with
      | rejected error => cases stopped
      | fault raised => exact congrArg _ (congrArg _ (Option.some.inj stopped))

/--
Not every text is read or rejected: a minus sign too many before the least
signed word stops the reading, and so does an instruction at the last address.
-/
theorem not_lift_handles_outOfRange :
    ¬ (∀ text, (∃ lifted, lift text = .ok lifted) ∨ ∃ error,
      lift text = .error (.rejected error)) ∧
    lift "LISTING x\n\nCODE\n1000 mov #--9223372036854775808,r0\n" =
      .error (.fault .negationOverflow) ∧
    lift "LISTING x\n\nCODE\nffffffffffffffff rts pc\n" =
      .error (.fault (.extentOverflow 0xffffffffffffffff)) := by
  have negation :
      lift "LISTING x\n\nCODE\n1000 mov #--9223372036854775808,r0\n" =
      .error (.fault .negationOverflow) :=
    eq_fault_of_fault? (by decide +kernel)
  have extent : lift "LISTING x\n\nCODE\nffffffffffffffff rts pc\n" =
      .error (.fault (.extentOverflow 0xffffffffffffffff)) :=
    eq_fault_of_fault? (by decide +kernel)
  refine ⟨?_, negation, extent⟩
  intro handles
  rcases handles "LISTING x\n\nCODE\n1000 mov #--9223372036854775808,r0\n" with
    ⟨lifted, isLifted⟩ | ⟨error, isRejected⟩
  · cases negation.symm.trans isLifted
  · cases negation.symm.trans isRejected

end Listing

end ProcRecovery
