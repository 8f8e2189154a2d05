import Mathlib.Data.List.Pairwise
import ProcRecovery.Proofs.Image.Layout
import ProcRecovery.Proofs.Listing.Overflow

/-!
# Statements of a listing

A line of a listing says something that does not depend on the other lines:
that there are bytes, a routine, a label or an instruction at an address, or
that decoding starts there.  Only which section is open decides how a line is
taken.  `Means` describes this for one line.  A listing is accepted exactly if
every line says something, there is a code section, and the instructions are
valid and keep apart; its tables are then those of what has been said.
-/

namespace ProcRecovery

namespace Listing

/-! ## Readers and line numbers -/

theorem toOption_orReject
    {α : Type}
    (error : ListingError)
    (value : Option α) :
    (orReject error value).toOption = value := by
  cases value <;> rfl

/-- Errors apart, an address reads the same on every line. -/
theorem toOption_readAddress (line other : Nat) (text : List Char) :
    (readAddress line text).toOption = (readAddress other text).toOption := by
  simp only [readAddress, toOption_orReject]

theorem toOption_readNumber (line other : Nat) (text : List Char) :
    (readNumber line text).toOption = (readNumber other text).toOption := by
  unfold readNumber
  dsimp only
  split
  · simp only [toOption_bind, toOption_orReject]
  · simp only [toOption_orReject]

theorem toOption_readRegister (line other : Nat) (text : List Char) :
    (readRegister line text).toOption =
      (readRegister other text).toOption := by
  simp only [readRegister, toOption_orReject]

theorem toOption_readLocation
    (line other : Nat)
    (operand text : List Char) :
    (readLocation line operand text).toOption =
      (readLocation other operand text).toOption := by
  unfold readLocation
  rw [toOption_bind, toOption_bind, toOption_readNumber line other]
  apply congrArg
  funext value
  split <;> rfl

theorem toOption_readPlainOperand
    (line other : Nat)
    (text : List Char) :
    (readPlainOperand line text).toOption =
      (readPlainOperand other text).toOption := by
  unfold readPlainOperand
  split
  next displacement register _ =>
    rw [toOption_bind, toOption_bind, toOption_readRegister line other]
    apply congrArg
    funext base
    split
    · rw [toOption_bind, toOption_bind, toOption_readNumber line other]
    · rw [toOption_bind, toOption_bind, toOption_readNumber line other]
  next =>
    split
    · rfl
    · rw [toOption_bind, toOption_bind, toOption_readLocation line other]

theorem toOption_readOperand (line other : Nat) (text : List Char) :
    (readOperand line text).toOption = (readOperand other text).toOption := by
  unfold readOperand
  split
  · rw [toOption_bind, toOption_bind, toOption_readLocation line other]
  split
  · rw [toOption_bind, toOption_bind, toOption_readNumber line other]
  iterate 3
    split
    · rw [toOption_bind, toOption_bind, toOption_readRegister line other]
  exact toOption_readPlainOperand line other text

theorem toOption_readInstruction
    (line other : Nat)
    (text : List Char) :
    (readInstruction line text).toOption =
      (readInstruction other text).toOption := by
  unfold readInstruction
  split
  next address mnemonic operands _ =>
    rw [toOption_bind, toOption_bind, toOption_readAddress line other]
    apply congrArg
    funext lo
    rw [toOption_bind, toOption_bind]
    have same : (readOperands line operands.flatten).toOption =
        (readOperands other operands.flatten).toOption := by
      unfold readOperands
      split
      · rfl
      · exact toOption_mapM_congr (toOption_readOperand line other) _
    rw [same]
  next => rfl

/-- The address that a text spells. -/
def address? (text : List Char) : Option Nat := (readAddress 0 text).toOption

/-- The byte that a text spells. -/
def byte? (text : List Char) : Option UInt8 := (readByte 0 text).toOption

/-- The instruction that a text spells. -/
def instruction? (text : List Char) : Option Instruction :=
  (readInstruction 0 text).toOption

theorem readAddress_eq_ok_iff {line address : Nat} {text : List Char} :
    readAddress line text = .ok address ↔ address? text = some address := by
  rw [address?, toOption_readAddress 0 line, toOption_eq_some_iff]

theorem readByte_eq_ok_iff {line : Nat} {text : List Char} {byte : UInt8} :
    readByte line text = .ok byte ↔ byte? text = some byte := by
  have same : (readByte 0 text).toOption = (readByte line text).toOption := by
    simp only [readByte, toOption_bind, toOption_orReject]
  rw [byte?, same, toOption_eq_some_iff]

theorem readInstruction_eq_ok_iff
    {line : Nat} {text : List Char} {instruction : Instruction} :
    readInstruction line text = .ok instruction ↔
      instruction? text = some instruction := by
  rw [instruction?, toOption_readInstruction 0 line, toOption_eq_some_iff]

/-- The texts spell addresses. -/
abbrev Spell (texts : List (List Char)) (addresses : List Nat) : Prop :=
  List.Forall₂ (fun text address => address? text = some address) texts
    addresses

theorem readAddresses_eq_ok_iff
    {line : Nat} {text : List Char} {addresses : List Nat} :
    readAddresses line text = .ok addresses ↔
    Spell (Text.words text) addresses := by
  rw [readAddresses, mapM_eq_ok_iff]
  simp only [readAddress_eq_ok_iff]

/-! ## Lines -/

/-- What a line of a listing can say. -/
inductive Statement where
  /-- There is a code section. -/
  | codeSection
  | memory (address : Nat) (bytes : List UInt8)
  | routine (address : Nat) (name : String)
  | label (address : Nat) (name : String)
  /-- Decoding starts at an address. -/
  | entry (address : Nat)
  | code (instruction : Instruction) (comment : Option String)

/--
The word that a section line starts with, and what follows the blank after it.
-/
def sectionParts (text : List Char) : List Char × List Char :=
  (Text.splitFirst ' ' text).getD (text, [])

/--
What a line without outer blanks means, by the section that is open before it,
and the section that is open after it.
-/
inductive Means :
    Option SectionKind → List Char → Option SectionKind → List Statement → Prop
  | blank {current : Option SectionKind} : Means current [] none []
  | opensEntry {text rest : List Char} {addresses : List Nat}
      (parts : sectionParts text = ("ENTRY".toList, rest))
      (spelled : Spell (Text.words rest) addresses) :
      Means none text (some .entry) (addresses.map .entry)
  | opens
      {text header rest : List Char} {kind : SectionKind}
      (parts : sectionParts text = (header, rest))
      (named : SectionKind.ofName? header = some kind)
      (notEntry : kind ≠ .entry)
      (bare : Text.trim rest = []) :
      Means none text (some kind) (if kind = .code then [.codeSection] else [])
  | memory {text before after : List Char} {address : Nat} {bytes : List UInt8}
      (parts : Text.splitFirst ':' text = some (before, after))
      (located : address? (Text.trim before) = some address)
      (spelled :
        List.Forall₂ (fun word byte => byte? word = some byte)
        (Text.words after) bytes) :
      Means (some .memory) text (some .memory) [.memory address bytes]
  | routine
      {text place name : List Char} {address : Nat}
      (parts : Text.words text = [place, name])
      (located : address? place = some address) :
      Means (some .runtime) text (some .runtime)
      [.routine address (String.ofList name)]
  | label
      {text place name : List Char} {address : Nat}
      (parts : Text.words text = [place, name])
      (located : address? place = some address) :
      Means (some .labels) text (some .labels)
      [.label address (String.ofList name)]
  | entries {text : List Char} {addresses : List Nat} (written : text ≠ [])
      (spelled : Spell (Text.words text) addresses) :
      Means (some .entry) text (some .entry) (addresses.map .entry)
  | code {text : List Char} {instruction : Instruction}
      (spelled : instruction? (splitComment text).1 = some instruction) :
      Means (some .code) text (some .code)
      [.code instruction (splitComment text).2]

/-- The image with a comment on an address, if there is one. -/
def remarked (image : Image) (address : Nat) : Option String → Image
  | some comment => image.setComment address comment
  | none => image

/--
The draft with what a statement says.  An instruction has to be valid, and its
bytes must not be taken.
-/
def Draft.accept (draft : Draft) : Statement → Option Draft
  | .codeSection => some { draft with hasCode := true }
  | .memory address bytes =>
      some { draft with image := draft.image.addMemory address bytes }
  | .routine address name =>
      some { draft with image := draft.image.addRoutine address name }
  | .label address name =>
      some { draft with image := draft.image.setLabel address name }
  | .entry address => some { draft with entries := draft.entries ++ [address] }
  | .code instruction comment =>
    if instruction.defect? = none then
      (draft.image.addCode instruction).toOption.map (fun extended =>
        { draft with image := remarked extended instruction.lo comment })
    else none

/-- The draft with what some statements say. -/
def Draft.acceptAll
    (draft : Draft)
    (statements : List Statement) :
    Option Draft :=
  statements.foldlM Draft.accept draft

theorem acceptAll_entries (draft : Draft) (addresses : List Nat) :
    draft.acceptAll (addresses.map .entry) =
      some { draft with entries := draft.entries ++ addresses } := by
  induction addresses generalizing draft with
  | nil => simp [Draft.acceptAll]
  | cons address later hypothesis =>
      have next :=
        hypothesis { draft with entries := draft.entries ++ [address] }
      rw [List.append_assoc] at next
      exact next

theorem acceptAll_singleton (draft : Draft) (statement : Statement) :
    draft.acceptAll [statement] = draft.accept statement := by
  simp [Draft.acceptAll]

theorem readMemoryLine_eq_ok_iff
    {image read : Image} {line : Nat} {text : List Char} :
    readMemoryLine image line text = .ok read ↔
      ∃ before after address bytes,
        Text.splitFirst ':' text = some (before, after) ∧
        address? (Text.trim before) = some address ∧
        List.Forall₂ (fun word byte => byte? word = some byte)
          (Text.words after) bytes ∧
        read = image.addMemory address bytes := by
  unfold readMemoryLine
  simp only [bind_eq_ok_iff, orReject_eq_ok_iff, readAddress_eq_ok_iff,
    mapM_eq_ok_iff, readByte_eq_ok_iff, Except.ok.injEq, Prod.exists]
  constructor
  · rintro ⟨before, after, parts, address, located, bytes, spelled, rfl⟩
    exact ⟨before, after, address, bytes, parts, located, spelled, rfl⟩
  · rintro ⟨before, after, address, bytes, parts, located, spelled, rfl⟩
    exact ⟨before, after, parts, address, located, bytes, spelled, rfl⟩

theorem readNameLine_eq_ok_iff
    {line : Nat} {text : List Char} {read : Nat × String} :
    readNameLine line text = .ok read ↔
      ∃ place name address, Text.words text = [place, name] ∧
        address? place = some address ∧
        read = (address, String.ofList name) := by
  unfold readNameLine
  split
  next place name parts =>
    rw [bind_eq_ok_iff]
    constructor
    · rintro ⟨address, located, same⟩
      cases same
      exact ⟨place, name, address, parts, readAddress_eq_ok_iff.mp located,
        rfl⟩
    · rintro ⟨other, otherName, address, same, located, rfl⟩
      rw [parts] at same
      cases same
      exact ⟨address, readAddress_eq_ok_iff.mpr located, rfl⟩
  next otherwise =>
    constructor
    · intro impossible
      cases impossible
    · rintro ⟨place, name, address, parts, -⟩
      exact absurd parts (otherwise place name)

theorem readCodeLine_eq_ok_iff
    {draft : Draft} {read : Image} {line : Nat} {text : List Char} :
    readCodeLine draft.image line text = .ok read ↔
      ∃ instruction, instruction? (splitComment text).1 = some instruction ∧
        draft.accept (.code instruction (splitComment text).2) =
          some { draft with image := read } := by
  unfold readCodeLine
  dsimp only
  rw [bind_eq_ok_iff]
  apply exists_congr
  intro instruction
  rw [readInstruction_eq_ok_iff]
  apply and_congr_right
  intro spelled
  rw [Draft.accept]
  cases validity : instruction.defect? with
  | some defect => simp [reject]
  | none =>
      cases addition : draft.image.addCode instruction with
      | error clash => simp [reject, Except.toOption]
      | ok extended =>
          cases (splitComment text).2 <;> simp [Except.toOption, remarked]

theorem eq_entry_of_ofName?
    {name : List Char}
    (named : SectionKind.ofName? name = some .entry) :
    name = "ENTRY".toList := by
  unfold SectionKind.ofName? at named
  split at named
  next => cases named
  split at named
  next => cases named
  split at named
  next => cases named
  split at named
  next isEntry => exact isEntry
  split at named
  next => cases named
  next => cases named

theorem readSectionLine_eq_ok_iff
    {draft next : Draft} {line : Nat} {text : List Char} :
    readSectionLine draft line text = .ok next ↔
      ∃ kind statements, Means none text (some kind) statements ∧
        { draft with current := some kind }.acceptAll statements =
          some next := by
  obtain ⟨header, rest, parts⟩ :
      ∃ header rest, sectionParts text = (header, rest) := ⟨_, _, rfl⟩
  unfold readSectionLine
  dsimp only
  rw [show (Text.splitFirst ' ' text).getD (text, []) =
    (header, rest) from parts]
  dsimp only
  constructor
  · intro read
    split at read
    next => cases read
    next isEntry =>
      rcases bind_eq_ok_iff.mp read with ⟨addresses, spelled, same⟩
      cases same
      have header_eq := eq_entry_of_ofName? isEntry
      subst header_eq
      exact ⟨.entry, _, .opensEntry parts (readAddresses_eq_ok_iff.mp spelled),
        acceptAll_entries _ addresses⟩
    next kind notEntry named =>
      split at read
      next bare =>
        cases read
        refine ⟨kind, _, .opens parts named notEntry bare, ?_⟩
        by_cases isCode : kind = .code
        · simp [isCode, acceptAll_singleton, Draft.accept]
        · simp [isCode, Draft.acceptAll]
      next => cases read
  · rintro ⟨kind, statements, means, accepted⟩
    cases means with
    | opensEntry others spelled =>
        rw [parts] at others
        cases others
        rw [acceptAll_entries] at accepted
        cases accepted
        exact bind_eq_ok_iff.mpr ⟨_, readAddresses_eq_ok_iff.mpr spelled, rfl⟩
    | opens others named notEntry bare =>
        rw [parts] at others
        cases others
        rw [named]
        split
        next absent => cases absent
        next isEntry =>
          cases isEntry
          exact absurd rfl notEntry
        next other _ same =>
          cases same
          rw [if_pos bare]
          by_cases isCode : kind = .code
          · subst isCode
            rw [if_pos rfl, acceptAll_singleton] at accepted
            cases accepted
            simp
          · rw [if_neg isCode] at accepted
            cases accepted
            simp [isCode]

/-- An instruction changes nothing but the image. -/
theorem eq_of_accept_code
    {draft next : Draft} {instruction : Instruction} {comment : Option String}
    (accepted : draft.accept (.code instruction comment) = some next) :
    next = { draft with image := next.image } := by
  rw [Draft.accept] at accepted
  split at accepted
  next =>
    rcases Option.map_eq_some_iff.mp accepted with ⟨extended, -, rfl⟩
    rfl
  next => cases accepted

theorem current_of_accept
    {draft next : Draft} {statement : Statement}
    (accepted : draft.accept statement = some next) :
    next.current = draft.current := by
  cases statement with
  | code instruction comment => rw [eq_of_accept_code accepted]
  | _ =>
      cases accepted
      rfl

theorem current_of_acceptAll
    {draft next : Draft} {statements : List Statement}
    (accepted : draft.acceptAll statements = some next) :
    next.current = draft.current := by
  induction statements generalizing draft with
  | nil =>
      cases accepted
      rfl
  | cons first later hypothesis =>
      rw [Draft.acceptAll, List.foldlM_cons] at accepted
      rcases Option.bind_eq_some_iff.mp accepted with ⟨middle, stepped, rest⟩
      exact (hypothesis rest).trans (current_of_accept stepped)

/-- A line after which a section is open is not blank. -/
theorem Means.ne_nil
    {current : Option SectionKind} {text : List Char} {kind : SectionKind}
    {statements : List Statement}
    (means : Means current text (some kind) statements) :
    text ≠ [] := by
  rintro rfl
  cases means with
  | opensEntry parts => cases parts
  | opens parts named =>
      cases parts
      cases named
  | memory parts => cases parts
  | routine parts => cases parts
  | label parts => cases parts
  | entries written => exact written rfl
  | code spelled => cases spelled

/-! ## Lines -/

section Lines

variable {draft next : Draft} {line : Nat} {text : List Char}

/--
A line means something by the section that is open, and the draft accepts it.
-/
def Draft.Reads (draft : Draft) (text : List Char) (next : Draft) : Prop :=
  ∃ statements, Means draft.current text next.current statements ∧
    { draft with current := next.current }.acceptAll statements = some next

theorem reads_blank_iff :
    draft.Reads [] next ↔ { draft with current := none } = next := by
  constructor
  · rintro ⟨statements, means, accepted⟩
    cases isNext : next.current with
    | some kind =>
        rw [isNext] at means
        exact absurd rfl means.ne_nil
    | none =>
        rw [isNext] at means accepted
        generalize draft.current = current at means
        cases means
        exact Option.some.inj accepted
  · rintro rfl
    exact ⟨[], .blank, rfl⟩

/-- Where no section is open, a line opens one. -/
theorem readSectionLine_iff_reads
    (written : text ≠ [])
    (isClosed : draft.current = none) :
    readSectionLine draft line text = .ok next ↔ draft.Reads text next := by
  rw [readSectionLine_eq_ok_iff, Draft.Reads, isClosed]
  constructor
  · rintro ⟨kind, statements, means, accepted⟩
    have current_eq := current_of_acceptAll accepted
    rw [current_eq]
    exact ⟨statements, means, accepted⟩
  · rintro ⟨statements, means, accepted⟩
    cases isNext : next.current with
    | none =>
        rw [isNext] at means
        cases means
        exact absurd rfl written
    | some kind =>
        rw [isNext] at means accepted
        exact ⟨kind, statements, means, accepted⟩

/--
A line in an open section means exactly one kind of statements, and it leaves
the section open.
-/
theorem reads_iff_of_open
    {kind : SectionKind}
    (written : text ≠ [])
    (isOpen : draft.current = some kind) :
    draft.Reads text next ↔
      ∃ statements, Means (some kind) text (some kind) statements ∧
        draft.acceptAll statements = some next := by
  have same : { draft with current := some kind } = draft := by rw [← isOpen]
  rw [Draft.Reads, isOpen]
  constructor
  · rintro ⟨statements, means, accepted⟩
    have isNext : next.current = some kind := by
      generalize next.current = after at means
      cases means with
      | blank => exact absurd rfl written
      | _ => rfl
    rw [isNext] at means accepted
    rw [same] at accepted
    exact ⟨statements, means, accepted⟩
  · rintro ⟨statements, means, accepted⟩
    rw [(current_of_acceptAll accepted).trans isOpen, same]
    exact ⟨statements, means, accepted⟩

theorem readMemoryLine_iff_reads
    (written : text ≠ [])
    (isMemory : draft.current = some .memory) :
    (∃ image, readMemoryLine draft.image line text = .ok image ∧
      { draft with image } = next) ↔ draft.Reads text next := by
  rw [reads_iff_of_open written isMemory]
  constructor
  · rintro ⟨image, isImage, rfl⟩
    rcases readMemoryLine_eq_ok_iff.mp isImage with
      ⟨before, after, address, bytes, parts, located, spelled, rfl⟩
    exact ⟨_, .memory parts located spelled, rfl⟩
  · rintro ⟨statements, means, accepted⟩
    cases means with
    | memory parts located spelled =>
        exact ⟨_, readMemoryLine_eq_ok_iff.mpr
          ⟨_, _, _, _, parts, located, spelled, rfl⟩, Option.some.inj accepted⟩

theorem means_routine_iff {statements : List Statement} :
    Means (some .runtime) text (some .runtime) statements ↔
      ∃ place name address, Text.words text = [place, name] ∧
        address? place = some address ∧
        statements = [.routine address (String.ofList name)] := by
  constructor
  · intro means
    cases means with
    | routine parts located => exact ⟨_, _, _, parts, located, rfl⟩
  · rintro ⟨place, name, address, parts, located, rfl⟩
    exact .routine parts located

theorem means_label_iff {statements : List Statement} :
    Means (some .labels) text (some .labels) statements ↔
      ∃ place name address, Text.words text = [place, name] ∧
        address? place = some address ∧
        statements = [.label address (String.ofList name)] := by
  constructor
  · intro means
    cases means with
    | label parts located => exact ⟨_, _, _, parts, located, rfl⟩
  · rintro ⟨place, name, address, parts, located, rfl⟩
    exact .label parts located

/-- Where a table of names is open, a line adds a name to it. -/
theorem readNameLine_iff_reads
    {kind : SectionKind}
    (written : text ≠ [])
    (isOpen : draft.current = some kind)
    {statement : Nat → String → Statement} {added : Nat → String → Draft}
    (accept_eq : ∀ address name, draft.accept (statement address name) =
      some (added address name))
    (means_iff : ∀ {statements},
      Means (some kind) text (some kind) statements ↔
      ∃ place name address, Text.words text = [place, name] ∧
      address? place = some address ∧
      statements = [statement address (String.ofList name)]) :
    (∃ named, readNameLine line text = .ok named ∧
      added named.1 named.2 = next) ↔ draft.Reads text next := by
  rw [reads_iff_of_open written isOpen]
  constructor
  · rintro ⟨named, isNamed, rfl⟩
    rcases readNameLine_eq_ok_iff.mp isNamed with
      ⟨place, name, address, parts, located, rfl⟩
    refine ⟨_, means_iff.mpr ⟨place, name, address, parts, located, rfl⟩, ?_⟩
    rw [acceptAll_singleton, accept_eq]
  · rintro ⟨statements, means, accepted⟩
    rcases means_iff.mp means with
      ⟨place, name, address, parts, located, rfl⟩
    rw [acceptAll_singleton, accept_eq] at accepted
    exact ⟨_, readNameLine_eq_ok_iff.mpr ⟨_, _, _, parts, located, rfl⟩,
      Option.some.inj accepted⟩

theorem readAddresses_iff_reads
    (written : text ≠ [])
    (isEntry : draft.current = some .entry) :
    (∃ addresses, readAddresses line text = .ok addresses ∧
      { draft with entries := draft.entries ++ addresses } = next) ↔
      draft.Reads text next := by
  rw [reads_iff_of_open written isEntry]
  constructor
  · rintro ⟨addresses, spelled, rfl⟩
    exact ⟨_, .entries written (readAddresses_eq_ok_iff.mp spelled),
      acceptAll_entries _ _⟩
  · rintro ⟨statements, means, accepted⟩
    cases means with
    | entries isWritten spelled =>
        rw [acceptAll_entries] at accepted
        exact ⟨_, readAddresses_eq_ok_iff.mpr spelled,
          Option.some.inj accepted⟩

theorem readCodeLine_iff_reads
    (written : text ≠ [])
    (isCode : draft.current = some .code) :
    (∃ image, readCodeLine draft.image line text = .ok image ∧
      { draft with image } = next) ↔ draft.Reads text next := by
  rw [reads_iff_of_open written isCode]
  constructor
  · rintro ⟨image, isImage, rfl⟩
    rcases readCodeLine_eq_ok_iff.mp isImage with
      ⟨instruction, spelled, accepted⟩
    exact ⟨_, .code spelled, (acceptAll_singleton _ _).trans accepted⟩
  · rintro ⟨statements, means, accepted⟩
    cases means with
    | code spelled =>
        rw [acceptAll_singleton] at accepted
        have keeps := eq_of_accept_code accepted
        rw [keeps] at accepted
        exact ⟨_, readCodeLine_eq_ok_iff.mpr ⟨_, spelled, accepted⟩,
          keeps.symm⟩

end Lines

/-- A line is read exactly if it means something that the draft accepts. -/
theorem readLine_eq_ok_iff {draft next : Draft} {numbered : List Char × Nat} :
    readLine draft numbered = .ok next ↔
      ∃ statements,
      Means draft.current (Text.trim numbered.1) next.current statements ∧
        { draft with current := next.current }.acceptAll statements =
          some next := by
  change _ ↔ draft.Reads (Text.trim numbered.1) next
  unfold readLine
  dsimp only
  split
  next isBlank =>
    rw [isBlank, reads_blank_iff]
    simp only [pure, Except.pure, Except.ok.injEq]
  next written =>
    split
    next isClosed => exact readSectionLine_iff_reads written isClosed
    all_goals simp only [bind_eq_ok_iff, pure, Except.pure, Except.ok.injEq]
    next isMemory => exact readMemoryLine_iff_reads written isMemory
    next isRuntime =>
      exact readNameLine_iff_reads written isRuntime (fun _ _ => rfl)
        means_routine_iff
    next isLabels =>
      exact readNameLine_iff_reads written isLabels (fun _ _ => rfl)
        means_label_iff
    next isEntry => exact readAddresses_iff_reads written isEntry
    next isCode => exact readCodeLine_iff_reads written isCode

/-! ## Runs of lines -/

/-- What lines mean one after another. -/
inductive MeansAll :
    Option SectionKind → List (List Char) → Option SectionKind →
      List Statement → Prop
  | nil {current : Option SectionKind} : MeansAll current [] current []
  | cons {current middle final : Option SectionKind} {line : List Char}
      {later : List (List Char)} {statements others : List Statement}
      (means : Means current (Text.trim line) middle statements)
      (rest : MeansAll middle later final others) :
      MeansAll current (line :: later) final (statements ++ others)

theorem acceptAll_append (draft : Draft) (statements others : List Statement) :
    draft.acceptAll (statements ++ others) =
      (draft.acceptAll statements).bind (fun next => next.acceptAll others) :=
  List.foldlM_append

/-- Which section is open makes no difference to statements. -/
theorem accept_current
    (draft : Draft)
    (current : Option SectionKind)
    (statement : Statement) :
    { draft with current }.accept statement =
      (draft.accept statement).map (fun next => { next with current }) := by
  cases statement with
  | code instruction comment =>
      simp only [Draft.accept]
      split
      next => rw [Option.map_map]; rfl
      next => rfl
  | _ => rfl

theorem acceptAll_current
    (draft : Draft)
    (current : Option SectionKind)
    (statements : List Statement) :
    { draft with current }.acceptAll statements =
      (draft.acceptAll statements).map
        (fun next => { next with current }) := by
  induction statements generalizing draft with
  | nil => rfl
  | cons first later hypothesis =>
      simp only [Draft.acceptAll, List.foldlM_cons, accept_current]
        at hypothesis ⊢
      cases draft.accept first with
      | none => rfl
      | some next => exact hypothesis next

/-- Lines are read exactly if they mean something that the draft accepts. -/
theorem foldlM_readLine_eq_ok_iff
    {draft final : Draft} {numbered : List (List Char × Nat)} :
    numbered.foldlM readLine draft = .ok final ↔
      ∃ statements,
        MeansAll draft.current (numbered.map Prod.fst) final.current
          statements ∧
        { draft with current := final.current }.acceptAll statements =
          some final := by
  induction numbered generalizing draft with
  | nil =>
      constructor
      · intro same
        cases same
        exact ⟨[], .nil, rfl⟩
      · rintro ⟨statements, means, accepted⟩
        generalize isCurrent : draft.current = current at means
        generalize isFinal : final.current = after at means accepted
        cases means
        rw [← isCurrent] at accepted
        exact congrArg Except.ok (Option.some.inj accepted)
  | cons first later hypothesis =>
      rw [List.foldlM_cons, bind_eq_ok_iff]
      constructor
      · rintro ⟨next, read, rest⟩
        rcases readLine_eq_ok_iff.mp read with ⟨statements, means, accepted⟩
        rcases hypothesis.mp rest with ⟨others, meansRest, acceptedRest⟩
        refine ⟨statements ++ others, .cons means meansRest, ?_⟩
        have forward :=
          acceptAll_current { draft with current := next.current }
            final.current statements
        rw [accepted] at forward
        rw [acceptAll_append, forward]
        exact acceptedRest
      · rintro ⟨statements, means, accepted⟩
        generalize isCurrent : draft.current = current at means
        cases means with
        | @cons _ middle _ _ _ statements others means rest =>
            rw [acceptAll_append] at accepted
            rcases Option.bind_eq_some_iff.mp accepted with
              ⟨state, acceptedFirst, acceptedRest⟩
            have same :=
              acceptAll_current { draft with current := final.current } middle
                statements
            rw [acceptedFirst] at same
            refine ⟨{ state with current := middle },
              readLine_eq_ok_iff.mpr ⟨statements, ?_, same⟩,
              hypothesis.mpr ⟨others, rest, ?_⟩⟩
            · rw [isCurrent]
              exact means
            · have keeps := current_of_acceptAll acceptedFirst
              have unchanged : { state with current := final.current } =
                state := by
                rw [← show state.current = final.current from keeps]
              dsimp only
              rw [unchanged]
              exact acceptedRest

/-! ## Tables of statements -/

namespace Statement

@[simp]
def memory? : Statement → Option (Nat × List UInt8)
  | memory address bytes => some (address, bytes)
  | _ => none

@[simp]
def routine? : Statement → Option (Nat × String)
  | routine address name => some (address, name)
  | _ => none

@[simp]
def label? : Statement → Option (Nat × String)
  | label address name => some (address, name)
  | _ => none

@[simp]
def entry? : Statement → Option Nat
  | entry address => some address
  | _ => none

@[simp]
def instruction? : Statement → Option Instruction
  | code instruction _ => some instruction
  | _ => none

@[simp]
def comment? : Statement → Option (Nat × String)
  | code instruction (some comment) => some (instruction.lo, comment)
  | _ => none

@[simp]
def isCodeSection : Statement → Bool
  | codeSection => true
  | _ => false

end Statement

/-- The instructions of some statements. -/
def instructionsOf (statements : List Statement) : List Instruction :=
  statements.filterMap Statement.instruction?

/-- An instruction with its address as its key. -/
def keyed (instruction : Instruction) : Nat × Instruction :=
  (instruction.lo, instruction)

/-- The draft that has nothing in it but what some statements say. -/
def draftOf
    (name : String)
    (current : Option SectionKind)
    (statements : List Statement) :
    Draft where
  image :=
    { name
      code := Table.ofList ((instructionsOf statements).map keyed)
      memory := Table.ofList (statements.filterMap Statement.memory?)
      labels := Table.ofList (statements.filterMap Statement.label?)
      comments := Table.ofList (statements.filterMap Statement.comment?)
      runtime := Table.ofList (statements.filterMap Statement.routine?) }
  entries := statements.filterMap Statement.entry?
  hasCode := statements.any Statement.isCodeSection
  current

/-- The instructions are valid and keep apart. -/
structure AreSound (instructions : List Instruction) : Prop where
  valid : ∀ instruction ∈ instructions, instruction.defect? = none
  apart : instructions.Pairwise Instruction.KeepsApart

theorem AreSound.perm
    {instructions others : List Instruction}
    (sound : AreSound instructions)
    (permuted : instructions.Perm others) :
    AreSound others where
  valid :=
    fun instruction member =>
      sound.valid instruction (permuted.mem_iff.mpr member)
  apart := permuted.pairwise sound.apart (fun apart => apart.symm)

theorem AreSound.distinct
    {instructions : List Instruction}
    (sound : AreSound instructions) :
    (instructions.map Instruction.lo).Nodup :=
  List.pairwise_map.mpr (sound.apart.imp (fun apart => apart.lo_ne))

theorem AreSound.distinct_keys
    {instructions : List Instruction}
    (sound : AreSound instructions) :
    ((instructions.map keyed).map Prod.fst).Nodup := by
  simpa [keyed, Function.comp_def] using sound.distinct

/-- The order of sound instructions makes no difference to their table. -/
theorem AreSound.ofList_eq_of_perm
    {instructions others : List Instruction}
    (sound : AreSound instructions)
    (permuted : instructions.Perm others) :
    Table.ofList (instructions.map keyed) = Table.ofList (others.map keyed) :=
  Table.ofList_eq_of_perm sound.distinct_keys (permuted.map keyed)

theorem AreSound.get?_eq_some_iff
    {instructions : List Instruction}
    (sound : AreSound instructions)
    {address : Nat} {instruction : Instruction} :
    (Table.ofList (instructions.map keyed)).get? address = some instruction ↔
      instruction ∈ instructions ∧ instruction.lo = address := by
  rw [Table.get?_ofList_eq_some_iff sound.distinct_keys]
  simp [keyed]

theorem AreSound.isSoundCode
    {instructions : List Instruction}
    (sound : AreSound instructions) :
    IsSoundCode (Table.ofList (instructions.map keyed)) where
  keyed := fun address instruction found => (sound.get?_eq_some_iff.mp found).2
  valid := fun address instruction found =>
    sound.valid instruction (sound.get?_eq_some_iff.mp found).1
  apart := by
    intro address instruction other found isOther below
    rcases Option.isSome_iff_exists.mp isOther with ⟨second, isSecond⟩
    rcases sound.get?_eq_some_iff.mp found with ⟨member, rfl⟩
    rcases sound.get?_eq_some_iff.mp isSecond with ⟨secondMember, rfl⟩
    have differs : instruction ≠ second := by
      rintro rfl
      exact Nat.lt_irrefl _ below
    have symmetric : Std.Symm Instruction.KeepsApart :=
      ⟨fun _ _ apart => apart.symm⟩
    have apart := sound.apart.forall member secondMember differs
    have proper := second.lo_lt_hi
    rcases apart with before | after
    · exact before
    · omega

theorem areSound_concat
    {instructions : List Instruction} {instruction : Instruction} :
    AreSound (instructions ++ [instruction]) ↔
      AreSound instructions ∧ instruction.defect? = none ∧
        ∀ other ∈ instructions, other.KeepsApart instruction := by
  constructor
  · intro sound
    rcases List.pairwise_append.mp sound.apart with ⟨apart, -, across⟩
    refine ⟨⟨fun other member =>
      sound.valid other (List.mem_append_left _ member), apart⟩,
      sound.valid instruction (by simp), ?_⟩
    intro other member
    exact across other member instruction (by simp)
  · rintro ⟨sound, valid, across⟩
    refine ⟨List.forall_mem_append.mpr ⟨sound.valid, by simpa using valid⟩, ?_⟩
    refine List.pairwise_append.mpr ⟨sound.apart, List.pairwise_singleton _ _,
      ?_⟩
    simpa using across

/--
A draft of sound instructions accepts every statement except an instruction
that is not valid or does not keep apart from the others.
-/
theorem accept_draftOf
    {name : String} {current : Option SectionKind}
    {statements : List Statement}
    (sound : AreSound (instructionsOf statements))
    {statement : Statement} {draft : Draft} :
    (draftOf name current statements).accept statement = some draft ↔
      AreSound (instructionsOf (statements ++ [statement])) ∧
        draft = draftOf name current (statements ++ [statement]) := by
  have silent (other : Statement) (notCode : other.instruction? = none)
      (accepted : (draftOf name current statements).accept other =
        some (draftOf name current (statements ++ [other]))) :
      (draftOf name current statements).accept other = some draft ↔
        AreSound (instructionsOf (statements ++ [other])) ∧
          draft = draftOf name current (statements ++ [other]) := by
    have same : instructionsOf (statements ++ [other]) =
        instructionsOf statements := by
      rw [instructionsOf, List.filterMap_append,
        List.filterMap_cons_none notCode, List.filterMap_nil, List.append_nil,
        instructionsOf]
    rw [accepted, same, Option.some.injEq, eq_comm]
    exact (and_iff_right sound).symm
  cases statement with
  | code instruction comment =>
      have listed :
          instructionsOf (statements ++ [.code instruction comment]) =
          instructionsOf statements ++ [instruction] := by
        simp [instructionsOf]
      rw [listed, areSound_concat, Draft.accept]
      split
      next valid =>
        have isSound :
            IsSoundCode (draftOf name current statements).image.code :=
          sound.isSoundCode
        have across : (∀ address other,
            (draftOf name current statements).image.code.get? address =
              some other →
              other.KeepsApart instruction) ↔
            ∀ other ∈ instructionsOf statements,
              other.KeepsApart instruction := by
          constructor
          · intro apart other member
            exact apart other.lo other
              (sound.get?_eq_some_iff.mpr ⟨member, rfl⟩)
          · intro apart address other found
            exact apart other (sound.get?_eq_some_iff.mp found).1
        have result : { draftOf name current statements with
            image := remarked
              { (draftOf name current statements).image with
                code := (draftOf name current statements).image.code.insert
                  instruction.lo instruction } instruction.lo comment } =
            draftOf name current
              (statements ++ [.code instruction comment]) := by
          cases comment <;>
            simp [draftOf, listed, List.filterMap_append, List.filterMap_cons,
              remarked, Image.setComment, Table.ofList_concat, keyed]
        rw [Option.map_eq_some_iff]
        simp only [toOption_eq_some_iff,
          Image.addCode_eq_ok_iff isSound.isSpacedCode, across]
        constructor
        · rintro ⟨extended, ⟨rfl, apart⟩, rfl⟩
          exact ⟨⟨sound, valid, apart⟩, result⟩
        · rintro ⟨⟨-, -, apart⟩, rfl⟩
          exact ⟨_, ⟨rfl, apart⟩, result⟩
      next notValid =>
        refine iff_of_false (by simp) ?_
        rintro ⟨⟨-, valid, -⟩, -⟩
        exact notValid valid
  | _ =>
      apply silent
      · rfl
      · simp [Draft.accept, draftOf, instructionsOf, List.filterMap_append,
          List.filterMap_cons, Image.addMemory, Image.addRoutine,
          Image.setLabel, Table.ofList_concat]

/--
Statements are accepted exactly if their instructions are sound, and the draft
then holds what they say and nothing else.
-/
theorem acceptAll_eq_some_iff
    {name : String} {current : Option SectionKind}
    {statements : List Statement} {draft : Draft} :
    ({ image := { name }, current } : Draft).acceptAll statements =
      some draft ↔
      AreSound (instructionsOf statements) ∧
        draft = draftOf name current statements := by
  induction statements using List.reverseRecOn generalizing draft with
  | nil =>
      constructor
      · intro same
        cases same
        exact ⟨⟨by simp [instructionsOf], .nil⟩, rfl⟩
      · rintro ⟨-, rfl⟩
        rfl
  | append_singleton earlier statement hypothesis =>
      rw [acceptAll_append, Option.bind_eq_some_iff]
      simp only [hypothesis, acceptAll_singleton]
      constructor
      · rintro ⟨middle, ⟨sound, rfl⟩, accepted⟩
        exact (accept_draftOf sound).mp accepted
      · rintro ⟨sound, rfl⟩
        have earlierSound : AreSound (instructionsOf earlier) := by
          rw [instructionsOf, List.filterMap_append] at sound
          exact ⟨(List.forall_mem_append.mp sound.valid).1,
            (List.pairwise_append.mp sound.apart).1⟩
        exact ⟨_, ⟨earlierSound, rfl⟩,
          (accept_draftOf earlierSound).mpr ⟨sound, rfl⟩⟩

/-! ## Listings -/

/-- The lines of a listing from its header on. -/
def writtenLines (text : String) : List (List Char) :=
  (Text.lines text.toList).dropWhile (fun line => Text.trim line = [])

theorem map_fst_contentLines (text : String) :
    (contentLines text).map Prod.fst = writtenLines text := by
  have peel (lines : List (List Char)) (start : Nat) :
      ((lines.zipIdx start).dropWhile (fun line => Text.trim line.1 = [])).map
      Prod.fst =
        lines.dropWhile (fun line => Text.trim line = []) := by
    induction lines generalizing start with
    | nil => rfl
    | cons first later hypothesis =>
        rw [List.zipIdx_cons, List.dropWhile_cons, List.dropWhile_cons]
        split
        next => exact hypothesis (start + 1)
        next => simp
  exact peel _ 1

/--
What a listing declares: the name on its first line, and what the lines after
it say.  The instructions are sound, and there is a code section.
-/
structure Declares
    (text : String)
    (name : String)
    (current : Option SectionKind)
    (statements : List Statement) :
    Prop where
  written : ∃ header lines, writtenLines text = header :: lines ∧
    headerName? header = some name ∧ MeansAll none lines current statements
  sound : AreSound (instructionsOf statements)
  coded : statements.any Statement.isCodeSection = true

theorem readDraft_eq_ok_iff {text : String} {draft : Draft} :
    readDraft text = .ok draft ↔
      ∃ name current statements, Declares text name current statements ∧
        draft = draftOf name current statements := by
  have lines_eq := map_fst_contentLines text
  have content_eq : ((Text.lines text.toList).zipIdx 1).dropWhile
      (fun line => Text.trim line.1 = []) = contentLines text := rfl
  simp only [readDraft, content_eq]
  cases content : contentLines text with
  | nil =>
      rw [content] at lines_eq
      refine iff_of_false (by simp [reject]) ?_
      rintro ⟨name, current, statements, ⟨⟨header, lines, isWritten, -⟩, -, -⟩,
        -⟩
      rw [isWritten] at lines_eq
      cases lines_eq
  | cons numbered body =>
      rw [content] at lines_eq
      dsimp only
      rw [bind_eq_ok_iff]
      constructor
      · rintro ⟨name, named, rest⟩
        rcases bind_eq_ok_iff.mp rest with ⟨final, read, atEnd⟩
        split at atEnd
        next coded =>
          cases atEnd
          rcases foldlM_readLine_eq_ok_iff.mp read with
            ⟨statements, means, accepted⟩
          rcases acceptAll_eq_some_iff.mp accepted with ⟨sound, same⟩
          refine ⟨name, draft.current, statements,
            ⟨⟨numbered.1, _, lines_eq.symm, orReject_eq_ok_iff.mp named,
              means⟩, sound, ?_⟩, same⟩
          rw [same] at coded
          exact coded
        next => cases atEnd
      · rintro ⟨name, current, statements,
          ⟨⟨header, lines, isWritten, named, means⟩, sound, coded⟩, rfl⟩
        rw [isWritten] at lines_eq
        cases lines_eq
        refine ⟨name, orReject_eq_ok_iff.mpr named, bind_eq_ok_iff.mpr
          ⟨draftOf name current statements, ?_, if_pos coded⟩⟩
        exact foldlM_readLine_eq_ok_iff.mpr
          ⟨statements, means, acceptAll_eq_some_iff.mpr ⟨sound, rfl⟩⟩

/-- Decoding entries changes nothing but what is decoded. -/
theorem decodeEntries_eq_with_decoded (image : Image) (addresses : List Nat) :
    (decodeEntries image addresses).1 =
      { image with decoded := (decodeEntries image addresses).1.decoded } := by
  induction addresses generalizing image with
  | nil => rfl
  | cons address later hypothesis =>
      have first : (decodeEntry image address).1 =
          { image with decoded := (decodeEntry image address).1.decoded } := by
        simp only [decodeEntry, Image.requestDecode]
        split <;> rfl
      simp only [decodeEntries]
      apply (hypothesis (decodeEntry image address).1).trans
      rw [first]

/--
A listing is accepted exactly if it declares something, and its image is what
it declares, with its entries decoded.
-/
theorem lift_eq_ok_iff {text : String} {image : Image} :
    (∃ lifted, lift text = .ok lifted ∧ lifted.image = image) ↔
      ∃ name current statements, Declares text name current statements ∧
        image = (decodeEntries (draftOf name current statements).image
          (draftOf name current statements).entries).1 := by
  constructor
  · rintro ⟨lifted, isLifted, rfl⟩
    rcases bind_eq_ok_iff.mp isLifted with ⟨draft, isDraft, same⟩
    rcases readDraft_eq_ok_iff.mp isDraft with
      ⟨name, current, statements, declares, rfl⟩
    cases same
    exact ⟨name, current, statements, declares, rfl⟩
  · rintro ⟨name, current, statements, declares, rfl⟩
    exact ⟨_,
      bind_eq_ok_iff.mpr ⟨_, readDraft_eq_ok_iff.mpr ⟨_, _, _, declares, rfl⟩,
        rfl⟩, rfl⟩

end Listing

end ProcRecovery
