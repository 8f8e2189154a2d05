import ProcRecovery.Proofs.Listing.Statements
import ProcRecovery.Proofs.Text.Blank

/-!
# Sections of a listing

Blank lines divide a listing into sections.  What a section says follows from
its own lines: the first one opens it, and the others are read one by one.  So
what a listing says is what its sections say, one after another.
-/

namespace ProcRecovery.Listing

/-! ## Statements of many parts -/

/-- What the items of a list mean, one after another. -/
inductive Collects
    {α : Type}
    (means : α → List Statement → Prop) :
    List α → List Statement → Prop
  | nil : Collects means [] []
  | cons {first : α} {later : List α} {statements others : List Statement}
      (here : means first statements) (rest : Collects means later others) :
      Collects means (first :: later) (statements ++ others)

theorem spell_append_iff
    {texts others : List (List Char)} {addresses : List Nat} :
    Spell (texts ++ others) addresses ↔
      ∃ front back, Spell texts front ∧ Spell others back ∧
        addresses = front ++ back := by
  constructor
  · intro spelled
    have front := List.forall₂_take texts.length spelled
    have back := List.forall₂_drop texts.length spelled
    rw [List.take_left] at front
    rw [List.drop_left] at back
    exact ⟨_, _, front, back, (List.take_append_drop _ _).symm⟩
  · rintro ⟨front, back, isFront, isBack, rfl⟩
    exact List.rel_append isFront isBack

namespace Collects

variable {α : Type} {means : α → List Statement → Prop}

theorem append
    {items others : List α} {statements more : List Statement}
    (front : Collects means items statements)
    (back : Collects means others more) :
    Collects means (items ++ others) (statements ++ more) := by
  induction front with
  | nil => exact back
  | cons here _ hypothesis =>
      rw [List.append_assoc]
      exact .cons here hypothesis

theorem of_append
    {items others : List α} {statements : List Statement}
    (collected : Collects means (items ++ others) statements) :
    ∃ front back, Collects means items front ∧ Collects means others back ∧
      statements = front ++ back := by
  induction items generalizing statements with
  | nil => exact ⟨[], statements, .nil, collected, rfl⟩
  | cons first later hypothesis =>
      cases collected with
      | cons here rest =>
          rcases hypothesis rest with ⟨front, back, isFront, isBack, rfl⟩
          exact ⟨_ ++ front, back, .cons here isFront, isBack,
            (List.append_assoc _ _ _).symm⟩

/-- Items in another order mean the same statements in another order. -/
theorem perm
    {items others : List α} {statements : List Statement}
    (collected : Collects means items statements)
    (permuted : items.Perm others) :
    ∃ rearranged, Collects means others rearranged ∧
    statements.Perm rearranged := by
  induction permuted generalizing statements with
  | nil => exact ⟨statements, collected, .refl _⟩
  | cons first _ hypothesis =>
      cases collected with
      | cons here rest =>
          rcases hypothesis rest with ⟨rearranged, isRearranged, same⟩
          exact ⟨_, .cons here isRearranged, same.append_left _⟩
  | swap first second later =>
      cases collected with
      | cons here rest =>
          cases rest with
          | cons next others =>
              refine ⟨_, .cons next (.cons here others), ?_⟩
              rw [← List.append_assoc, ← List.append_assoc]
              exact List.perm_append_comm.append_right _
  | trans _ _ first second =>
      rcases first collected with ⟨middle, isMiddle, toMiddle⟩
      rcases second isMiddle with ⟨rearranged, isRearranged, fromMiddle⟩
      exact ⟨rearranged, isRearranged, toMiddle.trans fromMiddle⟩

/--
Items that mean the same statements in another order can be put in place of
others.
-/
theorem forall₂
    {related : α → α → Prop} {items others : List α}
    {statements : List Statement}
    (collected : Collects means items statements)
    (carries :
      ∀ item other, related item other → ∀ part, means item part →
        ∃ rearranged, means other rearranged ∧ part.Perm rearranged)
    (paired : List.Forall₂ related items others) :
    ∃ rearranged, Collects means others rearranged ∧
      statements.Perm rearranged := by
  induction paired generalizing statements with
  | nil => exact ⟨statements, collected, .refl _⟩
  | cons alike _ hypothesis =>
      cases collected with
      | cons here rest =>
          rcases carries _ _ alike _ here with ⟨first, isFirst, toFirst⟩
          rcases hypothesis rest with ⟨later, isLater, toLater⟩
          exact ⟨_, .cons isFirst isLater, toFirst.append toLater⟩

/--
Items that give entries by their words give the entries of all these words
together.
-/
theorem entries_iff
    {wordsOf : α → List (List Char)} {items : List α}
    (gives : ∀ item ∈ items, ∀ part, means item part ↔
      ∃ addresses, Spell (wordsOf item) addresses ∧
      part = addresses.map .entry)
    {statements : List Statement} :
    Collects means items statements ↔
      ∃ addresses, Spell (items.flatMap wordsOf) addresses ∧
        statements = addresses.map .entry := by
  induction items generalizing statements with
  | nil =>
      constructor
      · intro collected
        cases collected
        exact ⟨[], .nil, rfl⟩
      · rintro ⟨addresses, spelled, rfl⟩
        cases spelled
        exact .nil
  | cons first later hypothesis =>
      rcases List.forall_mem_cons.mp gives with ⟨givesFirst, givesLater⟩
      rw [List.flatMap_cons]
      constructor
      · intro collected
        cases collected with
        | cons here rest =>
            rcases (givesFirst _).mp here with ⟨addresses, spelled, rfl⟩
            rcases (hypothesis givesLater).mp rest with
              ⟨others, othersSpelled, rfl⟩
            exact ⟨addresses ++ others,
              spell_append_iff.mpr ⟨_, _, spelled, othersSpelled, rfl⟩,
              List.map_append.symm⟩
      · rintro ⟨addresses, spelled, rfl⟩
        rcases spell_append_iff.mp spelled with
          ⟨front, back, isFront, isBack, rfl⟩
        rw [List.map_append]
        exact .cons ((givesFirst _).mpr ⟨_, isFront, rfl⟩)
          ((hypothesis givesLater).mpr ⟨_, isBack, rfl⟩)

/-- What is seen of the statements is what is seen item by item. -/
theorem filterMap_eq
    {β : Type} {view : Statement → Option β} {seen : α → List β}
    (each : ∀ item part, means item part → part.filterMap view = seen item)
    {items : List α} {statements : List Statement}
    (collected : Collects means items statements) :
    statements.filterMap view = items.flatMap seen := by
  induction collected with
  | nil => rfl
  | cons here _ hypothesis =>
      rw [List.filterMap_append, each _ _ here, hypothesis, List.flatMap_cons]

end Collects

/-! ## Sections -/

/--
The runs of lines between blank lines, without the blanks around each line.
-/
def sections (lines : List (List Char)) : List (List (List Char)) :=
  ((lines.map Text.trim).splitOnP (· = [])).filter (· ≠ [])

/--
What the lines of a section mean: the first one opens it, and the others are
read in it.
-/
inductive SectionMeans : List (List Char) → List Statement → Prop
  | intro
      {head : List Char} {later : List (List Char)} {kind : SectionKind}
      {opening inside : List Statement}
      (opens : Means none head (some kind) opening)
      (reads :
        Collects (fun line => Means (some kind) line (some kind)) later
          inside) :
      SectionMeans (head :: later) (opening ++ inside)

theorem Means.eq_nil
    {current : Option SectionKind} {text : List Char}
    {statements : List Statement}
    (means : Means current text none statements) :
    text = [] ∧ statements = [] := by
  cases means
  exact ⟨rfl, rfl⟩

/-- A section stays open until there is a blank line. -/
theorem Means.stays
    {kind : SectionKind} {next : Option SectionKind} {text : List Char}
    {statements : List Statement}
    (means : Means (some kind) text next statements)
    (written : text ≠ []) :
    next = some kind := by
  cases means with
  | blank => exact absurd rfl written
  | _ => rfl

theorem sections_cons_of_blank
    {line : List Char}
    (isBlank : Text.trim line = [])
    (later : List (List Char)) :
    sections (line :: later) = sections later := by
  rw [sections, List.map_cons, List.splitOnP_cons_eq_if_modifyHead,
    if_pos (by simpa using isBlank), List.filter_cons_of_neg (by simp),
    sections]

/--
Lines that are not blank make up a section if nothing or a blank line follows.
-/
theorem sections_append
    {front back : List (List Char)}
    (nonempty : front ≠ [])
    (written : ∀ line ∈ front, Text.trim line ≠ [])
    (ends : ∀ line ∈ back.head?, Text.trim line = []) :
    sections (front ++ back) = front.map Text.trim :: sections back := by
  have whole : (front.map Text.trim).splitOnP (· = []) =
      [front.map Text.trim] := by
    apply List.splitOnP_eq_singleton
    simpa using written
  cases back with
  | nil =>
      rw [List.append_nil, sections, whole,
        List.filter_cons_of_pos (by simpa using nonempty)]
      rfl
  | cons line later =>
      have isBlank := ends line rfl
      rw [sections_cons_of_blank isBlank, sections, List.map_append,
        List.map_cons, List.splitOnP_append_cons _ _ (by simpa using isBlank),
        whole, List.singleton_append,
        List.filter_cons_of_pos (by simpa using nonempty), sections]

/-- A blank line says nothing, and closes the section that is open. -/
theorem exists_meansAll_cons_of_blank
    {current : Option SectionKind} {line : List Char}
    (isBlank : Text.trim line = [])
    {later : List (List Char)} {statements : List Statement} :
    (∃ final, MeansAll current (line :: later) final statements) ↔
      ∃ final, MeansAll none later final statements := by
  constructor
  · rintro ⟨final, means⟩
    cases means with
    | @cons _ middle _ _ _ _ _ here rest =>
        cases middle with
        | some kind => exact absurd isBlank here.ne_nil
        | none =>
            rcases here.eq_nil with ⟨-, rfl⟩
            exact ⟨final, rest⟩
  · rintro ⟨final, means⟩
    have here : Means current (Text.trim line) none [] := isBlank ▸ .blank
    exact ⟨final, .cons here means⟩

/--
Where nothing or a blank line follows, it makes no difference whether a section
is open.
-/
theorem exists_meansAll_of_ends
    {lines : List (List Char)}
    (ends : ∀ line ∈ lines.head?, Text.trim line = [])
    {current : Option SectionKind} {statements : List Statement} :
    (∃ final, MeansAll current lines final statements) ↔
      ∃ final, MeansAll none lines final statements := by
  cases lines with
  | nil =>
      constructor
      · rintro ⟨final, means⟩
        cases means
        exact ⟨none, .nil⟩
      · rintro ⟨final, means⟩
        cases means
        exact ⟨current, .nil⟩
  | cons line later =>
      have isBlank := ends line rfl
      rw [exists_meansAll_cons_of_blank isBlank,
        exists_meansAll_cons_of_blank isBlank]

section Blocks

variable {front back : List (List Char)}
  (written : ∀ line ∈ front, Text.trim line ≠ [])
  (ends : ∀ line ∈ back.head?, Text.trim line = [])
  {statements : List Statement}
include written ends

/-- A section that is open reads the lines up to the first blank one. -/
theorem exists_meansAll_append_iff
    {kind : SectionKind} :
    (∃ final, MeansAll (some kind) (front ++ back) final statements) ↔
      ∃ inside others,
        Collects (fun line => Means (some kind) line (some kind))
          (front.map Text.trim) inside ∧
        (∃ final, MeansAll none back final others) ∧
          statements = inside ++ others := by
  induction front generalizing statements with
  | nil =>
      rw [List.nil_append, exists_meansAll_of_ends ends]
      constructor
      · intro means
        exact ⟨[], statements, .nil, means, rfl⟩
      · rintro ⟨inside, others, isInside, means, rfl⟩
        cases isInside
        exact means
  | cons line later hypothesis =>
      rcases List.forall_mem_cons.mp written with ⟨lineWritten, laterWritten⟩
      constructor
      · rintro ⟨final, means⟩
        cases means with
        | cons here rest =>
            cases here.stays lineWritten
            rcases (hypothesis laterWritten).mp ⟨final, rest⟩ with
              ⟨inside, others, isInside, isOthers, rfl⟩
            exact ⟨_, others, .cons here isInside, isOthers,
              (List.append_assoc _ _ _).symm⟩
      · rintro ⟨inside, others, isInside, isOthers, rfl⟩
        cases isInside with
        | cons here rest =>
            rcases (hypothesis laterWritten).mpr ⟨_, others, rest, isOthers,
              rfl⟩ with
              ⟨final, means⟩
            rw [List.append_assoc]
            exact ⟨final, .cons here means⟩

/--
Where no section is open, the lines up to the first blank one are a section.
-/
theorem exists_meansAll_cons_iff
    {line : List Char}
    (lineWritten : Text.trim line ≠ []) :
    (∃ final, MeansAll none (line :: (front ++ back)) final statements) ↔
      ∃ part others,
        SectionMeans (Text.trim line :: front.map Text.trim) part ∧
        (∃ final, MeansAll none back final others) ∧
          statements = part ++ others := by
  constructor
  · rintro ⟨final, means⟩
    cases means with
    | @cons _ middle _ _ _ _ _ here rest =>
        cases middle with
        | none => exact absurd here.eq_nil.1 lineWritten
        | some kind =>
            rcases (exists_meansAll_append_iff written ends).mp ⟨final,
              rest⟩ with
              ⟨inside, others, isInside, isOthers, rfl⟩
            exact ⟨_, others, .intro here isInside, isOthers,
              (List.append_assoc _ _ _).symm⟩
  · rintro ⟨part, others, isSection, isOthers, rfl⟩
    cases isSection with
    | intro opens reads =>
        rcases (exists_meansAll_append_iff written ends).mpr ⟨_, others, reads,
          isOthers, rfl⟩ with
          ⟨final, means⟩
        rw [List.append_assoc]
        exact ⟨final, .cons opens means⟩

end Blocks

/-- The lines up to the first blank one, and the others. -/
theorem exists_append_of_blank
    (lines : List (List Char)) :
    ∃ front back, lines = front ++ back ∧
      (∀ line ∈ front, Text.trim line ≠ []) ∧
      ∀ line ∈ back.head?, Text.trim line = [] := by
  refine ⟨_, _,
    (@List.takeWhile_append_dropWhile _ (fun line => Text.trim line ≠ [])
      lines).symm, ?_, ?_⟩
  · intro line member
    simpa using List.mem_takeWhile_imp member
  · intro line isHead
    have kept :=
      List.head?_dropWhile_not (fun line => Text.trim line ≠ []) lines
    rw [isHead] at kept
    simpa using kept

/-- Lines mean what their sections mean. -/
theorem exists_meansAll_iff
    {lines : List (List Char)} {statements : List Statement} :
    (∃ final, MeansAll none lines final statements) ↔
      Collects SectionMeans (sections lines) statements := by
  -- The induction is on the number of lines, because a section takes many of
  -- them at once.
  induction size : lines.length using Nat.strong_induction_on
    generalizing lines statements with
  | h length hypothesis =>
      cases lines with
      | nil =>
          constructor
          · rintro ⟨final, means⟩
            cases means
            exact .nil
          · intro collected
            cases collected
            exact ⟨none, .nil⟩
      | cons line later =>
          by_cases isBlank : Text.trim line = []
          · rw [exists_meansAll_cons_of_blank isBlank,
              sections_cons_of_blank isBlank]
            exact hypothesis later.length (by simp [← size]) rfl
          · rcases exists_append_of_blank later with
              ⟨front, back, rfl, written, ends⟩
            have smaller : back.length < length := by
              rw [← size, List.length_cons, List.length_append]
              omega
            have sections_eq : sections (line :: (front ++ back)) =
                (Text.trim line :: front.map Text.trim) :: sections back :=
              @sections_append (line :: front) back (List.cons_ne_nil _ _)
                (List.forall_mem_cons.mpr ⟨isBlank, written⟩) ends
            rw [sections_eq, exists_meansAll_cons_iff written ends isBlank]
            constructor
            · rintro ⟨part, others, isSection, isOthers, rfl⟩
              exact .cons isSection
                ((hypothesis back.length smaller rfl).mp isOthers)
            · intro collected
              cases collected with
              | cons isSection rest =>
                  exact ⟨_, _, isSection,
                    (hypothesis back.length smaller rfl).mpr rest, rfl⟩

/-! ## Entries -/

/-- The kind of a section, by its first line. -/
def sectionKind? (lines : List (List Char)) : Option SectionKind :=
  lines.head?.bind (fun head => SectionKind.ofName? (sectionParts head).1)

theorem Means.ofName?
    {head : List Char} {kind : SectionKind} {opening : List Statement}
    (opens : Means none head (some kind) opening) :
    SectionKind.ofName? (sectionParts head).1 = some kind := by
  cases opens with
  | opensEntry parts =>
      rw [parts]
      rfl
  | opens parts named =>
      rw [parts]
      exact named

/--
The words for addresses in a section of entries: those behind its name and
those of its lines.
-/
def sectionEntries : List (List Char) → List (List Char)
  | [] => []
  | head :: later =>
      Text.words (sectionParts head).2 ++ later.flatMap Text.words

theorem means_entry_iff
    {line : List Char}
    (written : line ≠ [])
    {part : List Statement} :
    Means (some .entry) line (some .entry) part ↔
      ∃ addresses, Spell (Text.words line) addresses ∧
        part = addresses.map .entry := by
  constructor
  · intro means
    cases means with
    | entries _ spelled => exact ⟨_, spelled, rfl⟩
  · rintro ⟨addresses, spelled, rfl⟩
    exact .entries written spelled

theorem means_opensEntry_iff
    {head : List Char}
    (isEntry : (sectionParts head).1 = "ENTRY".toList)
    {kind : SectionKind} {opening : List Statement} :
    Means none head (some kind) opening ↔ kind = .entry ∧
      ∃ addresses, Spell (Text.words (sectionParts head).2) addresses ∧
        opening = addresses.map .entry := by
  constructor
  · intro means
    have named := means.ofName?
    rw [isEntry] at named
    cases named
    refine ⟨rfl, ?_⟩
    cases means with
    | opensEntry parts spelled =>
        rw [parts]
        exact ⟨_, spelled, rfl⟩
    | opens _ _ notEntry => exact absurd rfl notEntry
  · rintro ⟨rfl, addresses, spelled, rfl⟩
    exact .opensEntry (Prod.ext isEntry rfl) spelled

/-- A section of entries gives the addresses that its words spell. -/
theorem sectionMeans_entry_iff
    {lines : List (List Char)}
    (isEntry : sectionKind? lines = some .entry)
    (written : ∀ line ∈ lines, line ≠ [])
    {part : List Statement} :
    SectionMeans lines part ↔
      ∃ addresses, Spell (sectionEntries lines) addresses ∧
        part = addresses.map .entry := by
  cases lines with
  | nil => cases isEntry
  | cons head later =>
      have opens {kind : SectionKind} {opening : List Statement} :=
        @means_opensEntry_iff head (eq_entry_of_ofName? isEntry) kind opening
      have reads {inside : List Statement} :=
        @Collects.entries_iff _ (fun line =>
          Means (some .entry) line (some .entry)) Text.words later
          (fun line member _ =>
            means_entry_iff (written line (List.mem_cons_of_mem head member)))
          inside
      rw [sectionEntries]
      constructor
      · intro means
        cases means with
        | intro isOpened isRead =>
            rcases opens.mp isOpened with ⟨rfl, front, frontSpelled, rfl⟩
            rcases reads.mp isRead with ⟨back, backSpelled, rfl⟩
            exact ⟨front ++ back,
              spell_append_iff.mpr ⟨_, _, frontSpelled, backSpelled, rfl⟩,
              List.map_append.symm⟩
      · rintro ⟨addresses, spelled, rfl⟩
        rcases spell_append_iff.mp spelled with
          ⟨front, back, isFront, isBack, rfl⟩
        rw [List.map_append]
        exact .intro (opens.mpr ⟨rfl, front, isFront, rfl⟩)
          (reads.mpr ⟨back, isBack, rfl⟩)

/-! ## Addresses of lines -/

/-- The address that a line of memory, routines or labels is about. -/
def lineAddress? (kind : SectionKind) (line : List Char) : Option Nat :=
  match kind with
  | .memory =>
      (Text.splitFirst ':' line).bind (fun parts =>
        address? (Text.trim parts.1))
  | .runtime | .labels => (Text.words line).head?.bind address?
  | .entry | .code => none

/--
The addresses that the lines of a section are about, if it is of some kind.
-/
def sectionAddresses
    (kind : SectionKind)
    (lines : List (List Char)) :
    List Nat :=
  if sectionKind? lines = some kind
    then lines.tail.filterMap (lineAddress? kind) else []

/--
The address that a statement about memory, a routine or a label is about.
-/
def Statement.address?
    (kind : SectionKind)
    (statement : Statement) :
    Option Nat :=
  match kind with
  | .memory => statement.memory?.map Prod.fst
  | .runtime => statement.routine?.map Prod.fst
  | .labels => statement.label?.map Prod.fst
  | .entry | .code => none

theorem Means.filterMap_address?
    {kind : SectionKind} {line : List Char} {statements : List Statement}
    (means : Means (some kind) line (some kind) statements)
    (asked : SectionKind) :
    statements.filterMap (Statement.address? asked) =
      if kind = asked then (lineAddress? asked line).toList else [] := by
  cases means with
  | memory parts located =>
      cases asked <;> simp [Statement.address?, lineAddress?, parts, located]
  | routine parts located =>
      cases asked <;> simp [Statement.address?, lineAddress?, parts, located]
  | label parts located =>
      cases asked <;> simp [Statement.address?, lineAddress?, parts, located]
  | entries =>
      cases asked <;> simp [Statement.address?, lineAddress?,
        Function.comp_def]
  | code => cases asked <;> simp [Statement.address?, lineAddress?]

/-- The line that opens a section is about no address. -/
theorem Means.filterMap_address?_of_opens
    {head : List Char} {kind : SectionKind} {opening : List Statement}
    (opens : Means none head (some kind) opening)
    (asked : SectionKind) :
    opening.filterMap (Statement.address? asked) = [] := by
  cases opens with
  | opensEntry => cases asked <;> simp [Statement.address?, Function.comp_def]
  | opens => cases asked <;> split <;> simp [Statement.address?]

theorem SectionMeans.filterMap_address?
    (asked : SectionKind)
    {lines : List (List Char)} {statements : List Statement}
    (means : SectionMeans lines statements) :
    statements.filterMap (Statement.address? asked) =
      sectionAddresses asked lines := by
  cases means with
  | @intro head later kind opening inside opens reads =>
      have isKind : sectionKind? (head :: later) = some kind := opens.ofName?
      have read_eq :=
        reads.filterMap_eq (fun line part means =>
          means.filterMap_address? asked)
      rw [List.filterMap_append, opens.filterMap_address?_of_opens, read_eq,
        List.nil_append, sectionAddresses, isKind]
      by_cases isAsked : kind = asked
      · simp [isAsked, List.filterMap_eq_flatMap_toList]
      · simp [isAsked]

end ProcRecovery.Listing
