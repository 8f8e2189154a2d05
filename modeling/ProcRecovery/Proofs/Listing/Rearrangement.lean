import Mathlib.Data.List.Perm.Basic
import ProcRecovery.Proofs.Image.Sweep
import ProcRecovery.Proofs.Listing.Sections

/-!
# Rearranged listings

Sections, the lines in them and entries can be put in any order.  The text then
makes the same statements in another order, and neither the tables nor what is
decoded depends on that order, as long as no two lines are about the same
address.
-/

namespace ProcRecovery.Listing

/-! ## Orders of statements -/

/-- A comment belongs to an instruction. -/
theorem sublist_comments (statements : List Statement) :
    ((statements.filterMap Statement.comment?).map Prod.fst).Sublist
      ((instructionsOf statements).map Instruction.lo) := by
  induction statements with
  | nil => exact .slnil
  | cons first later hypothesis =>
      cases first with
      | code instruction comment =>
          cases comment with
          | none => exact .cons instruction.lo hypothesis
          | some comment => exact .cons_cons instruction.lo hypothesis
      | _ => exact hypothesis

/--
Statements give the same tables in every order, if no two of them are about the
same address.
-/
theorem image_draftOf_eq_of_perm
    {statements rearranged : List Statement}
    (sound : AreSound (instructionsOf statements))
    (distinct : ∀ kind ∈ [SectionKind.memory, .runtime, .labels],
      (statements.filterMap (Statement.address? kind)).Nodup)
    (permuted : statements.Perm rearranged)
    (name : String)
    (current next : Option SectionKind) :
    (draftOf name current statements).image =
      (draftOf name next rearranged).image := by
  have code_eq :=
    sound.ofList_eq_of_perm (permuted.filterMap Statement.instruction?)
  have seen_eq {α : Type} {view : Statement → Option (Nat × α)}
      (kind : SectionKind)
      (isTable : kind ∈ [SectionKind.memory, .runtime, .labels])
      (seen : Statement.address? kind = fun statement =>
        (view statement).map Prod.fst) :
      Table.ofList (statements.filterMap view) =
        Table.ofList (rearranged.filterMap view) := by
    apply Table.ofList_eq_of_perm _ (permuted.filterMap _)
    rw [List.map_filterMap, ← seen]
    exact distinct kind isTable
  have memory_eq := @seen_eq _ Statement.memory? .memory (by decide) rfl
  have labels_eq := @seen_eq _ Statement.label? .labels (by decide) rfl
  have runtime_eq := @seen_eq _ Statement.routine? .runtime (by decide) rfl
  have comments_eq : Table.ofList (statements.filterMap Statement.comment?) =
      Table.ofList (rearranged.filterMap Statement.comment?) :=
    Table.ofList_eq_of_perm
      (sound.distinct.sublist (sublist_comments statements))
      (permuted.filterMap _)
  rw [instructionsOf] at code_eq
  simp only [draftOf, instructionsOf, code_eq, memory_eq, labels_eq,
    comments_eq, runtime_eq]

/-- Entries decode the same in every order. -/
theorem decodeEntries_eq_of_perm
    {image : Image}
    (keyed : IsKeyed image.code)
    (swept : image.IsSwept)
    {addresses others : List Nat}
    (permuted : addresses.Perm others) :
    (decodeEntries image addresses).1 = (decodeEntries image others).1 := by
  have decoded_eq : (decodeEntries image addresses).1.decoded =
      (decodeEntries image others).1.decoded := by
    apply Table.ext_contains
    intro place
    rw [Bool.eq_iff_iff, contains_decodeEntries_iff keyed swept,
      contains_decodeEntries_iff keyed swept]
    simp only [permuted.mem_iff]
  rw [decodeEntries_eq_with_decoded, decoded_eq,
    ← decodeEntries_eq_with_decoded]

/-! ## Orders of text -/

/-- The sections of a listing. -/
def textSections (text : String) : List (List (List Char)) :=
  sections (writtenLines text).tail

/-- The sections of a listing that are not of entries. -/
def plainSections (text : String) : List (List (List Char)) :=
  (textSections text).filter (fun lines => sectionKind? lines ≠ some .entry)

/-- The sections of a listing that are of entries. -/
def entrySections (text : String) : List (List (List Char)) :=
  (textSections text).filter (fun lines => sectionKind? lines = some .entry)

/-- The words for the entries of a listing. -/
def entryWords (text : String) : List (List Char) :=
  (entrySections text).flatMap sectionEntries

/--
The addresses that the lines of a listing are about in the sections of some
kind.
-/
def givenAddresses (kind : SectionKind) (text : String) : List Nat :=
  (textSections text).flatMap (sectionAddresses kind)

/--
A section has the same first line as another one, and the same lines after it
in any order.
-/
def Reorders (lines others : List (List Char)) : Prop :=
  lines.head? = others.head? ∧ lines.tail.Perm others.tail

instance
    (lines others : List (List Char)) :
    Decidable (Reorders lines others) :=
  inferInstanceAs (Decidable (_ ∧ _))

/--
A text has the same header line as another one, the same sections in any order
with their lines in any order, and the same entries in any order.
-/
structure Rearranges (text other : String) : Prop where
  header : (writtenLines text).head? = (writtenLines other).head?
  sections : ∃ moved, (plainSections text).Perm moved ∧
    List.Forall₂ Reorders moved (plainSections other)
  entries : (entryWords text).Perm (entryWords other)

theorem SectionMeans.reorders
    {lines others : List (List Char)}
    (reordered : Reorders lines others)
    {statements : List Statement}
    (means : SectionMeans lines statements) :
    ∃ rearranged, SectionMeans others rearranged ∧
    statements.Perm rearranged := by
  cases means with
  | intro opens reads =>
      cases others with
      | nil => cases reordered.1
      | cons head later =>
          rcases reordered with ⟨sameHead, permuted⟩
          cases sameHead
          rcases reads.perm permuted with ⟨rearranged, isRead, same⟩
          exact ⟨_, .intro opens isRead, same.append_left _⟩

theorem ne_nil_of_mem_sections
    {all lines : List (List Char)}
    (isSection : lines ∈ sections all) :
    ∀ line ∈ lines, line ≠ [] := by
  intro line member
  have kept :=
    (Text.of_mem_splitOnP (List.mem_filter.mp isSection).1 line member).1
  simpa using kept

/-- The entries of a listing are the addresses that their words spell. -/
theorem collects_entries_iff
    {text : String} {statements : List Statement} :
    Collects SectionMeans (entrySections text) statements ↔
      ∃ addresses, Spell (entryWords text) addresses ∧
        statements = addresses.map .entry := by
  apply Collects.entries_iff
  intro lines member part
  rcases List.mem_filter.mp member with ⟨isSection, isEntry⟩
  exact sectionMeans_entry_iff (by simpa using isEntry)
    (ne_nil_of_mem_sections isSection)

theorem perm_plainSections_append (text : String) :
    (plainSections text ++ entrySections text).Perm (textSections text) := by
  have split_perm := List.filter_append_perm
    (fun lines => decide (sectionKind? lines ≠ some .entry))
    (textSections text)
  simpa [plainSections, entrySections] using split_perm

/-- A rearranged text makes the same statements in another order. -/
theorem Rearranges.collects
    {text other : String}
    (rearranges : Rearranges text other)
    {statements : List Statement}
    (collected : Collects SectionMeans (textSections text) statements) :
    ∃ rearranged, Collects SectionMeans (textSections other) rearranged ∧
      statements.Perm rearranged := by
  rcases rearranges.sections with ⟨moved, toMoved, reordered⟩
  rcases collected.perm (perm_plainSections_append text).symm with
    ⟨divided, isDivided, toDivided⟩
  rcases isDivided.of_append with ⟨plain, entries, isPlain, isEntries, rfl⟩
  -- The sections other than entries move as a whole, and then their lines
  -- move.
  rcases isPlain.perm toMoved with ⟨movedPlain, isMoved, toMovedPlain⟩
  rcases isMoved.forall₂ (fun _ _ alike _ means => means.reorders alike)
    reordered with
    ⟨otherPlain, isOtherPlain, toOtherPlain⟩
  -- Entries are spelled word by word.
  rcases collects_entries_iff.mp isEntries with ⟨addresses, spelled, rfl⟩
  rcases List.perm_comp_forall₂ rearranges.entries.symm spelled with
    ⟨otherAddresses, otherSpelled, toAddresses⟩
  have isOtherEntries :=
    collects_entries_iff.mpr ⟨otherAddresses, otherSpelled, rfl⟩
  rcases (isOtherPlain.append isOtherEntries).perm
    (perm_plainSections_append other) with
    ⟨rearranged, isRearranged, toRearranged⟩
  refine ⟨rearranged, isRearranged, ?_⟩
  have plainPerm := toMovedPlain.trans toOtherPlain
  have entriesPerm := toAddresses.symm.map Statement.entry
  exact toDivided.trans ((plainPerm.append entriesPerm).trans toRearranged)

/--
Sections, their lines and entries can be put in any order, as long as no two
lines of memory, of routines or of labels are about the same address: the
listing is accepted, and its image is the same.
-/
theorem lift_rearranged
    {text other : String} {lifted : Lifted}
    (isLifted : lift text = .ok lifted)
    (distinct : ∀ kind ∈ [SectionKind.memory, .runtime, .labels],
      (givenAddresses kind text).Nodup)
    (rearranges : Rearranges text other) :
    ∃ again, lift other = .ok again ∧ again.image = lifted.image := by
  rcases lift_eq_ok_iff.mp ⟨lifted, isLifted, rfl⟩ with
    ⟨name, current, statements,
      ⟨⟨header, lines, isWritten, named, means⟩, sound, coded⟩, image_eq⟩
  have collected : Collects SectionMeans (textSections text) statements := by
    rw [textSections, isWritten]
    exact exists_meansAll_iff.mp ⟨current, means⟩
  rcases rearranges.collects collected with
    ⟨rearranged, isRearranged, permuted⟩
  rcases exists_meansAll_iff.mpr isRearranged with ⟨next, otherMeans⟩
  have distinctStatements : ∀ kind ∈ [SectionKind.memory, .runtime, .labels],
      (statements.filterMap (Statement.address? kind)).Nodup := by
    intro kind isTable
    rw [collected.filterMap_eq
      (fun _ _ means => means.filterMap_address? kind)]
    exact distinct kind isTable
  have declares : Declares other name next rearranged := by
    refine ⟨⟨header, (writtenLines other).tail, ?_, named, otherMeans⟩,
      sound.perm (permuted.filterMap _), ?_⟩
    · apply List.eq_cons_of_mem_head?
      rw [← rearranges.header, isWritten]
      rfl
    · rw [← permuted.any_eq]
      exact coded
  rcases lift_eq_ok_iff.mpr ⟨name, next, rearranged, declares, rfl⟩ with
    ⟨again, isAgain, again_eq⟩
  refine ⟨again, isAgain, ?_⟩
  rw [again_eq, image_eq,
    ← image_draftOf_eq_of_perm sound distinctStatements permuted name current]
  exact (decodeEntries_eq_of_perm sound.isSoundCode.keyed
    (Image.isSwept_of_decoded_empty rfl) (permuted.filterMap _)).symm

/-- A listing with something in every section. -/
def orderedListing : String := "LISTING order

MEMORY
20: 48
22: 49

RUNTIME
30 p

LABELS
10 a

ENTRY 10
12 14

CODE
10 rts pc ; x
12 nop
14 rts pc
"

/--
The same listing with everything in another order, and with all entries on one
line.
-/
def shuffledListing : String := "LISTING order
CODE
14 rts pc
10 rts pc ; x
12 nop

ENTRY 14 10 12


LABELS
10 a

RUNTIME
30 p

MEMORY
22: 49
20: 48"

theorem lift_rearranged_shuffledListing :
    ∃ lifted again, lift orderedListing = .ok lifted ∧
      lift shuffledListing = .ok again ∧
      again.image = lifted.image ∧
        lifted.image.decoded.keys = [0x10, 0x12, 0x14] := by
  have facts : (writtenLines orderedListing).head? =
      (writtenLines shuffledListing).head? ∧
      List.Forall₂ Reorders (plainSections orderedListing).reverse
        (plainSections shuffledListing) ∧
      (entryWords orderedListing).Perm (entryWords shuffledListing) ∧
      ∀ kind ∈ [SectionKind.memory, .runtime, .labels],
        (givenAddresses kind orderedListing).Nodup := by
    decide +kernel
  rcases facts with ⟨header, reordered, entries, distinct⟩
  have works :
      (lift orderedListing).toOption.map (fun lifted =>
        lifted.image.decoded.keys) =
      some [0x10, 0x12, 0x14] := by
    decide +kernel
  rcases Option.map_eq_some_iff.mp works with ⟨lifted, found, decoded⟩
  have isLifted := eq_ok_of_toOption found
  have rearranges : Rearranges orderedListing shuffledListing :=
    ⟨header, ⟨_, (List.reverse_perm _).symm, reordered⟩, entries⟩
  rcases lift_rearranged isLifted distinct rearranges with
    ⟨again, isAgain, same⟩
  exact ⟨lifted, again, isLifted, isAgain, same, decoded⟩

end ProcRecovery.Listing
