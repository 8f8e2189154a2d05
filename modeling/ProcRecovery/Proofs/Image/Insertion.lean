import Mathlib.Data.List.Pairwise
import ProcRecovery.Proofs.Image.Layout

/-!
# Insertion of code

An instruction is compared with two others when it is added: the one that
starts at or closest below it, and the one that starts at or closest above it.
That is enough because the instructions that are there do not overlap, so
everything further away ends or begins even further away.  An instruction is
turned down exactly if it shares an address with one that is there, and then
nothing changes.  Which instructions go together is a matter of the
instructions, not of their order.
-/

namespace ProcRecovery

/-- Two instructions have an address in common. -/
def Instruction.Overlaps (first second : Instruction) : Prop :=
  ∃ place, (first.lo ≤ place ∧ place < first.hi) ∧ second.lo ≤ place ∧
    place < second.hi

theorem Instruction.not_overlaps_iff {first second : Instruction} :
    ¬ first.Overlaps second ↔ first.KeepsApart second := by
  have firstProper := first.lo_lt_hi
  have secondProper := second.lo_lt_hi
  constructor
  · intro separate
    by_contra meets
    simp only [KeepsApart, not_or, Nat.not_le] at meets
    -- the later one of the two starts within the other
    rcases Nat.le_total first.lo second.lo with before | after
    · exact separate ⟨second.lo, ⟨before, meets.1⟩, Nat.le_refl _,
        secondProper⟩
    · exact separate ⟨first.lo, ⟨Nat.le_refl _, firstProper⟩, after, meets.2⟩
  · rintro apart ⟨place, within, inside⟩
    rcases apart with before | after <;> omega

namespace Table

variable {κ α : Type} [LT κ] [SortKey κ] [DecidableEq κ] {table : Table κ α}

theorem forall_mem_values_iff {holds : α → Prop} :
    (∀ value ∈ table.values, holds value) ↔
      ∀ key value, table.get? key = some value → holds value := by
  constructor
  · intro each key value found
    exact each value (mem_values_iff.mpr ⟨key, found⟩)
  · intro each value member
    rcases mem_values_iff.mp member with ⟨key, found⟩
    exact each key value found

variable [DecidableLT κ]

/-- A value that replaces nothing joins the others. -/
theorem forall_mem_values_insert_iff
    {key : κ}
    (isNew : table.get? key = none)
    {value : α} {holds : α → Prop} :
    (∀ other ∈ (table.insert key value).values, holds other) ↔
      holds value ∧ ∀ other ∈ table.values, holds other := by
  rcases table.exists_other_values key with ⟨others, before, -, after⟩
  rw [isNew, Option.toList_none, List.nil_append] at before
  simp only [(after value).mem_iff, before.mem_iff, List.forall_mem_cons]

/--
The order in which two values are stored under different keys makes no
difference.
-/
theorem insert_comm
    (table : Table κ α)
    {first second : κ}
    (differ : first ≠ second)
    (value other : α) :
    (table.insert first value).insert second other =
      (table.insert second other).insert first value := by
  apply ext_get?
  intro key
  simp only [get?_insert]
  by_cases isSecond : key = second
  · have notFirst : key ≠ first := by
      rintro rfl
      exact differ isSecond
    rw [if_pos isSecond, if_neg notFirst, if_pos isSecond]
  · rw [if_neg isSecond, if_neg isSecond]

end Table

namespace Image

/--
The image after an instruction has been offered to it, which stays as it is if
the instruction cannot be added.
-/
def offer (image : Image) (instruction : Instruction) : Image :=
  match image.addCode instruction with
  | .ok extended => extended
  | .error _ => image

section Offer

variable {image extended : Image} {instruction : Instruction}

theorem offer_of_ok (added : image.addCode instruction = .ok extended) :
    image.offer instruction = extended := by
  simp only [offer, added]

theorem offer_of_error
    {clash : Nat}
    (rejected : image.addCode instruction = .error clash) :
    image.offer instruction = image := by
  simp only [offer, rejected]

theorem isSpacedCode_offer
    (spaced : IsSpacedCode image.code)
    (instruction : Instruction) :
    IsSpacedCode (image.offer instruction).code := by
  cases outcome : image.addCode instruction with
  | error clash =>
      rw [offer_of_error outcome]
      exact spaced
  | ok extended =>
      rw [offer_of_ok outcome]
      exact isSpacedCode_of_addCode spaced outcome

theorem isSpacedCode_foldl_offer
    (spaced : IsSpacedCode image.code)
    (instructions : List Instruction) :
    IsSpacedCode (instructions.foldl offer image).code := by
  induction instructions generalizing image with
  | nil => exact spaced
  | cons first later hypothesis =>
      exact hypothesis (isSpacedCode_offer spaced first)

theorem addCode_eq_ok_iff_values
    (spaced : IsSpacedCode image.code) :
    image.addCode instruction = .ok extended ↔
      extended =
        { image with code := image.code.insert instruction.lo instruction } ∧
        ∀ other ∈ image.code.values, other.KeepsApart instruction := by
  rw [addCode_eq_ok_iff spaced, Table.forall_mem_values_iff]

/--
Nothing starts where an instruction does that keeps apart from everything.
-/
theorem get?_lo_of_keepsApart
    (keyed : IsKeyed image.code)
    (apart : ∀ other ∈ image.code.values, other.KeepsApart instruction) :
    image.code.get? instruction.lo = none := by
  rw [Option.eq_none_iff_forall_ne_some]
  intro other found
  have separate :=
    apart other (Table.mem_values_iff.mpr ⟨instruction.lo, found⟩)
  exact separate.lo_ne (keyed instruction.lo other found)

/--
The answer to an instruction that cannot be added is the address of one that it
overlaps.
-/
theorem overlaps_of_addCode_eq_error
    (keyed : IsKeyed image.code)
    {clash : Nat}
    (rejected : image.addCode instruction = .error clash) :
    ∃ other ∈ image.code.values, other.lo = clash ∧
    other.Overlaps instruction := by
  have proper := instruction.lo_lt_hi
  simp only [addCode, Option.orElse_eq_orElse, Option.orElse_eq_or] at rejected
  split at rejected
  next place found isClash =>
    cases rejected
    rcases Option.or_eq_some_iff.mp isClash with before | ⟨-, after⟩
    · rcases Option.filter_eq_some_iff.mp before with ⟨isFloor, reaches⟩
      rcases Table.floor?_eq_some isFloor with ⟨isEntry, notAbove, -⟩
      simp only [decide_eq_true_eq] at reaches notAbove
      have starts := keyed clash found isEntry
      refine ⟨found, Table.mem_values_iff.mpr ⟨clash, isEntry⟩, starts,
        instruction.lo, ?_⟩
      omega
    · rcases Option.filter_eq_some_iff.mp after with ⟨isCeiling, reaches⟩
      have isEntry := (Table.ceiling?_eq_some isCeiling).1
      have notBelow : ¬ clash < instruction.lo := by
        have passes := List.find?_some isCeiling
        simpa using passes
      simp only [decide_eq_true_eq] at reaches
      have starts := keyed clash found isEntry
      have foundProper := found.lo_lt_hi
      refine ⟨found, Table.mem_values_iff.mpr ⟨clash, isEntry⟩, starts,
        found.lo, ?_⟩
      omega
  next => cases rejected

end Offer

/--
An image takes in exactly the instructions that overlap none of its own, which
do not overlap each other.
-/
structure TakesInExactly (image : Image) : Prop where
  disjoint :
    image.code.values.Pairwise (fun first second => ¬ first.Overlaps second)
  /-- An instruction without overlap is added, and replaces nothing. -/
  adds : ∀ instruction : Instruction,
    (∀ other ∈ image.code.values, ¬ other.Overlaps instruction) →
      image.addCode instruction =
          .ok { image with
            code := image.code.insert instruction.lo instruction } ∧
        image.code.contains instruction.lo = false
  /--
  An instruction with an overlap is turned down with the address of one that it
  overlaps, and the image stays as it is.
  -/
  rejects : ∀ instruction : Instruction,
    (∃ other ∈ image.code.values, other.Overlaps instruction) →
      (∃ other ∈ image.code.values, other.Overlaps instruction ∧
        image.addCode instruction = .error other.lo) ∧
        image.offer instruction = image

theorem takesInExactly_of_isSpacedCode
    {image : Image}
    (spaced : IsSpacedCode image.code) :
    image.TakesInExactly where
  disjoint := by
    have ordered : image.code.entries.Pairwise (fun earlier later =>
        ¬ earlier.2.Overlaps later.2) := by
      apply image.code.sorted.imp_of_mem
      intro earlier later isEarlier isLater below
      have found := Table.get?_eq_some_iff.mpr isEarlier
      have follows := Table.get?_eq_some_iff.mpr isLater
      have starts := spaced.keyed later.1 later.2 follows
      have ends := spaced.apart earlier.1 earlier.2 later.1 found
        (Option.isSome_iff_exists.mpr ⟨_, follows⟩) below
      rw [Instruction.not_overlaps_iff]
      exact .inl (starts ▸ ends)
    exact List.pairwise_map.mpr ordered
  adds := by
    intro instruction separate
    simp only [Instruction.not_overlaps_iff] at separate
    refine ⟨(addCode_eq_ok_iff_values spaced).mpr ⟨rfl, separate⟩, ?_⟩
    rw [Table.contains, get?_lo_of_keepsApart spaced.keyed separate]
    rfl
  rejects := by
    rintro instruction ⟨other, isThere, overlap⟩
    cases outcome : image.addCode instruction with
    | ok extended =>
        have apart :=
          ((addCode_eq_ok_iff_values spaced).mp outcome).2 other isThere
        exact (Instruction.not_overlaps_iff.mpr apart overlap).elim
    | error clash =>
        rcases overlaps_of_addCode_eq_error spaced.keyed outcome with
          ⟨culprit, isCulprit, rfl, overlaps⟩
        exact ⟨⟨culprit, isCulprit, overlaps, rfl⟩, offer_of_error outcome⟩

/-! ## Orders of insertion -/

/-- The code with some instructions in it. -/
def codeWith (code : Table Nat Instruction) (instructions : List Instruction) :
    Table Nat Instruction :=
  instructions.foldl (fun code instruction =>
    code.insert instruction.lo instruction) code

/--
Instructions can all be added if they keep apart from each other and from those
that are there.
-/
theorem foldlM_addCode_eq_ok_iff
    {image all : Image}
    (spaced : IsSpacedCode image.code)
    {instructions : List Instruction} :
    instructions.foldlM addCode image = .ok all ↔
      instructions.Pairwise Instruction.KeepsApart ∧
        (∀ instruction ∈ instructions, ∀ other ∈ image.code.values,
          other.KeepsApart instruction) ∧
        all = { image with code := codeWith image.code instructions } := by
  induction instructions generalizing image with
  | nil => simp [codeWith, pure, Except.pure, eq_comm]
  | cons first later hypothesis =>
      have joins (apart : ∀ other ∈ image.code.values, other.KeepsApart first)
          (instruction : Instruction) :
          (∀ other ∈ (image.code.insert first.lo first).values,
            other.KeepsApart instruction) ↔
            first.KeepsApart instruction ∧
              ∀ other ∈ image.code.values, other.KeepsApart instruction :=
        Table.forall_mem_values_insert_iff
          (get?_lo_of_keepsApart spaced.keyed apart)
      rw [List.foldlM_cons, bind_eq_ok_iff, List.pairwise_cons,
        List.forall_mem_cons]
      constructor
      · rintro ⟨extended, added, rest⟩
        have nextSpaced := isSpacedCode_of_addCode spaced added
        rcases (addCode_eq_ok_iff_values spaced).mp added with ⟨rfl, apart⟩
        rcases (hypothesis nextSpaced).mp rest with ⟨pairwise, fromAll, rfl⟩
        simp only [joins apart] at fromAll
        exact ⟨⟨fun other member => (fromAll other member).1, pairwise⟩,
          ⟨apart, fun other member => (fromAll other member).2⟩, rfl⟩
      · rintro ⟨⟨fromFirst, pairwise⟩, ⟨apart, fromThere⟩, rfl⟩
        have added := (addCode_eq_ok_iff_values spaced).mpr ⟨rfl, apart⟩
        refine ⟨_, added,
          (hypothesis (isSpacedCode_of_addCode spaced added)).mpr ?_⟩
        refine ⟨pairwise, ?_, rfl⟩
        intro other member
        exact (joins apart other).mpr ⟨fromFirst other member,
          fromThere other member⟩

theorem codeWith_of_perm
    (code : Table Nat Instruction)
    {instructions others : List Instruction}
    (apart : instructions.Pairwise Instruction.KeepsApart)
    (permuted : instructions.Perm others) :
    codeWith code instructions = codeWith code others := by
  have symmetric : Std.Symm Instruction.KeepsApart :=
    ⟨fun _ _ apart => apart.symm⟩
  apply permuted.foldl_eq'
  intro first isFirst second isSecond held
  by_cases same : first = second
  · rw [same]
  · exact Table.insert_comm held (apart.forall isFirst isSecond same).lo_ne
      first second

/-- Adding instructions in another order has the same outcome. -/
theorem toOption_foldlM_addCode_of_perm
    {image : Image}
    (spaced : IsSpacedCode image.code)
    {instructions others : List Instruction}
    (permuted : instructions.Perm others) :
    (instructions.foldlM addCode image).toOption =
      (others.foldlM addCode image).toOption := by
  apply Option.ext
  intro all
  rw [toOption_eq_some_iff, toOption_eq_some_iff,
    foldlM_addCode_eq_ok_iff spaced, foldlM_addCode_eq_ok_iff spaced]
  have sameApart :=
    permuted.pairwise_iff (R :=
      Instruction.KeepsApart) (fun apart => apart.symm)
  constructor
  · rintro ⟨apart, fromThere, rfl⟩
    refine ⟨sameApart.mp apart, ?_, ?_⟩
    · intro instruction member
      exact fromThere instruction (permuted.mem_iff.mpr member)
    · rw [codeWith_of_perm image.code apart permuted]
  · rintro ⟨apart, fromThere, rfl⟩
    refine ⟨sameApart.mpr apart, ?_, ?_⟩
    · intro instruction member
      exact fromThere instruction (permuted.mem_iff.mp member)
    · rw [codeWith_of_perm image.code apart permuted.symm]

/--
After any instructions have been offered to an image without code, those it has
taken in do not overlap, and the next one is taken in exactly if it overlaps
none of them.  Instructions are all taken in exactly if no two of them overlap,
in whatever order they come.
-/
theorem foldl_offer_takesInExactly
    {image : Image}
    (bare : image.code = ∅)
    (instructions : List Instruction) :
    (instructions.foldl offer image).TakesInExactly ∧
      ((∃ all, instructions.foldlM addCode image = .ok all) ↔
        instructions.Pairwise (fun first second => ¬ first.Overlaps second)) ∧
      ∀ others, instructions.Perm others →
        (instructions.foldlM addCode image).toOption =
          (others.foldlM addCode image).toOption := by
  have spaced : IsSpacedCode image.code := by
    rw [bare]
    exact isSpacedCode_empty
  refine ⟨takesInExactly_of_isSpacedCode
    (isSpacedCode_foldl_offer spaced instructions), ?_, fun others permuted =>
    toOption_foldlM_addCode_of_perm spaced permuted⟩
  simp only [Instruction.not_overlaps_iff, foldlM_addCode_eq_ok_iff spaced]
  constructor
  · rintro ⟨all, apart, -⟩
    exact apart
  · intro apart
    refine ⟨_, apart, ?_, rfl⟩
    intro instruction member other isThere
    rw [bare] at isThere
    cases isThere

/--
A load, a dispatch over a table of its own, and an instruction in the middle of
that table.
-/
def dispatchCode : List Instruction :=
  [ { lo := 0x10, hi := 0x14, mnemonic := .mov, width := .word,
      operands := [.immediate 1, .register ⟨1⟩], lo_lt_hi := by decide },
    { lo := 0x14, hi := 0x1e, mnemonic := .case, width := .word,
      operands :=
        [.register ⟨1⟩, .target 0x30, .target 0x40, .target 0x30,
          .target 0x50],
      lo_lt_hi := by decide },
    { lo := 0x18, hi := 0x1a, mnemonic := .rts, width := .word,
      operands := [.register .pc],
      lo_lt_hi := by decide } ]

theorem foldl_offer_takesInExactly_dispatchCode :
    (dispatchCode.foldl offer { name := "dispatch" }).code.keys =
      [0x10, 0x14] ∧
      (dispatchCode.foldl offer { name := "dispatch" }).TakesInExactly ∧
      ((∃ all, dispatchCode.foldlM addCode { name := "dispatch" } = .ok all) ↔
        dispatchCode.Pairwise (fun first second => ¬ first.Overlaps second)) ∧
      ∀ others, dispatchCode.Perm others →
        (dispatchCode.foldlM addCode { name := "dispatch" }).toOption =
          (others.foldlM addCode { name := "dispatch" }).toOption :=
  ⟨by decide +kernel, foldl_offer_takesInExactly rfl dispatchCode⟩

end Image

end ProcRecovery
