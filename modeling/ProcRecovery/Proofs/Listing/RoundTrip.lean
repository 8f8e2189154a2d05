import ProcRecovery.Proofs.Listing.Spelling

/-!
# Listings of code that are read back

The code of a listing can be written as a listing of its own, one line for each
instruction, in any order.  That text is accepted and gives the same code.
-/

namespace ProcRecovery

namespace Text

theorem isTrimmed_append
    {front back : List Char}
    (middle : List Char)
    (frontGiven : front ≠ [])
    (backGiven : back ≠ [])
    (frontSolid : ∀ char ∈ front, isBlank char = false)
    (backSolid : ∀ char ∈ back, isBlank char = false) :
    IsTrimmed (front ++ middle ++ back) where
  starts := by
    intro char isHead
    rw [List.append_assoc, List.head?_append_of_ne_nil _ frontGiven] at isHead
    exact frontSolid char (List.mem_of_mem_head? isHead)
  ends := by
    intro char isLast
    rw [List.getLast?_append_of_ne_nil _ backGiven] at isLast
    exact backSolid char (List.mem_of_mem_getLast? isLast)

end Text

namespace Listing

open Text Numeral

/-! ## Lines of code -/

section Lines

variable {zeros : Nat} {instruction : Instruction}

/-- A line of code holds neither a line break nor a comment. -/
theorem forall_mem_codeLine (readable : instruction.IsReadable) :
    ∀ char ∈ (codeLine zeros instruction).toList,
      char ≠ '\n' ∧ char ≠ ';' := by
  rcases readable.named with ⟨word, -, solid, named⟩
  have inLine {text : List Char}
      (solidText : ∀ char ∈ text, isBlank char = false ∧ char ≠ ';') :
      ∀ char ∈ text, char ≠ '\n' ∧ char ≠ ';' := by
    intro char member
    rcases solidText char member with ⟨notBlank, notComment⟩
    refine ⟨?_, notComment⟩
    rintro rfl
    revert notBlank
    decide
  have inOperands : ∀ char ∈ operandPart instruction.operands, char ≠ '\n' ∧
      char ≠ ';' := by
    unfold operandPart
    split
    next => simp
    next =>
      rw [List.forall_mem_cons]
      exact ⟨by decide, inLine (solid_joinedOperands instruction.operands)⟩
  rw [toList_codeLine named, List.forall_mem_append, List.forall_mem_cons,
    List.forall_mem_append]
  exact ⟨inLine (solid_padded _ _), by decide, inLine solid, inOperands⟩

theorem isTrimmed_codeLine
    (readable : instruction.IsReadable)
    (avoids : instruction.AvoidsLeast) :
    IsTrimmed (codeLine zeros instruction).toList := by
  rcases readable.named with ⟨word, nonempty, solid, named⟩
  have digitsSolid : ∀ char ∈ padded 16 zeros instruction.lo,
      isBlank char = false :=
    fun char member => (solid_padded _ _ char member).1
  rw [toList_codeLine named, operandPart]
  split
  next =>
    have trimmed := isTrimmed_append [' '] padded_ne_nil nonempty digitsSolid
      (fun char member => (solid char member).1)
    simpa using trimmed
  next given =>
    have joinedSolid : ∀ char ∈ joinedOperands instruction.operands,
        isBlank char = false :=
      fun char member => (solid_joinedOperands _ char member).1
    have trimmed := isTrimmed_append (' ' :: (word ++ [' '])) padded_ne_nil
      (joinedOperands_ne_nil readable.operands avoids given) digitsSolid
      joinedSolid
    simpa using trimmed

theorem means_codeLine
    (readable : instruction.IsReadable)
    (avoids : instruction.AvoidsLeast) :
    Means (some .code) (trim (codeLine zeros instruction).toList) (some .code)
      [.code instruction none] := by
  rw [trim_eq_self (isTrimmed_codeLine readable avoids)]
  have noComment : ';' ∉ (codeLine zeros instruction).toList :=
    fun member => (forall_mem_codeLine readable _ member).2 rfl
  have split_eq : splitComment (codeLine zeros instruction).toList =
      ((codeLine zeros instruction).toList, none) := by
    rw [splitComment, splitFirst_eq_none_iff.mpr noComment]
  have means := @Means.code (codeLine zeros instruction).toList instruction
  rw [split_eq] at means
  dsimp only at means
  exact means (instruction?_codeLine zeros readable avoids)

end Lines

/-! ## Header lines -/

/-- The names that a header line can give. -/
structure IsListingName (name : String) : Prop where
  nonempty : name.toList ≠ []
  trimmed : IsTrimmed name.toList
  inLine : '\n' ∉ name.toList

theorem isListingName_of_headerName?
    {header : List Char} {name : String}
    (named : headerName? header = some name)
    (inLine : '\n' ∉ header) :
    IsListingName name := by
  unfold headerName? at named
  split at named
  next rest isRest =>
    split at named
    next => cases named
    next given =>
      cases named
      have shape := afterMarker?_eq_some_iff.mp isRest
      rw [← String.toList_ofList (l := trim rest)] at given
      refine ⟨given, ?_, ?_⟩
      · rw [String.toList_ofList]
        exact isTrimmed_trim rest
      · rw [String.toList_ofList]
        intro member
        have inHeader : '\n' ∈ trimEnd header := by
          rw [shape]
          exact List.mem_append_right _ (mem_of_mem_trim member)
        rw [trimEnd_eq_rdropWhile] at inHeader
        exact inLine ((List.rdropWhile_prefix _ _).subset inHeader)
  next => cases named

/-- The header line of a listing. -/
def headerLine (name : String) : String := "LISTING " ++ name

theorem isTrimmed_headerLine {name : String} (isName : IsListingName name) :
    IsTrimmed (headerLine name).toList where
  starts := by
    intro char isHead
    rw [headerLine, String.toList_append] at isHead
    cases isHead
    decide
  ends := by
    intro char isLast
    rw [headerLine, String.toList_append,
      List.getLast?_append_of_ne_nil _ isName.nonempty] at isLast
    exact isName.trimmed.ends char isLast

theorem headerName?_headerLine {name : String} (isName : IsListingName name) :
    headerName? (headerLine name).toList = some name := by
  have isRest : afterMarker? "LISTING".toList (headerLine name).toList =
      some (' ' :: name.toList) := by
    rw [afterMarker?_eq_some_iff, headerLine, String.toList_append]
    rfl
  have trimmed : trim (' ' :: name.toList) = name.toList := by
    have unblanked := trim_eq_self isName.trimmed
    rw [trim] at unblanked ⊢
    rw [List.dropWhile_cons_of_pos (by decide)]
    exact unblanked
  rw [headerName?, trimEnd_eq_self (isTrimmed_headerLine isName).ends, isRest]
  dsimp only
  rw [trimmed, if_neg isName.nonempty, String.ofList_toList]

/-! ## Listings of code -/

/--
A listing that has nothing but code in it, one line for each instruction.
-/
def codeListing
    (name : String)
    (zeros : Nat)
    (instructions : List Instruction) :
    String :=
  String.intercalate "\n"
    (headerLine name :: "" :: "CODE" :: instructions.map (codeLine zeros))

section CodeListings

variable {name : String} {zeros : Nat} {instructions : List Instruction}

theorem writtenLines_codeListing
    (isName : IsListingName name)
    (readable : ∀ instruction ∈ instructions, instruction.IsReadable) :
    writtenLines (codeListing name zeros instructions) =
      (headerLine name).toList :: [] :: "CODE".toList ::
        instructions.map (fun instruction =>
          (codeLine zeros instruction).toList) := by
  have inLine : ∀ line ∈ (headerLine name).toList :: [] :: "CODE".toList ::
      instructions.map (fun instruction =>
        (codeLine zeros instruction).toList), '\n' ∉ line := by
    rw [List.forall_mem_cons, List.forall_mem_cons, List.forall_mem_cons,
      List.forall_mem_map]
    refine ⟨?_, by simp, by decide, ?_⟩
    · rw [headerLine, String.toList_append, List.mem_append, not_or]
      exact ⟨by decide, isName.inLine⟩
    · intro instruction member isThere
      exact (forall_mem_codeLine (readable instruction member) _ isThere).1 rfl
  have lines_eq := List.splitOn_intercalate '\n' inLine (by simp)
  have text_eq : (codeListing name zeros instructions).toList =
      ['\n'].intercalate ((headerLine name).toList :: [] :: "CODE".toList ::
        instructions.map (fun instruction =>
          (codeLine zeros instruction).toList)) := by
    rw [codeListing, String.toList_intercalate, List.map_cons, List.map_cons,
      List.map_cons, List.map_map]
    rfl
  rw [writtenLines, text_eq, lines, lines_eq, List.dropWhile_cons_of_neg]
  rw [trim_eq_self (isTrimmed_headerLine isName)]
  simp [headerLine]

theorem meansAll_codeLines
    (readable : ∀ instruction ∈ instructions, instruction.IsReadable)
    (avoid : ∀ instruction ∈ instructions, instruction.AvoidsLeast) :
    MeansAll (some .code)
      (instructions.map
        (fun instruction => (codeLine zeros instruction).toList)) (some .code)
      (instructions.map (fun instruction => .code instruction none)) := by
  induction instructions with
  | nil => exact .nil
  | cons first later hypothesis =>
      rcases List.forall_mem_cons.mp readable with
        ⟨firstReadable, laterReadable⟩
      rcases List.forall_mem_cons.mp avoid with ⟨firstAvoids, laterAvoid⟩
      exact .cons (means_codeLine firstReadable firstAvoids)
        (hypothesis laterReadable laterAvoid)

theorem instructionsOf_codeStatements :
    instructionsOf (.codeSection ::
      instructions.map (fun instruction => .code instruction none)) =
      instructions := by
  rw [instructionsOf, List.filterMap_cons_none rfl, List.filterMap_map]
  exact List.filterMap_some

/--
A listing of readable instructions that keep apart declares these instructions.
-/
theorem declares_codeListing
    (isName : IsListingName name)
    (sound : AreSound instructions)
    (readable : ∀ instruction ∈ instructions, instruction.IsReadable)
    (avoid : ∀ instruction ∈ instructions, instruction.AvoidsLeast) :
    Declares (codeListing name zeros instructions) name (some .code)
      (.codeSection :: instructions.map
        (fun instruction => .code instruction none)) where
  written := by
    refine ⟨_, _, writtenLines_codeListing isName readable,
      headerName?_headerLine isName, ?_⟩
    have closed : Means none (trim []) none [] := .blank
    have opened :
        Means none (trim "CODE".toList) (some .code) [.codeSection] :=
      @Means.opens "CODE".toList _ _ _ rfl rfl (by decide) rfl
    exact .cons closed (.cons opened (meansAll_codeLines readable avoid))
  sound := by
    rw [instructionsOf_codeStatements]
    exact sound
  coded := rfl

end CodeListings

/-! ## Code that is written again -/

theorem not_mem_splitComment
    (text : List Char) :
    ';' ∉ (splitComment text).1 := by
  unfold splitComment
  split
  next code comment isSplit =>
    intro member
    exact (splitFirst_eq_some_iff.mp isSplit).2 (mem_of_mem_trim member)
  next noComment => exact splitFirst_eq_none_iff.mp noComment

theorem Means.isReadable
    {current final : Option SectionKind} {text : List Char}
    {statements : List Statement}
    (means : Means current text final statements) :
    ∀ instruction ∈ instructionsOf statements, instruction.IsReadable := by
  cases means with
  | code spelled =>
      have read := (@readInstruction_eq_ok_iff 0).mpr spelled
      simpa [instructionsOf] using isReadable_of_readInstruction read
        (not_mem_splitComment text)
  | opens => split <;> simp [instructionsOf]
  | _ => simp [instructionsOf, Function.comp_def]

theorem MeansAll.isReadable
    {current final : Option SectionKind} {lines : List (List Char)}
    {statements : List Statement}
    (means : MeansAll current lines final statements) :
    ∀ instruction ∈ instructionsOf statements, instruction.IsReadable := by
  induction means with
  | nil => simp [instructionsOf]
  | cons means _ hypothesis =>
      rw [instructionsOf, List.filterMap_append, List.forall_mem_append]
      exact ⟨means.isReadable, hypothesis⟩

/-- All code of a listing has been read. -/
theorem isReadable_of_lift
    {text : String} {lifted : Lifted}
    (isLifted : lift text = .ok lifted)
    {address : Nat} {instruction : Instruction}
    (found : lifted.image.code.get? address = some instruction) :
    instruction.IsReadable := by
  rcases lift_eq_ok_iff.mp ⟨lifted, isLifted, rfl⟩ with
    ⟨name, current, statements, declares, image_eq⟩
  rw [decodeEntries_eq_with_decoded] at image_eq
  have code_eq : lifted.image.code =
      Table.ofList ((instructionsOf statements).map keyed) := by
    rw [image_eq]
    rfl
  rcases declares.written with ⟨header, lines, -, -, means⟩
  rw [code_eq, Table.get?_ofList_eq_some_iff declares.sound.distinct_keys]
    at found
  rcases List.mem_map.mp found with ⟨written, isWritten, same⟩
  cases same
  exact means.isReadable instruction isWritten

theorem AreSound.perm_values
    {instructions : List Instruction}
    (sound : AreSound instructions) :
    (Table.ofList (instructions.map keyed)).values.Perm instructions := by
  have permuted := (Table.perm_entries_ofList sound.distinct_keys).map Prod.snd
  simpa [Table.values, keyed, Function.comp_def] using permuted

/--
The code of a listing, written line by line in any order, is read back as the
same code, unless a literal or a displacement is the least signed word.
-/
theorem lift_codeListing
    {text : String} {lifted : Lifted}
    (isLifted : lift text = .ok lifted)
    (avoid : ∀ instruction ∈ lifted.image.code.values, instruction.AvoidsLeast)
    {written : List Instruction}
    (permuted : written.Perm lifted.image.code.values)
    (zeros : Nat) :
    ∃ again, lift (codeListing lifted.image.name zeros written) = .ok again ∧
      again.image.code = lifted.image.code ∧
        again.image.name = lifted.image.name := by
  rcases lift_eq_ok_iff.mp ⟨lifted, isLifted, rfl⟩ with
    ⟨name, current, statements, declares, image_eq⟩
  rw [decodeEntries_eq_with_decoded] at image_eq
  have name_eq : lifted.image.name = name := by
    rw [image_eq]
    rfl
  have code_eq : lifted.image.code =
      Table.ofList ((instructionsOf statements).map keyed) := by
    rw [image_eq]
    rfl
  rcases declares.written with ⟨header, lines, isWritten, named, means⟩
  have isName : IsListingName name := by
    apply isListingName_of_headerName? named
    apply newline_not_mem_of_mem_lines
    exact (List.dropWhile_suffix _).subset (isWritten ▸ List.mem_cons_self)
  have samePerm : (instructionsOf statements).Perm written := by
    rw [code_eq] at permuted
    exact (permuted.trans declares.sound.perm_values).symm
  have sound := declares.sound.perm samePerm
  have readable : ∀ instruction ∈ written, instruction.IsReadable := by
    intro instruction member
    exact means.isReadable instruction (samePerm.mem_iff.mpr member)
  have writtenAvoid : ∀ instruction ∈ written, instruction.AvoidsLeast := by
    intro instruction member
    exact avoid instruction (permuted.mem_iff.mp member)
  have declaresAgain : Declares (codeListing name zeros written) name _ _ :=
    declares_codeListing isName sound readable writtenAvoid
  rcases lift_eq_ok_iff.mpr ⟨_, _, _, declaresAgain, rfl⟩ with
    ⟨again, isAgain, again_eq⟩
  rw [decodeEntries_eq_with_decoded] at again_eq
  rw [name_eq, code_eq, declares.sound.ofList_eq_of_perm samePerm]
  refine ⟨again, isAgain, ?_, ?_⟩
  · rw [again_eq]
    simp only [draftOf, instructionsOf_codeStatements]
  · rw [again_eq]
    rfl

/--
A listing with every addressing mode, aliases of registers, names that end like
a width, a name that is not known, and lines that are not in order.
-/
def modesListing : String := "LISTING modes

CODE
1020 sub (r6)+,-0x10(r5) ; b
1024 sob r2,4096
1026 bpl 0x1020
0x1000 movb #-9223372036854775807, -(sp)
1006 addl @#0x2000,@-4(fp)
100c nub r3,(r4)
1028 rts pc
"

/-- Written again, every number and every register is in its usual form. -/
theorem lift_codeListing_modesListing :
    ∃ lifted again, lift modesListing = .ok lifted ∧
      lifted.image.code.keys.length = 7 ∧
      lift (codeListing lifted.image.name 0 lifted.image.code.values) =
        .ok again ∧
      again.image.code = lifted.image.code := by
  have works : (lift modesListing).toOption.map (fun lifted =>
      decide (lifted.image.code.keys.length = 7 ∧
        ∀ instruction ∈ lifted.image.code.values,
        instruction.AvoidsLeast)) = some true := by
    decide +kernel
  rcases Option.map_eq_some_iff.mp works with ⟨lifted, found, conditions⟩
  have isLifted := eq_ok_of_toOption found
  rcases of_decide_eq_true conditions with ⟨count, avoid⟩
  rcases lift_codeListing isLifted avoid (.refl _) 0 with
    ⟨again, isAgain, sameCode, -⟩
  exact ⟨lifted, again, isLifted, count, isAgain, sameCode⟩

end Listing

end ProcRecovery
