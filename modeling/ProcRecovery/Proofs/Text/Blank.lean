import Mathlib.Data.List.DropRight
import ProcRecovery.Text.Blank

/-!
# Words and trimmed text

Text that neither starts nor ends with a blank is left alone by trimming, and
trimming gives such text.  The words of a text hold no blanks, and words with
blanks between them are the words of the text they make up.
-/

namespace ProcRecovery.Text

/-! ## Pieces of a text -/

/--
A piece of a split list holds nothing that was split on, and nothing that was
not there.
-/
theorem of_mem_splitOnP
    {α : Type} {splits : α → Bool} {items piece : List α}
    (isPiece : piece ∈ items.splitOnP splits) :
    ∀ item ∈ piece, splits item = false ∧ item ∈ items := by
  induction items generalizing piece with
  | nil =>
      rw [List.splitOnP_nil, List.mem_singleton] at isPiece
      subst isPiece
      exact List.forall_mem_nil _
  | cons first later hypothesis =>
      rw [List.splitOnP_cons_eq_if_modifyHead] at isPiece
      split at isPiece
      next =>
        rcases List.mem_cons.mp isPiece with rfl | isLater
        · exact List.forall_mem_nil _
        · intro item member
          rcases hypothesis isLater item member with ⟨kept, inside⟩
          exact ⟨kept, List.mem_cons_of_mem first inside⟩
      next kept =>
        rcases List.exists_cons_of_ne_nil
          (List.splitOnP_ne_nil splits later) with
          ⟨head, others, shape⟩
        rw [shape] at isPiece hypothesis
        rw [List.modifyHead_cons] at isPiece
        have inherited {other : List α} (isOther : other ∈ head :: others) :
            ∀ item ∈ other, splits item = false ∧ item ∈ first :: later := by
          intro item member
          rcases hypothesis isOther item member with ⟨itemKept, inside⟩
          exact ⟨itemKept, List.mem_cons_of_mem first inside⟩
        rcases List.mem_cons.mp isPiece with rfl | isOther
        · exact List.forall_mem_cons.mpr
            ⟨⟨by simpa using kept, List.mem_cons_self⟩,
              inherited List.mem_cons_self⟩
        · exact inherited (List.mem_cons_of_mem head isOther)

/--
What holds in every piece and between the pieces holds everywhere in the text
they make up.
-/
theorem forall_mem_intercalate
    {α : Type} {holds : α → Prop} {separator : List α}
    (between : ∀ item ∈ separator, holds item)
    {pieces : List (List α)}
    (inside : ∀ piece ∈ pieces, ∀ item ∈ piece, holds item) :
    ∀ item ∈ separator.intercalate pieces, holds item := by
  induction pieces with
  | nil => simp
  | cons first others hypothesis =>
      rcases List.forall_mem_cons.mp inside with ⟨inFirst, inOthers⟩
      cases others with
      | nil => simpa using inFirst
      | cons second later =>
          rw [List.intercalate_cons_cons, List.forall_mem_append,
            List.forall_mem_append]
          exact ⟨⟨inFirst, between⟩, hypothesis inOthers⟩

/-- No line holds a line break. -/
theorem newline_not_mem_of_mem_lines
    {text line : List Char}
    (isLine : line ∈ lines text) :
    '\n' ∉ line := by
  intro member
  have kept := (of_mem_splitOnP isLine '\n' member).1
  simp at kept

/-! ## Words -/

theorem of_mem_words {text word : List Char} (isWord : word ∈ words text) :
    word ≠ [] ∧ ∀ char ∈ word, isBlank char = false ∧ char ∈ text := by
  rcases List.mem_filter.mp isWord with ⟨isPiece, nonempty⟩
  exact ⟨by simpa using nonempty, of_mem_splitOnP isPiece⟩

/-- A blank keeps the words before it apart from those after it. -/
theorem words_append_cons
    {blank : Char}
    (isBlank_blank : isBlank blank = true)
    (text later : List Char) :
    words (text ++ blank :: later) = words text ++ words later := by
  rw [words, List.splitOnP_append_cons text later isBlank_blank,
    List.filter_append]
  rfl

theorem words_eq_singleton
    {word : List Char}
    (nonempty : word ≠ [])
    (solid : ∀ char ∈ word, isBlank char = false) :
    words word = [word] := by
  rw [words, List.splitOnP_eq_singleton solid]
  simpa using nonempty

theorem isBlank_of_isAlphanum
    {char : Char}
    (alphanumeric : char.isAlphanum = true) :
    isBlank char = false := by
  unfold Char.isAlphanum Char.isAlpha Char.isUpper Char.isLower Char.isDigit
    at alphanumeric
  simp only [Bool.or_eq_true, Bool.and_eq_true, decide_eq_true_eq,
    UInt32.le_iff_toNat_le]
    at alphanumeric
  change ((65 ≤ char.toNat ∧ char.toNat ≤ 90) ∨
    (97 ≤ char.toNat ∧ char.toNat ≤ 122)) ∨
    (48 ≤ char.toNat ∧ char.toNat ≤ 57) at alphanumeric
  simp only [isBlank, blankRanges, List.any_cons, List.any_nil,
    Bool.or_eq_false_iff, decide_eq_false_iff_not, and_true]
  omega

/-! ## Trimmed text -/

/-- Text that neither starts nor ends with a blank. -/
structure IsTrimmed (text : List Char) : Prop where
  starts : ∀ char ∈ text.head?, isBlank char = false
  ends : ∀ char ∈ text.getLast?, isBlank char = false

theorem trimEnd_eq_rdropWhile
    (text : List Char) :
    trimEnd text = text.rdropWhile isBlank := rfl

theorem trimEnd_eq_self
    {text : List Char}
    (ends : ∀ char ∈ text.getLast?, isBlank char = false) :
    trimEnd text = text := by
  rw [trimEnd_eq_rdropWhile, List.rdropWhile_eq_self_iff]
  intro nonempty
  have isLast := List.getLast?_eq_some_getLast nonempty
  simpa using ends _ isLast

theorem trim_eq_self
    {text : List Char}
    (trimmed : IsTrimmed text) :
    trim text = text := by
  have front : text.dropWhile isBlank = text := by
    cases text with
    | nil => rfl
    | cons first later =>
        have isFirst := trimmed.starts first rfl
        rw [List.dropWhile_cons_of_neg (by simp [isFirst])]
  rw [trim, front, trimEnd_eq_self trimmed.ends]

theorem mem_of_mem_trim
    {text : List Char} {char : Char}
    (member : char ∈ trim text) :
    char ∈ text := by
  rw [trim, trimEnd_eq_rdropWhile] at member
  exact (List.dropWhile_suffix _).subset
    ((List.rdropWhile_prefix _ _).subset member)

theorem isTrimmed_trim (text : List Char) : IsTrimmed (trim text) where
  starts := by
    intro char isHead
    rw [trim, trimEnd_eq_rdropWhile] at isHead
    -- The end of the text is cut off, so its head is what is left after the
    -- blanks before it.
    rcases List.rdropWhile_prefix isBlank (text.dropWhile isBlank) with
      ⟨tail, shape⟩
    have isFirst : (text.dropWhile isBlank).head? = some char := by
      rw [← shape, List.head?_append, isHead]
      rfl
    have kept := List.head?_dropWhile_not isBlank text
    rw [isFirst] at kept
    exact kept
  ends := by
    intro char isLast
    rw [trim, trimEnd_eq_rdropWhile] at isLast
    have nonempty : (text.dropWhile isBlank).rdropWhile isBlank ≠ [] := by
      intro empty
      rw [empty] at isLast
      cases isLast
    have kept :=
      List.rdropWhile_last_not isBlank (text.dropWhile isBlank) nonempty
    rw [List.getLast?_eq_some_getLast nonempty, Option.mem_some] at isLast
    rw [isLast] at kept
    simpa using kept

end ProcRecovery.Text
