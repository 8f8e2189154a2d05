import ProcRecovery.Graphviz.Library
import ProcRecovery.Proofs.Text.Numeral

/-!
# Labels of drawings

A label stands between quotes, and in it a backslash protects the character
after it.  Writing a label protects every quote but leaves backslashes as they
are, so a quote that its text has escaped already is protected twice and ends
the label early.  This module says exactly which labels are closed by the quote
that is meant to close them: those whose text holds no escaped quote.  Such a
quote can come from the name of a procedure, from an unknown mnemonic, from the
label of a call, and from any quote in a text that is pushed.
-/

namespace ProcRecovery

namespace Text

/--
Whether a text holds an escaped quote: a quote behind a backslash that no other
one protects.
-/
def hasEscapedQuote : List Char → Bool
  | [] => false
  | '\\' :: char :: later => char = '"' || hasEscapedQuote later
  | _ :: later => hasEscapedQuote later

/--
The text up to the first quote that no backslash protects, and the text after
that quote.
-/
def untilQuote : List Char → Option (List Char × List Char)
  | [] => none
  | '"' :: after => some ([], after)
  | '\\' :: char :: later =>
    (untilQuote later).map (fun parts => ('\\' :: char :: parts.1, parts.2))
  | char :: later =>
      (untilQuote later).map (fun parts => (char :: parts.1, parts.2))

/-- Text with neither quotes nor backslashes in it. -/
def IsPlain (text : List Char) : Prop :=
  ∀ char ∈ text, char ≠ '"' ∧ char ≠ '\\'

-- Checked character by character of the text, not over all characters.
instance (text : List Char) : Decidable (IsPlain text) :=
  List.decidableBAll (fun char => char ≠ '"' ∧ char ≠ '\\') text

@[simp]
theorem isPlain_nil : IsPlain [] := List.forall_mem_nil _

@[simp]
theorem isPlain_append {text later : List Char} :
    IsPlain (text ++ later) ↔ IsPlain text ∧ IsPlain later :=
  List.forall_mem_append

@[simp]
theorem isPlain_cons {char : Char} {later : List Char} :
    IsPlain (char :: later) ↔ (char ≠ '"' ∧ char ≠ '\\') ∧ IsPlain later :=
  List.forall_mem_cons

theorem IsPlain.quote_not_mem
    {text : List Char}
    (plain : IsPlain text) :
    '"' ∉ text :=
  fun member => (plain _ member).1 rfl

theorem IsPlain.backslash_not_mem
    {text : List Char}
    (plain : IsPlain text) :
    '\\' ∉ text :=
  fun member => (plain _ member).2 rfl

theorem isPlain_of_isAlphanum
    {text : List Char}
    (alphanumeric : ∀ char ∈ text, char.isAlphanum = true) :
    IsPlain text := by
  intro char member
  have isAlphanumeric := alphanumeric char member
  constructor
  · rintro rfl
    revert isAlphanumeric
    decide
  · rintro rfl
    revert isAlphanumeric
    decide

/--
An escape by number holds no quote, and no backslash but its first character.
-/
theorem exists_numberEscape_eq (char : Char) :
    ∃ others, numberEscape char = '\\' :: 'u' :: others ∧ IsPlain others := by
  refine ⟨'\x7b' :: (Nat.toDigits 16 char.toNat ++ ['\x7d']), rfl, ?_⟩
  rw [isPlain_cons, isPlain_append]
  have digits := isPlain_of_isAlphanum
    (@Numeral.isAlphanum_of_mem_toDigits 16 (by decide) (by decide) char.toNat)
  exact ⟨by decide, digits, by decide⟩

theorem hasEscapedQuote_cons
    {char : Char}
    (notBackslash : char ≠ '\\')
    (later : List Char) :
    hasEscapedQuote (char :: later) = hasEscapedQuote later := by
  rw [hasEscapedQuote]
  rintro _ _ rfl
  exact absurd rfl notBackslash

/-- In front of a text without backslashes nothing changes. -/
theorem hasEscapedQuote_append_of_plain
    {plain : List Char}
    (noBackslash : '\\' ∉ plain)
    (later : List Char) :
    hasEscapedQuote (plain ++ later) = hasEscapedQuote later := by
  induction plain with
  | nil => rfl
  | cons first others hypothesis =>
      rw [List.mem_cons, not_or] at noBackslash
      rw [List.cons_append, hasEscapedQuote_cons (Ne.symm noBackslash.1),
        hypothesis noBackslash.2]

theorem hasEscapedQuote_of_not_mem {text : List Char} (noQuote : '"' ∉ text) :
    hasEscapedQuote text = false := by
  fun_induction hasEscapedQuote text with
  | case1 => rfl
  | case2 char later hypothesis =>
      rw [List.mem_cons, List.mem_cons, not_or, not_or] at noQuote
      have notQuote : char ≠ '"' := Ne.symm noQuote.2.1
      simp [notQuote, hypothesis noQuote.2.2]
  | case3 char later _ hypothesis =>
      exact hypothesis (fun member =>
        noQuote (List.mem_cons_of_mem char member))

theorem IsPlain.hasEscapedQuote_eq {text : List Char} (plain : IsPlain text) :
    hasEscapedQuote text = false :=
  hasEscapedQuote_of_not_mem plain.quote_not_mem

/-- Behind a text, nothing is escaped but by the text. -/
theorem hasEscapedQuote_append_of_not_mem
    (text : List Char)
    {later : List Char}
    (noQuote : '"' ∉ later) :
    hasEscapedQuote (text ++ later) = hasEscapedQuote text := by
  fun_induction hasEscapedQuote text with
  | case1 => exact hasEscapedQuote_of_not_mem noQuote
  | case2 char others hypothesis =>
      rw [List.cons_append, List.cons_append, hasEscapedQuote, hypothesis]
  | case3 char others notEscape hypothesis =>
      by_cases isBackslash : char = '\\'
      · have last : others = [] := by
          cases others with
          | nil => rfl
          | cons second rest =>
              exact absurd rfl (notEscape second rest isBackslash)
        subst isBackslash last
        apply hasEscapedQuote_of_not_mem
        simpa using noQuote
      · rw [List.cons_append, hasEscapedQuote_cons isBackslash, hypothesis]

/--
A line break of a label keeps what is before it apart from what is after it,
because one of its two characters is protected in any case.
-/
theorem hasEscapedQuote_break (line later : List Char) :
    hasEscapedQuote (line ++ '\\' :: 'l' :: later) =
      (hasEscapedQuote line || hasEscapedQuote later) := by
  fun_induction hasEscapedQuote line with
  | case1 => rfl
  | case2 char others hypothesis =>
      rw [List.cons_append, List.cons_append, hasEscapedQuote, hypothesis,
        Bool.or_assoc]
  | case3 char others notEscape hypothesis =>
      by_cases isBackslash : char = '\\'
      · have last : others = [] := by
          cases others with
          | nil => rfl
          | cons second rest =>
              exact absurd rfl (notEscape second rest isBackslash)
        subst isBackslash last
        rfl
      · rw [List.cons_append, hasEscapedQuote_cons isBackslash, hypothesis]

theorem hasEscapedQuote_line (line : String) (later : List Char) :
    hasEscapedQuote ((line ++ "\\l").toList ++ later) =
      (hasEscapedQuote line.toList || hasEscapedQuote later) := by
  rw [String.toList_append, List.append_assoc]
  exact hasEscapedQuote_break line.toList later

/-! ## Quoted text -/

theorem hasEscapedQuote_quotedChar_append
    (char : Char)
    (later : List Char) :
    hasEscapedQuote (quotedChar char ++ later) =
      (char == '"' || hasEscapedQuote later) := by
  unfold quotedChar
  split
  next isNull => simp [isNull, hasEscapedQuote]
  split
  next isTab => simp [isTab, hasEscapedQuote]
  split
  next isReturn => simp [isReturn, hasEscapedQuote]
  split
  next isNewline => simp [isNewline, hasEscapedQuote]
  split
  next isQuote => simp [isQuote, hasEscapedQuote]
  next notQuote =>
  have differs : (char == '"') = false := beq_eq_false_iff_ne.mpr notQuote
  split
  next isBackslash => simp [isBackslash, hasEscapedQuote]
  next notBackslash =>
  split
  next =>
    rw [List.singleton_append, hasEscapedQuote_cons notBackslash, differs,
      Bool.false_or]
  next =>
    rcases exists_numberEscape_eq char with ⟨others, form, plain⟩
    rw [form, List.cons_append, List.cons_append, hasEscapedQuote,
      hasEscapedQuote_append_of_plain plain.backslash_not_mem, differs]
    rfl

/--
Quoted text holds an escaped quote wherever the text itself holds a quote.
-/
theorem hasEscapedQuote_quoted (text : String) :
    hasEscapedQuote (quoted text).toList = text.toList.contains '"' := by
  have inside (content : List Char) :
      hasEscapedQuote (content.flatMap quotedChar ++ ['"']) =
      content.contains '"' := by
    induction content with
    | nil => rfl
    | cons first others hypothesis =>
        rw [List.flatMap_cons, List.append_assoc,
          hasEscapedQuote_quotedChar_append, hypothesis, List.contains_cons,
          Bool.beq_comm]
  rw [quoted, String.toList_ofList, List.cons_append,
    hasEscapedQuote_cons (by decide), inside]

/-! ## Reading up to a quote -/

/-- Reading goes on behind a text and has protected nothing after it. -/
def Passes (front : List Char) : Prop :=
  ∀ later, untilQuote (front ++ later) =
    (untilQuote later).map (fun parts => (front ++ parts.1, parts.2))

theorem passes_nil : Passes [] := by
  intro later
  simp

theorem Passes.append
    {front later : List Char}
    (first : Passes front)
    (second : Passes later) :
    Passes (front ++ later) := by
  intro rest
  rw [List.append_assoc, first, second, Option.map_map]
  simp [Function.comp_def]

theorem passes_escape (char : Char) : Passes ['\\', char] := by
  intro later
  rfl

theorem passes_singleton
    {char : Char}
    (notQuote : char ≠ '"')
    (notBackslash : char ≠ '\\') :
    Passes [char] := by
  intro later
  rw [List.singleton_append, untilQuote]
  · rfl
  · exact notQuote
  · rintro _ _ rfl
    exact absurd rfl notBackslash

/-- Text without quotes and backslashes is passed. -/
theorem IsPlain.passes
    {text : List Char}
    (plain : IsPlain text) :
    Passes text := by
  induction text with
  | nil => exact passes_nil
  | cons first later hypothesis =>
      rcases isPlain_cons.mp plain with ⟨firstPlain, others⟩
      exact (passes_singleton firstPlain.1 firstPlain.2).append
        (hypothesis others)

theorem Passes.untilQuote_eq_some_iff
    {front later body after : List Char}
    (passes : Passes front) :
    untilQuote (front ++ later) = some (front ++ body, after) ↔
      untilQuote later = some (body, after) := by
  rw [passes, Option.map_eq_some_iff]
  constructor
  · rintro ⟨parts, read, same⟩
    rcases Prod.mk.inj same with ⟨sameBody, rfl⟩
    rw [read, ← List.append_cancel_left sameBody]
  · intro read
    exact ⟨(body, after), read, rfl⟩

end Text

/-! ## Labels -/

namespace Graphviz

open Text

/--
The form of a character in a label: backslashes stay, quotes are protected, and
any other character stands for itself or is given by an escape in which there
is no quote.
-/
theorem labelChar_cases
    (char : Char) :
    char = '\\' ∧ labelChar char = ['\\'] ∨ char = '"' ∧
      labelChar char = ['\\', '"'] ∨
      char ≠ '\\' ∧ char ≠ '"' ∧ (labelChar char = [char] ∨
        ∃ kind others, labelChar char = '\\' :: kind :: others ∧
          IsPlain (kind :: others)) := by
  by_cases isBackslash : char = '\\'
  · exact .inl ⟨isBackslash, by rw [isBackslash]; rfl⟩
  by_cases isQuote : char = '"'
  · exact .inr (.inl ⟨isQuote, by rw [isQuote]; rfl⟩)
  refine .inr (.inr ⟨isBackslash, isQuote, ?_⟩)
  unfold labelChar escapedChar
  rw [if_neg isBackslash, if_neg isQuote, if_neg isBackslash]
  split
  next => exact .inr ⟨'t', [], rfl, by decide⟩
  split
  next => exact .inr ⟨'r', [], rfl, by decide⟩
  split
  next => exact .inr ⟨'n', [], rfl, by decide⟩
  split
  next => exact .inr ⟨'\x27', [], rfl, by decide⟩
  split
  next => exact .inl rfl
  next =>
    rcases exists_numberEscape_eq char with ⟨others, form, plain⟩
    exact .inr ⟨'u', others, form, isPlain_cons.mpr ⟨by decide, plain⟩⟩

theorem passes_labelChar
    {char : Char}
    (notBackslash : char ≠ '\\') :
    Passes (labelChar char) := by
  rcases labelChar_cases char with
    ⟨isBackslash, -⟩ | ⟨-, form⟩ | ⟨-, notQuote,
      form | ⟨kind, others, form, plain⟩⟩
  · exact absurd isBackslash notBackslash
  · rw [form]
    exact passes_escape '"'
  · rw [form]
    exact passes_singleton notQuote notBackslash
  · rw [form]
    exact (passes_escape kind).append (isPlain_cons.mp plain).2.passes

/-- Behind a backslash every character but a quote is passed. -/
theorem passes_backslash_labelChar {char : Char} (notQuote : char ≠ '"') :
    Passes ('\\' :: labelChar char) := by
  rcases labelChar_cases char with
    ⟨-, form⟩ | ⟨isQuote, -⟩ | ⟨-, -, form | ⟨kind, others, form, plain⟩⟩
  · rw [form]
    exact passes_escape '\\'
  · exact absurd isQuote notQuote
  · rw [form]
    exact passes_escape char
  · rw [form]
    exact (passes_escape '\\').append plain.passes

/--
A label ends at its closing quote exactly if there is no escaped quote in its
text and that quote does not become one.
-/
theorem untilQuote_label_iff
    (text after : List Char) :
    untilQuote (text.flatMap labelChar ++ '"' :: after) =
      some (text.flatMap labelChar, after) ↔
      hasEscapedQuote (text ++ ['"']) = false := by
  fun_induction hasEscapedQuote text with
  | case1 => simp [untilQuote, hasEscapedQuote]
  | case2 char later hypothesis =>
      have form : ('\\' :: char :: later).flatMap labelChar =
          ('\\' :: labelChar char) ++ later.flatMap labelChar := by
        simp [List.flatMap_cons, show labelChar '\\' = ['\\'] from rfl]
      rw [form, List.append_assoc]
      by_cases isQuote : char = '"'
      · subst isQuote
        have early : untilQuote (('\\' :: labelChar '"') ++
            (later.flatMap labelChar ++ '"' :: after)) =
            some (['\\', '\\'], later.flatMap labelChar ++ '"' :: after) := rfl
        rw [early]
        simp [hasEscapedQuote, show labelChar '"' = ['\\', '"'] from rfl]
      · rw [(passes_backslash_labelChar isQuote).untilQuote_eq_some_iff,
          hypothesis]
        simp [hasEscapedQuote, isQuote]
  | case3 char later notEscape hypothesis =>
      by_cases isBackslash : char = '\\'
      · have last : later = [] := by
          cases later with
          | nil => rfl
          | cons second others =>
              exact absurd rfl (notEscape second others isBackslash)
        subst isBackslash last
        refine iff_of_false ?_ (by decide)
        intro read
        rcases Option.map_eq_some_iff.mp read with ⟨parts, -, same⟩
        cases same
      · rw [List.flatMap_cons, List.append_assoc,
          (passes_labelChar isBackslash).untilQuote_eq_some_iff, hypothesis,
          List.cons_append,
          hasEscapedQuote_cons isBackslash]

end Graphviz

end ProcRecovery
