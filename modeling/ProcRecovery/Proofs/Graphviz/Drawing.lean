import ProcRecovery.Graphviz.Drawing
import ProcRecovery.Proofs.Graphviz.Labels
import ProcRecovery.Proofs.Outcome
import ProcRecovery.Proofs.Table
import ProcRecovery.Proofs.Text.Blank

/-!
# Drawings

A drawing has one label for each block: the name of the procedure, if the block
is its entry, and the nodes of the block, each on a line of its own.  Numbers,
registers and operands are plain text with neither quotes nor backslashes, so
whether a label is closed by the quote that is meant to close it depends only
on the names that the listing has given and on the texts that are pushed.
-/

namespace ProcRecovery

open Text

/-! ## Plain texts -/

namespace Numeral

@[simp]
theorem isPlain_decimal (value : Nat) : IsPlain (decimal value).toList := by
  rw [decimal, String.toList_ofList]
  exact isPlain_of_isAlphanum
    (isAlphanum_of_mem_toDigits (by decide) (by decide))

@[simp]
theorem isPlain_signedDecimal
    (value : Int) :
    IsPlain (signedDecimal value).toList := by
  unfold signedDecimal
  split <;> simp

@[simp]
theorem isPlain_explicitDecimal
    (value : Int) :
    IsPlain (explicitDecimal value).toList := by
  unfold explicitDecimal
  split <;> simp

theorem isPlain_padded (width value : Nat) : IsPlain (padded 16 width value) :=
  isPlain_of_isAlphanum (isAlphanum_of_mem_padded (by decide) (by decide))

@[simp]
theorem isPlain_hex4 (value : Nat) : IsPlain (hex4 value).toList := by
  rw [hex4, String.toList_ofList]
  exact isPlain_padded 4 value

@[simp]
theorem isPlain_hex2 (value : Nat) : IsPlain (hex2 value).toList := by
  rw [hex2, String.toList_ofList]
  exact isPlain_padded 2 value

@[simp]
theorem isPlain_markedHex4
    (value : Nat) :
    IsPlain (markedHex4 value).toList := by
  simp [markedHex4]

@[simp]
theorem isPlain_markedHex
    (value : Nat) :
    IsPlain (markedHex value).toList := by
  have digits := isPlain_of_isAlphanum
    (@isAlphanum_of_mem_toDigits 16 (by decide) (by decide) value)
  simp [markedHex, digits]

end Numeral

open Numeral

theorem isPlain_flatMap
    {α : Type} {items : List α} {text : α → List Char}
    (plain : ∀ item ∈ items, IsPlain (text item)) :
    IsPlain (items.flatMap text) := by
  intro char member
  rcases List.mem_flatMap.mp member with ⟨item, isItem, inside⟩
  exact plain item isItem char inside

theorem isPlain_intercalate
    {separator : List Char}
    (between : IsPlain separator)
    {texts : List (List Char)}
    (plain : ∀ text ∈ texts, IsPlain text) :
    IsPlain (separator.intercalate texts) :=
  Text.forall_mem_intercalate between plain

@[simp]
theorem Register.isPlain_name
    (register : Register) :
    IsPlain register.name.toList := by
  unfold name
  split
  next => decide
  split
  next => decide
  split
  next => decide
  simp

@[simp]
theorem Operand.isPlain_text
    (operand : Operand) :
    IsPlain operand.text.toList := by
  cases operand <;> simp [text]

@[simp]
theorem Width.isPlain_suffix
    (width : Width) :
    IsPlain width.suffix.toList := by
  cases width <;> decide

@[simp]
theorem Report.isPlain_level
    (level : Resolution Int) :
    IsPlain (Report.level level).toList := by
  cases level with
  | known depth => exact isPlain_signedDecimal depth
  | unrecoverable => decide
  | notComputed => decide

@[simp]
theorem PseudoOp.isPlain_contentText (content : Resolution (List UInt8)) :
    IsPlain (contentText content).toList := by
  cases content with
  | unrecoverable => decide
  | notComputed => decide
  | known bytes =>
      have bytesPlain : IsPlain ([' '].intercalate
          (bytes.map (String.toList ∘ fun byte => hex2 byte.toNat))) :=
        isPlain_intercalate (by decide) (by simp)
      simp [contentText, bytesPlain]

/-! ## Texts of nodes -/

namespace PseudoOp

/--
Whether the text of a pseudo-operation holds an escaped quote: in the name of
what is called, or for a quote in the text that is pushed.
-/
def writesEscapedQuote : PseudoOp → Bool
  | call _ (some name) _ => hasEscapedQuote name.toList
  | stringLiteral _ _ (.known text) => text.toList.contains '"'
  | _ => false

theorem hasEscapedQuote_text (op : PseudoOp) :
    hasEscapedQuote op.text.toList = op.writesEscapedQuote := by
  unfold text
  cases op with
  | registerCache cached =>
      have loadsPlain : IsPlain ((cached.map (fun load =>
          " " ++ load.1.name ++ "=" ++
            markedHex (unsignedReading load.2))).flatMap
            String.toList) :=
        isPlain_flatMap (List.forall_mem_map.mpr (by simp))
      exact IsPlain.hasEscapedQuote_eq (by simp [loadsPlain])
  | blob width source direction content =>
      apply IsPlain.hasEscapedQuote_eq
      cases source <;> cases direction <;> simp
  | constantPush width value =>
      apply IsPlain.hasEscapedQuote_eq
      cases width <;> simp
  | call destination label routine =>
      cases label with
      | none =>
          apply IsPlain.hasEscapedQuote_eq
          cases destination <;> simp
      | some name =>
          -- The name stands between a plain text and a closing angle bracket.
          have aroundName (front : String) (plain : IsPlain front.toList) :
              hasEscapedQuote (front ++ (" <" ++ name ++ ">")).toList =
                hasEscapedQuote name.toList := by
            have frontPlain : IsPlain (front ++ " <").toList := by simp [plain]
            rw [← String.append_assoc, ← String.append_assoc,
              String.toList_append, String.toList_append, List.append_assoc,
              hasEscapedQuote_append_of_plain frontPlain.backslash_not_mem,
              hasEscapedQuote_append_of_not_mem _ (by decide)]
          cases destination <;> exact aroundName _ (by simp)
  | stringLiteral source width content =>
      cases content with
      | known content =>
          have front : '\\' ∉ "pushstr ".toList := by decide
          rw [String.toList_append, hasEscapedQuote_append_of_plain front,
            hasEscapedQuote_quoted]
          rfl
      | _ =>
          apply IsPlain.hasEscapedQuote_eq
          simp
  | _ =>
      apply IsPlain.hasEscapedQuote_eq
      simp

end PseudoOp

/-- Whether the text of a node holds an escaped quote. -/
def Node.writesEscapedQuote (node : Node) : Bool :=
  match node.op with
  | some op => op.writesEscapedQuote
  | none => hasEscapedQuote node.first.mnemonic.name.toList

theorem Instruction.hasEscapedQuote_text (instruction : Instruction) :
    hasEscapedQuote instruction.text.toList =
      hasEscapedQuote instruction.mnemonic.name.toList := by
  have rest : IsPlain (instruction.width.suffix ++
      (if (instruction.operands.map Operand.text).isEmpty then ""
        else
        " " ++ String.intercalate ","
          (instruction.operands.map Operand.text))).toList := by
    have operandsPlain : IsPlain ([','].intercalate
        ((instruction.operands.map Operand.text).map String.toList)) :=
      isPlain_intercalate (by decide) (by simp)
    split
    · simp
    · rw [List.map_map] at operandsPlain
      simp [operandsPlain]
  rw [text, String.append_assoc, String.toList_append,
    hasEscapedQuote_append_of_not_mem _ rest.quote_not_mem]

theorem Node.hasEscapedQuote_text (node : Node) :
    hasEscapedQuote node.text.toList = node.writesEscapedQuote := by
  unfold text writesEscapedQuote
  cases node.op with
  | some op => exact op.hasEscapedQuote_text
  | none => exact node.first.hasEscapedQuote_text

/-! ## Labels of blocks -/

namespace Graphviz

/-- Nodes on lines of their own add the escaped quotes of their texts. -/
theorem hasEscapedQuote_nodeLines (nodes : List Node) (later : List Char) :
    hasEscapedQuote ((String.join (nodes.map (fun node =>
        hex4 node.lo ++ "  " ++ node.text ++ "\\l"))).toList ++ later) =
      (nodes.any Node.writesEscapedQuote || hasEscapedQuote later) := by
  induction nodes with
  | nil => simp
  | cons node others hypothesis =>
      have place : IsPlain (hex4 node.lo ++ "  ").toList := by simp
      rw [List.map_cons, String.join_cons, String.toList_append,
        List.append_assoc, hasEscapedQuote_line, hypothesis,
        String.toList_append,
        hasEscapedQuote_append_of_plain place.backslash_not_mem,
        node.hasEscapedQuote_text, List.any_cons, Bool.or_assoc]

/--
In the label of a block there is an escaped quote only if it is in the name of
the procedure or in the text of a node.
-/
theorem hasEscapedQuote_blockText
    (image : Image)
    (procedure : Procedure)
    (address : Nat)
    (block : Block)
    (nodes : List Node) :
    hasEscapedQuote
        ((blockText image procedure address block nodes).toList ++ ['"']) =
      (decide (address = procedure.graph.entry) &&
          hasEscapedQuote (image.procedureName procedure.lo).toList ||
        nodes.any Node.writesEscapedQuote) := by
  have place : IsPlain (hex4 address ++ "  level " ++
      Report.level block.level ++ "  delta " ++
        explicitDecimal block.delta).toList := by simp
  -- The place and the nodes are on lines of their own, behind the line of the
  -- name if there is one.
  have behindName (front : String) : front ++ hex4 address ++ "  level " ++
      Report.level block.level ++ "  delta " ++ explicitDecimal block.delta ++
        "\\l" =
      front ++ ((hex4 address ++ "  level " ++ Report.level block.level ++
        "  delta " ++ explicitDecimal block.delta) ++ "\\l") := by
    simp only [String.append_assoc]
  rw [blockText, behindName, String.toList_append, String.toList_append,
    List.append_assoc, List.append_assoc]
  split
  next isEntry =>
    rw [hasEscapedQuote_line, hasEscapedQuote_line, place.hasEscapedQuote_eq,
      hasEscapedQuote_nodeLines]
    simp [isEntry, hasEscapedQuote]
  next notEntry =>
    rw [String.toList_empty, List.nil_append, hasEscapedQuote_line,
      place.hasEscapedQuote_eq, hasEscapedQuote_nodeLines]
    simp [notEntry, hasEscapedQuote]

/-! ## Boxes in a layout -/

namespace Layout

variable (layout : Layout) (drawing : Drawing)

/-- The text of a drawing up to the quote that opens the label of a box. -/
def before (earlier : List Box) (box : Box) : String :=
  layout.opening drawing ++ String.join (earlier.map layout.boxLine) ++
    layout.beforeLabel box

/-- The text of a drawing after the quote that closes the label of a box. -/
def after (box : Box) (later : List Box) : String :=
  layout.afterLabel box ++ String.join (later.map layout.boxLine) ++
    layout.closing drawing

/--
Every label of a drawing is between two quotes, and the first quote in it that
no backslash protects is the one that closes it.
-/
def ClosesLabels : Prop :=
  ∀ earlier box later, drawing.boxes = earlier ++ box :: later →
    ∃ content,
      (layout.text drawing).toList =
        (layout.before drawing earlier box).toList ++
          '"' :: (content ++
            '"' :: (layout.after drawing box later).toList) ∧
      untilQuote (content ++ '"' :: (layout.after drawing box later).toList) =
        some (content, (layout.after drawing box later).toList)

end Layout

theorem toList_written_escaped (text : String) :
    (Label.escaped text).written.toList =
      '"' :: (text.toList.flatMap labelChar ++ ['"']) := by
  rw [Label.written, String.toList_ofList, List.cons_append]

/-- A drawing around the label of one of its boxes. -/
theorem toList_text
    {layout : Layout} {drawing : Drawing} {earlier later : List Box}
    {box : Box} {text : String}
    (split : drawing.boxes = earlier ++ box :: later)
    (isEscaped : box.label = .escaped text) :
    (layout.text drawing).toList =
      (layout.before drawing earlier box).toList ++
        '"' :: (text.toList.flatMap labelChar ++
          '"' :: (layout.after drawing box later).toList) := by
  unfold Layout.text Layout.before Layout.after
  rw [split, List.map_append, List.map_cons, String.join_append,
    String.join_cons, Layout.boxLine, isEscaped]
  simp only [String.toList_append, toList_written_escaped, List.append_assoc,
    List.cons_append, List.nil_append]

theorem closesLabels_iff_hasEscapedQuote
    {layout : Layout} {drawing : Drawing}
    (escaped : ∀ box ∈ drawing.boxes, ∃ text, box.label = .escaped text) :
    layout.ClosesLabels drawing ↔
      ∀ box ∈ drawing.boxes, ∀ text, box.label = .escaped text →
        hasEscapedQuote (text.toList ++ ['"']) = false := by
  constructor
  · intro closes box member text isEscaped
    rcases List.append_of_mem member with ⟨earlier, later, split⟩
    rcases closes earlier box later split with ⟨content, drawn, read⟩
    rw [toList_text split isEscaped, List.append_cancel_left_eq,
      List.cons_inj_right, List.append_cancel_right_eq] at drawn
    rw [← drawn] at read
    exact (untilQuote_label_iff _ _).mp read
  · intro unescaped earlier box later split
    have member : box ∈ drawing.boxes := by simp [split]
    rcases escaped box member with ⟨text, isEscaped⟩
    exact ⟨_, toList_text split isEscaped,
      (untilQuote_label_iff _ _).mpr (unescaped box member text isEscaped)⟩

/-! ## Drawings of procedures -/

section Procedures

variable {library : Library} {layout : Layout} {image : Image}
  {procedure : Procedure} {drawn : Drawing}

/-- The box of a block has the text of the block for a label. -/
theorem label_of_boxOf
    {address : Nat} {box : Box}
    (isBox : boxOf library image procedure address = .ok box) :
    ∃ block, procedure.graph.blocks.get? address = some block ∧
      box.label = .escaped (blockText image procedure address block
        (block.nodes procedure.body)) := by
  rcases bind_eq_ok_iff.mp isBox with ⟨name, -, isBox⟩
  split at isBox
  next block found =>
    rcases bind_eq_ok_iff.mp isBox with ⟨nodes, isNodes, same⟩
    rcases Block.nodesIn_eq_ok_iff.mp isNodes with ⟨-, -, rfl⟩
    cases same
    exact ⟨block, found, rfl⟩
  next => cases isBox

/-- A drawing has one box for each block. -/
theorem boxes_of_drawing
    (isDrawn : drawing library image procedure = .ok drawn) :
    List.Forall₂
      (fun address box => boxOf library image procedure address = .ok box)
      procedure.graph.blocks.keys drawn.boxes := by
  rcases bind_eq_ok_iff.mp isDrawn with ⟨name, -, isDrawn⟩
  rcases bind_eq_ok_iff.mp isDrawn with ⟨boxes, areBoxes, isDrawn⟩
  rcases bind_eq_ok_iff.mp isDrawn with ⟨arrows, -, same⟩
  cases same
  exact mapM_eq_ok_iff.mp areBoxes

/--
The labels of a drawing are closed where they should be exactly if neither the
name of the procedure, on the label of its entry, nor a node of a block holds
an escaped quote.
-/
theorem closesLabels_of_drawing_iff
    (isDrawn : drawing library image procedure = .ok drawn) :
    layout.ClosesLabels drawn ↔
      ∀ address block, procedure.graph.blocks.get? address = some block →
        (address = procedure.graph.entry →
          hasEscapedQuote (image.procedureName procedure.lo).toList = false) ∧
        ∀ node ∈ block.nodes procedure.body,
          node.writesEscapedQuote = false := by
  have boxes := boxes_of_drawing isDrawn
  have escaped : ∀ box ∈ drawn.boxes, ∃ text, box.label = .escaped text := by
    intro box member
    rcases exists_of_mem_right boxes member with ⟨address, -, isBox⟩
    rcases label_of_boxOf isBox with ⟨block, -, label⟩
    exact ⟨_, label⟩
  rw [closesLabels_iff_hasEscapedQuote escaped]
  constructor
  · intro unescaped address block found
    have key : address ∈ procedure.graph.blocks.keys := by
      rw [Table.mem_keys_iff, Table.contains, found]
      rfl
    rcases exists_of_mem_left boxes key with ⟨box, member, isBox⟩
    rcases label_of_boxOf isBox with ⟨same, foundSame, label⟩
    rw [found] at foundSame
    cases foundSame
    have plain := unescaped box member _ label
    simpa [hasEscapedQuote_blockText] using plain
  · intro plain box member text isEscaped
    rcases exists_of_mem_right boxes member with ⟨address, -, isBox⟩
    rcases label_of_boxOf isBox with ⟨block, found, label⟩
    rw [isEscaped] at label
    cases label
    simpa [hasEscapedQuote_blockText] using plain address block found

/-! ## Drawings without faults -/

/-- A letter in front of an address is an identifier. -/
theorem isIdentifier_hex4
    {letter : Char}
    (isLetter : letter.isAlpha = true)
    (address : Nat) :
    isIdentifier (String.ofList [letter] ++ hex4 address) = true := by
  have named : (String.ofList [letter] ++ hex4 address).toList =
      letter :: padded 16 4 address := by
    simp [hex4]
  rw [isIdentifier, named, Bool.and_eq_true, List.all_eq_true]
  refine ⟨by simp [isNameStart, isLetter], ?_⟩
  intro char member
  have alphanumeric :=
    isAlphanum_of_mem_padded (by decide) (by decide) char member
  rw [Char.isAlphanum, Bool.or_eq_true] at alphanumeric
  rcases alphanumeric with isAlpha | isDigit
  · simp [isNameStart, isAlpha]
  · simp [isDigit]

theorem Library.Follows.named_eq
    (follows : library.Follows layout) {name : String}
    (isName : isIdentifier name = true) : library.named name = .ok name :=
  if_pos (follows.accepts_eq name isName)

theorem exists_boxOf
    (follows : library.Follows layout) {address : Nat} {block : Block}
    (found : procedure.graph.blocks.get? address = some block)
    (proper : block.start ≤ block.stop)
    (within : block.stop ≤ procedure.body.length) :
    ∃ box, boxOf library image procedure address = .ok box := by
  have named := follows.named_eq
    (isIdentifier_hex4 (show 'b'.isAlpha = true by decide) address)
  let box : Box :=
    { name := blockId address
      label := .escaped (blockText image procedure address block
        (block.nodes procedure.body))
      shape := .plain "box" }
  refine ⟨box, ?_⟩
  simp only [boxOf, blockId, named, ok_bind, found,
    Block.nodesIn_of_within proper within]
  rfl

theorem exists_arrowOf
    (follows : library.Follows layout)
    (graph : Graph)
    (edge : Nat × Nat) :
    ∃ arrow, arrowOf library graph edge = .ok arrow := by
  have named (address : Nat) := follows.named_eq
    (isIdentifier_hex4 (show 'b'.isAlpha = true by decide) address)
  let isSkewed := isAmong graph.skewed edge
  let arrow : Arrow :=
    { source := blockId edge.1
      target := blockId edge.2
      label := .plain (if isSkewed then "skew" else "")
      dashed := isSkewed }
  refine ⟨arrow, ?_⟩
  simp only [arrowOf, blockId, named, ok_bind]
  rfl

end Procedures

end Graphviz

/-- Every block of a procedure names nodes of its body. -/
def Procedure.IsDrawable (procedure : Procedure) : Prop :=
  ∀ block ∈ procedure.graph.blocks.values,
    block.start ≤ block.stop ∧ block.stop ≤ procedure.body.length

namespace Graphviz

variable {library : Library} {layout : Layout} {image : Image}
  {procedure : Procedure} {drawn : Drawing}

/-- A traversal whose steps all have a result has results. -/
theorem exists_mapM
    {α β : Type} {step : α → Except Fault β} {items : List α}
    (each : ∀ item ∈ items, ∃ result, step item = .ok result) :
    ∃ results, items.mapM step = .ok results := by
  have delivers : Delivers (items.mapM step)
      (List.Forall₂ (fun _ _ => True) items) (fun _ => False) := by
    apply Delivers.mapM
    intro item member
    rcases each item member with ⟨result, isResult⟩
    rw [isResult]
    trivial
  rcases delivers.exists_ok with ⟨results, isOk, -⟩
  exact ⟨results, isOk⟩

/-- A drawable procedure has a drawing. -/
theorem exists_drawing
    (follows : library.Follows layout)
    (image : Image)
    (drawable : procedure.IsDrawable) :
    ∃ drawn, drawing library image procedure = .ok drawn := by
  have named := follows.named_eq
    (isIdentifier_hex4 (show 'f'.isAlpha = true by decide) procedure.lo)
  have eachBox : ∀ address ∈ procedure.graph.blocks.keys,
      ∃ box, boxOf library image procedure address = .ok box := by
    intro address member
    rw [Table.mem_keys_iff, Table.contains, Option.isSome_iff_exists] at member
    rcases member with ⟨block, found⟩
    rcases drawable block (Table.mem_values_iff.mpr ⟨address, found⟩) with
      ⟨proper, within⟩
    exact exists_boxOf follows found proper within
  rcases exists_mapM eachBox with ⟨boxes, areBoxes⟩
  rcases exists_mapM (fun edge (_ : edge ∈ procedure.graph.edges) =>
    exists_arrowOf follows procedure.graph edge) with ⟨arrows, areArrows⟩
  refine ⟨{ name := procedureId procedure.lo, boxes, arrows }, ?_⟩
  simp only [drawing, procedureId, named, ok_bind, areBoxes, areArrows]
  rfl

theorem fromUTF8?_toUTF8 (text : String) :
    String.fromUTF8? text.toUTF8 = some text :=
  dif_pos text.isValidUTF8

/-- What is drawn is the text of the layout. -/
theorem generate_of_drawing
    (follows : library.Follows layout)
    (isDrawn : drawing library image procedure = .ok drawn) :
    generate library image procedure = .ok (layout.text drawn) := by
  have written : write library image procedure =
      .ok (.ok (layout.text drawn).toUTF8) := by
    rw [write, isDrawn, ok_bind, follows.render_eq]
    rfl
  rw [generate, written, ok_bind]
  simp only [fromUTF8?_toUTF8]
  rfl

/-- Drawable procedures are written to their end. -/
theorem exists_writeAll
    (follows : library.Follows layout)
    (image : Image)
    {procedures : List Procedure}
    (drawable : ∀ procedure ∈ procedures, procedure.IsDrawable) :
    ∃ bytes, writeAll library image procedures = .ok (.ok bytes) := by
  induction procedures with
  | nil => exact ⟨_, rfl⟩
  | cons first later hypothesis =>
      rw [List.forall_mem_cons] at drawable
      rcases exists_drawing follows image drawable.1 with ⟨drawn, isDrawn⟩
      rcases hypothesis drawable.2 with ⟨bytes, areWritten⟩
      refine ⟨(layout.text drawn).toUTF8 ++ bytes, ?_⟩
      simp only [writeAll, write, isDrawn, ok_bind, pure_bind,
        follows.render_eq, areWritten]
      rfl

end Graphviz

end ProcRecovery
