import ProcRecovery.Idiom.Collapse
import ProcRecovery.Proofs.Abutting
import ProcRecovery.Proofs.Emission

/-!
# Normal forms

A pass of a family is greedy: it goes over a body from left to right, collapses
the window of the first template that matches at a position, and goes on behind
it.  What it makes is no machine instruction any more.  A window of machine
instructions after the pass has therefore been there before it, and the pass
has come to its start and left it alone, so no template of the family matches
it.  One pass settles a family, and later families only take windows away.  So
a body that has been collapsed is in normal form for all families, and
collapsing it once more changes nothing.
-/

namespace ProcRecovery

/-! ## Contiguous bodies -/

/--
The nodes of a body abut, and so do the instructions of those that are machine
instructions.
-/
structure IsContiguous (body : List Node) : Prop where
  abuts : Abutting Node.lo Node.hi body
  ownAbut : ∀ node ∈ body, node.op = none →
    Abutting Instruction.lo Instruction.hi node.instructions

namespace IsContiguous

variable {earlier later : List Node}

theorem left
    (contiguous : IsContiguous (earlier ++ later)) :
    IsContiguous earlier where
  abuts := contiguous.abuts.left
  ownAbut :=
    fun node member =>
      contiguous.ownAbut node (List.mem_append_left later member)

theorem right
    (contiguous : IsContiguous (earlier ++ later)) :
    IsContiguous later where
  abuts := contiguous.abuts.right
  ownAbut :=
    fun node member =>
      contiguous.ownAbut node (List.mem_append_right earlier member)

theorem tail
    {node : Node}
    (contiguous : IsContiguous (node :: later)) :
    IsContiguous later where
  abuts := contiguous.abuts.tail
  ownAbut :=
    fun other member =>
      contiguous.ownAbut other (List.mem_cons_of_mem node member)

/-- The instructions of adjacent machine instructions abut. -/
theorem abutting_instructionsOf
    {nodes : List Node}
    (contiguous : IsContiguous nodes)
    (raw : ∀ node ∈ nodes, node.op = none) :
    Abutting Instruction.lo Instruction.hi (instructionsOf nodes) := by
  induction nodes with
  | nil => trivial
  | cons first later hypothesis =>
      rw [List.forall_mem_cons] at raw
      have rest := hypothesis contiguous.tail raw.2
      apply (contiguous.ownAbut first (by simp) raw.1).append rest
      intro last isLast next isNext
      have starts := head?_instructionsOf later
      rw [Option.mem_def.mp isNext] at starts
      rw [Node.getLast?_instructions] at isLast
      cases isLast
      cases later with
      | nil => cases starts
      | cons second others =>
          rw [Option.some.inj starts]
          exact contiguous.abuts.1

end IsContiguous

/-- Nodes can be wrapped into one if their instructions abut. -/
theorem Node.exists_wrap
    (op : Option PseudoOp)
    {window : List Node}
    (nonempty : window ≠ [])
    (abuts : Abutting Instruction.lo Instruction.hi (instructionsOf window)) :
    ∃ single, Node.wrap op (instructionsOf window) = .ok single := by
  obtain ⟨first, later, rfl⟩ := List.exists_cons_of_ne_nil nonempty
  rw [instructionsOf_cons, Node.instructions, List.cons_append] at abuts ⊢
  exact ⟨_, if_pos abuts⟩

namespace Idiom

/-! ## Windows -/

theorem mapM_raw?_eq_some_iff
    {nodes : List Node} {instructions : List Instruction} :
    nodes.mapM Node.raw? = some instructions ↔
      nodes.map Node.raw? = instructions.map some := by
  induction nodes generalizing instructions with
  | nil =>
      cases instructions <;> simp
  | cons node later hypothesis =>
      cases instructions with
      | nil => simp [List.mapM_cons, Option.bind_eq_some_iff]
      | cons first rest =>
          simp only [List.mapM_cons, Option.bind_eq_bind, Option.pure_def,
            Option.bind_eq_some_iff, Option.some.injEq, List.cons.injEq,
            List.map_cons]
          constructor
          · rintro ⟨instruction, isRaw, others, areRaw, rfl, rfl⟩
            exact ⟨isRaw, hypothesis.mp areRaw⟩
          · rintro ⟨isRaw, areRaw⟩
            exact ⟨first, isRaw, rest, hypothesis.mpr areRaw, rfl, rfl⟩

/--
A window consists of machine instructions, as many as the template asks for,
and the template recognizes them.
-/
def Template.Covers
    (template : Template)
    (image : Image)
    (window : List Node)
    (op : PseudoOp) :
    Prop :=
  ∃ instructions, window.length = template.length ∧
    window.map Node.raw? = instructions.map some ∧
    template.recognize image instructions = some op

namespace Template

variable {template : Template} {image : Image} {op : PseudoOp}

/-- A template matches a body if it covers a window at its start. -/
theorem match?_eq_some_iff {body : List Node} :
    template.match? image body = some op ↔
      ∃ window later, body = window ++ later ∧
      template.Covers image window op := by
  unfold match?
  constructor
  · intro isMatch
    split at isMatch
    next => cases isMatch
    next long =>
      obtain ⟨instructions, areRaw, recognized⟩ :=
        Option.bind_eq_some_iff.mp isMatch
      have enough : (body.take template.length).length = template.length := by
        rw [List.length_take]
        omega
      exact ⟨body.take template.length, body.drop template.length,
        (List.take_append_drop _ _).symm, instructions, enough,
        mapM_raw?_eq_some_iff.mp areRaw, recognized⟩
  · rintro ⟨window, later, rfl, instructions, length, areRaw, recognized⟩
    rw [if_neg (by rw [List.length_append]; omega), ← length, List.take_left]
    exact Option.bind_eq_some_iff.mpr
      ⟨instructions, mapM_raw?_eq_some_iff.mpr areRaw, recognized⟩

theorem Covers.op_eq_none
    {window : List Node}
    (covers : template.Covers image window op) :
    ∀ node ∈ window, node.op = none := by
  obtain ⟨instructions, -, areRaw, -⟩ := covers
  intro node member
  have isRaw : node.raw? ∈ instructions.map some := by
    rw [← areRaw]
    exact List.mem_map_of_mem member
  obtain ⟨instruction, -, same⟩ := List.mem_map.mp isRaw
  exact (Node.raw?_eq_some_iff.mp same.symm).1

theorem Covers.ne_nil
    {window : List Node}
    (covers : template.Covers image window op) :
    window ≠ [] := by
  obtain ⟨instructions, length, -⟩ := covers
  have positive := template.length_pos
  rw [← List.length_pos_iff]
  omega

/-- What a match takes away are machine instructions. -/
theorem take_of_match?
    {body : List Node}
    (isMatch : template.match? image body = some op) :
    body.take template.length ≠ [] ∧ ∀ node ∈ body.take template.length,
      node.op = none := by
  obtain ⟨window, later, rfl, covers⟩ := match?_eq_some_iff.mp isMatch
  obtain ⟨-, length, -⟩ := id covers
  rw [← length, List.take_left]
  exact ⟨covers.ne_nil, covers.op_eq_none⟩

end Template

theorem firstMatch?_eq_none_iff
    {family : List Template} {image : Image} {body : List Node} :
    firstMatch? family image body = none ↔
      ∀ template ∈ family, template.match? image body = none := by
  simp [firstMatch?]

/--
The match of a family is that of the first of its templates that matches.
-/
theorem exists_of_firstMatch?
    {family : List Template} {image : Image} {body : List Node}
    {template : Template} {op : PseudoOp}
    (found : firstMatch? family image body = some (template, op)) :
    ∃ before after, family = before ++ template :: after ∧
      (∀ other ∈ before, other.match? image body = none) ∧
      template.match? image body = some op := by
  obtain ⟨before, candidate, after, rfl, isMatch, earlier⟩ :=
    List.findSome?_eq_some_iff.mp found
  obtain ⟨recognized, isRecognized, same⟩ := Option.map_eq_some_iff.mp isMatch
  cases same
  exact ⟨before, after, rfl, fun other member =>
    by simpa using earlier other member, isRecognized⟩

/-! ## Passes -/

/--
A family collapses a body greedily into another one.  At each position that the
matches before it have left, the first template of the family that matches
there collapses its window into one node, and if none matches the node is kept.
-/
inductive CollapsesGreedily (family : List Template) (image : Image) :
    List Node → List Node → Prop
  | done : CollapsesGreedily family image [] []
  | keep {node : Node} {later next : List Node}
      (unmatched : ∀ template ∈ family, template.match? image (node :: later) =
        none)
      (goesOn : CollapsesGreedily family image later next) :
      CollapsesGreedily family image (node :: later) (node :: next)
  | collapse
      {before after : List Template} {template : Template}
      {body next : List Node} {op : PseudoOp} {single : Node}
      (isFamily : family = before ++ template :: after)
      (earliest : ∀ other ∈ before, other.match? image body = none)
      (isMatch : template.match? image body = some op)
      (wraps :
        Node.wrap (some op) (instructionsOf (body.take template.length)) =
          .ok single)
      (goesOn :
        CollapsesGreedily family image (body.drop template.length) next) :
      CollapsesGreedily family image body (single :: next)

/-- No template of a family covers a window anywhere in a body. -/
def IsNormal
    (family : List Template)
    (image : Image)
    (body : List Node) :
    Prop :=
  ∀ earlier window later, body = earlier ++ window ++ later →
    ∀ template ∈ family, ∀ op, ¬ template.Covers image window op

section Passes

variable {family : List Template} {image : Image} {body next : List Node}

/--
A pass collapses greedily.  The cases are those of the division into segments.
-/
theorem collapsesGreedily_of_buildAll
    (built : buildAll (segments family image body) = .ok next) :
    CollapsesGreedily family image body next := by
  fun_induction segments family image body generalizing next with
  | case1 =>
      cases built
      exact .done
  | case2 node later template op found hypothesis =>
      obtain ⟨single, wraps, built⟩ := bind_eq_ok_iff.mp built
      obtain ⟨rest, isRest, same⟩ := bind_eq_ok_iff.mp built
      cases same
      obtain ⟨before, after, isFamily, earliest, isMatch⟩ :=
        exists_of_firstMatch? found
      exact .collapse isFamily earliest isMatch wraps (hypothesis isRest)
  | case3 node later found hypothesis =>
      obtain ⟨same, isSame, built⟩ := bind_eq_ok_iff.mp built
      obtain ⟨rest, isRest, again⟩ := bind_eq_ok_iff.mp built
      cases isSame
      cases again
      exact .keep (firstMatch?_eq_none_iff.mp found) (hypothesis isRest)

/-- Nothing can go wrong in a pass over a contiguous body. -/
theorem exists_buildAll
    (family : List Template)
    (image : Image)
    (contiguous : IsContiguous body) :
    ∃ next, buildAll (segments family image body) = .ok next := by
  fun_induction segments family image body with
  | case1 => exact ⟨[], rfl⟩
  | case2 node later template op found hypothesis =>
      rw [← List.take_append_drop template.length (node :: later)]
        at contiguous
      obtain ⟨rest, isRest⟩ := hypothesis contiguous.right
      obtain ⟨before, after, -, -, isMatch⟩ := exists_of_firstMatch? found
      obtain ⟨nonempty, raw⟩ := Template.take_of_match? isMatch
      have abuts := contiguous.left.abutting_instructionsOf raw
      obtain ⟨single, wraps⟩ := Node.exists_wrap (some op) nonempty abuts
      refine ⟨single :: rest, ?_⟩
      rw [buildAll, Segment.build, ← instructionsOf, wraps, isRest]
      rfl
  | case3 node later found hypothesis =>
      obtain ⟨rest, isRest⟩ := hypothesis contiguous.tail
      simp only [buildAll, Segment.build, isRest, ok_bind]
      exact ⟨_, rfl⟩

namespace CollapsesGreedily

/--
A body of machine instructions at the start of what is made has been there
before.
-/
theorem exists_start
    {window later : List Node}
    (raw : ∀ node ∈ window, node.op = none)
    (greedy : CollapsesGreedily family image body (window ++ later)) :
    ∃ back, body = window ++ back := by
  induction window generalizing body with
  | nil => exact ⟨body, rfl⟩
  | cons node rest hypothesis =>
      rw [List.forall_mem_cons] at raw
      cases greedy with
      | keep unmatched goesOn =>
          obtain ⟨back, rfl⟩ := hypothesis raw.2 goesOn
          exact ⟨back, rfl⟩
      | collapse isFamily earliest isMatch wraps goesOn =>
          -- A collapsed window has become an operation.
          have isOp := Node.op_of_wrap wraps
          rw [raw.1] at isOp
          cases isOp

/--
A window of machine instructions has been there before, and the pass has come
to its start.
-/
theorem exists_window
    {earlier window later : List Node}
    (raw : ∀ node ∈ window, node.op = none)
    (greedy :
      CollapsesGreedily family image body (earlier ++ (window ++ later))) :
    ∃ front back, body = front ++ (window ++ back) ∧
      CollapsesGreedily family image (window ++ back) (window ++ later) := by
  induction earlier generalizing body with
  | nil =>
      obtain ⟨back, rfl⟩ := exists_start raw greedy
      exact ⟨[], back, rfl, greedy⟩
  | cons first rest hypothesis =>
      cases greedy with
      | keep unmatched goesOn =>
          obtain ⟨front, back, rfl, visited⟩ := hypothesis goesOn
          exact ⟨first :: front, back, rfl, visited⟩
      | @collapse before after template _ _ op _ isFamily earliest isMatch
        wraps goesOn =>
          obtain ⟨front, back, same, visited⟩ := hypothesis goesOn
          refine ⟨body.take template.length ++ front, back, ?_, visited⟩
          rw [List.append_assoc, ← same, List.take_append_drop]

/-- A pass leaves nothing for its own family. -/
theorem isNormal (greedy : CollapsesGreedily family image body next) :
    IsNormal family image next := by
  intro earlier window later divided template member op covers
  rw [divided, List.append_assoc] at greedy
  obtain ⟨front, back, -, visited⟩ := exists_window covers.op_eq_none greedy
  -- The template matches where the pass has come to the start of the window
  -- and gone on.
  have isMatch := Template.match?_eq_some_iff.mpr ⟨window, back, rfl, covers⟩
  obtain ⟨node, rest, rfl⟩ := List.exists_cons_of_ne_nil covers.ne_nil
  cases visited with
  | keep unmatched goesOn =>
      cases isMatch.symm.trans (unmatched template member)
  | collapse isFamily earliest isOther wraps goesOn =>
      have isOp := Node.op_of_wrap wraps
      rw [covers.op_eq_none node (by simp)] at isOp
      cases isOp

/--
What a family finds nothing in, it finds nothing in after a pass of another
one.
-/
theorem keeps_isNormal
    {other : List Template}
    (greedy : CollapsesGreedily family image body next)
    (normal : IsNormal other image body) :
    IsNormal other image next := by
  intro earlier window later divided template member op covers
  rw [divided, List.append_assoc] at greedy
  obtain ⟨front, back, same, -⟩ := exists_window covers.op_eq_none greedy
  exact normal front window back (by rw [same, List.append_assoc]) template
    member op covers

/-- Nodes that are operations already are kept as they are, in their order. -/
theorem sublist (greedy : CollapsesGreedily family image body next) :
    (body.filter (fun node => node.op.isSome)).Sublist
      (next.filter (fun node => node.op.isSome)) := by
  induction greedy with
  | done => exact List.Sublist.refl []
  | @keep node later next unmatched goesOn hypothesis =>
      simp only [List.filter_cons]
      split
      next => exact hypothesis.cons_cons node
      next => exact hypothesis
  | @collapse before after template body next op single isFamily earliest
    isMatch wraps goesOn
      hypothesis =>
      have none :
        (body.take template.length).filter (fun node => node.op.isSome) =
          [] := by
        rw [List.filter_eq_nil_iff]
        intro node member
        simp [(Template.take_of_match? isMatch).2 node member]
      rw [← List.take_append_drop template.length body, List.filter_append,
        none, List.nil_append,
        List.filter_cons_of_pos (by simp [Node.op_of_wrap wraps])]
      exact hypothesis.cons single

/-- A pass keeps a body contiguous and its start where it is. -/
theorem isContiguous
    (greedy : CollapsesGreedily family image body next)
    (contiguous : IsContiguous body) :
    IsContiguous next ∧ next.head?.map Node.lo = body.head?.map Node.lo := by
  induction greedy with
  | done => exact ⟨contiguous, rfl⟩
  | @keep node later next unmatched goesOn hypothesis =>
      obtain ⟨rest, sameStart⟩ := hypothesis contiguous.tail
      refine ⟨⟨?_, ?_⟩, rfl⟩
      · exact Abutting.exchange [node] [node] contiguous.abuts trivial
          rest.abuts rfl sameStart
      · rw [List.forall_mem_cons]
        exact ⟨contiguous.ownAbut node (by simp), rest.ownAbut⟩
  | @collapse before after template body next op single isFamily earliest
    isMatch wraps goesOn
      hypothesis =>
      have nonempty := (Template.take_of_match? isMatch).1
      generalize isWindow : body.take template.length =
        window at nonempty wraps
      generalize isRest : body.drop template.length = rest at goesOn hypothesis
      have whole : body = window ++ rest := by
        rw [← isWindow, ← isRest, List.take_append_drop]
      subst whole
      obtain ⟨restContiguous, sameStart⟩ := hypothesis contiguous.right
      -- The new node has the instructions of the window, and so the ends of
      -- the window.
      have owns : instructionsOf [single] = instructionsOf window := by
        rw [instructionsOf_cons, instructionsOf_nil, List.append_nil,
          Node.instructions_of_wrap wraps]
      have starts := (head?_instructionsOf [single]).symm.trans
        ((congrArg (fun run => run.head?.map Instruction.lo) owns).trans
          (head?_instructionsOf window))
      have ends := (getLast?_instructionsOf [single]).symm.trans
        ((congrArg (fun run => run.getLast?.map Instruction.hi) owns).trans
          (getLast?_instructionsOf window))
      refine ⟨⟨?_, ?_⟩, ?_⟩
      · exact Abutting.exchange window [single] contiguous.abuts trivial
          restContiguous.abuts ends
          sameStart
      · rw [List.forall_mem_cons]
        refine ⟨fun isNone => ?_, restContiguous.ownAbut⟩
        rw [Node.op_of_wrap wraps] at isNone
        cases isNone
      · obtain ⟨first, others, rfl⟩ := List.exists_cons_of_ne_nil nonempty
        exact starts

end CollapsesGreedily

/-! ## Loops -/

/-- A body in normal form is all kept. -/
theorem segments_of_isNormal (normal : IsNormal family image body) :
    segments family image body = body.map .kept := by
  induction body with
  | nil => rw [segments, List.map_nil]
  | cons node later hypothesis =>
      have unmatched : firstMatch? family image (node :: later) = none := by
        rw [firstMatch?_eq_none_iff]
        intro template member
        by_contra matched
        obtain ⟨op, isMatch⟩ := Option.ne_none_iff_exists'.mp matched
        obtain ⟨window, rest, divided, covers⟩ :=
          Template.match?_eq_some_iff.mp isMatch
        exact normal [] window rest divided template member op covers
      rw [segments, unmatched, List.map_cons, hypothesis]
      intro earlier window rest divided
      exact normal (node :: earlier) window rest (by rw [divided]; rfl)

/-- A pass that collapses nothing keeps everything. -/
theorem segments_of_quiet
    (quiet : (segments family image body).any Segment.isCollapsed = false) :
    segments family image body = body.map .kept := by
  fun_induction segments family image body with
  | case1 => rfl
  | case2 node later template op found hypothesis =>
      simp [Segment.isCollapsed] at quiet
  | case3 node later found hypothesis =>
      rw [List.map_cons,
        hypothesis (by simpa [Segment.isCollapsed] using quiet)]

theorem buildAll_map_kept
    (body : List Node) :
    buildAll (body.map .kept) = .ok body := by
  induction body with
  | nil => rfl
  | cons node later hypothesis =>
      simp only [List.map_cons, buildAll, Segment.build, hypothesis, ok_bind]

theorem any_isCollapsed_map_kept (body : List Node) :
    (body.map .kept).any Segment.isCollapsed = false := by
  simp [Segment.isCollapsed]

theorem flatMap_events_map_kept (body : List Node) :
    (body.map .kept).flatMap Segment.events = [] := by
  simp [List.flatMap_map, Segment.events]

/-- A family does nothing to a body in normal form. -/
theorem collapseFamily_of_isNormal (normal : IsNormal family image body) :
    collapseFamily family image body = pure body := by
  rw [collapseFamily, dif_neg]
  rw [segments_of_isNormal normal, any_isCollapsed_map_kept]
  exact Bool.false_ne_true

/--
The loop of a family comes to what its first pass makes: if that pass has
collapsed anything, the next one finds nothing more.
-/
theorem collapseFamily_eq
    (built : buildAll (segments family image body) = .ok next) :
    collapseFamily family image body =
      ⟨(segments family image body).flatMap Segment.events, .ok next⟩ := by
  have settled :=
    collapseFamily_of_isNormal (collapsesGreedily_of_buildAll built).isNormal
  rw [collapseFamily]
  split
  next collapses =>
    split
    next fault stopped =>
      rw [built] at stopped
      cases stopped
    next reached again =>
      rw [built] at again
      cases again
      rw [settled]
      simp [Traced.pure_eq]
  next quiet =>
    have kept := segments_of_quiet (Bool.not_eq_true _ ▸ quiet)
    rw [kept, buildAll_map_kept] at built
    cases built
    rw [kept, flatMap_events_map_kept]
    rfl

/-- The loop of a family makes one pass that may change something. -/
structure CollapsesOnce
    (family : List Template)
    (image : Image)
    (body next : List Node) :
    Prop where
  greedily : CollapsesGreedily family image body next
  /-- The whole loop does what its first pass does. -/
  loop_eq : collapseFamily family image body =
    ⟨(segments family image body).flatMap Segment.events, .ok next⟩
  /-- A second pass collapses nothing. -/
  settled : (segments family image next).any Segment.isCollapsed = false

theorem exists_collapsesOnce
    (family : List Template)
    (image : Image)
    (contiguous : IsContiguous body) :
    ∃ next, CollapsesOnce family image body next := by
  obtain ⟨next, built⟩ := exists_buildAll family image contiguous
  have greedily := collapsesGreedily_of_buildAll built
  refine ⟨next, greedily, collapseFamily_eq built, ?_⟩
  rw [segments_of_isNormal greedily.isNormal, any_isCollapsed_map_kept]

end Passes

/-! ## Families -/

/--
Some families collapse a body in turn, each of them what the one before it has
left.
-/
inductive CollapsesInTurn
    (image : Image) :
    List (List Template) → List Node → List Node → Prop
  | done {body : List Node} : CollapsesInTurn image [] body body
  | turn
      {family : List Template} {later : List (List Template)}
      {body next final : List Node}
      (once : CollapsesOnce family image body next)
      (goesOn : CollapsesInTurn image later next final) :
      CollapsesInTurn image (family :: later) body final

section Families

variable {image : Image} {turns : List (List Template)}
  {body final : List Node}

namespace CollapsesInTurn

theorem keeps_isNormal
    {family : List Template}
    (collapses : CollapsesInTurn image turns body final)
    (normal : IsNormal family image body) :
    IsNormal family image final := by
  induction collapses with
  | done => exact normal
  | turn once goesOn hypothesis =>
      exact hypothesis (once.greedily.keeps_isNormal normal)

theorem isNormal (collapses : CollapsesInTurn image turns body final) :
    ∀ family ∈ turns, IsNormal family image final := by
  induction collapses with
  | done =>
      intro family member
      cases member
  | turn once goesOn hypothesis =>
      rw [List.forall_mem_cons]
      exact ⟨goesOn.keeps_isNormal once.greedily.isNormal, hypothesis⟩

theorem sublist (collapses : CollapsesInTurn image turns body final) :
    (body.filter (fun node => node.op.isSome)).Sublist
      (final.filter (fun node => node.op.isSome)) := by
  induction collapses with
  | done => exact List.Sublist.refl _
  | turn once goesOn hypothesis => exact once.greedily.sublist.trans hypothesis

end CollapsesInTurn

theorem exists_collapsesInTurn
    (image : Image)
    (turns : List (List Template))
    (contiguous : IsContiguous body) :
    ∃ final, CollapsesInTurn image turns body final ∧
      turns.foldlM (fun current family =>
        (collapseFamily family image current).outcome) body =
        .ok final := by
  induction turns generalizing body with
  | nil => exact ⟨body, .done, rfl⟩
  | cons family later hypothesis =>
      obtain ⟨next, once⟩ := exists_collapsesOnce family image contiguous
      obtain ⟨final, goesOn, finished⟩ :=
        hypothesis (once.greedily.isContiguous contiguous).1
      refine ⟨final, .turn once goesOn, ?_⟩
      rw [List.foldlM_cons, once.loop_eq]
      exact finished

/-- Families do nothing to a body that is in normal form for all of them. -/
theorem foldlM_collapseFamily_of_isNormal
    (normal : ∀ family ∈ turns, IsNormal family image body) :
    turns.foldlM (fun current family => collapseFamily family image current)
      body =
      (pure body : Traced (List Node)) := by
  induction turns with
  | nil => rfl
  | cons family later hypothesis =>
      rw [List.forall_mem_cons] at normal
      rw [List.foldlM_cons, collapseFamily_of_isNormal normal.1]
      exact hypothesis normal.2

end Families

/--
Collapsing a contiguous body brings it into normal form.  Each family collapses
greedily what the families before it have left, in one pass; no template of any
family covers a window of the result, so collapsing it again does nothing; and
nodes that are operations already are all there as they were.
-/
theorem collapseAll_reaches_normal_form
    {body : List Node}
    (contiguous : IsContiguous body)
    (image : Image) :
    ∃ final, (collapseAll image body).outcome = .ok final ∧
      CollapsesInTurn image families body final ∧
      (∀ family ∈ families, IsNormal family image final) ∧
      collapseAll image final = pure final ∧
      (body.filter (fun node => node.op.isSome)).Sublist
        (final.filter (fun node => node.op.isSome)) := by
  obtain ⟨final, collapses, finished⟩ :=
    exists_collapsesInTurn image families contiguous
  refine ⟨final, ?_, collapses, collapses.isNormal, ?_, collapses.sublist⟩
  · rw [collapseAll, Traced.outcome_foldlM]
    exact finished
  · exact foldlM_collapseFamily_of_isNormal collapses.isNormal

/--
A call with two arguments between a prologue, which is an operation already,
and an epilogue, which is not one yet.
-/
def mixedBody : List Node :=
  [ { op := some (.prologue 0)
      first :=
        ⟨0xc000, 0xc002, .mov, .word, [.register .fp, .autoDecrement .sp],
          by decide⟩
      rest :=
        [⟨0xc002, 0xc004, .mov, .word, [.register .sp, .register .fp],
          by decide⟩] },
    .raw ⟨0xc004, 0xc008, .mov, .word, [.immediate 5, .autoDecrement .sp],
      by decide⟩,
    .raw ⟨0xc008, 0xc00a, .mov, .word, [.register .fp, .autoDecrement .sp],
      by decide⟩,
    .raw ⟨0xc00a, 0xc00e, .add, .word, [.immediate 4, .deferred .sp],
      by decide⟩,
    .raw ⟨0xc00e, 0xc012, .jsr, .word, [.register .pc, .absolute 0x3000],
      by decide⟩,
    .raw ⟨0xc012, 0xc014, .mov, .word, [.register .fp, .register .sp],
      by decide⟩,
    .raw ⟨0xc014, 0xc016, .mov, .word, [.autoIncrement .sp, .register .fp],
      by decide⟩,
    .raw ⟨0xc016, 0xc018, .rts, .word, [.register .pc], by decide⟩ ]

theorem collapseAll_reaches_normal_form_mixedBody :
    IsContiguous mixedBody ∧
    ∃ final, (collapseAll { name := "code" } mixedBody).outcome = .ok final ∧
      final.map Node.op =
        [some (.prologue 0), some (.constantPush .word 5),
          some (.frameReference 4),
          some (.call (.ofOption (some 0x3000)) none none), some .epilogue] ∧
      CollapsesInTurn { name := "code" } families mixedBody final ∧
      collapseAll { name := "code" } final = pure final := by
  have contiguous : IsContiguous mixedBody := ⟨by decide, by decide⟩
  have computed :
      ((collapseAll { name := "code" } mixedBody).outcome.toOption.map
      (fun final => final.map Node.op)) =
        some [some (.prologue 0), some (.constantPush .word 5),
          some (.frameReference 4),
          some (.call (.ofOption (some 0x3000)) none none),
            some .epilogue] := by
    decide +kernel
  obtain ⟨final, finished, inTurn, -, settled, -⟩ :=
    collapseAll_reaches_normal_form contiguous { name := "code" }
  rw [finished] at computed
  exact ⟨contiguous, final, finished, Option.some.inj computed, inTurn,
    settled⟩

end Idiom

end ProcRecovery
