import ProcRecovery.Proofs.Emission
import ProcRecovery.Proofs.Idiom.Conservation
import ProcRecovery.Proofs.Image.Sweep

/-!
# Idioms and labels

Recognition looks at the image in three places only: loops over literals read
its memory, and a call takes the name of its routine and the label of its
destination from it.  So two images of the same program differ, for
recognition, in nothing but the labels of calls.  Nothing that happens to nodes
later looks at those, which is stated with nodes that have lost their labels.
-/

namespace ProcRecovery

/-- The operation without the label of a call. -/
def PseudoOp.unlabeled : PseudoOp → PseudoOp
  | .call destination _ routine => .call destination none routine
  | op => op

namespace Node

/-- The node without the label of a call. -/
def unlabeled (node : Node) : Node :=
  { node with op := node.op.map PseudoOp.unlabeled }

@[simp]
theorem instructions_unlabeled (node : Node) :
    node.unlabeled.instructions = node.instructions := rfl

@[simp]
theorem lo_unlabeled (node : Node) : node.unlabeled.lo = node.lo := rfl

@[simp]
theorem hi_unlabeled (node : Node) : node.unlabeled.hi = node.hi := rfl

@[simp]
theorem raw?_unlabeled (node : Node) : node.unlabeled.raw? = node.raw? := by
  unfold raw? unlabeled
  cases node.op <;> rfl

@[simp]
theorem op_unlabeled_eq_none_iff
    (node : Node) :
    node.unlabeled.op = none ↔ node.op = none :=
  Option.map_eq_none_iff

/--
What looks the same on nodes without labels is the same on nodes that differ in
labels only.
-/
theorem eq_of_unlabeled
    {α : Type}
    (look : Node → α)
    (keeps : ∀ node : Node, look node.unlabeled = look node)
    {node other : Node}
    (same : node.unlabeled = other.unlabeled) :
    look node = look other := by
  rw [← keeps node, same, keeps other]

end Node

/--
What looks the same on a body without labels is the same on bodies that differ
in labels only.
-/
theorem eq_of_map_unlabeled
    {α : Type}
    (look : List Node → α)
    (keeps : ∀ body : List Node, look (body.map Node.unlabeled) = look body)
    {body other : List Node}
    (same : body.map Node.unlabeled = other.map Node.unlabeled) :
    look body = look other := by
  rw [← keeps body, same, keeps other]

theorem Image.SharesProgram.read_eq
    {before after : Image}
    (shares : before.SharesProgram after) :
    after.read = before.read := by
  funext address length
  rw [Image.read, shares.memory_eq, Image.read]

namespace Idiom

section Recognition

variable {first second : Image}

/-! ## Templates -/

/-- A template recognizes the same in two images, apart from labels. -/
def AgreesOn (first second : Image) (template : Template) : Prop :=
  ∀ window, (template.recognize first window).map PseudoOp.unlabeled =
    (template.recognize second window).map PseudoOp.unlabeled

theorem agreesOn_of_eq
    {template : Template}
    (same : ∀ window, template.recognize first window =
      template.recognize second window) :
    AgreesOn first second template :=
  fun window => congrArg (Option.map PseudoOp.unlabeled) (same window)

theorem agreesOn_leavingFamily :
    ∀ template ∈ leavingFamily, AgreesOn first second template := by
  intro template member
  apply agreesOn_of_eq
  intro window
  simp only [leavingFamily, List.mem_cons, List.not_mem_nil, or_false]
    at member
  rcases member with rfl | rfl
  · simp only [epilogue]
    split <;> rfl
  · simp only [bailout]
    split <;> rfl

theorem agreesOn_checkingFamily :
    ∀ template ∈ checkingFamily, AgreesOn first second template := by
  intro template member
  apply agreesOn_of_eq
  intro window
  simp only [checkingFamily, List.mem_cons, List.not_mem_nil, or_false]
    at member
  rcases member with rfl | rfl | rfl
  · rfl
  · simp only [checkedBranch]
    split <;> rfl
  · simp only [checkedStep]
    split <;> rfl

/-- Loops over literals read the memory of the image and nothing else of it. -/
theorem agreesOn_loopingFamily (reads : second.read = first.read) :
    ∀ template ∈ loopingFamily, AgreesOn first second template := by
  intro template member
  apply agreesOn_of_eq
  intro window
  simp only [loopingFamily, List.mem_cons, List.not_mem_nil, or_false]
    at member
  rcases member with rfl | rfl | rfl | rfl | rfl
  · simp only [stringLiteral]
    split
    next => simp only [reads]
    next => rfl
  · simp only [blobPushLiteral]
    split
    next => simp only [reads]
    next => rfl
  · simp only [blobPushRegister]
    split <;> rfl
  · simp only [blobPop]
    split <;> rfl
  · simp only [blockMove]
    split <;> rfl

/--
Two images of a program name the same routine, and may label its address
differently.
-/
theorem call_congr
    (runtime : second.runtime = first.runtime)
    (window : List Instruction) :
    (call first window).map PseudoOp.unlabeled =
      (call second window).map PseudoOp.unlabeled := by
  unfold call
  split
  next instruction =>
    dsimp only
    split
    next linkage destination _ _ =>
      split
      next =>
        rw [runtime]
        rfl
      next => rfl
    next => rfl
  next => rfl

theorem agreesOn_stackFamily (runtime : second.runtime = first.runtime) :
    ∀ template ∈ stackFamily, AgreesOn first second template := by
  intro template member
  simp only [stackFamily, List.mem_cons, List.not_mem_nil, or_false] at member
  rcases member with rfl | rfl | rfl | rfl | rfl | rfl | rfl
  · exact agreesOn_of_eq (fun _ => rfl)
  · exact agreesOn_of_eq (fun _ => rfl)
  · exact agreesOn_of_eq (fun _ => rfl)
  · exact agreesOn_of_eq (fun _ => rfl)
  · apply agreesOn_of_eq
    intro window
    simp only [constantPush]
    split <;> rfl
  · apply agreesOn_of_eq
    intro window
    simp only [stackAdjust]
    split <;> rfl
  · exact call_congr runtime

theorem agreesOn_families (shares : first.SharesProgram second) :
    ∀ family ∈ families, ∀ template ∈ family,
      AgreesOn first second template := by
  intro family member
  simp only [families, List.mem_cons, List.not_mem_nil, or_false] at member
  rcases member with rfl | rfl | rfl | rfl
  · exact agreesOn_leavingFamily
  · exact agreesOn_checkingFamily
  · exact agreesOn_loopingFamily shares.read_eq
  · exact agreesOn_stackFamily shares.runtime_eq

/-! ## Segments of a body -/

variable {body other : List Node}

theorem match?_unlabeled
    {template : Template}
    (agrees : AgreesOn first second template)
    (same : body.map Node.unlabeled = other.map Node.unlabeled) :
    (template.match? first body).map PseudoOp.unlabeled =
      (template.match? second other).map PseudoOp.unlabeled := by
  have length : body.length = other.length := by
    simpa using congrArg List.length same
  have windows : (body.take template.length).mapM Node.raw? =
      (other.take template.length).mapM Node.raw? := by
    apply eq_of_map_unlabeled (fun nodes =>
      (nodes.take template.length).mapM Node.raw?) _ same
    intro nodes
    simp [← List.map_take, List.mapM_map, Function.comp_def]
  unfold Template.match?
  rw [length, windows]
  split
  next => rfl
  next =>
    cases (other.take template.length).mapM Node.raw? with
    | none => rfl
    | some window => exact agrees window

theorem firstMatch?_unlabeled
    {family : List Template}
    (agree : ∀ template ∈ family, AgreesOn first second template)
    (same : body.map Node.unlabeled = other.map Node.unlabeled) :
    (firstMatch? family first body).map (Prod.map id PseudoOp.unlabeled) =
      (firstMatch? family second other).map
        (Prod.map id PseudoOp.unlabeled) := by
  unfold firstMatch?
  induction family with
  | nil => rfl
  | cons template later hypothesis =>
      rw [List.forall_mem_cons] at agree
      have alike := match?_unlabeled agree.1 same
      rw [List.findSome?_cons, List.findSome?_cons]
      cases isFirst : template.match? first body with
      | none =>
          cases isSecond : template.match? second other with
          | none => exact hypothesis agree.2
          | some op =>
              rw [isFirst, isSecond] at alike
              cases alike
      | some op =>
          cases isSecond : template.match? second other with
          | none =>
              rw [isFirst, isSecond] at alike
              cases alike
          | some again =>
              rw [isFirst, isSecond] at alike
              exact congrArg (fun found => some (template, found))
                (Option.some.inj alike)

/-- The segment without the labels of calls. -/
def Segment.unlabeled : Segment → Segment
  | kept node => kept node.unlabeled
  | collapsed template op nodes =>
      collapsed template op.unlabeled (nodes.map Node.unlabeled)

theorem segments_unlabeled
    {family : List Template}
    (agree : ∀ template ∈ family, AgreesOn first second template)
    (same : body.map Node.unlabeled = other.map Node.unlabeled) :
    (segments family first body).map Segment.unlabeled =
      (segments family second other).map Segment.unlabeled := by
  fun_induction segments family first body generalizing other with
  | case1 =>
      have empty := List.map_eq_nil_iff.mp same.symm
      subst empty
      simp only [segments]
  | case2 node later template op found hypothesis =>
      have alike := firstMatch?_unlabeled agree same
      rcases List.map_eq_cons_iff.mp same.symm with
        ⟨node', later', rfl, sameNode, sameLater⟩
      rw [found] at alike
      rcases Option.map_eq_some_iff.mp alike.symm with
        ⟨⟨template', op'⟩, found', sameFound⟩
      rcases Prod.mk.inj sameFound with ⟨sameTemplate, sameOp⟩
      have isSame : template' = template := sameTemplate
      subst isSame
      rw [segments, found']
      have rest : ((node :: later).drop template'.length).map Node.unlabeled =
          ((node' :: later').drop template'.length).map Node.unlabeled := by
        rw [List.map_drop, List.map_drop, same]
      have taken : ((node :: later).take template'.length).map Node.unlabeled =
          ((node' :: later').take template'.length).map Node.unlabeled := by
        rw [List.map_take, List.map_take, same]
      have ops : op'.unlabeled = op.unlabeled := sameOp
      simp only [List.map_cons, Segment.unlabeled, taken, ops, hypothesis rest]
  | case3 node later missing hypothesis =>
      have alike := firstMatch?_unlabeled agree same
      rcases List.map_eq_cons_iff.mp same.symm with
        ⟨node', later', rfl, sameNode, sameLater⟩
      rw [missing] at alike
      have missing' := Option.map_eq_none_iff.mp alike.symm
      rw [segments, missing']
      simp only [List.map_cons, Segment.unlabeled, sameNode,
        hypothesis sameLater.symm]

/-! ## Collapsing -/

theorem wrap_unlabeled
    {op again : PseudoOp}
    (same : op.unlabeled = again.unlabeled)
    (run : List Instruction) :
    (Node.wrap (some op) run).map Node.unlabeled =
      (Node.wrap (some again) run).map Node.unlabeled := by
  cases run with
  | nil => rfl
  | cons instruction later =>
      simp only [Node.wrap]
      split
      next => simp only [Except.map, Node.unlabeled, Option.map_some, same]
      next => rfl

theorem build_unlabeled
    {segment another : Segment}
    (same : segment.unlabeled = another.unlabeled) :
    segment.build.map Node.unlabeled = another.build.map Node.unlabeled := by
  cases segment with
  | kept node =>
      cases another with
      | kept node' => exact congrArg Except.ok (Segment.kept.inj same)
      | collapsed template op nodes => cases same
  | collapsed template op nodes =>
      cases another with
      | kept node' => cases same
      | collapsed template' op' nodes' =>
          rcases Segment.collapsed.inj same with ⟨-, sameOp, sameNodes⟩
          have instructions : instructionsOf nodes = instructionsOf nodes' :=
            instructionsOf_congr sameNodes (fun _ => rfl)
          simp only [Segment.build]
          rw [← instructionsOf, ← instructionsOf, instructions]
          exact wrap_unlabeled sameOp _

theorem buildAll_unlabeled
    {pieces others : List Segment}
    (same : pieces.map Segment.unlabeled = others.map Segment.unlabeled) :
    (buildAll pieces).map (List.map Node.unlabeled) =
      (buildAll others).map (List.map Node.unlabeled) := by
  induction pieces generalizing others with
  | nil =>
      have empty := List.map_eq_nil_iff.mp same.symm
      subst empty
      rfl
  | cons segment later hypothesis =>
      rcases List.map_eq_cons_iff.mp same.symm with
        ⟨segment', later', rfl, sameSegment, sameLater⟩
      rw [buildAll, buildAll]
      apply map_bind_congr Node.unlabeled (build_unlabeled sameSegment.symm)
      intro node node' alike
      apply map_bind_congr (List.map Node.unlabeled)
        (hypothesis sameLater.symm)
      intro nodes nodes' alikeLater
      exact congrArg Except.ok (congrArg₂ List.cons alike alikeLater)

theorem isCollapsed_unlabeled (segment : Segment) :
    segment.unlabeled.isCollapsed = segment.isCollapsed := by
  cases segment <;> rfl

theorem events_unlabeled
    (segment : Segment) :
    segment.unlabeled.events = segment.events := by
  cases segment with
  | kept node => rfl
  | collapsed template op nodes =>
      simp only [Segment.unlabeled, Segment.events, List.head?_map,
        Option.map_map]
      rfl

theorem any_isCollapsed_congr
    {pieces others : List Segment}
    (same : pieces.map Segment.unlabeled = others.map Segment.unlabeled) :
    pieces.any Segment.isCollapsed = others.any Segment.isCollapsed := by
  have viewed : ∀ segments : List Segment,
      (segments.map Segment.unlabeled).any Segment.isCollapsed =
        segments.any Segment.isCollapsed := by
    intro segments
    simp only [List.any_map, Function.comp_def, isCollapsed_unlabeled]
  rw [← viewed pieces, same, viewed others]

theorem flatMap_events_congr
    {pieces others : List Segment}
    (same : pieces.map Segment.unlabeled = others.map Segment.unlabeled) :
    pieces.flatMap Segment.events = others.flatMap Segment.events := by
  have viewed : ∀ segments : List Segment,
      (segments.map Segment.unlabeled).flatMap Segment.events =
        segments.flatMap Segment.events := by
    intro segments
    simp only [List.flatMap_map, events_unlabeled]
  rw [← viewed pieces, same, viewed others]

/--
A family collapses the same in two images of a program, apart from labels.
-/
theorem collapseFamily_unlabeled
    {family : List Template}
    (agree : ∀ template ∈ family, AgreesOn first second template)
    (same : body.map Node.unlabeled = other.map Node.unlabeled) :
    Traced.AgreeBy (List.map Node.unlabeled) (collapseFamily family first body)
      (collapseFamily family second other) := by
  fun_induction collapseFamily family first body generalizing other with
  | case1 body collapses events fault =>
      rename_i built
      have same' := segments_unlabeled agree same
      have built' := buildAll_unlabeled same'
      rw [built] at built'
      rw [collapseFamily, dif_pos (any_isCollapsed_congr same' ▸ collapses)]
      split
      next fault' failed =>
        rw [failed] at built'
        cases built'
        exact ⟨flatMap_events_congr same', rfl⟩
      next next' finished =>
        rw [finished] at built'
        cases built'
  | case2 body collapses events next built fewer rest =>
      rename_i hypothesis
      have same' := segments_unlabeled agree same
      have built' := buildAll_unlabeled same'
      rw [built] at built'
      rw [collapseFamily, dif_pos (any_isCollapsed_congr same' ▸ collapses)]
      split
      next fault' failed =>
        rw [failed] at built'
        cases built'
      next next' finished =>
        rw [finished] at built'
        have alike := Except.ok.inj built'
        have later := hypothesis alike
        exact ⟨congrArg₂ (· ++ ·) (flatMap_events_congr same') later.events_eq,
          later.outcome_eq⟩
  | case3 body done =>
      have same' := segments_unlabeled agree same
      rw [collapseFamily, dif_neg (any_isCollapsed_congr same' ▸ done)]
      exact Traced.agreeBy_pure same

theorem collapseAll_unlabeled
    (shares : first.SharesProgram second)
    (body : List Node) :
    Traced.AgreeBy (List.map Node.unlabeled) (collapseAll first body)
      (collapseAll second body) := by
  unfold collapseAll
  refine Traced.AgreeBy.foldlM ?_ rfl
  intro family member current another same
  exact collapseFamily_unlabeled (agreesOn_families shares family member) same

/-- Prologues are recognized without a look at the image. -/
theorem matchPrologue_congr (first second : Image) (body : List Node) :
    matchPrologue first body = matchPrologue second body := by
  have withLocals : prologueWithLocals first = prologueWithLocals second := by
    funext window
    unfold prologueWithLocals
    split <;> rfl
  have without : prologue first = prologue second := by
    funext window
    unfold prologue
    split <;> rfl
  simp only [matchPrologue, firstMatch?, prologues, List.findSome?_cons,
    List.findSome?_nil, Template.match?, withLocals, without]

end Recognition

end Idiom

end ProcRecovery
