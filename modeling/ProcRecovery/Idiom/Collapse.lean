import ProcRecovery.Idiom.Catalog
import ProcRecovery.Node

/-!
# Collapsing idioms

A pass of a family over a body goes from left to right.  At each position the
first template that recognizes the instructions there collapses their nodes
into one, and a node that nothing collapses is kept.  So a pass divides the
body into segments, and every segment becomes one node.  A family is applied
until a pass collapses nothing, and the families are applied one after the
other.

Collapsed nodes are machine instructions and the nodes they become are not, so
the number of machine instructions left in the body bounds the number of
passes.
-/

namespace ProcRecovery.Idiom

/-- The pseudo-operation that the first nodes of a body stand for. -/
def Template.match? (template : Template) (image : Image) (body : List Node) :
    Option PseudoOp := do
  if body.length < template.length then none
  let window ← (body.take template.length).mapM Node.raw?
  template.recognize image window

/--
The first template of a family that recognizes the first nodes of a body.
-/
def firstMatch? (family : List Template) (image : Image) (body : List Node) :
    Option (Template × PseudoOp) :=
  family.findSome? (fun template =>
    (template.match? image body).map (fun op => (template, op)))

/-- A piece of a body after a pass. -/
inductive Segment where
  /-- A node that no template collapses. -/
  | kept (node : Node)
  /-- Nodes that a template collapses, and what they stand for. -/
  | collapsed (template : String) (op : PseudoOp) (nodes : List Node)

namespace Segment

/-- The nodes of a segment before the pass. -/
def nodes : Segment → List Node
  | kept node => [node]
  | collapsed _ _ nodes => nodes

/-- Whether a template collapses the segment. -/
def isCollapsed : Segment → Bool
  | kept _ => false
  | collapsed _ _ _ => true

/-- The node a segment becomes. -/
def build : Segment → Except Fault Node
  | kept node => .ok node
  | collapsed _ op nodes =>
      Node.wrap (some op) (nodes.flatMap Node.instructions)

/-- The events of a segment. -/
def events : Segment → List Event
  | kept _ => []
  | collapsed template _ nodes =>
    [.noted (.idiomMatched template ((nodes.head?.map Node.lo).getD 0))]

end Segment

/-- The segments of a body under a family. -/
def segments
    (family : List Template)
    (image : Image) :
    List Node → List Segment
  | [] => []
  | node :: later =>
    match firstMatch? family image (node :: later) with
    | some (template, op) =>
      .collapsed template.name op ((node :: later).take template.length) ::
        segments family image ((node :: later).drop template.length)
    | none => .kept node :: segments family image later
termination_by body => body.length
decreasing_by
  · have := template.length_pos
    simp only [List.length_drop, List.length_cons]
    omega
  · simp

/-- The nodes that segments become. -/
def buildAll : List Segment → Except Fault (List Node)
  | [] => .ok []
  | segment :: later => do
    let node ← segment.build
    let nodes ← buildAll later
    .ok (node :: nodes)

/-- The number of machine instructions that stand for themselves. -/
def rawCount (body : List Node) : Nat :=
  body.countP (fun node => node.op = none)

/-- Nodes that are all machine instructions are all counted. -/
theorem rawCount_of_mapM_raw?
    {nodes : List Node} {window : List Instruction}
    (raw : nodes.mapM Node.raw? = some window) :
    rawCount nodes = nodes.length := by
  induction nodes generalizing window with
  | nil => rfl
  | cons node later hypothesis =>
    rw [List.mapM_cons] at raw
    simp only [Option.bind_eq_bind, Option.pure_def, Option.bind_eq_some_iff]
      at raw
    obtain ⟨instruction, isRaw, rest, restRaw, _⟩ := raw
    have isNone : node.op = none := by
      unfold Node.raw? at isRaw
      split at isRaw
      · assumption
      · simp at isRaw
    have := hypothesis restRaw
    simp only [rawCount, List.countP_cons, isNone, decide_true, ↓reduceIte,
      List.length_cons] at *
    omega

/-- A collapsed segment starts with a machine instruction. -/
theorem rawCount_take_of_firstMatch?
    {family : List Template} {image : Image} {node : Node} {later : List Node}
    {template : Template} {op : PseudoOp}
    (found : firstMatch? family image (node :: later) = some (template, op)) :
    0 < rawCount ((node :: later).take template.length) := by
  unfold firstMatch? at found
  obtain ⟨candidate, _, matched⟩ := List.exists_of_findSome?_eq_some found
  simp only [Option.map_eq_some_iff, Prod.mk.injEq] at matched
  obtain ⟨recognized, matched, rfl, rfl⟩ := matched
  unfold Template.match? at matched
  split at matched
  · simp at matched
  next long =>
    simp only [Option.bind_eq_bind, Option.bind_eq_some_iff] at matched
    obtain ⟨window, raw, _⟩ := matched
    have positive := candidate.length_pos
    rw [rawCount_of_mapM_raw? raw, List.length_take]
    simp only [List.length_cons] at long ⊢
    omega

theorem rawCount_append
    (first second : List Node) :
    rawCount (first ++ second) = rawCount first + rawCount second :=
  List.countP_append

/--
A pass leaves fewer machine instructions by at least one for each collapsed
segment.
-/
theorem rawCount_buildAll_segments
    {family : List Template} {image : Image} {body next : List Node}
    (built : buildAll (segments family image body) = .ok next) :
    rawCount next + (segments family image body).countP Segment.isCollapsed ≤
      rawCount body := by
  fun_induction segments family image body generalizing next with
  | case1 =>
    cases built
    exact Nat.le_refl _
  | case2 node later template op found hypothesis =>
    simp only [buildAll] at built
    cases first : (Segment.collapsed template.name op
        ((node :: later).take template.length)).build with
    | error fault => simp [first, bind, Except.bind] at built
    | ok single =>
      cases rest :
        buildAll
          (segments family image ((node :: later).drop template.length)) with
      | error fault => simp [first, rest, bind, Except.bind] at built
      | ok nodes =>
        simp only [first, rest, bind, Except.bind, Except.ok.injEq] at built
        subst built
        have fewer := hypothesis rest
        have positive := rawCount_take_of_firstMatch? found
        have isOp : single.op = some op := Node.op_of_wrap first
        have whole : rawCount (node :: later) =
            rawCount ((node :: later).take template.length) +
              rawCount ((node :: later).drop template.length) := by
          rw [← rawCount_append, List.take_append_drop]
        have head : rawCount (single :: nodes) = rawCount nodes := by
          simp [rawCount, isOp]
        simp only [List.countP_cons, Segment.isCollapsed, ↓reduceIte]
        omega
  | case3 node later found hypothesis =>
    simp only [buildAll, Segment.build] at built
    cases rest : buildAll (segments family image later) with
    | error fault => simp [rest, bind, Except.bind] at built
    | ok nodes =>
      simp only [rest, bind, Except.bind, Except.ok.injEq] at built
      subst built
      have fewer := hypothesis rest
      simp only [List.countP_cons, Segment.isCollapsed, Bool.false_eq_true,
        ↓reduceIte, rawCount]
        at fewer ⊢
      omega

/-- A pass that collapses something leaves fewer machine instructions. -/
theorem rawCount_lt_of_collapsed
    {family : List Template} {image : Image} {body next : List Node}
    (collapses : (segments family image body).any Segment.isCollapsed = true)
    (built : buildAll (segments family image body) = .ok next) :
    rawCount next < rawCount body := by
  have fewer := rawCount_buildAll_segments built
  have positive :
      0 < (segments family image body).countP Segment.isCollapsed := by
    rw [List.countP_pos_iff]
    simpa [List.any_eq_true] using collapses
  omega

/-- Apply a family to a body until a pass collapses nothing. -/
def collapseFamily
    (family : List Template)
    (image : Image)
    (body : List Node) :
    Traced (List Node) :=
  if collapses : (segments family image body).any Segment.isCollapsed then
    let events := (segments family image body).flatMap Segment.events
    match built : buildAll (segments family image body) with
    | .error fault => ⟨events, .error fault⟩
    | .ok next =>
      have := rawCount_lt_of_collapsed collapses built
      let rest := collapseFamily family image next
      ⟨events ++ rest.events, rest.outcome⟩
  else
    return body
termination_by rawCount body

/-- Apply all families to a body, one after the other. -/
def collapseAll (image : Image) (body : List Node) : Traced (List Node) :=
  families.foldlM (fun current family => collapseFamily family image current)
    body

/-- Put a prologue in place of the first nodes of a body, if they are one. -/
def matchPrologue
    (image : Image)
    (body : List Node) :
    Except Fault (Option (List Node)) :=
  match firstMatch? prologues image body with
  | some (template, op) => do
    let node ← Node.wrap (some op)
        ((body.take template.length).flatMap Node.instructions)
    .ok (some (node :: body.drop template.length))
  | none => .ok none

end ProcRecovery.Idiom
