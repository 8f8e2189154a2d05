import ProcRecovery.Node

/-!
# Abutting runs

If the instructions of a body abut, taken all together, then so do its nodes,
every node covers exactly the bytes of its own instructions, and addresses
ascend along the body.
-/

namespace ProcRecovery

section Ranges

variable {α : Type} {lo hi : α → Nat}

theorem Abutting.tail
    {first : α} {later : List α}
    (abuts : Abutting lo hi (first :: later)) :
    Abutting lo hi later := by
  cases later with
  | nil => trivial
  | cons second rest => exact abuts.2

theorem abutting_map_iff {β : Type} (view : β → α) (items : List β) :
    Abutting lo hi (items.map view) ↔ Abutting (fun item => lo (view item))
      (fun item => hi (view item)) items := by
  induction items with
  | nil => exact Iff.rfl
  | cons first later hypothesis =>
      cases later with
      | nil => exact Iff.rfl
      | cons second rest => exact and_congr Iff.rfl hypothesis

theorem Abutting.right
    {earlier later : List α}
    (abuts : Abutting lo hi (earlier ++ later)) :
    Abutting lo hi later := by
  induction earlier with
  | nil => exact abuts
  | cons first rest hypothesis => exact hypothesis abuts.tail

theorem Abutting.left
    {earlier later : List α}
    (abuts : Abutting lo hi (earlier ++ later)) :
    Abutting lo hi earlier := by
  induction earlier with
  | nil => trivial
  | cons first rest hypothesis =>
      cases rest with
      | nil => trivial
      | cons second others => exact ⟨abuts.1, hypothesis abuts.2⟩

/-- Where two runs meet, the second begins at the end of the first. -/
theorem Abutting.joint
    {earlier later : List α} {last next : α}
    (abuts : Abutting lo hi (earlier ++ next :: later))
    (isLast : earlier.getLast? = some last) :
    hi last = lo next := by
  induction earlier with
  | nil => cases isLast
  | cons first rest hypothesis =>
      cases rest with
      | nil =>
          cases isLast
          exact abuts.1
      | cons second others =>
          rw [List.getLast?_cons_cons] at isLast
          exact hypothesis abuts.2 isLast

/-- Two runs that meet make one. -/
theorem Abutting.append
    {earlier later : List α}
    (first : Abutting lo hi earlier)
    (second : Abutting lo hi later)
    (joint : ∀ last ∈ earlier.getLast?, ∀ next ∈ later.head?,
      hi last = lo next) :
    Abutting lo hi (earlier ++ later) := by
  induction earlier with
  | nil => exact second
  | cons head rest hypothesis =>
      cases rest with
      | nil =>
          cases later with
          | nil => trivial
          | cons next others => exact ⟨joint head rfl next rfl, second⟩
      | cons middle others =>
          refine ⟨first.1, hypothesis first.2 ?_⟩
          rwa [List.getLast?_cons_cons] at joint

/-- Both parts of a run can be exchanged for runs with the same ends. -/
theorem Abutting.exchange
    (earlier others : List α)
    {later rest : List α}
    (abuts : Abutting lo hi (earlier ++ later))
    (first : Abutting lo hi others)
    (second : Abutting lo hi rest)
    (sameEnd : others.getLast?.map hi = earlier.getLast?.map hi)
    (sameStart : rest.head?.map lo = later.head?.map lo) :
    Abutting lo hi (others ++ rest) := by
  apply first.append second
  intro last isLast next isNext
  rw [Option.mem_def.mp isLast] at sameEnd
  rw [Option.mem_def.mp isNext] at sameStart
  obtain ⟨end', isEnd, endHi⟩ := Option.map_eq_some_iff.mp sameEnd.symm
  obtain ⟨start, isStart, startLo⟩ := Option.map_eq_some_iff.mp sameStart.symm
  cases later with
  | nil => cases isStart
  | cons head tail =>
      cases isStart
      rw [← endHi, ← startLo]
      exact abuts.joint isEnd

/-- Everything in an abutting run lies between its two ends. -/
theorem Abutting.within
    {ranges : List α} {first last : α}
    (abuts : Abutting lo hi ranges)
    (proper : ∀ range ∈ ranges, lo range < hi range)
    (isFirst : ranges.head? = some first)
    (isLast : ranges.getLast? = some last) :
    ∀ range ∈ ranges, lo first ≤ lo range ∧ hi range ≤ hi last := by
  induction ranges generalizing first with
  | nil => cases isFirst
  | cons head rest hypothesis =>
      cases isFirst
      have headProper := proper head (by simp)
      cases rest with
      | nil =>
          cases isLast
          intro range member
          rw [List.mem_singleton.mp member]
          exact ⟨Nat.le_refl _, Nat.le_refl _⟩
      | cons second others =>
          rw [List.getLast?_cons_cons] at isLast
          have inner := hypothesis abuts.2
            (fun range member =>
              proper range (List.mem_cons_of_mem head member)) rfl isLast
          have meets : hi head = lo second := abuts.1
          intro range member
          rcases List.mem_cons.mp member with rfl | later
          · have bound := (inner second (by simp)).2
            have secondProper := proper second (by simp)
            exact ⟨Nat.le_refl _, by omega⟩
          · obtain ⟨lower, upper⟩ := inner range later
            exact ⟨by omega, upper⟩

/-- Starts ascend along an abutting run. -/
theorem Abutting.ascending
    {ranges : List α}
    (abuts : Abutting lo hi ranges)
    (proper : ∀ range ∈ ranges, lo range < hi range) :
    ranges.Pairwise (fun earlier later => lo earlier < lo later) := by
  induction ranges with
  | nil => exact List.Pairwise.nil
  | cons first later hypothesis =>
      have laterProper : ∀ range ∈ later, lo range < hi range :=
        fun range member => proper range (List.mem_cons_of_mem first member)
      refine List.pairwise_cons.mpr ⟨?_, hypothesis abuts.tail laterProper⟩
      intro range member
      cases later with
      | nil => cases member
      | cons second others =>
          have headProper := proper first (by simp)
          have meets : hi first = lo second := abuts.1
          obtain ⟨last, isLast⟩ := Option.isSome_iff_exists.mp
            (show (second :: others).getLast?.isSome by simp)
          have lower :=
            (abuts.tail.within laterProper rfl isLast range member).1
          omega

end Ranges

namespace Node

@[simp]
theorem head?_instructions
    (node : Node) :
    node.instructions.head? = some node.first := rfl

@[simp]
theorem getLast?_instructions (node : Node) :
    node.instructions.getLast? =
      some (node.rest.getLast?.getD node.first) := by
  unfold instructions
  cases node.rest with
  | nil => rfl
  | cons second others =>
      rw [List.getLast?_cons_cons, List.getLast?_cons, Option.getD_some]

/-- A node is the hull of its instructions if they abut. -/
theorem within_of_abutting
    {node : Node}
    (abuts : Abutting Instruction.lo Instruction.hi node.instructions) :
    ∀ instruction ∈ node.instructions,
      node.lo ≤ instruction.lo ∧ instruction.hi ≤ node.hi :=
  abuts.within (fun instruction _ => instruction.lo_lt_hi)
    node.head?_instructions
    node.getLast?_instructions

theorem lo_lt_hi_of_abutting
    {node : Node}
    (abuts : Abutting Instruction.lo Instruction.hi node.instructions) :
    node.lo < node.hi := by
  have bound :=
    (within_of_abutting abuts node.first (by simp [instructions])).2
  have proper := node.first.lo_lt_hi
  unfold lo
  omega

end Node

/-- The instructions of a body, node after node. -/
def instructionsOf (body : List Node) : List Instruction :=
  body.flatMap Node.instructions

@[simp]
theorem instructionsOf_nil : instructionsOf [] = [] := rfl

@[simp]
theorem instructionsOf_cons (node : Node) (later : List Node) :
    instructionsOf (node :: later) =
      node.instructions ++ instructionsOf later := rfl

@[simp]
theorem instructionsOf_append
    (earlier later : List Node) :
    instructionsOf (earlier ++ later) =
      instructionsOf earlier ++ instructionsOf later :=
  List.flatMap_append

@[simp]
theorem instructionsOf_map_raw (instructions : List Instruction) :
    instructionsOf (instructions.map Node.raw) = instructions := by
  induction instructions with
  | nil => rfl
  | cons first later hypothesis =>
      rw [List.map_cons, instructionsOf_cons, hypothesis]
      rfl

/-- A body starts where its first instruction does. -/
theorem head?_instructionsOf (body : List Node) :
    (instructionsOf body).head?.map Instruction.lo =
      body.head?.map Node.lo := by
  cases body with
  | nil => rfl
  | cons first later => rfl

/-- A body ends where its last instruction does. -/
theorem getLast?_instructionsOf
    (body : List Node) :
    (instructionsOf body).getLast?.map Instruction.hi =
      body.getLast?.map Node.hi := by
  induction body with
  | nil => rfl
  | cons first later hypothesis =>
      rw [instructionsOf_cons, List.getLast?_append]
      cases later with
      | nil =>
          rw [instructionsOf_nil, List.getLast?_nil, Option.none_or,
            Node.getLast?_instructions]
          rfl
      | cons second others =>
          have filled :
            (instructionsOf (second :: others)).getLast?.isSome := by
            rw [← Option.isSome_map (f := Instruction.hi), hypothesis]
            simp
          obtain ⟨last, isLast⟩ := Option.isSome_iff_exists.mp filled
          rw [isLast] at hypothesis ⊢
          rw [Option.some_or, hypothesis, List.getLast?_cons_cons]

/--
A property that a view keeps passes from one body to another that looks the
same.
-/
theorem forall_mem_of_map_eq
    {view : Node → Node} {property : Node → Prop} {first second : List Node}
    (same : first.map view = second.map view)
    (keeps : ∀ node, property (view node) ↔ property node)
    (holds : ∀ node ∈ first, property node) :
    ∀ node ∈ second, property node := by
  intro node member
  have viewed : view node ∈ first.map view := by
    rw [same]
    exact List.mem_map_of_mem member
  obtain ⟨original, isOriginal, sameNode⟩ := List.mem_map.mp viewed
  rw [← keeps node, ← sameNode, keeps original]
  exact holds original isOriginal

/--
Bodies that look the same in a view that keeps instructions hold the same ones.
-/
theorem instructionsOf_congr
    {view : Node → Node} {first second : List Node}
    (same : first.map view = second.map view)
    (keeps : ∀ node, (view node).instructions = node.instructions) :
    instructionsOf first = instructionsOf second := by
  have viewed : ∀ body : List Node,
      instructionsOf (body.map view) = instructionsOf body := by
    intro body
    induction body with
    | nil => rfl
    | cons node later hypothesis =>
        rw [List.map_cons, instructionsOf_cons, instructionsOf_cons, keeps,
          hypothesis]
  rw [← viewed first, same, viewed second]

section Bodies

variable {body : List Node}

theorem abutting_instructions
    (abuts : Abutting Instruction.lo Instruction.hi (instructionsOf body))
    {node : Node}
    (member : node ∈ body) :
    Abutting Instruction.lo Instruction.hi node.instructions := by
  obtain ⟨earlier, later, rfl⟩ := List.append_of_mem member
  rw [instructionsOf_append, instructionsOf_cons] at abuts
  exact abuts.right.left

theorem abutting_nodes
    (abuts : Abutting Instruction.lo Instruction.hi (instructionsOf body)) :
    Abutting Node.lo Node.hi body := by
  induction body with
  | nil => trivial
  | cons first later hypothesis =>
      rw [instructionsOf_cons] at abuts
      cases later with
      | nil => trivial
      | cons second others =>
          refine ⟨?_, hypothesis abuts.right⟩
          exact abuts.joint first.getLast?_instructions

theorem ascending_nodes
    (abuts : Abutting Instruction.lo Instruction.hi (instructionsOf body)) :
    body.Pairwise (fun earlier later => earlier.lo < later.lo) :=
  (abutting_nodes abuts).ascending
    (fun _ member =>
      Node.lo_lt_hi_of_abutting (abutting_instructions abuts member))

end Bodies

end ProcRecovery
