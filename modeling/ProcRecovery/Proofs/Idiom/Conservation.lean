import ProcRecovery.Procedure.Analysis
import ProcRecovery.Proofs.Abutting
import ProcRecovery.Proofs.Idiom.Catalog
import ProcRecovery.Proofs.Outcome

/-!
# Conservation of instructions

Recognizing idioms regroups the instructions of a body and replaces some of
their operands, and that is all: no instruction is lost, repeated or moved.  A
pass divides the body into segments and every segment owns the instructions of
its nodes, so the prologue and the collapsing passes keep the instructions
exactly; cached registers change operands only.  Since the instructions abut,
none of the runs that are wrapped can be broken or empty, and recognition never
ends with a fault.
-/

namespace ProcRecovery

/-- The same instruction up to the values of its operands. -/
structure Instruction.Resembles (before after : Instruction) : Prop where
  lo_eq : after.lo = before.lo
  hi_eq : after.hi = before.hi
  mnemonic_eq : after.mnemonic = before.mnemonic
  width_eq : after.width = before.width
  operands_eq : after.operands.length = before.operands.length

theorem Instruction.Resembles.refl (instruction : Instruction) :
    instruction.Resembles instruction :=
  ⟨rfl, rfl, rfl, rfl, rfl⟩

/-- One and the same run of instructions, up to the values of operands. -/
abbrev SameCode (before after : List Instruction) : Prop :=
  List.Forall₂ Instruction.Resembles before after

theorem SameCode.refl (run : List Instruction) : SameCode run run :=
  List.forall₂_same.mpr (fun instruction _ =>
    Instruction.Resembles.refl instruction)

theorem SameCode.abutting
    {before after : List Instruction}
    (same : SameCode before after)
    (abuts : Abutting Instruction.lo Instruction.hi before) :
    Abutting Instruction.lo Instruction.hi after := by
  induction same with
  | nil => trivial
  | cons head rest hypothesis =>
      cases rest with
      | nil => trivial
      | cons next others =>
          refine ⟨?_, hypothesis abuts.2⟩
          rw [head.hi_eq, next.lo_eq]
          exact abuts.1

/--
A node that stands for itself has one instruction, and no node pushes a piece
wider than the address space.
-/
structure Node.IsSound (node : Node) : Prop where
  plain : node.op = none → node.rest = []
  within : ∀ op, node.op = some op → op.PushesWithin

theorem Node.isSound_raw
    (instruction : Instruction) :
    (Node.raw instruction).IsSound where
  plain := fun _ => rfl
  within := by
    intro op isOp
    cases isOp

theorem Node.IsSound.fitsSigned {node : Node} (sound : node.IsSound) :
    FitsSigned node.pushedBytes := by
  unfold pushedBytes FitsSigned
  cases shape : node.op with
  | none => exact ⟨by decide, by decide⟩
  | some op =>
      have bound := sound.within op shape
      unfold PseudoOp.PushesWithin addressSpace at bound
      rw [Option.map_some, Option.getD_some]
      omega

/-- Wrapping a run of abutting instructions gives the node of the run. -/
theorem Node.delivers_wrap
    {op : PseudoOp} {run : List Instruction}
    (nonempty : run ≠ [])
    (abuts : Abutting Instruction.lo Instruction.hi run)
    (within : op.PushesWithin) :
    Delivers (Node.wrap (some op) run) (fun node => node.instructions = run ∧
      node.IsSound)
      (fun _ => False) := by
  obtain ⟨first, rest, rfl⟩ := List.exists_cons_of_ne_nil nonempty
  rw [wrap, if_pos abuts]
  refine ⟨rfl, ?_, ?_⟩
  · intro isNone
    cases isNone
  · intro other isOther
    cases isOther
    exact within

theorem instructionsOf_ne_nil {body : List Node} (nonempty : body ≠ []) :
    instructionsOf body ≠ [] := by
  obtain ⟨first, later, rfl⟩ := List.exists_cons_of_ne_nil nonempty
  simp [Node.instructions]

/-- The nodes of a body hold some instructions, and all of them are sound. -/
structure HoldsSoundly (run : List Instruction) (body : List Node) : Prop where
  holds : instructionsOf body = run
  sound : ∀ node ∈ body, node.IsSound

/--
The nodes of a body hold some instructions up to the values of operands, and
all of them are sound.
-/
structure HoldsLike (run : List Instruction) (body : List Node) : Prop where
  same : SameCode run (instructionsOf body)
  sound : ∀ node ∈ body, node.IsSound

namespace Idiom

/-! ## Collapsing -/

theorem pushesWithin_of_firstMatch?
    {family : List Template}
    (pushWithin : PushWithin family)
    {image : Image} {body : List Node} {template : Template} {op : PseudoOp}
    (found : firstMatch? family image body = some (template, op)) :
    op.PushesWithin := by
  obtain ⟨candidate, member, matched⟩ := List.exists_of_findSome?_eq_some found
  simp only [Option.map_eq_some_iff, Prod.mk.injEq] at matched
  obtain ⟨recognized, isMatch, -, rfl⟩ := matched
  unfold Template.match? at isMatch
  split at isMatch
  · cases isMatch
  · simp only [Option.bind_eq_bind, Option.bind_eq_some_iff] at isMatch
    obtain ⟨window, -, isRecognized⟩ := isMatch
    exact pushWithin candidate member image window recognized isRecognized

/-- The first nodes of a body become one node that holds their instructions. -/
theorem delivers_wrap_take
    (template : Template)
    {op : PseudoOp} {body : List Node}
    (nonempty : body ≠ [])
    (within : op.PushesWithin)
    (abuts : Abutting Instruction.lo Instruction.hi (instructionsOf body)) :
    Delivers (Node.wrap (some op) (instructionsOf (body.take template.length)))
      (fun node => node.instructions =
        instructionsOf (body.take template.length) ∧ node.IsSound)
      (fun _ => False) := by
  apply Node.delivers_wrap _ _ within
  · apply instructionsOf_ne_nil
    have positive := template.length_pos
    rw [Ne, List.take_eq_nil_iff]
    rintro (isZero | isNil)
    · omega
    · exact nonempty isNil
  · rw [← List.take_append_drop template.length body, instructionsOf_append]
      at abuts
    exact abuts.left

theorem instructionsOf_split
    (body : List Node)
    (count : Nat) :
    instructionsOf (body.take count) ++ instructionsOf (body.drop count) =
      instructionsOf body := by
  rw [← instructionsOf_append, List.take_append_drop]

/--
Building the segments of a body keeps its instructions.  The cases are those of
the division into segments: the body is used up, a template collapses its first
nodes, or its first node is kept.
-/
theorem delivers_buildAll
    {family : List Template}
    (pushWithin : PushWithin family)
    (image : Image)
    {body : List Node}
    (sound : ∀ node ∈ body, node.IsSound)
    (abuts : Abutting Instruction.lo Instruction.hi (instructionsOf body)) :
    Delivers (buildAll (segments family image body))
      (HoldsSoundly (instructionsOf body))
      (fun _ => False) := by
  fun_induction segments family image body with
  | case1 => exact ⟨rfl, sound⟩
  | case2 node later template op found hypothesis =>
      have collapsed :=
        delivers_wrap_take template (List.cons_ne_nil node later)
        (pushesWithin_of_firstMatch? pushWithin found) abuts
      have split := instructionsOf_split (node :: later) template.length
      rw [buildAll]
      apply collapsed.bind
      rintro single ⟨holds, singleSound⟩
      rw [← split] at abuts
      apply (hypothesis
        (fun other member => sound other (List.mem_of_mem_drop member))
        abuts.right).bind
      rintro rest ⟨restHolds, restSound⟩
      refine ⟨?_, ?_⟩
      · rw [instructionsOf_cons, holds, restHolds, split]
      · intro other member
        rcases List.mem_cons.mp member with rfl | isLater
        · exact singleSound
        · exact restSound other isLater
  | case3 node later found hypothesis =>
      rw [buildAll]
      apply (delivers_ok.mpr rfl :
        Delivers (Segment.kept node).build (· = node) _).bind
      rintro same rfl
      apply (hypothesis
        (fun other member => sound other (List.mem_cons_of_mem same member))
        (by rw [instructionsOf_cons] at abuts; exact abuts.right)).bind
      rintro rest ⟨restHolds, restSound⟩
      refine ⟨?_, ?_⟩
      · rw [instructionsOf_cons, instructionsOf_cons, restHolds]
      · intro other member
        rcases List.mem_cons.mp member with rfl | isLater
        · exact sound other (by simp)
        · exact restSound other isLater

/-- Pass after pass keeps the instructions of a body. -/
theorem delivers_collapseFamily
    {family : List Template}
    (pushWithin : PushWithin family)
    (image : Image)
    {body : List Node}
    (sound : ∀ node ∈ body, node.IsSound)
    (abuts : Abutting Instruction.lo Instruction.hi (instructionsOf body)) :
    Delivers (collapseFamily family image body).outcome
      (HoldsSoundly (instructionsOf body))
      (fun _ => False) := by
  fun_induction collapseFamily family image body with
  | case1 body collapses fault events built =>
      exact (delivers_buildAll pushWithin image sound abuts).of_error built
  | case2 body collapses next events built fewer rest hypothesis =>
      obtain ⟨holds, nextSound⟩ :=
        (delivers_buildAll pushWithin image sound abuts).of_ok built
      rw [holds] at hypothesis
      exact hypothesis nextSound abuts
  | case3 body done => exact ⟨rfl, sound⟩

theorem delivers_collapseAll
    (image : Image)
    {body : List Node}
    (sound : ∀ node ∈ body, node.IsSound)
    (abuts : Abutting Instruction.lo Instruction.hi (instructionsOf body)) :
    Delivers (collapseAll image body).outcome
      (HoldsSoundly (instructionsOf body))
      (fun _ => False) := by
  unfold collapseAll
  rw [Traced.outcome_foldlM]
  apply Delivers.foldlM ⟨rfl, sound⟩
  rintro current ⟨holds, currentSound⟩ family member
  rw [← holds] at abuts ⊢
  exact delivers_collapseFamily (pushWithin_families family member) image
    currentSound abuts

/-- A recognized prologue takes the place of its instructions. -/
theorem delivers_matchPrologue
    (image : Image)
    {body : List Node}
    (nonempty : body ≠ [])
    (sound : ∀ node ∈ body, node.IsSound)
    (abuts : Abutting Instruction.lo Instruction.hi (instructionsOf body)) :
    Delivers (matchPrologue image body)
      (fun matched => ∀ next, matched = some next →
        HoldsSoundly (instructionsOf body) next)
      (fun _ => False) := by
  unfold matchPrologue
  split
  next template op found =>
    have wrapped := delivers_wrap_take template nonempty
      (pushesWithin_of_firstMatch? pushWithin_prologues found) abuts
    apply wrapped.bind
    rintro single ⟨holds, singleSound⟩ next isNext
    cases isNext
    refine ⟨?_, ?_⟩
    · rw [instructionsOf_cons, holds, instructionsOf_split]
    · intro other member
      rcases List.mem_cons.mp member with rfl | isLater
      · exact singleSound
      · exact sound other (List.mem_of_mem_drop isLater)
  next =>
    intro next isNext
    cases isNext

/-! ## Cached registers -/

theorem resembles_substituteCached
    (cached : List (Register × Int))
    (instruction : Instruction) :
    instruction.Resembles (substituteCached cached instruction) :=
  ⟨rfl, rfl, rfl, rfl, by simp [substituteCached]⟩

theorem sameCode_substituteNode
    (options : Options)
    (cached : List (Register × Int))
    {node : Node}
    (sound : node.IsSound) :
    SameCode node.instructions
      (substituteNode options cached node).instructions ∧
      (substituteNode options cached node).IsSound := by
  unfold substituteNode
  split
  next instruction isRaw =>
    split
    · refine ⟨?_, Node.isSound_raw _⟩
      rw [Node.instructions_of_raw? sound.plain isRaw]
      exact List.Forall₂.cons (resembles_substituteCached cached instruction)
        List.Forall₂.nil
    · exact ⟨SameCode.refl _, sound⟩
  next => exact ⟨SameCode.refl _, sound⟩

theorem sameCode_map_substituteNode
    (options : Options)
    (cached : List (Register × Int))
    {body : List Node}
    (sound : ∀ node ∈ body, node.IsSound) :
    SameCode (instructionsOf body)
      (instructionsOf (body.map (substituteNode options cached))) := by
  induction body with
  | nil => exact List.Forall₂.nil
  | cons first later hypothesis =>
      rw [List.map_cons, instructionsOf_cons, instructionsOf_cons]
      exact List.rel_append
        (sameCode_substituteNode options cached (sound first (by simp))).1
        (hypothesis
          (fun node member => sound node (List.mem_cons_of_mem first member)))

/--
Gathering the loads of cached registers keeps the instructions, operands apart.
-/
theorem delivers_registerCache
    (options : Options)
    {body : List Node}
    (sound : ∀ node ∈ body, node.IsSound)
    (abuts : Abutting Instruction.lo Instruction.hi (instructionsOf body)) :
    Delivers (registerCache options body).outcome
      (HoldsLike (instructionsOf body))
      (fun _ => False) := by
  simp only [registerCache]
  split
  next => exact ⟨SameCode.refl _, sound⟩
  next cached someCached =>
    simp only [Traced.outcome_bind, Traced.outcome_note,
      Traced.outcome_ofExcept, Traced.outcome_pure, ok_bind]
    generalize loads : cacheLoads body [] (body.drop 1) =
      cached at someCached ⊢
    have nonempty : (body.drop 1).take cached.length ≠ [] := by
      rw [Ne, List.take_eq_nil_iff, List.length_eq_zero_iff]
      rintro (isNil | isNil)
      · exact someCached isNil
      · rw [isNil] at loads
        exact someCached loads.symm
    have first := instructionsOf_split body 1
    have second := instructionsOf_split (body.drop 1) cached.length
    rw [List.drop_drop] at second
    rw [← first] at abuts
    have laterAbuts := abuts.right
    rw [← second] at laterAbuts
    have wrapped :=
      Node.delivers_wrap (instructionsOf_ne_nil nonempty) laterAbuts.left
      (PseudoOp.pushesWithin_of_eq_zero (rfl :
        (PseudoOp.registerCache cached).pushedBytes = 0))
    apply wrapped.bind
    rintro node ⟨holds, nodeSound⟩
    have laterSound : ∀ node ∈ body.drop (1 + cached.length), node.IsSound :=
      fun node member => sound node (List.mem_of_mem_drop member)
    refine ⟨?_, ?_⟩
    · rw [instructionsOf_append, instructionsOf_cons, holds, ← first, ← second]
      exact List.rel_append (SameCode.refl _)
        (List.rel_append (SameCode.refl _)
          (sameCode_map_substituteNode options cached laterSound))
    · intro other member
      rcases List.mem_append.mp member with isFirst | isLater
      · exact sound other (List.mem_of_mem_take isFirst)
      · rcases List.mem_cons.mp isLater with rfl | isSubstituted
        · exact nodeSound
        · obtain ⟨original, isOriginal, rfl⟩ := List.mem_map.mp isSubstituted
          exact (sameCode_substituteNode options cached
            (laterSound original isOriginal)).2

end Idiom

/--
Recognizing the idioms of a body always succeeds and keeps its instructions,
operands apart.
-/
theorem Procedure.delivers_recognize
    (options : Options)
    (image : Image)
    (procedure : Nat)
    {body : List Node}
    (sound : ∀ node ∈ body, node.IsSound)
    (abuts : Abutting Instruction.lo Instruction.hi (instructionsOf body)) :
    Delivers (recognize options image procedure body).outcome
      (HoldsLike (instructionsOf body))
      (fun _ => False) := by
  simp only [recognize, Traced.outcome_bind, Traced.outcome_emit,
    Traced.outcome_pure, ok_bind]
  apply (Idiom.delivers_registerCache options sound abuts).bind
  rintro cached ⟨same, cachedSound⟩
  apply (Idiom.delivers_collapseAll image cachedSound
    (same.abutting abuts)).bind
  rintro collapsed ⟨holds, collapsedSound⟩
  refine ⟨?_, collapsedSound⟩
  rw [holds]
  exact same

end ProcRecovery
