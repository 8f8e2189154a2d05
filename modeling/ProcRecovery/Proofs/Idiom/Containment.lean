import ProcRecovery.Proofs.Idiom.Absorption
import ProcRecovery.Proofs.Idiom.Conservation

/-!
# Jumps of absorbed instructions

An operation that stands for a run of instructions only falls through, so none
of the jumps among the instructions may lead anywhere else.  The checks branch
past their own traps, the loops step back to their own moves, and everything
else falls through by itself.  Only a bailout really jumps, and it is meant to.

The one thing that recognition relies on is that a conditional branch has a
single operand: it looks at the first operand of a branch, and control goes to
the last one.
-/

namespace ProcRecovery

namespace Instruction

/--
Whether control goes on with the next instruction, calls and endings apart.
-/
def isStraight (instruction : Instruction) : Bool :=
  match instruction.mnemonic with
  | .branch _ | .sob | .br | .jmp | .case => false
  | _ => true

/--
Every jump of the instruction leads to the start or the end of one of some
instructions.
-/
def JumpsInto (window : List Instruction) (instruction : Instruction) : Prop :=
  ∀ way ∈ instruction.flow, way.kind ≠ .call → way.kind ≠ .normal →
    ∃ other ∈ window, way.destination = some other.lo ∨
    way.destination = some other.hi

/--
A way out is a call, falls through, or is a jump of an instruction that is not
straight.
-/
theorem mem_flow_cases
    {instruction : Instruction} {way : Flow}
    (member : way ∈ instruction.flow) :
    way.kind = .call ∨ way = ⟨.normal, some instruction.hi⟩ ∨
      instruction.isStraight = false ∧ way.kind ≠ .normal := by
  unfold flow isStraight at *
  split at member
  all_goals simp only [List.mem_cons, List.mem_map, List.not_mem_nil, or_false]
    at member
  · rcases member with rfl | rfl <;> simp_all
  · rcases member with rfl | rfl <;> simp_all
  · subst member
    simp_all
  · subst member
    simp_all
  · rcases member with rfl | rfl <;> simp_all
  · rcases member with ⟨operand, -, rfl⟩
    simp_all
  · simp [member]

theorem jumpsInto_of_isStraight
    {instruction : Instruction}
    (straight : instruction.isStraight = true)
    (window : List Instruction) :
    instruction.JumpsInto window := by
  intro way member noCall jumps
  rcases mem_flow_cases member with isCall | isNormal | ⟨bent, -⟩
  · exact absurd isCall noCall
  · rw [isNormal] at jumps
    exact absurd rfl jumps
  · rw [straight] at bent
    cases bent

/-- A branch with one operand goes to its first operand. -/
theorem jumpsInto_of_branch
    {instruction other : Instruction} {window : List Instruction}
    (branches : instruction.isBranch = true)
    (once : instruction.operands.length = 1)
    (past : instruction.firstTarget? = some other.hi)
    (member : other ∈ window) :
    instruction.JumpsInto window := by
  rcases List.length_eq_one_iff.mp once with ⟨operand, operands⟩
  have target : operand = .target other.hi := by
    simp only [firstTarget?, operands, List.head?_cons, Option.bind_some]
      at past
    unfold Operand.target? at past
    split at past
    next => rw [Option.some.inj past]
    next => cases past
  intro way isWay noCall jumps
  refine ⟨other, member, .inr ?_⟩
  unfold isBranch at branches
  split at branches
  next condition isBranch =>
    simp only [flow, isBranch, operands, target, List.mem_cons,
      List.not_mem_nil, or_false] at isWay
    rcases isWay with rfl | rfl
    · exact absurd rfl jumps
    · rfl
  next => cases branches

theorem isStraight_of_load?
    {instruction : Instruction} {load : Int × Register}
    (loads : instruction.load? = some load) :
    instruction.isStraight = true := by
  unfold load? at loads
  split at loads
  next moves _ => rw [isStraight, moves]
  next => cases loads

theorem isStraight_of_move?
    {instruction : Instruction} {move : Operand × Operand}
    (moves : instruction.move? = some move) :
    instruction.isStraight = true := by
  unfold move? at moves
  split at moves
  next isMove _ => rw [isStraight, isMove]
  next => cases moves

/-- A loop instruction goes back to where its destination says. -/
theorem jumpsInto_of_loop?
    {instruction other : Instruction} {window : List Instruction}
    {counter : Register}
    (loops : instruction.loop? = some (counter, other.lo))
    (member : other ∈ window) :
    instruction.JumpsInto window := by
  unfold loop? at loops
  split at loops
  next first second isLoop operands =>
    simp only [Option.bind_eq_bind, Option.bind_eq_some_iff, Option.pure_def,
      Option.some.injEq, Prod.mk.injEq] at loops
    rcases loops with ⟨register, -, address, isTarget, -, rfl⟩
    have target : second = .target other.lo := by
      unfold Operand.target? at isTarget
      split at isTarget
      next => rw [Option.some.inj isTarget]
      next => cases isTarget
    intro way isWay noCall jumps
    refine ⟨other, member, .inl ?_⟩
    simp only [flow, isLoop, operands, target, List.mem_cons, List.not_mem_nil,
      or_false] at isWay
    rcases isWay with rfl | rfl
    · exact absurd rfl jumps
    · rfl
  next => cases loops

end Instruction

/--
Straight code around a counted loop jumps nowhere but back to the move of the
loop.
-/
theorem CountedLoop.jumpsInto
    {load move step : Instruction} {loop : CountedLoop}
    (found : ofInstructions? load move step = some loop)
    (front back : List Instruction)
    (straightFront : ∀ instruction ∈ front, instruction.isStraight = true)
    (straightBack : ∀ instruction ∈ back, instruction.isStraight = true) :
    ∀ instruction ∈ front ++ [load, move, step] ++ back,
      instruction.JumpsInto (front ++ [load, move, step] ++ back) := by
  simp only [ofInstructions?, Option.bind_eq_bind, Option.bind_eq_some_iff]
    at found
  rcases found with
    ⟨⟨count, counter⟩, loads, ⟨source, target⟩, moves, ⟨stepped, start⟩, steps,
      found⟩
  split at found
  next shaped =>
    rcases shaped with ⟨-, rfl, -⟩
    intro instruction member
    simp only [List.mem_append, List.mem_cons, List.not_mem_nil, or_false]
      at member
    rcases member with (isFront | rfl | rfl | rfl) | isBack
    · exact Instruction.jumpsInto_of_isStraight
        (straightFront instruction isFront) _
    · exact Instruction.jumpsInto_of_isStraight
        (Instruction.isStraight_of_load? loads) _
    · exact Instruction.jumpsInto_of_isStraight
        (Instruction.isStraight_of_move? moves) _
    · exact Instruction.jumpsInto_of_loop? steps (by simp)
    · exact Instruction.jumpsInto_of_isStraight
        (straightBack instruction isBack) _
  next => cases found

/-- Every conditional branch among some instructions has a single operand. -/
def BranchesOnce (window : List Instruction) : Prop :=
  ∀ instruction ∈ window, instruction.isBranch = true →
    instruction.operands.length = 1

/--
Straight code followed by a stack check jumps nowhere but past the trap of the
check.
-/
theorem jumpsInto_of_isStackCheck
    (front : List Instruction)
    {check : List Instruction}
    (once : BranchesOnce (front ++ check))
    (straight : ∀ instruction ∈ front, instruction.isStraight = true)
    (checks : isStackCheck check = true) :
    ∀ instruction ∈ front ++ check,
      instruction.JumpsInto (front ++ check) := by
  intro instruction member
  rcases List.mem_append.mp member with isFront | isCheck
  · exact Instruction.jumpsInto_of_isStraight (straight instruction isFront) _
  · unfold isStackCheck at checks
    split at checks
    next compare branch request trap =>
      simp only [Bool.and_eq_true, decide_eq_true_eq] at checks
      rcases checks with ⟨⟨⟨⟨⟨compares, -⟩, branches⟩, past⟩, requests⟩, traps⟩
      simp only [List.mem_cons, List.not_mem_nil, or_false] at isCheck
      rcases isCheck with rfl | rfl | rfl | rfl
      · exact Instruction.jumpsInto_of_isStraight
          (by rw [Instruction.isStraight, compares]) _
      · have isBranch : instruction.isBranch = true := by
          rw [Instruction.isBranch, branches]
        exact Instruction.jumpsInto_of_branch isBranch
          (once instruction member isBranch) past
          (by simp)
      · exact Instruction.jumpsInto_of_isStraight
          (by rw [Instruction.isStraight, requests]) _
      · exact Instruction.jumpsInto_of_isStraight
          (by rw [Instruction.isStraight, traps]) _
    next => cases checks

namespace Idiom

/-! ## Recognizers that contain the jumps of what they recognize -/

/--
Whatever is recognized jumps nowhere but into itself, unless it is a bailout.
-/
def Recognizer.Contains (recognize : Recognizer) : Prop :=
  ∀ (image : Image) (window : List Instruction) (op : PseudoOp),
    BranchesOnce window →
    recognize image window = some op → (∀ slot, op ≠ .bailout slot) →
    ∀ instruction ∈ window, instruction.JumpsInto window

/-- Straight code contains its jumps for lack of any. -/
theorem Recognizer.contains_of_straight
    {recognize : Recognizer}
    (straight : ∀ image window op, recognize image window = some op →
      (∀ slot, op ≠ .bailout slot) →
      ∀ instruction ∈ window, instruction.isStraight = true) :
    recognize.Contains := by
  intro image window op _ recognized noBailout instruction member
  exact Instruction.jumpsInto_of_isStraight
    (straight image window op recognized noBailout instruction member) window

theorem contains_prologue : Recognizer.Contains prologue := by
  intro image window op once recognized _
  unfold prologue at recognized
  split at recognized
  next save set check =>
    split at recognized
    next shaped =>
      simp only [Bool.and_eq_true] at shaped
      rcases effects_of_isFrameSetup shaped.1 with ⟨saves, sets, -⟩
      apply jumpsInto_of_isStackCheck [save, set] once _ shaped.2
      simp [Instruction.isStraight, saves, sets]
    next => cases recognized
  next => cases recognized

theorem contains_prologueWithLocals :
    Recognizer.Contains prologueWithLocals := by
  intro image window op once recognized _
  unfold prologueWithLocals at recognized
  split at recognized
  next save set alloc check =>
    split at recognized
    next allocates _ =>
      split at recognized
      next shaped =>
        simp only [Bool.and_eq_true, decide_eq_true_eq] at shaped
        rcases shaped with ⟨⟨⟨setup, -⟩, -⟩, checks⟩
        rcases effects_of_isFrameSetup setup with ⟨saves, sets, -⟩
        apply jumpsInto_of_isStackCheck [save, set, alloc] once _ checks
        simp [Instruction.isStraight, saves, sets, allocates]
      next => cases recognized
    next => cases recognized
  next => cases recognized

theorem contains_stackCheck : Recognizer.Contains stackCheck := by
  intro image window op once recognized _
  simp only [stackCheck] at recognized
  split at recognized
  next checks => exact jumpsInto_of_isStackCheck [] once (by simp) checks
  next => cases recognized

theorem contains_checkedBranch : Recognizer.Contains checkedBranch := by
  intro image window op once recognized _
  unfold checkedBranch at recognized
  split at recognized
  next test branch trap =>
    split at recognized
    next shaped =>
      rcases shaped with ⟨tests, -, branches, past, traps⟩
      simp only [List.mem_cons, List.not_mem_nil, or_false]
      rintro instruction (rfl | rfl | rfl)
      · apply Instruction.jumpsInto_of_isStraight
        rcases tests with same | same <;> rw [Instruction.isStraight, same]
      · exact Instruction.jumpsInto_of_branch branches
          (once instruction (by simp) branches) past
          (by simp)
      · exact Instruction.jumpsInto_of_isStraight
          (by rw [Instruction.isStraight, traps]) _
    next => cases recognized
  next => cases recognized

theorem contains_checkedStep : Recognizer.Contains checkedStep := by
  apply Recognizer.contains_of_straight
  intro image window op recognized _
  simp only [checkedStep] at recognized
  grind [Instruction.isStraight]

theorem contains_epilogue : Recognizer.Contains epilogue := by
  apply Recognizer.contains_of_straight
  intro image window op recognized _
  simp only [epilogue] at recognized
  grind [Instruction.isStraight]

theorem contains_bailout : Recognizer.Contains bailout := by
  apply Recognizer.contains_of_straight
  intro image window op recognized noBailout
  simp only [bailout] at recognized
  grind [Instruction.isStraight]

/-- A loop contains the jump back to its move. -/
theorem contains_of_mem_loopingFamily
    {template : Template} (member : template ∈ loopingFamily) :
    template.recognize.Contains := by
  intro image window op _ recognized _
  cases isLoop_of_recognize member recognized with
  | @text base _ _ _ last _ _ _ _ isBase isLoop _ _ _ lastMoves =>
      apply CountedLoop.jumpsInto isLoop [base] [last]
      · simp [Instruction.isStraight_of_load? isBase]
      · simp [Instruction.isStraight, lastMoves]
  | @literal base _ _ _ _ _ _ _ isBase isLoop =>
      apply CountedLoop.jumpsInto isLoop [base] []
      · simp [Instruction.isStraight_of_load? isBase]
      · simp
  | push isLoop => exact CountedLoop.jumpsInto isLoop [] [] (by simp) (by simp)
  | pop isLoop => exact CountedLoop.jumpsInto isLoop [] [] (by simp) (by simp)
  | copy isLoop => exact CountedLoop.jumpsInto isLoop [] [] (by simp) (by simp)

theorem contains_computedReference
    {recognize : Recognizer}
    (base : Register)
    (computes : ∀ image window op, recognize image window = some op →
      ∃ distance, computedReference? base window = some distance) :
    recognize.Contains := by
  apply Recognizer.contains_of_straight
  intro image window op recognized _
  rcases computes image window op recognized with ⟨distance, computed⟩
  rcases computedReference?_eq_some computed with
    ⟨push, add, rfl, pushes, adds⟩
  simp [Instruction.isStraight, pushes.1, adds.1]

theorem contains_effectiveReference
    {recognize : Recognizer}
    (base : Register)
    (computes : ∀ image window op, recognize image window = some op →
      ∃ distance, effectiveReference? base window = some distance) :
    recognize.Contains := by
  apply Recognizer.contains_of_straight
  intro image window op recognized _
  rcases computes image window op recognized with ⟨distance, effective⟩
  rcases effectiveReference?_eq_some effective with ⟨push, rfl, isLea, -⟩
  simp [Instruction.isStraight, isLea]

theorem contains_constantPush : Recognizer.Contains constantPush := by
  apply Recognizer.contains_of_straight
  intro image window op recognized _
  simp only [constantPush] at recognized
  grind [Instruction.isStraight]

theorem contains_stackAdjust : Recognizer.Contains stackAdjust := by
  apply Recognizer.contains_of_straight
  intro image window op recognized _
  simp only [stackAdjust, adjustment?] at recognized
  grind [Instruction.isStraight]

theorem contains_call : Recognizer.Contains call := by
  apply Recognizer.contains_of_straight
  intro image window op recognized _
  simp only [call] at recognized
  grind [Instruction.isStraight]

/-- Every template of the catalog contains the jumps of what it recognizes. -/
theorem contains_of_mem
    {template : Template}
    (member : template ∈ prologues ++ families.flatten) :
    template.recognize.Contains := by
  simp only [prologues, families, leavingFamily, checkingFamily, stackFamily,
    List.flatten_cons, List.flatten_nil, List.append_nil, List.mem_append,
    List.mem_cons, List.not_mem_nil, or_false] at member
  rcases member with
    (rfl | rfl) | (rfl | rfl) | (rfl | rfl | rfl) | isLooping |
    rfl | rfl | rfl | rfl | rfl | rfl | rfl
  · exact contains_prologueWithLocals
  · exact contains_prologue
  · exact contains_epilogue
  · exact contains_bailout
  · exact contains_stackCheck
  · exact contains_checkedBranch
  · exact contains_checkedStep
  · exact contains_of_mem_loopingFamily isLooping
  · apply contains_computedReference .fp
    intro image window op recognized
    rcases Option.map_eq_some_iff.mp recognized with ⟨distance, computed, -⟩
    exact ⟨distance, computed⟩
  · apply contains_computedReference .sp
    intro image window op recognized
    rcases Option.map_eq_some_iff.mp recognized with ⟨distance, computed, -⟩
    exact ⟨distance, computed⟩
  · apply contains_effectiveReference .fp
    intro image window op recognized
    rcases Option.map_eq_some_iff.mp recognized with ⟨distance, effective, -⟩
    exact ⟨distance, effective⟩
  · apply contains_effectiveReference .sp
    intro image window op recognized
    rcases Option.map_eq_some_iff.mp recognized with ⟨distance, effective, -⟩
    exact ⟨distance, effective⟩
  · exact contains_constantPush
  · exact contains_stackAdjust
  · exact contains_call

end Idiom

/-! ## Nodes that contain their jumps -/

/--
A node that stands for itself has one instruction, and an operation other than
a bailout contains the jumps of its instructions.
-/
structure Node.IsContained (node : Node) : Prop where
  plain : node.op = none → node.rest = []
  once : BranchesOnce node.instructions
  jumps : ∀ op, node.op = some op → (∀ slot, op ≠ .bailout slot) →
    ∀ instruction ∈ node.instructions, instruction.JumpsInto node.instructions

theorem Node.isContained_raw
    {instruction : Instruction}
    (once : instruction.isBranch = true → instruction.operands.length = 1) :
    (Node.raw instruction).IsContained where
  plain := fun _ => rfl
  once := by
    intro other member
    rw [instructions_raw, List.mem_singleton] at member
    rw [member]
    exact once
  jumps := by
    intro op isOp
    cases isOp

theorem branchesOnce_instructionsOf
    {body : List Node}
    (contained : ∀ node ∈ body, node.IsContained) :
    BranchesOnce (instructionsOf body) := by
  intro instruction member
  rcases List.mem_flatMap.mp member with ⟨node, isNode, owned⟩
  exact (contained node isNode).once instruction owned

/--
Nodes that all stand for themselves hold the instructions that are read off
them.
-/
theorem instructionsOf_of_mapM_raw?
    {nodes : List Node} {window : List Instruction}
    (plain : ∀ node ∈ nodes, node.op = none → node.rest = [])
    (raw : nodes.mapM Node.raw? = some window) :
    instructionsOf nodes = window := by
  induction nodes generalizing window with
  | nil =>
      cases raw
      rfl
  | cons node later hypothesis =>
      rw [List.mapM_cons] at raw
      simp only [Option.bind_eq_bind, Option.pure_def, Option.bind_eq_some_iff]
        at raw
      rcases raw with ⟨instruction, isRaw, rest, restRaw, same⟩
      cases same
      rw [instructionsOf_cons,
        Node.instructions_of_raw? (plain node (by simp)) isRaw,
        hypothesis (fun other member => plain other (by simp [member]))
          restRaw]
      rfl

namespace Idiom

/-- A match is the recognition of the instructions of the first nodes. -/
theorem recognize_of_firstMatch?
    {family : List Template} {image : Image} {body : List Node}
    {template : Template} {op : PseudoOp}
    (plain : ∀ node ∈ body, node.op = none → node.rest = [])
    (found : firstMatch? family image body = some (template, op)) :
    template ∈ family ∧
      template.recognize image (instructionsOf (body.take template.length)) =
        some op := by
  rcases List.exists_of_findSome?_eq_some found with
    ⟨candidate, member, matched⟩
  simp only [Option.map_eq_some_iff, Prod.mk.injEq] at matched
  rcases matched with ⟨recognized, isMatch, rfl, rfl⟩
  refine ⟨member, ?_⟩
  unfold Template.match? at isMatch
  split at isMatch
  next => cases isMatch
  next =>
    simp only [Option.bind_eq_bind, Option.bind_eq_some_iff] at isMatch
    rcases isMatch with ⟨window, raw, isRecognized⟩
    rw [instructionsOf_of_mapM_raw?
      (fun node isNode => plain node (List.mem_of_mem_take isNode)) raw]
    exact isRecognized

/-- The node of a match contains its jumps. -/
theorem isContained_of_firstMatch?
    {family : List Template}
    (known : ∀ template ∈ family, template ∈ prologues ++ families.flatten)
    {image : Image} {body : List Node}
    (contained : ∀ node ∈ body, node.IsContained)
    {template : Template} {op : PseudoOp}
    (found : firstMatch? family image body = some (template, op))
    {node : Node}
    (wrapped :
      Node.wrap (some op) (instructionsOf (body.take template.length)) =
        .ok node) :
    node.IsContained := by
  have isOp := Node.op_of_wrap wrapped
  have owned := Node.instructions_of_wrap wrapped
  have once : BranchesOnce node.instructions := by
    rw [owned]
    exact branchesOnce_instructionsOf (fun other member =>
      contained other (List.mem_of_mem_take member))
  rcases recognize_of_firstMatch? (fun other member =>
    (contained other member).plain) found with
    ⟨member, recognized⟩
  rw [← owned] at recognized
  refine ⟨?_, once, ?_⟩
  · intro isNone
    rw [isOp] at isNone
    cases isNone
  · intro other isOther noBailout
    rw [isOp] at isOther
    cases isOther
    exact contains_of_mem (known template member) image node.instructions op
      once recognized
      noBailout

/--
A pass keeps jumps contained.  The cases are those of the division into
segments.
-/
theorem isContained_of_buildAll
    {family : List Template}
    (known : ∀ template ∈ family, template ∈ prologues ++ families.flatten)
    {image : Image} {body next : List Node}
    (contained : ∀ node ∈ body, node.IsContained)
    (built : buildAll (segments family image body) = .ok next) :
    ∀ node ∈ next, node.IsContained := by
  fun_induction segments family image body generalizing next with
  | case1 =>
      cases built
      simp
  | case2 node later template op found hypothesis =>
      rw [buildAll] at built
      rcases bind_eq_ok_iff.mp built with ⟨single, isSingle, built⟩
      rcases bind_eq_ok_iff.mp built with ⟨rest, isRest, built⟩
      cases built
      rw [List.forall_mem_cons]
      constructor
      · exact isContained_of_firstMatch? known contained found isSingle
      · exact hypothesis (fun other member =>
          contained other (List.mem_of_mem_drop member)) isRest
  | case3 node later found hypothesis =>
      rw [buildAll] at built
      rcases bind_eq_ok_iff.mp built with ⟨same, isSame, built⟩
      rcases bind_eq_ok_iff.mp built with ⟨rest, isRest, built⟩
      cases isSame
      cases built
      rw [List.forall_mem_cons] at contained ⊢
      exact ⟨contained.1, hypothesis contained.2 isRest⟩

theorem isContained_of_collapseFamily
    {family : List Template}
    (known : ∀ template ∈ family, template ∈ prologues ++ families.flatten)
    {image : Image} {body next : List Node}
    (contained : ∀ node ∈ body, node.IsContained)
    (collapsed : (collapseFamily family image body).outcome = .ok next) :
    ∀ node ∈ next, node.IsContained := by
  fun_induction collapseFamily family image body with
  | case1 body collapses fault events built => cases collapsed
  | case2 body collapses middle events built fewer rest hypothesis =>
      exact hypothesis (isContained_of_buildAll known contained built)
        collapsed
  | case3 body done =>
      cases collapsed
      exact contained

theorem delivers_contained_collapseAll
    (image : Image)
    {body : List Node}
    (contained : ∀ node ∈ body, node.IsContained) :
    Delivers (collapseAll image body).outcome (fun next => ∀ node ∈ next,
      node.IsContained)
      (fun _ => True) := by
  unfold collapseAll
  rw [Traced.outcome_foldlM]
  apply Delivers.foldlM contained
  intro current currentContained family member
  apply delivers_of_outcome
  · intro next finished
    apply isContained_of_collapseFamily _ currentContained finished
    intro template isTemplate
    exact List.mem_append_right _
      (List.mem_flatten.mpr ⟨family, member, isTemplate⟩)
  · intro fault _
    trivial

theorem isContained_of_matchPrologue
    {image : Image} {body next : List Node}
    (contained : ∀ node ∈ body, node.IsContained)
    (matched : matchPrologue image body = .ok (some next)) :
    ∀ node ∈ next, node.IsContained := by
  unfold matchPrologue at matched
  split at matched
  next template op found =>
    rcases bind_eq_ok_iff.mp matched with ⟨single, isSingle, same⟩
    cases same
    rw [List.forall_mem_cons]
    constructor
    · apply isContained_of_firstMatch? _ contained found isSingle
      intro other member
      exact List.mem_append_left _ member
    · intro node member
      exact contained node (List.mem_of_mem_drop member)
  next => cases matched

/-! ## Cached registers -/

theorem isStraight_of_cacheLoad?
    {instruction : Instruction} {load : Register × Int}
    (loads : cacheLoad? instruction = some load) :
    instruction.isStraight = true := by
  unfold cacheLoad? at loads
  split at loads
  next moves _ => rw [Instruction.isStraight, moves]
  next addresses _ => rw [Instruction.isStraight, addresses]
  next => cases loads

theorem isStraight_of_loads
    {nodes : List Node} {loads : List (Register × Int)}
    (plain : ∀ node ∈ nodes, node.op = none → node.rest = [])
    (paired :
      List.Forall₂ (fun node load => node.raw?.bind cacheLoad? = some load)
        nodes loads) :
    ∀ instruction ∈ instructionsOf nodes, instruction.isStraight = true := by
  intro instruction member
  rcases List.mem_flatMap.mp member with ⟨node, isNode, owned⟩
  rcases exists_of_mem_left paired isNode with ⟨load, -, isLoad⟩
  rcases Option.bind_eq_some_iff.mp isLoad with ⟨only, isRaw, loads⟩
  rw [Node.instructions_of_raw? (plain node isNode) isRaw, List.mem_singleton]
    at owned
  rw [owned]
  exact isStraight_of_cacheLoad? loads

theorem isContained_substituteNode
    (options : Options)
    (cached : List (Register × Int))
    {node : Node}
    (contained : node.IsContained) :
    (substituteNode options cached node).IsContained := by
  unfold substituteNode
  split
  next instruction isRaw =>
    split
    next =>
      apply Node.isContained_raw
      have owned : instruction ∈ node.instructions := by
        rw [← (Node.raw?_eq_some_iff.mp isRaw).2]
        exact List.mem_cons_self
      rw [(resembles_substituteCached cached instruction).operands_eq]
      exact contained.once instruction owned
    next => exact contained
  next => exact contained

theorem isContained_of_registerCache
    {options : Options} {body next : List Node}
    (contained : ∀ node ∈ body, node.IsContained)
    (finished : (registerCache options body).outcome = .ok next) :
    ∀ node ∈ next, node.IsContained := by
  rcases exists_of_cacheLoads body [] (body.drop 1) with ⟨loads, found, paired⟩
  rw [List.nil_append] at found
  simp only [registerCache, found] at finished
  split at finished
  next =>
    cases finished
    exact contained
  next =>
    simp only [Traced.outcome_bind, Traced.outcome_note,
      Traced.outcome_ofExcept, Traced.outcome_pure, ok_bind] at finished
    rcases bind_eq_ok_iff.mp finished with ⟨loading, wrapped, rest⟩
    cases rest
    have inLoads : ∀ node ∈ (body.drop 1).take loads.length,
        node.IsContained :=
      fun node member =>
        contained node (List.mem_of_mem_drop (List.mem_of_mem_take member))
    have owned : loading.instructions =
        instructionsOf ((body.drop 1).take loads.length) :=
      Node.instructions_of_wrap wrapped
    intro node member
    rcases List.mem_append.mp member with isFirst | isLater
    · exact contained node (List.mem_of_mem_take isFirst)
    · rcases List.mem_cons.mp isLater with rfl | isSubstituted
      · refine ⟨?_, ?_, ?_⟩
        · intro isNone
          rw [Node.op_of_wrap wrapped] at isNone
          cases isNone
        · rw [owned]
          exact branchesOnce_instructionsOf inLoads
        · intro op isOp noBailout instruction isOwned
          rw [owned] at isOwned
          apply Instruction.jumpsInto_of_isStraight
          exact isStraight_of_loads (fun other isOther =>
            (inLoads other isOther).plain) paired
            instruction isOwned
      · rcases List.mem_map.mp isSubstituted with ⟨original, isOriginal, rfl⟩
        exact isContained_substituteNode options loads
          (contained original (List.mem_of_mem_drop isOriginal))

end Idiom

/-- Recognizing the idioms of a body keeps jumps contained. -/
theorem Procedure.isContained_of_recognize
    {options : Options} {image : Image} {procedure : Nat}
    {body next : List Node}
    (contained : ∀ node ∈ body, node.IsContained)
    (finished : (recognize options image procedure body).outcome = .ok next) :
    ∀ node ∈ next, node.IsContained := by
  simp only [recognize, Traced.outcome_bind, Traced.outcome_emit,
    Traced.outcome_pure, ok_bind]
    at finished
  rcases bind_eq_ok_iff.mp finished with ⟨cached, isCached, rest⟩
  rcases bind_eq_ok_iff.mp rest with ⟨collapsed, isCollapsed, same⟩
  cases same
  exact (Idiom.delivers_contained_collapseAll image
    (Idiom.isContained_of_registerCache contained isCached)).of_ok isCollapsed

/--
A way out of an instruction that a contained operation stands for stays within
the operation.
-/
theorem Node.IsContained.destination_within
    {node : Node}
    (contained : node.IsContained)
    (abuts : Abutting Instruction.lo Instruction.hi node.instructions)
    {op : PseudoOp}
    (isOp : node.op = some op)
    (noBailout : ∀ slot, op ≠ .bailout slot)
    {instruction : Instruction}
    (member : instruction ∈ node.instructions)
    {way : Flow}
    (isWay : way ∈ instruction.flow)
    (noCall : way.kind ≠ .call) :
    ∃ target, way.destination = some target ∧ node.lo ≤ target ∧
      target ≤ node.hi := by
  have within := node.within_of_abutting abuts
  by_cases normal : way.kind = .normal
  · rcases Instruction.mem_flow_cases isWay with isCall | same | ⟨-, jumps⟩
    · exact absurd isCall noCall
    · have bounds := within instruction member
      have proper := instruction.lo_lt_hi
      exact ⟨instruction.hi, by rw [same], by omega, bounds.2⟩
    · exact absurd normal jumps
  · rcases contained.jumps op isOp noBailout instruction member way isWay
      noCall normal with
      ⟨other, isOther, atStart | atEnd⟩
    · have bounds := within other isOther
      have proper := other.lo_lt_hi
      exact ⟨other.lo, atStart, bounds.1, by omega⟩
    · have bounds := within other isOther
      have proper := other.lo_lt_hi
      exact ⟨other.hi, atEnd, by omega, bounds.2⟩

end ProcRecovery
