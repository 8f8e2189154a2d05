import ProcRecovery.Proofs.Idiom.Bounds
import ProcRecovery.Proofs.Idiom.Conservation
import ProcRecovery.Proofs.Idiom.NormalForm
import ProcRecovery.Proofs.Image.Layout
import ProcRecovery.Proofs.Listing.RoundTrip
import ProcRecovery.Proofs.Replay.Movement

/-!
# The size of a frame

The templates bound the bytes that an operation moves by the size of the
address space, with one exception: the frame that a prologue allocates is as
large as the literal says, and a literal of a listing is any signed word.  So
the stack effects of a recognized body stay within a frame and a word exactly
if its frame fits in the address space, and their computation overflows exactly
if the frame and the word below it leave the signed words.  The cached values
that registers are replaced by make no difference, for what an instruction adds
to the stack pointer is bounded as well.
-/

namespace ProcRecovery

/-! ## Frames of prologues -/

/--
The prologue of readable code allocates a frame whose size is a signed word.
-/
theorem Idiom.exists_frame_of_recognize
    {template : Template}
    (member : template ∈ prologues)
    {image : Image} {window : List Instruction}
    (readable : ∀ instruction ∈ window, instruction.IsReadable)
    {op : PseudoOp}
    (recognized : template.recognize image window = some op) :
    ∃ frame : Nat, op = .prologue frame ∧ FitsSigned frame := by
  simp only [prologues, List.mem_cons, List.not_mem_nil, or_false] at member
  rcases member with rfl | rfl
  · simp only [prologueWithLocals] at recognized
    split at recognized
    next save set alloc check =>
      split at recognized
      next size base _ operands =>
        split at recognized
        next shape =>
          cases recognized
          have literal : FitsSigned size :=
            (readable alloc (by simp)).operands (.immediate size)
              (by simp [operands])
          refine ⟨size.toNat, rfl, ?_⟩
          unfold FitsSigned at literal ⊢
          omega
        next => cases recognized
      next => cases recognized
    next => cases recognized
  · simp only [prologue] at recognized
    split at recognized
    next =>
      split at recognized
      next =>
        cases recognized
        exact ⟨0, rfl, by decide⟩
      next => cases recognized
    next => cases recognized

/--
A body that starts with a prologue; nothing else in it moves more bytes than
there are.
-/
structure StartsWithFrame (frame : Nat) (body : List Node) : Prop where
  allocates : body.head?.bind Node.op = some (.prologue frame)
  within : ∀ node ∈ body, node.op = some (.prologue frame) ∨ node.MovesWithin

/-- Where a prologue is matched in readable and valid code. -/
theorem Idiom.exists_frame_of_matchPrologue
    {image : Image} {instructions : List Instruction} {body : List Node}
    (readable : ∀ instruction ∈ instructions, instruction.IsReadable)
    (valid : ∀ instruction ∈ instructions, instruction.defect? = none)
    (matched : matchPrologue image (instructions.map Node.raw) =
      .ok (some body)) :
    ∃ frame : Nat, FitsSigned frame ∧ StartsWithFrame frame body := by
  have plain : ∀ node ∈ instructions.map Node.raw, node.op = none →
      node.rest = [] := by
    intro node member _
    obtain ⟨instruction, -, rfl⟩ := List.mem_map.mp member
    rfl
  unfold matchPrologue at matched
  split at matched
  next template op found =>
    obtain ⟨single, isSingle, same⟩ := bind_eq_ok_iff.mp matched
    cases same
    obtain ⟨member, recognized⟩ := recognize_of_firstMatch? plain found
    rw [← List.map_take, instructionsOf_map_raw] at recognized
    obtain ⟨frame, rfl, fits⟩ := exists_frame_of_recognize member
      (fun instruction isTaken =>
        readable instruction (List.mem_of_mem_take isTaken)) recognized
    have isOp := Node.op_of_wrap isSingle
    refine ⟨frame, fits, isOp, ?_⟩
    rw [List.forall_mem_cons]
    refine ⟨.inl isOp, ?_⟩
    intro node isNode
    obtain ⟨instruction, isInstruction, rfl⟩ :=
      List.mem_map.mp (List.mem_of_mem_drop isNode)
    have steady :=
      Instruction.isSteady_of_valid (valid instruction isInstruction)
    exact .inr (Node.movesWithin_raw steady)
  next => cases matched

/-! ## Frames of recognized bodies -/

namespace Idiom

section Keeping

variable {image : Image} {body next : List Node} {node : Node}

/-- Collapsing keeps the nodes that are operations already. -/
theorem mem_of_collapseFamily
    {family : List Template}
    (member : node ∈ body)
    (isOp : node.op.isSome = true)
    (finished : (collapseFamily family image body).outcome = .ok next) :
    node ∈ next := by
  fun_induction collapseFamily family image body with
  | case1 body collapses fault events built => cases finished
  | case2 body collapses middle events built fewer rest hypothesis =>
      have kept := (collapsesGreedily_of_buildAll built).sublist.subset
        (List.mem_filter.mpr ⟨member, isOp⟩)
      exact hypothesis (List.mem_of_mem_filter kept) finished
  | case3 body done =>
      cases finished
      exact member

theorem mem_of_collapseAll
    (member : node ∈ body)
    (isOp : node.op.isSome = true)
    (finished : (collapseAll image body).outcome = .ok next) :
    node ∈ next := by
  unfold collapseAll at finished
  rw [Traced.outcome_foldlM] at finished
  have keeps : Delivers (families.foldlM
      (fun current family => (collapseFamily family image current).outcome)
      body)
      (fun reached => node ∈ reached) (fun _ => True) := by
    refine Delivers.foldlM member ?_
    intro current isCurrent family _
    exact delivers_of_outcome (fun reached ended =>
      mem_of_collapseFamily isCurrent isOp ended)
      (fun _ _ => trivial)
  exact keeps.of_ok finished

/-- The caching of registers keeps the first node. -/
theorem mem_of_registerCache
    {options : Options}
    (isHead : body.head? = some node)
    (finished : (registerCache options body).outcome = .ok next) :
    node ∈ next := by
  obtain ⟨later, rfl⟩ := List.head?_eq_some_iff.mp isHead
  simp only [registerCache] at finished
  split at finished
  next =>
    cases finished
    exact List.mem_cons_self
  next =>
    simp only [Traced.outcome_bind, Traced.outcome_note,
      Traced.outcome_ofExcept, Traced.outcome_pure, ok_bind] at finished
    obtain ⟨loading, -, same⟩ := bind_eq_ok_iff.mp finished
    cases same
    exact List.mem_append_left _ List.mem_cons_self

end Keeping

end Idiom

/--
A body with a frame: a node of it allocates the frame, and no other one moves
more bytes than there are but by releasing the frame again.
-/
structure HasFrame (frame : Nat) (body : List Node) : Prop where
  allocates : ∃ node ∈ body, node.op = some (.prologue frame)
  within : ∀ node ∈ body, node.op = some (.prologue frame) ∨ node.MovesWithin

theorem hasFrame_of_recognize
    {options : Options} {image : Image} {procedure frame : Nat}
    {body next : List Node}
    (starts : StartsWithFrame frame body)
    (finished : (Procedure.recognize options image procedure body).outcome =
      .ok next) :
    HasFrame frame next := by
  constructor
  · obtain ⟨node, isHead, isOp⟩ := Option.bind_eq_some_iff.mp starts.allocates
    -- The prologue comes first, where no register is cached yet, and is an
    -- operation already.
    simp only [Procedure.recognize, Traced.outcome_bind, Traced.outcome_emit,
      Traced.outcome_pure, ok_bind] at finished
    obtain ⟨cached, isCached, rest⟩ := bind_eq_ok_iff.mp finished
    obtain ⟨collapsed, isCollapsed, same⟩ := bind_eq_ok_iff.mp rest
    cases same
    exact ⟨node,
      Idiom.mem_of_collapseAll (Idiom.mem_of_registerCache isHead isCached)
        (by rw [isOp]; rfl) isCollapsed, isOp⟩
  · refine Procedure.forall_mem_of_recognize ?_ ?_ ?_ starts.within finished
    · intro family isFamily template isTemplate window op node recognized isOp
      exact .inr (Node.movesWithin_of_op isOp
        (Idiom.moveWithin_families family isFamily template isTemplate image
          window op recognized))
    · intro node cached isOp
      exact .inr (Node.movesWithin_of_op isOp (Nat.zero_le _))
    · rintro cached node (isPrologue | within)
      · refine .inl ?_
        simp only [Idiom.substituteNode, Node.raw?, isPrologue]
      · exact .inr (Idiom.movesWithin_substituteNode options cached within)

/-! ## Stack effects -/

namespace Node

/-- A frame and the word below it, as long as they fit a signed word. -/
theorem signedOr_own_frame {frame : Nat} (fits : FitsSigned frame) :
    signedOr .deltaOverflow (2 + signedReading frame) =
      if FitsSigned (2 + (frame : Int)) then .ok (2 + (frame : Int))
      else .error .deltaOverflow := by
  rw [signedReading_of_lt (by unfold FitsSigned at fits; omega)]
  rfl

/-- Only the release of a frame depends on its size. -/
theorem stackEffect_eq_of_not_epilogue
    {node : Node}
    (notEpilogue : node.op ≠ some .epilogue)
    (frame other : Nat) :
    node.stackEffect frame = node.stackEffect other := by
  obtain ⟨op, first, rest, delta, level, after⟩ := node
  cases op with
  | none => rfl
  | some op =>
      cases op with
      | epilogue => exact absurd rfl notEpilogue
      | blob width source direction content => cases direction <;> rfl
      | _ => rfl

theorem exists_modest_stackEffect
    {node : Node}
    (within : node.MovesWithin)
    (notEpilogue : node.op ≠ some .epilogue)
    (frame : Nat) :
    ∃ effect, node.stackEffect frame = .ok effect ∧ effect.IsModest := by
  rw [stackEffect_eq_of_not_epilogue notEpilogue frame 0]
  exact within.exists_stackEffect (Nat.zero_le _)

/--
The allocation of a frame has a stack effect exactly if its sum does not
overflow.
-/
theorem exists_stackEffect_iff_of_prologue
    {node : Node} {frame : Nat}
    (fits : FitsSigned frame)
    (allocates : node.op = some (.prologue frame))
    {effect : StackEffect} :
    node.stackEffect frame = .ok effect ↔
      FitsSigned (2 + (frame : Int)) ∧
      effect = .delta (-(2 + (frame : Int))) := by
  simp only [stackEffect, allocates, signedOr_own_frame fits]
  split
  next within => simp [within, eq_comm]
  next outgrown => simp [outgrown]

end Node

namespace HasFrame

variable {frame : Nat} {body : List Node}

/--
If the frame and the word below it fit a signed word, every node has a stack
effect.
-/
theorem exists_stackEffect
    (has : HasFrame frame body)
    (fits : FitsSigned frame)
    (sum : FitsSigned (2 + (frame : Int)))
    {node : Node}
    (member : node ∈ body) :
    ∃ effect, node.stackEffect frame = .ok effect := by
  rcases has.within node member with allocates | within
  · exact ⟨_, (Node.exists_stackEffect_iff_of_prologue fits allocates).mpr
      ⟨sum, rfl⟩⟩
  · by_cases releases : node.op = some .epilogue
    · refine ⟨.delta (2 + (frame : Int)), ?_⟩
      simp only [Node.stackEffect, releases, Node.signedOr_own_frame fits,
        if_pos sum]
      rfl
    · obtain ⟨effect, computed, -⟩ :=
        Node.exists_modest_stackEffect within releases frame
      exact ⟨effect, computed⟩

theorem exists_assigned
    (has : HasFrame frame body)
    (fits : FitsSigned frame)
    (sum : FitsSigned (2 + (frame : Int)))
    (procedure : Nat) :
    ∃ measured,
      (assignDeltas frame procedure body).outcome = .ok measured := by
  have each :
      ∀ node ∈ body, Delivers (node.assignDelta frame procedure).outcome
      (fun _ => True) (fun _ => False) := by
    intro node member
    obtain ⟨effect, computed⟩ := has.exists_stackEffect fits sum member
    simp only [Node.assignDelta, Traced.outcome_bind, Traced.outcome_ofExcept,
      computed, ok_bind]
    cases effect <;> trivial
  unfold assignDeltas
  rw [Traced.outcome_mapM]
  obtain ⟨measured, finished, -⟩ := (Delivers.mapM each).exists_ok
  exact ⟨measured, finished⟩

/--
Where stack effects have been assigned, one of them is that of the frame.
-/
theorem exists_of_assigned
    (has : HasFrame frame body)
    (fits : FitsSigned frame)
    {procedure : Nat} {measured : List Node}
    (finished : (assignDeltas frame procedure body).outcome = .ok measured) :
    FitsSigned (2 + (frame : Int)) ∧ ∃ node ∈ measured,
      node.stackDelta = -(2 + (frame : Int)) := by
  obtain ⟨node, member, allocates⟩ := has.allocates
  unfold assignDeltas at finished
  rw [Traced.outcome_mapM] at finished
  obtain ⟨after, isAfter, assigned⟩ :=
    exists_of_mem_left (mapM_eq_ok_iff.mp finished) member
  simp only [Node.assignDelta, Traced.outcome_bind, Traced.outcome_ofExcept]
    at assigned
  obtain ⟨effect, computed, rest⟩ := bind_eq_ok_iff.mp assigned
  obtain ⟨sum, rfl⟩ :=
    (Node.exists_stackEffect_iff_of_prologue fits allocates).mp computed
  cases rest
  exact ⟨sum, _, isAfter, rfl⟩

/--
With a frame that fits in the address space every node moves the stack within
it.
-/
theorem movesWithin
    (has : HasFrame frame body)
    (small : frame ≤ addressSpace) :
    ∀ node ∈ body, node.MovesWithin := by
  intro node member
  rcases has.within node member with allocates | within
  · exact Node.movesWithin_of_op allocates small
  · exact within

end HasFrame

/--
What the stack effects of a body come to, given the frame of its prologue.
-/
structure IsBoundedByFrame
    (frame procedure : Nat)
    (body : List Node) :
    Prop where
  allocates : ∃ node ∈ body, node.op = some (.prologue frame)
  /-- No other operation moves more bytes than there are. -/
  within : ∀ node ∈ body, ∀ op, node.op = some op → op ≠ .prologue frame →
    op.movedBytes ≤ addressSpace
  /--
  All stack effects are modest but those that allocate and release the frame.
  -/
  modest : ∀ node ∈ body, node.op ≠ some (.prologue frame) →
    node.op ≠ some .epilogue →
    ∃ effect, node.stackEffect frame = .ok effect ∧ effect.IsModest
  /-- There is no overflow but that of the frame and the word below it. -/
  finishes_iff :
    (∃ measured, (assignDeltas frame procedure body).outcome = .ok measured) ↔
    FitsSigned (2 + (frame : Int))
  overflows : ¬ FitsSigned (2 + (frame : Int)) →
    (assignDeltas frame procedure body).outcome = .error .deltaOverflow
  /--
  The stack effects are all modest exactly if the frame fits in the address
  space.
  -/
  modest_iff :
    (∃ measured, (assignDeltas frame procedure body).outcome = .ok measured ∧
      ∀ node ∈ measured, node.IsModest) ↔ frame ≤ addressSpace

theorem HasFrame.isBoundedByFrame
    {frame : Nat} {body : List Node}
    (has : HasFrame frame body)
    (fits : FitsSigned frame)
    (procedure : Nat) :
    IsBoundedByFrame frame procedure body where
  allocates := has.allocates
  within := by
    intro node member op isOp other
    rcases has.within node member with allocates | within
    · rw [isOp] at allocates
      exact absurd (Option.some.inj allocates) other
    · exact within.within op isOp
  modest := by
    intro node member notPrologue notEpilogue
    exact Node.exists_modest_stackEffect
      ((has.within node member).resolve_left notPrologue)
      notEpilogue frame
  finishes_iff := by
    constructor
    · rintro ⟨measured, finished⟩
      exact (has.exists_of_assigned fits finished).1
    · intro sum
      exact has.exists_assigned fits sum procedure
  overflows := by
    intro outgrown
    cases ended : (assignDeltas frame procedure body).outcome with
    | ok measured =>
        exact absurd (has.exists_of_assigned fits ended).1 outgrown
    | error fault =>
        rw [(delivers_assignDeltas frame procedure body).of_error ended]
  modest_iff := by
    constructor
    · rintro ⟨measured, finished, modest⟩
      obtain ⟨-, node, member, isDelta⟩ := has.exists_of_assigned fits finished
      have bound := modest node member
      unfold Node.IsModest movementBound at bound
      omega
    · intro small
      exact (delivers_modest_assignDeltas (has.movesWithin small) small
        procedure).exists_ok

/--
The stack effects of a body of code of a listing are bounded by its frame,
whatever image its idioms are recognized in.
-/
theorem assignDeltas_isBoundedByFrame
    {text : String} {lifted : Listing.Lifted}
    (isLifted : Listing.lift text = .ok lifted)
    {instructions : List Instruction}
    (coded :
      ∀ instruction ∈ instructions, ∃ address,
        lifted.image.code.get? address = some instruction)
    (abuts : Abutting Instruction.lo Instruction.hi instructions)
    (options : Options)
    (image : Image)
    {matched : List Node}
    (isMatched :
      Idiom.matchPrologue image (instructions.map Node.raw) =
        .ok (some matched))
    (procedure : Nat) :
    ∃ recognized,
      (Procedure.recognize options image procedure matched).outcome =
        .ok recognized ∧
        IsBoundedByFrame (Procedure.frameSizeOf matched) procedure
        recognized := by
  have readable : ∀ instruction ∈ instructions, instruction.IsReadable := by
    intro instruction member
    obtain ⟨address, found⟩ := coded instruction member
    exact Listing.isReadable_of_lift isLifted found
  have valid : ∀ instruction ∈ instructions, instruction.defect? = none := by
    intro instruction member
    obtain ⟨address, found⟩ := coded instruction member
    exact (Listing.isSoundCode_of_lift isLifted).valid address instruction
      found
  obtain ⟨frame, fits, starts⟩ :=
    Idiom.exists_frame_of_matchPrologue readable valid isMatched
  have filled : instructions.map Node.raw ≠ [] := by
    rintro isNil
    rw [isNil] at isMatched
    cases isMatched
  have sound : ∀ node ∈ instructions.map Node.raw, node.IsSound := by
    intro node member
    obtain ⟨instruction, -, rfl⟩ := List.mem_map.mp member
    exact Node.isSound_raw instruction
  have holds := (Idiom.delivers_matchPrologue image filled sound
    (by rwa [instructionsOf_map_raw])).of_ok isMatched matched rfl
  rw [instructionsOf_map_raw] at holds
  obtain ⟨recognized, isRecognized, -⟩ :=
    (Procedure.delivers_recognize options image procedure holds.sound
      (by rwa [holds.holds])).exists_ok
  have isFrame : Procedure.frameSizeOf matched = frame := by
    rw [Procedure.frameSizeOf, starts.allocates]
  rw [isFrame]
  exact ⟨recognized, isRecognized,
    (hasFrame_of_recognize starts isRecognized).isBoundedByFrame fits
    procedure⟩

/-- A procedure with a small frame. -/
def framedListing : String := "LISTING framed

CODE
1000 mov fp,-(sp)
1002 mov sp,fp
1004 sub #4,sp
1008 cmp sp,@#0x2100
100c bhi 0x1012
100e sev
1010 trap
1012 mov #1,-(sp)
1016 mov fp,sp
1018 mov (sp)+,fp
101a rts pc
"

theorem assignDeltas_isBoundedByFrame_framedListing :
    ∃ lifted matched recognized, Listing.lift framedListing = .ok lifted ∧
      Abutting Instruction.lo Instruction.hi lifted.image.code.values ∧
      Idiom.matchPrologue lifted.image
        (lifted.image.code.values.map Node.raw) =
        .ok (some matched) ∧
      (Procedure.recognize {} lifted.image 0x1000 matched).outcome =
        .ok recognized ∧
      recognized.map Node.op =
        [some (.prologue 4), some (.constantPush .word 1), some .epilogue] ∧
      IsBoundedByFrame 4 0x1000 recognized := by
  have works : (Listing.lift framedListing).toOption.bind (fun lifted =>
      (Idiom.matchPrologue lifted.image
        (lifted.image.code.values.map Node.raw)).toOption.join.bind
        (fun matched =>
          ((Procedure.recognize {} lifted.image 0x1000
            matched).outcome.toOption).map
            (fun recognized =>
              (decide (Abutting Instruction.lo Instruction.hi
                lifted.image.code.values), Procedure.frameSizeOf matched,
                recognized.map Node.op)))) =
      some (true, 4,
        [some (.prologue 4),
          some (.constantPush .word 1), some .epilogue]) := by
    decide +kernel
  obtain ⟨lifted, isLifted, works⟩ := Option.bind_eq_some_iff.mp works
  obtain ⟨matched, isMatched, works⟩ := Option.bind_eq_some_iff.mp works
  obtain ⟨recognized, isRecognized, views⟩ := Option.map_eq_some_iff.mp works
  simp only [Prod.mk.injEq, decide_eq_true_eq] at views
  obtain ⟨abuts, isFrame, ops⟩ := views
  have isLifted := eq_ok_of_toOption isLifted
  have isMatched := eq_ok_of_toOption (Option.join_eq_some_iff.mp isMatched)
  have coded : ∀ instruction ∈ lifted.image.code.values,
      ∃ address, lifted.image.code.get? address = some instruction :=
    fun instruction member => Table.mem_values_iff.mp member
  obtain ⟨again, isAgain, bounded⟩ :=
    assignDeltas_isBoundedByFrame isLifted coded abuts {} lifted.image
      isMatched 0x1000
  have isRecognized := eq_ok_of_toOption isRecognized
  cases isRecognized.symm.trans isAgain
  rw [isFrame] at bounded
  exact ⟨lifted, matched, recognized, isLifted, abuts, isMatched, isRecognized,
    ops, bounded⟩

/-- A procedure whose frame is larger than the address space. -/
def outsizedListing : String := "LISTING outsized

CODE
1000 mov fp,-(sp)
1002 mov sp,fp
1004 sub #70000,sp
1008 cmp sp,@#0x2100
100c bhi 0x1012
100e sev
1010 trap
1012 rts pc
"

/--
The prologue is recognized, and its stack effect is larger than the address
space.
-/
theorem not_modest_outsizedListing :
    ∃ lifted matched recognized measured,
      Listing.lift outsizedListing = .ok lifted ∧
      Idiom.matchPrologue lifted.image
        (lifted.image.code.values.map Node.raw) =
        .ok (some matched) ∧
      (Procedure.recognize {} lifted.image 0x1000 matched).outcome =
        .ok recognized ∧
      (assignDeltas (Procedure.frameSizeOf matched) 0x1000
        recognized).outcome = .ok measured ∧
      measured.map Node.stackDelta = [-70002, 0] ∧ ¬ ∀ node ∈ measured,
        node.IsModest := by
  have works : (Listing.lift outsizedListing).toOption.bind (fun lifted =>
      (Idiom.matchPrologue lifted.image
        (lifted.image.code.values.map Node.raw)).toOption.join.bind
        (fun matched =>
          ((Procedure.recognize {} lifted.image 0x1000
            matched).outcome.toOption).bind
            (fun recognized =>
              (assignDeltas (Procedure.frameSizeOf matched) 0x1000
              recognized).outcome.toOption.map
              (fun measured => measured.map Node.stackDelta)))) =
      some [-70002, 0] := by
    decide +kernel
  obtain ⟨lifted, isLifted, works⟩ := Option.bind_eq_some_iff.mp works
  obtain ⟨matched, isMatched, works⟩ := Option.bind_eq_some_iff.mp works
  obtain ⟨recognized, isRecognized, works⟩ := Option.bind_eq_some_iff.mp works
  obtain ⟨measured, isMeasured, deltas⟩ := Option.map_eq_some_iff.mp works
  refine ⟨lifted, matched, recognized, measured, eq_ok_of_toOption isLifted,
    eq_ok_of_toOption (Option.join_eq_some_iff.mp isMatched),
    eq_ok_of_toOption isRecognized,
    eq_ok_of_toOption isMeasured, deltas, ?_⟩
  intro modest
  have outsized : (-70002 : Int) ∈ measured.map Node.stackDelta := by
    rw [deltas]
    exact List.mem_cons_self
  obtain ⟨node, member, isDelta⟩ := List.mem_map.mp outsized
  have bound := modest node member
  unfold Node.IsModest movementBound addressSpace at bound
  omega

end ProcRecovery
