import ProcRecovery.Proofs.Idiom.Recognition
import ProcRecovery.Proofs.Procedure.Stages

/-!
# Operations of a procedure

Every operation in the body of an analyzed procedure was recognized by a
template, or it stands for the loads of cached registers.  Nothing after
recognition adds, removes or changes an operation, so what all templates
promise of their operations holds of the procedure.  In particular the texts
and bytes that operations hold were read from the image.
-/

namespace ProcRecovery

/-! ## Recognized operations -/

/--
A template of some kind recognizes the operation in a window of an image, or
the operation stands for the loads of cached registers.
-/
def PseudoOp.IsRecognizedIn (image : Image) (op : PseudoOp) : Prop :=
  (∃ cached, op = .registerCache cached) ∨
    ∃ template window, (template ∈ Idiom.prologues ∨ ∃ family ∈ Idiom.families,
      template ∈ family) ∧
      template.recognize image window = some op

/-- The operation of a node, if it has one, was recognized. -/
def Node.IsRecognizedIn (image : Image) (node : Node) : Prop :=
  ∀ op, node.op = some op → op.IsRecognizedIn image

theorem Node.isRecognizedIn_raw (image : Image) (instruction : Instruction) :
    (Node.raw instruction).IsRecognizedIn image := by
  intro op isOp
  cases isOp

/-- A prologue is recognized in front of the other nodes. -/
theorem Idiom.isRecognizedIn_of_matchPrologue
    {image : Image} {body next : List Node}
    (each : ∀ node ∈ body, node.IsRecognizedIn image)
    (matched : matchPrologue image body = .ok (some next)) :
    ∀ node ∈ next, node.IsRecognizedIn image := by
  unfold matchPrologue at matched
  split at matched
  next template op found =>
    rcases bind_eq_ok_iff.mp matched with ⟨single, isSingle, same⟩
    cases same
    rcases exists_window_of_firstMatch? found with ⟨member, window, recognized⟩
    rw [List.forall_mem_cons]
    constructor
    · intro other isOther
      rw [Node.op_of_wrap isSingle] at isOther
      cases isOther
      exact .inr ⟨template, window, .inl member, recognized⟩
    · exact fun node isNode => each node (List.mem_of_mem_drop isNode)
  next => cases matched

/-! ## What operations hold -/

/-- The text or the bytes that an operation holds were read from the image. -/
def PseudoOp.IsReadFrom (image : Image) : PseudoOp → Prop
  | .stringLiteral source width (.known text) =>
    (image.read source width).map Text.ofBytes = .ok text
  | .blob width source _ (.known bytes) =>
    ∃ address, source = some address ∧ image.read address width = .ok bytes
  | _ => True

namespace Idiom

section Reading

variable {image : Image} {window : List Instruction} {op : PseudoOp}

/-- What a loop pushes from a fixed address is read from the image there. -/
theorem IsLoop.isReadFrom (isLoop : IsLoop image window op) :
    op.IsReadFrom image := by
  cases isLoop with
  | @text _ _ _ _ _ _ stop _ width =>
      cases isRead : image.read (stop.toNat - width) width with
      | ok bytes =>
          simp [PseudoOp.IsReadFrom, Resolution.ofOption, Except.toOption,
            isRead, Except.map]
      | error read =>
          simp [PseudoOp.IsReadFrom, Resolution.ofOption, Except.toOption]
  | @literal _ _ _ _ _ address _ width =>
      cases isRead : image.read address.toNat width with
      | ok bytes =>
          simp [PseudoOp.IsReadFrom, Resolution.ofOption, Except.toOption,
            isRead]
      | error read =>
          simp [PseudoOp.IsReadFrom, Resolution.ofOption, Except.toOption]
  | push => trivial
  | pop => trivial
  | copy => trivial

/--
Two templates recognize operations that hold something, and both read it from
the image.
-/
theorem isReadFrom_of_mem_families
    {family : List Template}
    (isFamily : family ∈ families)
    {template : Template}
    (isTemplate : template ∈ family)
    (recognized : template.recognize image window = some op) :
    op.IsReadFrom image := by
  simp only [families, List.mem_cons, List.not_mem_nil, or_false] at isFamily
  rcases isFamily with rfl | rfl | rfl | rfl
  · simp only [leavingFamily, List.mem_cons, List.not_mem_nil, or_false]
      at isTemplate
    rcases isTemplate with rfl | rfl
    · simp only [epilogue] at recognized
      grind [PseudoOp.IsReadFrom]
    · simp only [bailout] at recognized
      grind [PseudoOp.IsReadFrom]
  · simp only [checkingFamily, List.mem_cons, List.not_mem_nil, or_false]
      at isTemplate
    rcases isTemplate with rfl | rfl | rfl
    · simp only [stackCheck] at recognized
      grind [PseudoOp.IsReadFrom]
    · simp only [checkedBranch] at recognized
      grind [PseudoOp.IsReadFrom]
    · simp only [checkedStep] at recognized
      grind [PseudoOp.IsReadFrom]
  · exact (isLoop_of_recognize isTemplate recognized).isReadFrom
  · simp only [stackFamily, List.mem_cons, List.not_mem_nil, or_false]
      at isTemplate
    rcases isTemplate with rfl | rfl | rfl | rfl | rfl | rfl | rfl
    · rcases Option.map_eq_some_iff.mp recognized with ⟨distance, -, rfl⟩
      trivial
    · rcases Option.map_eq_some_iff.mp recognized with ⟨distance, -, rfl⟩
      trivial
    · rcases Option.map_eq_some_iff.mp recognized with ⟨distance, -, rfl⟩
      trivial
    · rcases Option.map_eq_some_iff.mp recognized with ⟨distance, -, rfl⟩
      trivial
    · simp only [constantPush] at recognized
      grind [PseudoOp.IsReadFrom]
    · simp only [stackAdjust, Option.bind_eq_bind] at recognized
      grind [PseudoOp.IsReadFrom, Option.bind_eq_some_iff]
    · simp only [call] at recognized
      grind [PseudoOp.IsReadFrom]

theorem isReadFrom_of_mem_prologues
    {template : Template}
    (isTemplate : template ∈ prologues)
    (recognized : template.recognize image window = some op) :
    op.IsReadFrom image := by
  simp only [prologues, List.mem_cons, List.not_mem_nil, or_false]
    at isTemplate
  rcases isTemplate with rfl | rfl
  · simp only [prologueWithLocals] at recognized
    grind [PseudoOp.IsReadFrom]
  · simp only [prologue] at recognized
    grind [PseudoOp.IsReadFrom]

end Reading

end Idiom

theorem PseudoOp.IsRecognizedIn.isReadFrom
    {image : Image} {op : PseudoOp}
    (recognized : op.IsRecognizedIn image) :
    op.IsReadFrom image := by
  rcases recognized with
    ⟨cached, rfl⟩ | ⟨template, window,
      isPrologue | ⟨family, isFamily, isTemplate⟩, matched⟩
  · trivial
  · exact Idiom.isReadFrom_of_mem_prologues isPrologue matched
  · exact Idiom.isReadFrom_of_mem_families isFamily isTemplate matched

/-! ## From recognition to the end of the analysis -/

namespace Procedure

theorem isRecognizedIn_of_recognize
    {options : Options} {image : Image} {procedure : Nat}
    {body next : List Node}
    (each : ∀ node ∈ body, node.IsRecognizedIn image)
    (finished : (recognize options image procedure body).outcome = .ok next) :
    ∀ node ∈ next, node.IsRecognizedIn image := by
  refine forall_mem_of_recognize ?_ ?_ ?_ each finished
  · intro family isFamily template isTemplate window op node recognized isOp
      other isOther
    rw [isOp] at isOther
    cases isOther
    exact .inr ⟨template, window, .inr ⟨family, isFamily, isTemplate⟩,
      recognized⟩
  · intro node cached isOp other isOther
    rw [isOp] at isOther
    cases isOther
    exact .inl ⟨cached, rfl⟩
  · intro cached node recognized
    unfold Idiom.substituteNode
    split
    next =>
      split
      next => exact Node.isRecognizedIn_raw image _
      next => exact recognized
    next => exact recognized

/-- The stages after recognition leave all operations as they are. -/
theorem Stages.isRecognizedIn
    {options : Options} {image : Image} {procedure analyzed : Procedure}
    {body : List Node} {events : List Event}
    (stages : Stages options image procedure body events analyzed)
    (each : ∀ node ∈ body, node.IsRecognizedIn image) :
    ∀ node ∈ stages.replayed.body, node.IsRecognizedIn image := by
  have recognized := isRecognizedIn_of_recognize each stages.recognizes
  have measured : ∀ node ∈ stages.measured, node.IsRecognizedIn image := by
    intro node member
    rcases exists_of_mem_right
      ((delivers_assignDeltas _ _ _).of_ok stages.measures) member with
      ⟨original, isOriginal, assigned⟩
    rw [assigned.same]
    exact recognized original isOriginal
  have sameLeveled := Graph.unleveled_of_annotateLevels stages.levels
  have leveled :=
    forall_mem_of_map_eq sameLeveled.symm (fun _ => Iff.rfl) measured
  have sameReplayed := map_unstacked_of_replayBlocks stages.replays
  exact forall_mem_of_map_eq sameReplayed.symm (fun _ => Iff.rfl) leveled

/--
Before the analysis there are no operations, and a prologue is recognized
first.
-/
theorem IsPendingOn.isRecognizedIn_of_matchPrologue
    {image : Image} {procedure : Procedure} {instructions : List Instruction}
    {body : List Node}
    (pending : procedure.IsPendingOn instructions)
    (matched : Idiom.matchPrologue image procedure.body = .ok (some body)) :
    ∀ node ∈ body, node.IsRecognizedIn image := by
  apply Idiom.isRecognizedIn_of_matchPrologue _ matched
  intro node member
  rw [pending.body_eq] at member
  rcases List.mem_map.mp member with ⟨instruction, -, rfl⟩
  exact Node.isRecognizedIn_raw image instruction

/-- All operations of an analyzed procedure were recognized. -/
theorem isRecognizedIn_of_analyze
    {options : Options} {image : Image} {procedure analyzed : Procedure}
    {instructions : List Instruction} {events : List Event}
    (pending : procedure.IsPendingOn instructions)
    (finished : (procedure.analyze options image).Finishes events analyzed)
    (isAnalyzed : analyzed.progress = .analyzed) :
    ∀ node ∈ analyzed.body, node.IsRecognizedIn image := by
  rcases analyze_cases pending.progress_eq finished with
    ⟨rfl, -⟩ | ⟨body, later, matched, -, ⟨stages⟩⟩
  · cases isAnalyzed
  · rw [stages.analyzed_eq]
    exact stages.isRecognizedIn
      (pending.isRecognizedIn_of_matchPrologue matched)

end Procedure

end ProcRecovery
