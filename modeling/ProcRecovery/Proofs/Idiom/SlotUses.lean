import ProcRecovery.Proofs.FrameSlot
import ProcRecovery.Proofs.Idiom.Containment
import ProcRecovery.Proofs.Idiom.Loops
import ProcRecovery.Proofs.Idiom.NormalForm

/-!
# Frame slots of collapsed bodies

A collapsed node owns the instructions of its window, and they use the same
frame slots as before.  The one exception is a push of the frame pointer
followed by an addition to what has been pushed.  Neither of the two
instructions uses a slot, but the node they become stands for the address of
one.

So a body is read with these pairs taken as the references that they compute.
No other idiom has a push of the frame pointer in its window or starts with an
addition to the top of the stack, so collapsing never tears a pair apart and
never makes a new one, and a body reads the same before and after.  In the end
there are no pairs left, and what is read are the uses of the nodes.
-/

namespace ProcRecovery

/-! ## Uses -/

namespace Instruction

theorem Pushes.slotUses_eq_nil
    {push : Instruction} {register : Register}
    (pushes : push.Pushes register) :
    push.slotUses = [] := by
  simp [slotUses, pushes.2.2, operandUses]

theorem AddsToTop.slotUses_eq_nil {add : Instruction} (adds : add.AddsToTop) :
    add.slotUses = [] := by
  obtain ⟨-, -, literal, operands⟩ := adds
  simp [slotUses, operands, operandUses]

theorem slotUses_of_lea
    {push : Instruction} {offset : Int}
    (isLea : push.mnemonic = .lea)
    (operands : push.operands = [.indexed offset .fp, .autoDecrement .sp]) :
    push.slotUses = [(offset, .addressTaken push.lo)] := by
  simp [slotUses, operands, operandUses, isLea]

theorem load?_apart
    {load : Instruction} {loaded : Int × Register}
    (loads : load.load? = some loaded) :
    ¬ load.Pushes .fp ∧ ¬ load.AddsToTop := by
  obtain ⟨moves, operands, -⟩ := load?_eq_some loads
  simp [Pushes, AddsToTop, moves, operands]

end Instruction

namespace Idiom

/-! ## Windows -/

/--
A window neither holds a push of the frame pointer nor starts with an addition
to the top of the stack, and what it stands for is at most the effective
address of a slot.
-/
structure SparesPairs (window : List Instruction) (op : PseudoOp) : Prop where
  noPush : ∀ instruction ∈ window, ¬ instruction.Pushes .fp
  noAddition : ∀ first ∈ window.head?, ¬ first.AddsToTop
  effective : ∀ offset, op = .frameReference offset →
    effectiveReference? .fp window = some offset

theorem SparesPairs.cons
    {window : List Instruction} {op : PseudoOp} {load : Instruction}
    {loaded : Int × Register}
    (spares : SparesPairs window op)
    (other : ∀ offset, op ≠ .frameReference offset)
    (loads : load.load? = some loaded) :
    SparesPairs (load :: window) op where
  noPush :=
    List.forall_mem_cons.mpr ⟨(Instruction.load?_apart loads).1, spares.noPush⟩
  noAddition := by simpa using (Instruction.load?_apart loads).2
  effective := fun offset same => absurd same (other offset)

theorem sparesPairs_of_loop
    {load move step : Instruction} {loop : CountedLoop}
    (isLoop : CountedLoop.ofInstructions? load move step = some loop)
    {op : PseudoOp}
    (other : ∀ offset, op ≠ .frameReference offset)
    (source : loop.source ≠ .register .fp)
    {back : List Instruction}
    (noPush : ∀ instruction ∈ back, ¬ instruction.Pushes .fp) :
    SparesPairs (load :: move :: step :: back) op := by
  have made := CountedLoop.isMadeOf_of_ofInstructions? isLoop
  refine ⟨?_, ?_, fun offset same => absurd same (other offset)⟩
  · simp only [List.forall_mem_cons]
    refine ⟨?_, ?_, ?_, noPush⟩
    · simp [Instruction.Pushes, made.loaded]
    · simp [Instruction.Pushes, made.moved, source]
    · simp [Instruction.Pushes, made.loops]
  · simp [Instruction.AddsToTop, made.loads]

/-- No loop moves the frame pointer, and no loop adds anything. -/
theorem IsLoop.sparesPairs
    {image : Image} {window : List Instruction} {op : PseudoOp}
    (isLoop : IsLoop image window op) : SparesPairs window op := by
  have other : ∀ offset, op ≠ .frameReference offset := by
    rintro offset rfl
    cases isLoop
  have noneBehind : ∀ instruction ∈ ([] : List Instruction),
      ¬ instruction.Pushes .fp := by simp
  cases isLoop with
  | @text _ _ _ _ last _ _ _ _ isBase isLoop _ source _ _ _ lastOperands =>
      have moved := (CountedLoop.isMadeOf_of_ofInstructions? isLoop).moved
      have noPush : ∀ instruction ∈ [last], ¬ instruction.Pushes .fp := by
        simp [Instruction.Pushes, lastOperands, moved, source]
      have spares := sparesPairs_of_loop isLoop other (by simp [source]) noPush
      exact spares.cons other isBase
  | literal isBase isLoop source =>
      have spares :=
        sparesPairs_of_loop isLoop other (by simp [source]) noneBehind
      exact spares.cons other isBase
  | push isLoop source =>
      exact sparesPairs_of_loop isLoop other (by simp [source]) noneBehind
  | pop isLoop source =>
      exact sparesPairs_of_loop isLoop other (by simp [source]) noneBehind
  | copy isLoop source =>
      exact sparesPairs_of_loop isLoop other (by simp [source]) noneBehind

theorem sparesPairs_of_effectiveReference?
    {base : Register} {window : List Instruction} {op : PseudoOp}
    {distance : Int}
    (isLea : effectiveReference? base window = some distance)
    (effective : ∀ offset, op = .frameReference offset →
      effectiveReference? .fp window = some offset) :
    SparesPairs window op := by
  obtain ⟨push, rfl, isLea, -⟩ := effectiveReference?_eq_some isLea
  refine ⟨?_, ?_, effective⟩
  · simp [Instruction.Pushes, isLea]
  · simp [Instruction.AddsToTop, isLea]

section Templates

variable {template : Template} {image : Image} {window : List Instruction}
  {op : PseudoOp}

theorem sparesPairs_of_leaving
    (member : template ∈ leavingFamily)
    (recognized : template.recognize image window = some op) :
    SparesPairs window op := by
  simp only [leavingFamily, List.mem_cons, List.not_mem_nil, or_false]
    at member
  rcases member with rfl | rfl
  · simp only [epilogue] at recognized
    constructor <;> grind [Instruction.Pushes, Instruction.AddsToTop]
  · simp only [bailout, Instruction.move?] at recognized
    constructor <;> grind [Instruction.Pushes, Instruction.AddsToTop]

theorem sparesPairs_of_checking
    (member : template ∈ checkingFamily)
    (recognized : template.recognize image window = some op) :
    SparesPairs window op := by
  simp only [checkingFamily, List.mem_cons, List.not_mem_nil, or_false]
    at member
  rcases member with rfl | rfl | rfl
  · simp only [stackCheck, isStackCheck] at recognized
    constructor <;> grind [Instruction.Pushes, Instruction.AddsToTop]
  · simp only [checkedBranch, Instruction.isBranch] at recognized
    constructor <;> grind [Instruction.Pushes, Instruction.AddsToTop]
  · simp only [checkedStep] at recognized
    constructor <;> grind [Instruction.Pushes, Instruction.AddsToTop]

/--
A family spares pairs unless it collapses them into the references that they
compute.
-/
theorem spares_or_computes_of_stack
    (member : template ∈ stackFamily)
    (recognized : template.recognize image window = some op) :
    SparesPairs window op ∨
      ∃ offset, op = .frameReference offset ∧
        computedReference? .fp window = some offset := by
  simp only [stackFamily, List.mem_cons, List.not_mem_nil, or_false] at member
  rcases member with rfl | rfl | rfl | rfl | rfl | rfl | rfl
  · obtain ⟨offset, computed, rfl⟩ := Option.map_eq_some_iff.mp recognized
    exact .inr ⟨offset, rfl, computed⟩
  · left
    obtain ⟨offset, computed, rfl⟩ := Option.map_eq_some_iff.mp recognized
    obtain ⟨push, add, rfl, pushes, adds⟩ :=
      computedReference?_eq_some computed
    refine ⟨?_, ?_, fun other same => by cases same⟩
    · simp [Instruction.Pushes, pushes.2.2, adds.1, Register.fp, Register.sp]
    · simp [Instruction.AddsToTop, pushes.1]
  · left
    obtain ⟨offset, effective, rfl⟩ := Option.map_eq_some_iff.mp recognized
    exact sparesPairs_of_effectiveReference? effective (fun other same => by
      cases same
      exact effective)
  · left
    obtain ⟨offset, effective, rfl⟩ := Option.map_eq_some_iff.mp recognized
    exact sparesPairs_of_effectiveReference? effective (fun other same =>
      by cases same)
  · left
    simp only [constantPush] at recognized
    constructor <;> grind [Instruction.Pushes, Instruction.AddsToTop]
  · left
    simp only [stackAdjust, adjustment?] at recognized
    constructor <;> grind [Instruction.Pushes, Instruction.AddsToTop]
  · left
    simp only [call] at recognized
    constructor <;> grind [Instruction.Pushes, Instruction.AddsToTop]

/--
An idiom spares pairs, or is a pair and stands for the reference that it
computes.
-/
theorem spares_or_computes
    {family : List Template}
    (isFamily : family ∈ families)
    (member : template ∈ family)
    (recognized : template.recognize image window = some op) :
    SparesPairs window op ∨
      ∃ offset, op = .frameReference offset ∧
        computedReference? .fp window = some offset := by
  simp only [families, List.mem_cons, List.not_mem_nil, or_false] at isFamily
  rcases isFamily with rfl | rfl | rfl | rfl
  · exact .inl (sparesPairs_of_leaving member recognized)
  · exact .inl (sparesPairs_of_checking member recognized)
  · exact .inl (isLoop_of_recognize member recognized).sparesPairs
  · exact spares_or_computes_of_stack member recognized

/-- No idiom starts in the middle of a pair. -/
theorem not_addsToTop_of_recognize
    {family : List Template}
    (isFamily : family ∈ families)
    (member : template ∈ family)
    (recognized : template.recognize image window = some op) :
    ∀ first ∈ window.head?, ¬ first.AddsToTop := by
  rcases spares_or_computes isFamily member recognized with
    spares | ⟨offset, -, computed⟩
  · exact spares.noAddition
  · obtain ⟨push, add, rfl, pushes, -⟩ := computedReference?_eq_some computed
    simp [Instruction.AddsToTop, pushes.1]

end Templates

/-! ## Readings -/

/--
The distance from the frame pointer to the slot whose address the first two
nodes of a body compute.
-/
def computedOffset? : List Node → Option Int
  | push :: add :: _ => do computedReference? .fp [← push.raw?, ← add.raw?]
  | _ => none

/--
What is seen of a body when each of its nodes is seen on its own, apart from
those that start the computation of an address: they are seen as the offset and
the place of a reference.
-/
def readings
    {α : Type}
    (view : Node → List α)
    (reference : Int → Nat → α) :
    List Node → List α
  | [] => []
  | node :: later =>
    match computedOffset? (node :: later) with
    | some offset => reference offset node.lo :: readings view reference later
    | none => view node ++ readings view reference later

/--
The uses of frame slots by a body whose computed addresses are references
already.
-/
def slotReadings : List Node → List (Int × SlotUse) :=
  readings Node.slotUses (fun offset site => (offset, .addressTaken site))

/-- The offsets and places of the addresses that a body computes. -/
def computedReferences : List Node → List (Int × Nat) :=
  readings (fun _ => []) Prod.mk

/-- The reference that a node stands for, if its instructions compute it. -/
def computedBy (node : Node) : List (Int × Nat) :=
  match node.op with
  | some (.frameReference offset) =>
    if computedReference? .fp node.instructions = some offset
      then [(offset, node.lo)] else []
  | _ => []

theorem eq_of_mem_computedBy
    {node : Node} {reference : Int × Nat}
    (member : reference ∈ computedBy node) :
    node.op = some (.frameReference reference.1) ∧ node.lo = reference.2 ∧
      computedReference? .fp node.instructions = some reference.1 := by
  unfold computedBy at member
  split at member
  next offset isOp =>
    split at member
    next computed =>
      rw [List.mem_singleton.mp member]
      exact ⟨isOp, rfl, computed⟩
    next => cases member
  next => cases member

/--
Collapsing does not change what is seen of a node: nothing is seen of an
addition to the top of the stack, a reference that has been computed is seen as
one, and what stands for other nodes is seen as they are.
-/
structure Follows
    {α : Type}
    (view : Node → List α)
    (reference : Int → Nat → α) :
    Prop where
  addition : ∀ node : Node, node.op = none → node.rest = [] →
    node.first.AddsToTop → view node = []
  computed : ∀ (node : Node) (offset : Int),
    node.op = some (.frameReference offset) →
    computedReference? .fp node.instructions = some offset →
    view node = [reference offset node.lo]
  spared : ∀ (node : Node) (op : PseudoOp) (window : List Node),
    node.op = some op →
    node.instructions = instructionsOf window →
    (∀ other ∈ window, other.op = none) →
    SparesPairs (instructionsOf window) op → view node = window.flatMap view

end Idiom

theorem Node.slotUses_of_op_none {node : Node} (isRaw : node.op = none) :
    node.slotUses = node.instructions.flatMap Instruction.slotUses := by
  unfold slotUses
  rw [isRaw]

theorem flatMap_slotUses_of_op_none
    {nodes : List Node}
    (areRaw : ∀ node ∈ nodes, node.op = none) :
    nodes.flatMap Node.slotUses =
      (instructionsOf nodes).flatMap Instruction.slotUses := by
  rw [instructionsOf, List.flatMap_assoc]
  exact List.flatMap_congr (fun node member =>
    Node.slotUses_of_op_none (areRaw node member))

namespace Idiom

theorem follows_slotUses :
    Follows Node.slotUses (fun offset site =>
      (offset, SlotUse.addressTaken site)) where
  addition := by
    intro node isRaw plain adds
    rw [Node.slotUses_of_op_none isRaw, Node.instructions, plain,
      List.flatMap_cons, adds.slotUses_eq_nil]
    rfl
  computed := by
    intro node offset isOp _
    rw [Node.slotUses, isOp]
  spared := by
    intro node op window isOp owns areRaw spares
    rw [flatMap_slotUses_of_op_none areRaw, ← owns, Node.slotUses, isOp]
    split
    next offset same =>
      cases same
      obtain ⟨push, isPush, isLea, operands⟩ :=
        effectiveReference?_eq_some (spares.effective offset rfl)
      have starts : node.lo = push.lo := by
        have heads := congrArg List.head? (owns.trans isPush)
        exact congrArg Instruction.lo (Option.some.inj heads)
      rw [owns, isPush, List.flatMap_singleton,
        Instruction.slotUses_of_lea isLea operands, starts]
    next => rfl

theorem follows_computedBy : Follows computedBy Prod.mk where
  addition := by
    intro node isRaw _ _
    rw [computedBy, isRaw]
  computed := by
    intro node offset isOp computed
    rw [computedBy, isOp]
    exact if_pos computed
  spared := by
    intro node op window isOp owns areRaw spares
    have nothing : window.flatMap computedBy = [] := by
      rw [List.flatMap_eq_nil_iff]
      intro other member
      rw [computedBy, areRaw other member]
    rw [nothing, computedBy, isOp]
    split
    next offset same =>
      cases same
      obtain ⟨push, isPush, -⟩ :=
        effectiveReference?_eq_some (spares.effective offset rfl)
      rw [owns, isPush]
      rfl
    next => rfl

/--
The nodes that compute an address are two machine instructions at the start of
a body.
-/
theorem computedOffset?_eq_some
    {body : List Node} {offset : Int}
    (computed : computedOffset? body = some offset) :
    ∃ push add later, body = push :: add :: later ∧ push.op = none ∧
      add.op = none ∧
      computedReference? .fp [push.first, add.first] = some offset := by
  unfold computedOffset? at computed
  split at computed
  next push add later =>
    simp only [Option.bind_eq_bind, Option.bind_eq_some_iff] at computed
    obtain ⟨first, isFirst, second, isSecond, computed⟩ := computed
    obtain ⟨pushRaw, rfl⟩ := Node.raw?_eq_some_iff.mp isFirst
    obtain ⟨addRaw, rfl⟩ := Node.raw?_eq_some_iff.mp isSecond
    exact ⟨push, add, later, rfl, pushRaw, addRaw, computed⟩
  next => cases computed

theorem computedOffset?_of_noPush
    {node : Node}
    (noPush : node.op = none → ¬ node.first.Pushes .fp)
    (later : List Node) :
    computedOffset? (node :: later) = none := by
  rw [Option.eq_none_iff_forall_ne_some]
  intro offset computed
  obtain ⟨push, add, others, same, pushRaw, -, computed⟩ :=
    computedOffset?_eq_some computed
  obtain ⟨first, second, window, pushes, -⟩ :=
    computedReference?_eq_some computed
  cases same
  cases window
  exact noPush pushRaw pushes

theorem computedOffset?_of_noAddition
    {second : Node}
    (noAddition : second.op = none → ¬ second.first.AddsToTop)
    (node : Node)
    (later : List Node) :
    computedOffset? (node :: second :: later) = none := by
  rw [Option.eq_none_iff_forall_ne_some]
  intro offset computed
  obtain ⟨push, add, others, same, -, addRaw, computed⟩ :=
    computedOffset?_eq_some computed
  obtain ⟨first, last, window, -, adds⟩ := computedReference?_eq_some computed
  cases same
  cases window
  exact noAddition addRaw adds

section Readings

variable {α : Type} {view : Node → List α} {reference : Int → Nat → α}

theorem readings_cons_of_none
    {node : Node} {later : List Node}
    (isNone : computedOffset? (node :: later) = none) :
    readings view reference (node :: later) =
      view node ++ readings view reference later := by
  rw [readings, isNone]

theorem readings_cons_of_some
    {node : Node} {later : List Node} {offset : Int}
    (computed : computedOffset? (node :: later) = some offset) :
    readings view reference (node :: later) =
      reference offset node.lo :: readings view reference later := by
  rw [readings, computed]

/-- Nodes without a push of the frame pointer are seen on their own. -/
theorem readings_append_of_noPush
    {window : List Node}
    (noPush : ∀ node ∈ window, ¬ node.first.Pushes .fp)
    (later : List Node) :
    readings view reference (window ++ later) =
      window.flatMap view ++ readings view reference later := by
  induction window with
  | nil => rfl
  | cons node others hypothesis =>
      rw [List.forall_mem_cons] at noPush
      rw [List.cons_append,
        readings_cons_of_none
        (computedOffset?_of_noPush (fun _ => noPush.1) _),
        hypothesis noPush.2, List.flatMap_cons, List.append_assoc]

/-- Without computed addresses all nodes are seen on their own. -/
theorem readings_eq_flatMap
    {body : List Node}
    (noPair : ∀ earlier later, body = earlier ++ later →
      computedOffset? later = none) :
    readings view reference body = body.flatMap view := by
  induction body with
  | nil => rfl
  | cons node later hypothesis =>
      have others := hypothesis (fun earlier rest divided =>
        noPair (node :: earlier) rest (congrArg (node :: ·) divided))
      rw [readings_cons_of_none (noPair [] _ rfl), List.flatMap_cons, others]

/-- A pair is seen as the reference that it computes, and nothing else. -/
theorem readings_of_pair
    (follows : Follows view reference)
    {push add : Node}
    (pushRaw : push.op = none)
    (addRaw : add.op = none)
    (plain : add.rest = [])
    {offset : Int}
    (computed : computedReference? .fp [push.first, add.first] = some offset)
    (later : List Node) :
    readings view reference (push :: add :: later) =
      reference offset push.lo :: readings view reference later := by
  obtain ⟨first, second, window, pushes, adds⟩ :=
    computedReference?_eq_some computed
  cases window
  have isPair : computedOffset? (push :: add :: later) = some offset := by
    simp only [computedOffset?, Node.raw?, pushRaw, addRaw,
      Option.bind_eq_bind, Option.bind_some, computed]
  have noPush : ¬ add.first.Pushes .fp := by simp [Instruction.Pushes, adds.1]
  rw [readings_cons_of_some isPair,
    readings_cons_of_none (computedOffset?_of_noPush (fun _ => noPush) later),
    follows.addition add addRaw plain adds, List.nil_append]

/-- The references are seen in any case. -/
theorem sublist_readings
    (body : List Node) :
    (readings (fun _ => []) reference body).Sublist
      (readings view reference body) := by
  induction body with
  | nil => exact List.Sublist.refl []
  | cons node later hypothesis =>
      cases isComputed : computedOffset? (node :: later) with
      | none =>
          rw [readings_cons_of_none isComputed,
            readings_cons_of_none isComputed]
          exact hypothesis.trans (List.sublist_append_right _ _)
      | some offset =>
          rw [readings_cons_of_some isComputed,
            readings_cons_of_some isComputed]
          exact hypothesis.cons_cons _

end Readings

/-! ## Passes -/

/--
What a template recognizes are the first instructions of the nodes of its
window.
-/
theorem Template.Covers.recognized
    {template : Template} {image : Image} {window : List Node} {op : PseudoOp}
    (covers : template.Covers image window op) :
    template.recognize image (window.map Node.first) = some op := by
  have raw := covers.op_eq_none
  obtain ⟨instructions, -, areRaw, recognized⟩ := covers
  have same : (window.map Node.first).map some = instructions.map some := by
    rw [← areRaw, List.map_map]
    apply List.map_congr_left
    intro node member
    rw [Function.comp_apply, Node.raw?, raw node member]
  rwa [List.map_injective_iff.mpr (Option.some_injective _) same]

theorem instructionsOf_eq_map_first
    {window : List Node}
    (plain : ∀ node ∈ window, node.rest = []) :
    instructionsOf window = window.map Node.first := by
  rw [instructionsOf, ← List.flatMap_singleton' (window.map Node.first),
    List.flatMap_map]
  apply List.flatMap_congr
  intro node member
  rw [Node.instructions, plain node member]

/-- The node that a window becomes is seen as the window is. -/
theorem readings_append_of_covers
    {α : Type} {view : Node → List α} {reference : Int → Nat → α}
    (follows : Follows view reference)
    {family : List Template} {template : Template} {image : Image}
    {window : List Node} {op : PseudoOp}
    (isFamily : family ∈ families)
    (member : template ∈ family)
    (covers : template.Covers image window op)
    (plain : ∀ node ∈ window, node.rest = [])
    {single : Node}
    (wraps : Node.wrap (some op) (instructionsOf window) = .ok single)
    (later : List Node) :
    readings view reference (window ++ later) =
      view single ++ readings view reference later := by
  have isOp := Node.op_of_wrap wraps
  have owns := Node.instructions_of_wrap wraps
  have raw := covers.op_eq_none
  have firsts := instructionsOf_eq_map_first plain
  have recognized := covers.recognized
  rw [← firsts] at recognized
  rcases spares_or_computes isFamily member recognized with
    spares | ⟨offset, rfl, computed⟩
  · have noPush : ∀ node ∈ window, ¬ node.first.Pushes .fp := by
      intro node isNode
      apply spares.noPush
      rw [firsts]
      exact List.mem_map_of_mem isNode
    rw [readings_append_of_noPush noPush,
      follows.spared single op window isOp owns raw spares]
  · have two : window.length = 2 := by
      obtain ⟨push, add, pair, -, -⟩ := computedReference?_eq_some computed
      simpa [firsts] using congrArg List.length pair
    obtain ⟨first, second, rfl⟩ := List.length_eq_two.mp two
    rw [List.forall_mem_cons, List.forall_mem_singleton] at raw
    have starts : single.lo = first.lo :=
      congrArg Instruction.lo (List.cons.inj owns).1
    have seen := follows.computed single offset isOp (owns ▸ computed)
    rw [firsts] at computed
    rw [seen, starts]
    exact readings_of_pair follows raw.1 raw.2 (plain second (by simp))
      computed later

section Passes

variable {family : List Template} {image : Image} {body next : List Node}

namespace CollapsesGreedily

/-- Machine instructions that are left have been there before. -/
theorem forall_raw
    {holds : Node → Prop}
    (greedy : CollapsesGreedily family image body next)
    (each : ∀ node ∈ body, node.op = none → holds node) :
    ∀ node ∈ next, node.op = none → holds node := by
  induction greedy with
  | done => exact each
  | keep unmatched goesOn hypothesis =>
      rw [List.forall_mem_cons] at each ⊢
      exact ⟨each.1, hypothesis each.2⟩
  | collapse isFamily earliest isMatch wraps goesOn hypothesis =>
      rw [List.forall_mem_cons]
      refine ⟨?_,
        hypothesis
          (fun node member => each node (List.mem_of_mem_drop member))⟩
      intro isNone
      rw [Node.op_of_wrap wraps] at isNone
      cases isNone

/--
A node in front of a body starts a pair after a pass if it has started one
before.
-/
theorem computedOffset?_cons
    (greedy : CollapsesGreedily family image body next)
    (isFamily : family ∈ families)
    (node : Node) :
    computedOffset? (node :: next) = computedOffset? (node :: body) := by
  cases greedy with
  | done => rfl
  | keep unmatched goesOn => rfl
  | @collapse before after template body next op single divided earliest
    isMatch wraps goesOn =>
      obtain ⟨window, later, rfl, covers⟩ :=
        Template.match?_eq_some_iff.mp isMatch
      obtain ⟨first, others, rfl⟩ := List.exists_cons_of_ne_nil covers.ne_nil
      have noAddition : ¬ first.first.AddsToTop :=
        not_addsToTop_of_recognize isFamily (by simp [divided])
          covers.recognized first.first rfl
      rw [List.cons_append,
        computedOffset?_of_noAddition (fun _ => noAddition)]
      apply computedOffset?_of_noAddition
      intro isNone
      rw [Node.op_of_wrap wraps] at isNone
      cases isNone

/-- A pass changes nothing of what is seen. -/
theorem readings_eq
    {α : Type} {view : Node → List α} {reference : Int → Nat → α}
    (follows : Follows view reference)
    (greedy : CollapsesGreedily family image body next)
    (isFamily : family ∈ families)
    (plain : ∀ node ∈ body, node.op = none → node.rest = []) :
    readings view reference next = readings view reference body := by
  induction greedy with
  | done => rfl
  | keep unmatched goesOn hypothesis =>
      rw [List.forall_mem_cons] at plain
      rw [readings, readings, goesOn.computedOffset?_cons isFamily,
        hypothesis plain.2]
  | @collapse before after template body next op single divided earliest
    isMatch wraps goesOn
      hypothesis =>
      obtain ⟨window, later, rfl, covers⟩ :=
      Template.match?_eq_some_iff.mp isMatch
      obtain ⟨-, length, -⟩ := id covers
      rw [← length, List.take_left] at wraps
      rw [← length, List.drop_left] at goesOn hypothesis
      rw [List.forall_mem_append] at plain
      have isPlain : ∀ node ∈ window, node.rest = [] := fun node member =>
        plain.1 node member (covers.op_eq_none node member)
      rw [readings_append_of_covers follows isFamily (by simp [divided]) covers
        isPlain wraps,
        readings_cons_of_none
        (computedOffset?_of_noPush (by simp [Node.op_of_wrap wraps]) next),
        hypothesis plain.2]

end CollapsesGreedily

/-- Families that collapse a body in turn change nothing of what is seen. -/
theorem CollapsesInTurn.readings_eq
    {α : Type} {view : Node → List α} {reference : Int → Nat → α}
    (follows : Follows view reference)
    {turns : List (List Template)} {final : List Node}
    (collapses : CollapsesInTurn image turns body final)
    (known : ∀ family ∈ turns, family ∈ families)
    (plain : ∀ node ∈ body, node.op = none → node.rest = []) :
    readings view reference final = readings view reference body := by
  induction collapses with
  | done => rfl
  | turn once goesOn hypothesis =>
      rw [List.forall_mem_cons] at known
      rw [hypothesis known.2 (once.greedily.forall_raw plain),
        once.greedily.readings_eq follows known.1 plain]

/-- In normal form there are no computed addresses left. -/
theorem readings_of_isNormal
    {α : Type} {view : Node → List α} {reference : Int → Nat → α}
    (normal : IsNormal stackFamily image body) :
    readings view reference body = body.flatMap view := by
  apply readings_eq_flatMap
  intro earlier later divided
  rw [Option.eq_none_iff_forall_ne_some]
  intro offset computes
  obtain ⟨push, add, others, rfl, pushRaw, addRaw, computed⟩ :=
    computedOffset?_eq_some computes
  have covers : Template.Covers
      { name := "frame-ref-computed", length := 2,
        recognize := frameReferenceComputed } image
      [push, add] (.frameReference offset) := by
    refine ⟨[push.first, add.first], rfl, ?_, ?_⟩
    · simp [Node.raw?, pushRaw, addRaw]
    · simp [frameReferenceComputed, computed]
  exact normal earlier [push, add] others
    (by rw [divided, List.append_assoc]; rfl) _
    (by simp [stackFamily]) _ covers

/--
What is seen of a collapsed body is what its nodes show, and all of it has been
there before.
-/
theorem CollapsesInTurn.flatMap_eq_readings
    {α : Type} {view : Node → List α} {reference : Int → Nat → α}
    (follows : Follows view reference)
    {final : List Node}
    (collapses : CollapsesInTurn image families body final)
    (plain : ∀ node ∈ body, node.op = none → node.rest = []) :
    final.flatMap view = readings view reference body := by
  rw [← collapses.readings_eq follows (fun _ isFamily => isFamily) plain,
    readings_of_isNormal (collapses.isNormal stackFamily (by simp [families]))]

end Passes

/-! ## Slots -/

/-- The instructions of a computed address use no slots. -/
theorem slotUses_of_computedOffset?
    {node : Node} {later : List Node} {offset : Int}
    (plain : node.op = none → node.rest = [])
    (computes : computedOffset? (node :: later) = some offset) :
    node.slotUses = [] := by
  obtain ⟨push, add, others, same, raw, -, computed⟩ :=
    computedOffset?_eq_some computes
  obtain ⟨first, second, window, pushes, -⟩ :=
    computedReference?_eq_some computed
  cases same
  cases window
  rw [Node.slotUses_of_op_none raw, Node.instructions, plain raw,
    List.flatMap_singleton, pushes.slotUses_eq_nil]

/-- Taking computed addresses as references adds them to the uses of a body. -/
theorem slotReadings_adds
    {body : List Node}
    (plain : ∀ node ∈ body, node.op = none → node.rest = []) :
    (body.flatMap Node.slotUses).Sublist (slotReadings body) ∧
      (slotReadings body).Perm
        (body.flatMap Node.slotUses ++
          (computedReferences body).map FrameSlots.referenceUse) := by
  induction body with
  | nil => exact ⟨List.Sublist.refl [], List.Perm.refl []⟩
  | cons node later hypothesis =>
      rw [List.forall_mem_cons] at plain
      obtain ⟨sublist, perm⟩ := hypothesis plain.2
      unfold slotReadings computedReferences at *
      rw [List.flatMap_cons]
      cases computes : computedOffset? (node :: later) with
      | none =>
          rw [readings_cons_of_none computes, readings_cons_of_none computes,
            List.nil_append, List.append_assoc]
          exact ⟨sublist.append_left _, perm.append_left _⟩
      | some offset =>
          rw [readings_cons_of_some computes, readings_cons_of_some computes,
            slotUses_of_computedOffset? plain.1 computes, List.nil_append,
            List.map_cons]
          exact ⟨sublist.cons _, (perm.cons _).trans List.perm_middle.symm⟩

/--
Collapsing a body loses no use of a frame slot.  The slots of the collapsed
body are those that are read off the body when each push of the frame pointer
with an addition to it is taken as the reference that it computes.  So the
slots gain these references and nothing else, each of them stands for a node of
the collapsed body, and all slots stand at their own offsets.
-/
theorem collapseAll_keeps_slots
    {body : List Node}
    (abuts : Abutting Node.lo Node.hi body)
    (plain : ∀ node ∈ body, node.op = none → node.rest = [])
    (image : Image) :
    ∃ collapsed, (collapseAll image body).outcome = .ok collapsed ∧
      FrameSlots.collect collapsed =
        (slotReadings body).foldl FrameSlots.record ∅ ∧
      (FrameSlots.collect body).Gains (FrameSlots.collect collapsed)
        (computedReferences body) ∧
      (∀ reference ∈ computedReferences body, ∃ node ∈ collapsed,
        node.op = some (.frameReference reference.1) ∧ node.lo = reference.2 ∧
          computedReference? .fp node.instructions = some reference.1) ∧
      (FrameSlots.collect body).IsKeyed ∧
        (FrameSlots.collect collapsed).IsKeyed := by
  have contiguous : IsContiguous body := by
    refine ⟨abuts, ?_⟩
    intro node member raw
    rw [Node.instructions, plain node member raw]
    trivial
  obtain ⟨final, collapses, finished⟩ :=
    exists_collapsesInTurn image families contiguous
  have collected : FrameSlots.collect final =
      (slotReadings body).foldl FrameSlots.record ∅ := by
    rw [FrameSlots.collect,
      collapses.flatMap_eq_readings follows_slotUses plain, slotReadings]
  obtain ⟨sublist, perm⟩ := slotReadings_adds plain
  refine ⟨final, ?_, collected, ?_, ?_, FrameSlots.isKeyed_collect body,
    FrameSlots.isKeyed_collect final⟩
  · rw [collapseAll, Traced.outcome_foldlM]
    exact finished
  · rw [collected]
    exact FrameSlots.gains_of_perm sublist perm
  · intro reference member
    have isSeen : reference ∈ readings computedBy Prod.mk body :=
      (sublist_readings body).subset member
    rw [← collapses.flatMap_eq_readings follows_computedBy plain] at isSeen
    obtain ⟨node, isNode, stands⟩ := List.mem_flatMap.mp isSeen
    exact ⟨node, isNode, eq_of_mem_computedBy stands⟩

/--
A store into a slot, a computed address and an effective one, a step that is
checked, and a load through a pointer in a slot.
-/
def countingBody : List Node :=
  [ .raw ⟨0xc000, 0xc006, .mov, .word, [.immediate 1, .indexed (-2) .fp],
    by decide⟩,
    .raw ⟨0xc006, 0xc008, .mov, .word, [.register .fp, .autoDecrement .sp],
      by decide⟩,
    .raw ⟨0xc008, 0xc00c, .add, .word, [.immediate (-6), .deferred .sp],
      by decide⟩,
    .raw ⟨0xc00c, 0xc010, .lea, .word, [.indexed (-8) .fp, .autoDecrement .sp],
      by decide⟩,
    .raw ⟨0xc010, 0xc014, .inc, .word, [.indexed (-2) .fp], by decide⟩,
    .raw ⟨0xc014, 0xc01a, .chk, .word, [.indexed (-2) .fp, .absolute 0x2000],
      by decide⟩,
    .raw ⟨0xc01a, 0xc01e, .mov, .byte,
      [.indexedDeferred (-4) .fp, .register ⟨0⟩], by decide⟩ ]

theorem collapseAll_keeps_slots_countingBody :
    Abutting Node.lo Node.hi countingBody ∧
    (∀ node ∈ countingBody, node.op = none → node.rest = []) ∧
    ∃ collapsed, (collapseAll { name := "code" } countingBody).outcome =
      .ok collapsed ∧
      (FrameSlots.collect countingBody).keys = [-8, -4, -2] ∧
      (FrameSlots.collect collapsed).values =
        [ { offset := -8, addressTaken := [0xc00c] },
          { offset := -6, addressTaken := [0xc006] },
          { offset := -4, reads := { words := [0xc01a] } },
          { offset := -2, reads := { words := [0xc010, 0xc014] },
            writes := { words := [0xc000, 0xc010] } } ] ∧
      ∃ node ∈ collapsed, node.op = some (.frameReference (-6)) ∧
        node.lo = 0xc006 := by
  have abuts : Abutting Node.lo Node.hi countingBody := by decide
  have plain : ∀ node ∈ countingBody, node.op = none → node.rest = [] := by
    decide
  obtain ⟨collapsed, finished, collected, -, references, -⟩ :=
    collapseAll_keeps_slots abuts plain { name := "code" }
  obtain ⟨node, member, isOp, starts, -⟩ := references (-6, 0xc006) (by decide)
  refine ⟨abuts, plain, collapsed, finished,
    by decide, ?_, node, member, isOp, starts⟩
  rw [collected]
  decide

end Idiom

end ProcRecovery
