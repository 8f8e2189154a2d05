import ProcRecovery.Proofs.Replay.Run
import ProcRecovery.Proofs.Replay.Stores
import ProcRecovery.Proofs.SymbolicStack.Isolation

/-!
# Widths of items

The kind of an item promises a width: a small literal has one byte or two, a
long literal four, an address two, and a blob as many as it has bytes.
Operations on stacks keep the promise, since they leave items whole or forget
them, and so does everything that a replay pushes.  One node breaks it.  A
literal that is stored into a slot is put there as a small one whatever its
width is, so a long literal in a slot is a small one of four bytes, which no
routine on long arguments reads.

Items that break the promise are excused one by one: `IsSizedBut` names them, a
step adds those that it stores, and a run the stores of all its nodes.
-/

namespace ProcRecovery

open SymbolicStack

/-- An item is as wide as its kind promises. -/
def StackItem.IsSized (item : StackItem) : Prop :=
  match item.content with
  | .smallInt _ => item.width = 1 ∨ item.width = 2
  | .longInt _ => item.width = 4
  | .backReference _ | .frameReference _ => item.width = 2
  | .blob (some bytes) => bytes.length = item.width
  | .blob none | .unknown | .stringRef _ => True

/-- An operation that pushes known bytes pushes as many as it says. -/
def PseudoOp.IsSized : PseudoOp → Prop
  | .blob width _ _ (.known bytes) => bytes.length = width
  | _ => True

namespace SymbolicStack

/-- Every item of a stack is as wide as its kind promises. -/
def IsSized (stack : SymbolicStack) : Prop :=
  ∀ item ∈ stack.items, item.IsSized

/-- Every item of a stack is as wide as its kind promises, or it is excused. -/
def IsSizedBut (excused : StackItem → Prop) (stack : SymbolicStack) : Prop :=
  ∀ item ∈ stack.items, item.IsSized ∨ excused item

/-! ## Operations on stacks -/

section Operations

variable {excused : StackItem → Prop} {stack : SymbolicStack}
  {item : StackItem}

theorem isSizedBut_false_iff :
    stack.IsSizedBut (fun _ => False) ↔ stack.IsSized := by
  simp only [IsSizedBut, IsSized, or_false]

theorem IsSizedBut.mono
    {also : StackItem → Prop}
    (sized : stack.IsSizedBut excused)
    (weaker : ∀ item, excused item → also item) :
    stack.IsSizedBut also :=
  fun item member => (sized item member).imp_right (weaker item)

theorem isSizedBut_mangled :
    mangled.IsSizedBut excused := List.forall_mem_nil _

theorem isMangled_of_mem
    (member : item ∈ stack.items) :
    stack.isMangled = false := by
  cases stack with
  | tracked items => rfl
  | mangled => cases member

/-- A cut makes no items but unknown ones. -/
theorem forall_mem_of_cut
    {holds : StackItem → Prop}
    (unknown : ∀ width, holds (.unknown width))
    {items above below : List StackItem} {offset : Nat}
    (each : ∀ item ∈ items, holds item)
    (divided : cut offset items = some (above, below)) :
    (∀ item ∈ above, holds item) ∧ ∀ item ∈ below, holds item := by
  rcases cut_cases divided with
    rfl | ⟨front, across, back, upper, rfl, rfl, rfl, -⟩
  · exact List.forall_mem_append.mp each
  · rcases List.forall_mem_append.mp each with ⟨inFront, others⟩
    have inBack := (List.forall_mem_cons.mp others).2
    constructor
    · exact List.forall_mem_append.mpr ⟨inFront, by simp [unknown]⟩
    · exact List.forall_mem_cons.mpr ⟨unknown _, inBack⟩

/-- Neither does isolating a range. -/
theorem forall_mem_of_isolate
    {holds : StackItem → Prop}
    (unknown : ∀ width, holds (.unknown width))
    {items above below : List StackItem} {middle : StackItem}
    {offset width : Nat}
    (each : ∀ item ∈ items, holds item)
    (isolated : isolate items offset width = some (above, middle, below)) :
    (∀ item ∈ above, holds item) ∧
      holds middle ∧ ∀ item ∈ below, holds item := by
  rcases isolate_eq_some_iff.mp isolated with
    ⟨rest, pieces, cutAbove, cutBelow, rfl⟩
  rcases cutPast_eq_some_iff.mp cutAbove with ⟨upper, lower, divided, rfl, rfl⟩
  rcases forall_mem_of_cut unknown each divided with ⟨inUpper, inLower⟩
  rw [← List.takeWhile_append_dropWhile (p := StackItem.isEmpty) (l := lower),
    List.forall_mem_append] at inLower
  rcases inLower with ⟨inSkipped, inRest⟩
  have inAbove := List.forall_mem_append.mpr ⟨inUpper, inSkipped⟩
  rcases forall_mem_of_cut unknown inRest cutBelow with ⟨inPieces, inBelow⟩
  refine ⟨inAbove, ?_, inBelow⟩
  unfold merged
  split
  next => exact inPieces _ (List.mem_singleton_self _)
  next => exact unknown width

theorem IsSizedBut.push
    (sized : stack.IsSizedBut excused)
    (itemSized : item.IsSized) :
    (stack.push item).IsSizedBut excused := by
  cases stack with
  | mangled => exact isSizedBut_mangled
  | tracked items =>
      simp only [IsSizedBut, SymbolicStack.push, items_tracked, pushItem]
        at sized ⊢
      split
      next => exact sized
      next =>
        split
        next =>
          rw [List.forall_mem_cons] at sized ⊢
          exact ⟨.inl trivial, sized.2⟩
        next => exact List.forall_mem_cons.mpr ⟨.inl itemSized, sized⟩

theorem isSized_withUnknown (width : Nat) : (withUnknown width).IsSized := by
  have empty : SymbolicStack.empty.IsSizedBut (fun _ => False) :=
    List.forall_mem_nil _
  have unknown : (StackItem.unknown width).IsSized := trivial
  exact isSizedBut_false_iff.mp (empty.push unknown)

theorem IsSizedBut.pop (sized : stack.IsSizedBut excused) (width : Nat) :
    (stack.pop width).1.IsSizedBut excused := by
  cases stack with
  | mangled => exact isSizedBut_mangled
  | tracked items =>
      simp only [SymbolicStack.pop]
      split
      next popped rest divided =>
        exact (forall_mem_of_cut (fun _ => .inl trivial) sized divided).2
      next => exact isSizedBut_mangled

theorem IsSizedBut.find
    (sized : stack.IsSizedBut excused)
    (offset width : Nat) :
    (stack.find offset width).1.IsSizedBut excused := by
  cases stack with
  | mangled => exact isSizedBut_mangled
  | tracked items =>
      simp only [SymbolicStack.find]
      split
      next => exact sized
      next =>
        split
        next above middle below isolated =>
          rcases forall_mem_of_isolate (fun _ => .inl trivial) sized
            isolated with
            ⟨inAbove, inMiddle, inBelow⟩
          exact List.forall_mem_append.mpr ⟨inAbove,
            List.forall_mem_cons.mpr ⟨inMiddle, inBelow⟩⟩
        next => exact sized

/-- What is put somewhere is the only new item. -/
theorem IsSizedBut.put
    (sized : stack.IsSizedBut excused)
    (offset : Nat)
    (itemSized : item.IsSized ∨ excused item) :
    (stack.put offset item).IsSizedBut excused := by
  cases stack with
  | mangled => exact isSizedBut_mangled
  | tracked items =>
      simp only [SymbolicStack.put]
      split
      next => exact isSizedBut_mangled
      next =>
        split
        next above middle below isolated =>
          rcases forall_mem_of_isolate (fun _ => .inl trivial) sized
            isolated with
            ⟨inAbove, -, inBelow⟩
          exact List.forall_mem_append.mpr ⟨inAbove,
            List.forall_mem_cons.mpr ⟨itemSized, inBelow⟩⟩
        next => exact isSizedBut_mangled

/-- Unless the stack is mangled, what is put somewhere is there. -/
theorem mem_put
    {offset : Nat}
    (tracked : (stack.put offset item).isMangled = false) :
    item ∈ (stack.put offset item).items := by
  cases stack with
  | mangled => cases tracked
  | tracked items =>
      simp only [SymbolicStack.put] at tracked ⊢
      split at tracked
      next => cases tracked
      next nonempty =>
        rw [if_neg nonempty]
        split at tracked
        next => simp
        next => cases tracked

end Operations

end SymbolicStack

/-! ## Replayed nodes -/

/--
A node stores a long literal into a slot of the stack, which leaves an item
there.
-/
def Node.StoresLong (node : Node) (item : StackItem) : Prop :=
  node.op = none ∧ node.first.width = .long ∧ node.first.IsFollowedStore ∧
    ∃ value, node.first.storedLiteral? = some value ∧
    item = ⟨4, .smallInt value⟩

theorem Node.StoresLong.not_isSized
    {node : Node} {item : StackItem}
    (stores : node.StoresLong item) :
    ¬ item.IsSized := by
  rcases stores with ⟨-, -, -, value, -, rfl⟩
  simp [StackItem.IsSized]

/-- Routines leave long literals of four bytes and no small ones. -/
theorem Routine.isSized_of_result?
    {routine : Routine} {arguments : List StackItem} {result : StackItem}
    (given : routine.result? arguments = some result) :
    result.IsSized := by
  unfold result? at given
  split at given
  next => cases given
  next =>
    cases given
    unfold resultContent
    split
    case h_1 | h_2 | h_3 | h_4 =>
      split
      next => rfl
      next => trivial
    case h_5 => rfl
    all_goals trivial

namespace ReplayState

variable {state next : ReplayState} {item : StackItem} {excused : StackItem →
  Prop}

theorem isSizedBut_of_push
    (sized : state.stack.IsSizedBut excused)
    (pushed : state.push item = .ok next)
    (itemSized : item.IsSized) :
    next.stack.IsSizedBut excused := by
  rw [(delivers_push state item).of_ok pushed]
  exact sized.push itemSized

theorem isSizedBut_of_move
    {delta : Int}
    (sized : state.stack.IsSizedBut excused)
    (moved : state.move delta = .ok next) :
    next.stack.IsSizedBut excused := by
  unfold move at moved
  split at moved
  next => exact isSizedBut_of_push sized moved trivial
  next =>
    cases moved
    exact sized.pop _

end ReplayState

section Calls

variable {stack : SymbolicStack} {excused : StackItem → Prop}

theorem SymbolicStack.IsSizedBut.popArguments
    (sized : stack.IsSizedBut excused)
    (widths : List Nat) :
    (popArguments stack widths).1.IsSizedBut excused := by
  induction widths generalizing stack with
  | nil => exact sized
  | cons width later hypothesis =>
      have first : (popArgument stack width).1.IsSizedBut excused := by
        rw [fst_popArgument]
        exact sized.pop width
      exact hypothesis first

end Calls

namespace ReplayContext

variable {state next : ReplayState} {excused : StackItem → Prop}

theorem isSizedBut_of_callRoutine
    {routine : Routine} {site : Nat}
    (sized : state.stack.IsSizedBut excused)
    (called : (callRoutine routine site state).outcome = .ok next) :
    next.stack.IsSizedBut excused := by
  have popped := sized.popArguments routine.argumentWidths
  unfold callRoutine at called
  dsimp only at called
  split at called
  next result given =>
    simp only [Traced.outcome_bind, Traced.outcome_note,
      Traced.outcome_ofExcept, ok_bind] at called
    exact ReplayState.isSizedBut_of_push popped called
      (Routine.isSized_of_result? given)
  next =>
    cases called
    exact popped

theorem isSizedBut_of_smallArgument
    {stack rest : SymbolicStack} {offset : Nat} {value : Option Int}
    (sized : stack.IsSizedBut excused)
    (found : smallArgument stack offset = .ok (rest, value)) :
    rest.IsSizedBut excused := by
  rcases bind_eq_ok_iff.mp found with ⟨⟨restructured, item⟩, isFound, answer⟩
  have same : restructured = (stack.find offset 2).1 :=
    congrArg Prod.fst ((delivers_boundedGet stack offset 2).of_ok isFound)
  have isSized : restructured.IsSizedBut excused := by
    rw [same]
    exact sized.find offset 2
  dsimp only at answer
  split at answer
  next =>
    cases answer
    exact isSized
  next =>
    cases answer
    exact isSized

/-- A text that is attached to a place on the stack is the only new item. -/
theorem isSizedBut_of_attachText
    {site length : Nat} {text : String}
    (sized : state.stack.IsSizedBut excused)
    (attached : (attachText site length text state).outcome = .ok next) :
    next.stack.IsSizedBut excused := by
  unfold attachText at attached
  simp only [Traced.outcome_bind, Traced.outcome_ofExcept] at attached
  rcases bind_eq_ok_iff.mp attached with ⟨⟨stack, destination⟩, isFound, rest⟩
  have same : stack = (state.stack.find 4 2).1 :=
    congrArg Prod.fst ((delivers_boundedGet state.stack 4 2).of_ok isFound)
  have stackSized : stack.IsSizedBut excused := by
    rw [same]
    exact sized.find 4 2
  dsimp only at rest
  split at rest
  next =>
    cases rest
    exact stackSized
  next =>
    simp only [Traced.outcome_bind, Traced.outcome_ofExcept] at rest
    rcases bind_eq_ok_iff.mp rest with ⟨⟨resolved, target⟩, isResolved, stored⟩
    have sameResolved : resolved = (stack.find 4 2).1 :=
      congrArg Prod.fst ((delivers_boundedResolve stack 4).of_ok isResolved)
    have resolvedSized : resolved.IsSizedBut excused := by
      rw [sameResolved]
      exact stackSized.find 4 2
    dsimp only at stored
    split at stored
    next offset =>
      simp only [Traced.outcome_bind, Traced.outcome_ofExcept] at stored
      rcases bind_eq_ok_iff.mp stored with ⟨final, isPut, answer⟩
      cases answer
      rw [(delivers_boundedPut resolved offset _).of_ok isPut]
      exact resolvedSized.put offset (.inl trivial)
    next =>
      cases stored
      exact resolvedSized
  next =>
    cases rest
    exact stackSized

theorem isSizedBut_of_constructString
    {context : ReplayContext} {site : Nat}
    (sized : state.stack.IsSizedBut excused)
    (constructed : (context.constructString site state).outcome = .ok next) :
    next.stack.IsSizedBut excused := by
  unfold constructString at constructed
  simp only [Traced.outcome_bind, Traced.outcome_ofExcept] at constructed
  rcases bind_eq_ok_iff.mp constructed with ⟨⟨once, length⟩, isLength, onward⟩
  rcases bind_eq_ok_iff.mp onward with ⟨⟨stack, address⟩, isAddress, rest⟩
  have stackSized : stack.IsSizedBut excused :=
    isSizedBut_of_smallArgument (isSizedBut_of_smallArgument sized isLength)
      isAddress
  dsimp only at rest
  split at rest
  next length address =>
    split at rest
    next =>
      split at rest
      next bytes isRead =>
        simp only [Traced.outcome_bind, Traced.outcome_emit, ok_bind] at rest
        have attachedTo : (state.withStack stack).stack.IsSizedBut excused :=
          stackSized
        exact isSizedBut_of_attachText attachedTo rest
      next =>
        cases rest
        exact stackSized
    next =>
      cases rest
      exact stackSized
  next =>
    cases rest
    exact stackSized

/--
A machine instruction moves the stack, or it also stores a literal, which is
excused if it is a long one.
-/
theorem isSizedBut_of_applyInstruction
    {node : Node}
    (raw : node.op = none)
    (sized : state.stack.IsSizedBut excused)
    (applied : applyInstruction node.first node.stackDelta state = .ok next) :
    next.stack.IsSizedBut (fun item =>
      excused item ∨ node.StoresLong item) := by
  rcases applyInstruction_cases applied with
    ⟨moved, isMoved, ⟨-, rfl⟩ | ⟨value, displacement, moves, operands, above,
      same⟩⟩
  · exact (ReplayState.isSizedBut_of_move sized isMoved).mono (fun _ => .inl)
  · have movedSized := ReplayState.isSizedBut_of_move sized isMoved
    rw [same]
    refine (movedSized.mono (fun _ => .inl)).put _ ?_
    cases width : node.first.width with
    | byte => exact .inl (.inl rfl)
    | word => exact .inl (.inr rfl)
    | long =>
        exact .inr
          (.inr ⟨raw, width, ⟨value, displacement, moves, operands, above⟩,
            value, Instruction.storedLiteral?_of_operands moves operands, rfl⟩)

/--
A replayed node leaves nothing out of size but a long literal that it stores.
-/
theorem isSizedBut_of_apply
    {context : ReplayContext} {node : Node}
    (opSized : ∀ op ∈ node.op, op.IsSized)
    (sized : state.stack.IsSizedBut excused)
    (applied : (context.apply node state).outcome = .ok next) :
    next.stack.IsSizedBut (fun item =>
      excused item ∨ node.StoresLong item) := by
  have weaken : next.stack.IsSizedBut excused →
      next.stack.IsSizedBut (fun item => excused item ∨
        node.StoresLong item) :=
    fun isSized => isSized.mono (fun _ => .inl)
  unfold apply at applied
  split at applied
  next raw => exact isSizedBut_of_applyInstruction raw sized applied
  next width value isOp =>
    refine weaken (ReplayState.isSizedBut_of_push sized applied ?_)
    cases width with
    | byte => exact .inl rfl
    | word => exact .inr rfl
    | long => exact rfl
  next width source content isOp =>
    have contentSized := opSized _ isOp
    refine weaken (ReplayState.isSizedBut_of_push sized applied ?_)
    cases content with
    | known bytes => exact contentSized
    | _ => exact trivial
  next => exact weaken (ReplayState.isSizedBut_of_push sized applied trivial)
  next => exact weaken (ReplayState.isSizedBut_of_push sized applied rfl)
  next => exact weaken (ReplayState.isSizedBut_of_push sized applied rfl)
  next => exact weaken (isSizedBut_of_constructString sized applied)
  next => exact weaken (isSizedBut_of_callRoutine sized applied)
  next => exact weaken (ReplayState.isSizedBut_of_move sized applied)

/--
A long literal that is stored into a slot is there afterwards, if the slot was.
-/
theorem mem_of_storesLong
    {context : ReplayContext} {node : Node} {item : StackItem}
    (stores : node.StoresLong item)
    (applied : (context.apply node state).outcome = .ok next)
    (tracked : next.stack.isMangled = false) :
    item ∈ next.stack.items := by
  rcases stores with ⟨raw, isLong, followed, value, isValue, rfl⟩
  have appliedRaw : applyInstruction node.first node.stackDelta state =
      .ok next := by
    simpa only [apply, raw, Traced.outcome_ofExcept] using applied
  rcases applyInstruction_cases appliedRaw with
    ⟨moved, -, ⟨other, -⟩ | ⟨stored, displacement, moves, operands, above,
      same⟩⟩
  · exact (other followed).elim
  · rw [Instruction.storedLiteral?_of_operands moves operands] at isValue
    cases isValue
    rw [same, isLong] at tracked ⊢
    exact mem_put tracked

/-! ## Runs -/

/--
A replay comes to a node that stores a long literal into a slot, and the slot
is there.
-/
def StoresLong
    (context : ReplayContext)
    (start : ReplayState)
    (nodes : List Node) :
    Prop :=
  ∃ earlier node later annotated before after item,
    nodes = earlier ++ node :: later ∧
    Run context start earlier annotated before ∧
    before.stack.isMangled = false ∧
    (context.apply node before).outcome = .ok after ∧
    after.stack.isMangled = false ∧
    node.StoresLong item

theorem StoresLong.cons
    {context : ReplayContext} {node : Node} {later : List Node}
    (tracked : state.stack.isMangled = false)
    (applied : (context.apply node state).outcome = .ok next)
    (stores : context.StoresLong next later) :
    context.StoresLong state (node :: later) := by
  rcases stores with
    ⟨earlier, other, rest, annotated, before, after, item, rfl, run, others⟩
  exact ⟨node :: earlier, other, rest, _, before, after, item, rfl,
    .step tracked applied run, others⟩

theorem StoresLong.append
    {context : ReplayContext} {nodes : List Node}
    (stores : context.StoresLong state nodes)
    (later : List Node) :
    context.StoresLong state (nodes ++ later) := by
  rcases stores with
    ⟨earlier, node, rest, annotated, before, after, item, rfl, others⟩
  exact ⟨earlier, node, rest ++ later, annotated, before, after, item,
    by simp, others⟩

theorem Run.snoc
    {context : ReplayContext} {start before after : ReplayState}
    {nodes annotated : List Node} {node : Node}
    (run : Run context start nodes annotated before)
    (tracked : before.stack.isMangled = false)
    (applied : (context.apply node before).outcome = .ok after) :
    ∃ extended, Run context start (nodes ++ [node]) extended after := by
  induction run with
  | stay state => exact ⟨_, .step tracked applied (.stay after)⟩
  | step first isApplied _ hypothesis =>
      rcases hypothesis tracked applied with ⟨extended, onward⟩
      exact ⟨_, .step first isApplied onward⟩

/--
Along a run nothing gets out of size but the long literals that its nodes
store.
-/
theorem Run.isSizedBut
    {context : ReplayContext} {start final : ReplayState}
    {nodes annotated : List Node}
    (run : Run context start nodes annotated final)
    (opsSized : ∀ node ∈ nodes, ∀ op ∈ node.op, op.IsSized)
    (sized : start.stack.IsSizedBut excused) :
    final.stack.IsSizedBut
      (fun item => excused item ∨ ∃ node ∈ nodes, node.StoresLong item) := by
  induction run generalizing excused with
  | stay state => exact sized.mono (fun _ => .inl)
  | @step state next final node later annotated tracked applied rest
    hypothesis =>
      rw [List.forall_mem_cons] at opsSized
      have stepped := isSizedBut_of_apply opsSized.1 sized applied
      apply (hypothesis opsSized.2 stepped).mono
      rintro item ((before | here) | ⟨other, member, there⟩)
      · exact .inl before
      · exact .inr ⟨node, List.mem_cons_self, here⟩
      · exact .inr ⟨other, List.mem_cons_of_mem node member, there⟩

/-- Without a store of a long literal a run keeps all items in size. -/
theorem Run.isSized
    {context : ReplayContext} {start final : ReplayState}
    {nodes annotated : List Node}
    (run : Run context start nodes annotated final)
    (opsSized : ∀ node ∈ nodes, ∀ op ∈ node.op, op.IsSized)
    (spared : ¬ context.StoresLong start nodes)
    (sized : start.stack.IsSized) :
    final.stack.IsSized := by
  induction run with
  | stay state => exact sized
  | @step state next final node later annotated tracked applied rest
    hypothesis =>
      rw [List.forall_mem_cons] at opsSized
      apply hypothesis opsSized.2
      · exact fun stores => spared (stores.cons tracked applied)
      · intro item member
        rcases isSizedBut_of_apply opsSized.1 (isSizedBut_false_iff.mpr sized)
          applied item member
          with isSized | impossible | stores
        · exact isSized
        · exact impossible.elim
        · exact (spared ⟨[], node, later, [], state, next, item, rfl,
            .stay state, tracked, applied, isMangled_of_mem member,
            stores⟩).elim

/--
What there is to say about the widths of items in a replay: at every point only
long literals that were stored are out of size, and no item is at any point
exactly if none is stored.
-/
structure SizesItems
    (context : ReplayContext)
    (start : ReplayState)
    (nodes : List Node) :
    Prop where
  only : ∀ earlier later annotated reached, nodes = earlier ++ later →
    Run context start earlier annotated reached →
    reached.stack.IsSizedBut (fun item => ∃ node ∈ earlier,
      node.StoresLong item)
  exactly : (∀ earlier later annotated reached, nodes = earlier ++ later →
    Run context start earlier annotated reached → reached.stack.IsSized) ↔
    ¬ context.StoresLong start nodes

theorem sizesItems_of_isSized
    (context : ReplayContext)
    {start : ReplayState} {nodes : List Node}
    (opsSized : ∀ node ∈ nodes, ∀ op ∈ node.op, op.IsSized)
    (sized : start.stack.IsSized) :
    context.SizesItems start nodes where
  only := by
    rintro earlier later annotated reached rfl run
    apply (run.isSizedBut
      (fun node member => opsSized node (List.mem_append_left later member))
      (isSizedBut_false_iff.mpr sized)).mono
    rintro item (impossible | stores)
    · exact impossible.elim
    · exact stores
  exactly := by
    constructor
    · rintro keeps ⟨earlier, node, later, annotated, before, after, item, rfl,
        run, tracked, applied, stillTracked, stores⟩
      rcases run.snoc tracked applied with ⟨extended, through⟩
      have isSized :=
        keeps (earlier ++ [node]) later extended after (by simp) through
      exact stores.not_isSized
        (isSized item (mem_of_storesLong stores applied stillTracked))
    · rintro spared earlier later annotated reached rfl run
      exact run.isSized (fun node member =>
        opsSized node (List.mem_append_left later member))
        (fun stores => spared (stores.append later)) sized

end ReplayContext

end ProcRecovery
