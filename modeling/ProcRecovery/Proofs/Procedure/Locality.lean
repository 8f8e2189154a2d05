import ProcRecovery.Proofs.Graph.Accounting
import ProcRecovery.Proofs.Idiom.Labels
import ProcRecovery.Proofs.Procedure.Analysis

/-!
# Locality of an analysis

The analysis of a procedure depends on the image only through the program: the
code that it is given, the memory that literals are read from, and the names of
the routines.  Two images of the same program lead to the same events, the same
faults, and procedures that differ in nothing but the labels of calls.  Stage
by stage, what a stage makes of two bodies that differ in labels differs in
labels only.
-/

namespace ProcRecovery

/-- The call site without its label. -/
def CallSite.unlabeled (site : CallSite) : CallSite :=
  { site with label := none }

/-- The procedure without the labels of its calls. -/
def Procedure.unlabeled (procedure : Procedure) : Procedure :=
  { procedure with
    body := procedure.body.map Node.unlabeled
    calls := procedure.calls.map CallSite.unlabeled }

/-! ## Nodes -/

namespace Node

theorem flow_unlabeled (node : Node) : node.unlabeled.flow = node.flow := by
  rcases node with ⟨op, first, rest, delta, level, after⟩
  cases op with
  | none => rfl
  | some op => cases op <;> rfl

theorem showsDivision_unlabeled : Graph.ShowsDivision unlabeled where
  range_eq := fun _ => rfl
  flow_eq := flow_unlabeled
  delta_eq := fun _ => rfl
  epilogue_iff := by
    rintro ⟨op, first, rest, delta, level, after⟩
    cases op with
    | none => exact Iff.rfl
    | some op => cases op <;> simp [unlabeled, PseudoOp.unlabeled]

theorem stackEffect_unlabeled (frameSize : Nat) (node : Node) :
    node.unlabeled.stackEffect frameSize = node.stackEffect frameSize := by
  rcases node with ⟨op, first, rest, delta, level, after⟩
  cases op with
  | none => rfl
  | some op =>
      cases op with
      | blob width source direction content => cases direction <;> rfl
      | _ => rfl

theorem slotUses_unlabeled
    (node : Node) :
    node.unlabeled.slotUses = node.slotUses := by
  rcases node with ⟨op, first, rest, delta, level, after⟩
  cases op with
  | none => rfl
  | some op => cases op <;> rfl

theorem unreadable?_unlabeled (node : Node) :
    Idiom.unreadable? node.unlabeled = Idiom.unreadable? node := by
  rcases node with ⟨op, first, rest, delta, level, after⟩
  cases op with
  | none => rfl
  | some op => cases op <;> rfl

theorem leftover?_unlabeled (node : Node) :
    Idiom.leftover? node.unlabeled = Idiom.leftover? node := by
  simp only [Idiom.leftover?, raw?_unlabeled]

theorem callSite?_unlabeled
    (caller : Nat)
    (node : Node) :
    node.unlabeled.callSite? caller =
      (node.callSite? caller).map CallSite.unlabeled := by
  rcases node with ⟨op, first, rest, delta, level, after⟩
  cases op with
  | none => rfl
  | some op => cases op <;> rfl

/--
Only machine instructions move the stack in ways that are not understood.
-/
theorem op_of_unrecognized
    {frameSize : Nat} {node : Node}
    (unclear : node.stackEffect frameSize = .ok .unrecognized) :
    node.op = none := by
  unfold stackEffect at unclear
  split at unclear
  next plain => exact plain
  all_goals
    first
    | cases unclear
    | rcases bind_eq_ok_iff.mp unclear with ⟨_, _, impossible⟩
      cases impossible

/-- Machine instructions have no labels. -/
theorem eq_of_unlabeled_of_raw
    {node other : Node}
    (same : node.unlabeled = other.unlabeled)
    (plain : node.op = none) :
    node = other := by
  have otherPlain : other.op = none := by
    rw [← op_unlabeled_eq_none_iff, ← same, op_unlabeled_eq_none_iff]
    exact plain
  rcases node with ⟨op, first, rest, delta, level, after⟩
  rcases other with ⟨op', first', rest', delta', level', after'⟩
  cases plain
  cases otherPlain
  exact same

end Node

/-! ## Stages before the division into blocks -/

section Stages

variable {body other : List Node}

theorem reportLeftovers_unlabeled
    (options : Options)
    (procedure : Nat)
    (same : body.map Node.unlabeled = other.map Node.unlabeled) :
    Idiom.reportLeftovers options procedure body =
      Idiom.reportLeftovers options procedure other := by
  apply eq_of_map_unlabeled (Idiom.reportLeftovers options procedure) _ same
  intro nodes
  simp only [Idiom.reportLeftovers, List.filterMap_map, Function.comp_def,
    Node.leftover?_unlabeled]

theorem reportUnreadable_unlabeled
    (procedure : Nat)
    (same : body.map Node.unlabeled = other.map Node.unlabeled) :
    Idiom.reportUnreadable procedure body =
      Idiom.reportUnreadable procedure other := by
  apply eq_of_map_unlabeled (Idiom.reportUnreadable procedure) _ same
  intro nodes
  simp only [Idiom.reportUnreadable, List.filterMap_map, Function.comp_def,
    Node.unreadable?_unlabeled]

theorem recognize_unlabeled
    (options : Options)
    {first second : Image}
    (shares : first.SharesProgram second)
    (procedure : Nat)
    (body : List Node) :
    Traced.AgreeBy (List.map Node.unlabeled)
      (Procedure.recognize options first procedure body)
      (Procedure.recognize options second procedure body) := by
  apply Traced.agreeBy_bind_of_eq rfl
  intro cached
  apply (Idiom.collapseAll_unlabeled shares cached).bind
  intro collapsed another same
  apply Traced.agreeBy_bind_of_eq
    (congrArg Traced.emit (reportLeftovers_unlabeled options procedure same))
  intro _
  apply Traced.agreeBy_bind_of_eq
    (congrArg Traced.emit (reportUnreadable_unlabeled procedure same))
  intro _
  exact Traced.agreeBy_pure same

theorem assignDelta_unlabeled
    (frameSize procedure : Nat)
    {node another : Node}
    (same : node.unlabeled = another.unlabeled) :
    Traced.AgreeBy Node.unlabeled (node.assignDelta frameSize procedure)
      (another.assignDelta frameSize procedure) := by
  have effects : node.stackEffect frameSize = another.stackEffect frameSize :=
    Node.eq_of_unlabeled (fun node => node.stackEffect frameSize)
      (Node.stackEffect_unlabeled frameSize) same
  unfold Node.assignDelta
  cases isEffect : node.stackEffect frameSize with
  | error fault =>
      rw [← effects, isEffect]
      exact ⟨rfl, rfl⟩
  | ok effect =>
      cases effect with
      | delta bytes =>
          rw [← effects, isEffect]
          exact Traced.agreeBy_pure
            (congrArg (fun view : Node => { view with stackDelta := bytes })
              same)
      | unrecognized =>
          have equal :=
            Node.eq_of_unlabeled_of_raw same (Node.op_of_unrecognized isEffect)
          subst equal
          rw [isEffect]
          exact .of_eq rfl

theorem assignDeltas_unlabeled
    (frameSize procedure : Nat)
    (same : body.map Node.unlabeled = other.map Node.unlabeled) :
    Traced.AgreeBy (List.map Node.unlabeled)
      (assignDeltas frameSize procedure body)
      (assignDeltas frameSize procedure other) :=
  Traced.AgreeBy.mapM (fun _ _ alike =>
    assignDelta_unlabeled frameSize procedure alike) same

theorem partition_unlabeled
    (procedure : Nat)
    (same : body.map Node.unlabeled = other.map Node.unlabeled) :
    Graph.partition body procedure = Graph.partition other procedure :=
  eq_of_map_unlabeled (fun nodes => Graph.partition nodes procedure)
    (fun nodes => Node.showsDivision_unlabeled.partition_eq nodes procedure)
    same

end Stages

/-! ## Levels -/

section Levels

variable {body other : List Node}

theorem annotateNodes_unlabeled
    (level : Resolution Int)
    (same : body.map Node.unlabeled = other.map Node.unlabeled) :
    (Graph.annotateNodes level body).map (List.map Node.unlabeled) =
      (Graph.annotateNodes level other).map (List.map Node.unlabeled) := by
  induction body generalizing other level with
  | nil =>
      have empty := List.map_eq_nil_iff.mp same.symm
      subst empty
      rfl
  | cons node later hypothesis =>
      rcases List.map_eq_cons_iff.mp same.symm with
        ⟨node', later', rfl, sameNode, sameLater⟩
      have deltas : node'.stackDelta = node.stackDelta :=
        Node.eq_of_unlabeled Node.stackDelta (fun _ => rfl) sameNode
      have continues : ∀ next,
          (Graph.annotateNodes next later >>= fun rest =>
            Except.ok ({ node with stackLevel := level } :: rest)).map
              (List.map Node.unlabeled) =
          (Graph.annotateNodes next later' >>= fun rest =>
            Except.ok ({ node' with stackLevel := level } :: rest)).map
              (List.map Node.unlabeled) := by
        intro next
        apply map_bind_congr (List.map Node.unlabeled)
          (hypothesis next sameLater.symm)
        intro nodes nodes' alike
        exact congrArg Except.ok (congrArg₂ List.cons
          (congrArg (fun view : Node => { view with stackLevel := level })
            sameNode.symm) alike)
      cases level with
      | known depth =>
          simp only [Graph.annotateNodes]
          apply map_bind_congr id
          · rw [deltas]
          · rintro next _ rfl
            exact continues next
      | notComputed => exact continues .notComputed
      | unrecoverable => exact continues .unrecoverable

theorem nodesIn_unlabeled
    (block : Block)
    (same : body.map Node.unlabeled = other.map Node.unlabeled) :
    (block.nodesIn body).map (List.map Node.unlabeled) =
      (block.nodesIn other).map (List.map Node.unlabeled) := by
  have length : body.length = other.length := by
    simpa using congrArg List.length same
  unfold Block.nodesIn
  rw [length]
  split
  next => exact congrArg Except.ok (block.map_nodes_congr same)
  next => rfl

theorem annotateBlock_unlabeled
    (block : Block)
    (same : body.map Node.unlabeled = other.map Node.unlabeled) :
    (Graph.annotateBlock body block).map (List.map Node.unlabeled) =
      (Graph.annotateBlock other block).map (List.map Node.unlabeled) := by
  apply map_bind_congr (List.map Node.unlabeled) (nodesIn_unlabeled block same)
  intro own own' alikeOwn
  apply map_bind_congr (List.map Node.unlabeled)
    (annotateNodes_unlabeled block.level alikeOwn)
  intro nodes nodes' alike
  apply congrArg Except.ok
  simp only [List.map_append, List.map_take, List.map_drop, same, alike]

theorem annotateLevels_unlabeled
    (graph : Graph)
    (same : body.map Node.unlabeled = other.map Node.unlabeled) :
    (graph.annotateLevels body).map (List.map Node.unlabeled) =
      (graph.annotateLevels other).map (List.map Node.unlabeled) :=
  map_foldlM_congr (fun _ _ block alike => annotateBlock_unlabeled block alike)
    _ same

theorem collect_unlabeled
    (same : body.map Node.unlabeled = other.map Node.unlabeled) :
    FrameSlots.collect body = FrameSlots.collect other := by
  apply eq_of_map_unlabeled FrameSlots.collect _ same
  intro nodes
  simp only [FrameSlots.collect, List.flatMap_map, Node.slotUses_unlabeled]

end Levels

/-! ## Replay -/

/-- What has been replayed without the labels of calls. -/
def Replayed.unlabeled (replayed : Replayed) : Replayed :=
  { replayed with nodes := replayed.nodes.map Node.unlabeled }

/-- The replay of blocks without the labels of calls. -/
def BlockReplay.unlabeled (state : BlockReplay) : BlockReplay :=
  { state with body := state.body.map Node.unlabeled }

section Replays

variable {first second : Image}

theorem ReplayContext.apply_unlabeled
    (context : ReplayContext)
    (state : ReplayState)
    (node : Node) :
    context.apply node.unlabeled state = context.apply node state := by
  rcases node with ⟨op, first, rest, delta, level, after⟩
  cases op with
  | none => rfl
  | some op =>
      cases op with
      | blob width source direction content => cases direction <;> rfl
      | call destination label routine =>
          cases routine with
          | none => rfl
          | some routine => cases routine <;> rfl
      | _ => rfl

/-- A replay reads the memory of the image and nothing else of it. -/
theorem ReplayContext.apply_congr
    (options : Options)
    (procedure : Nat)
    (reads : second.read = first.read)
    (node : Node)
    (state : ReplayState) :
    ReplayContext.apply { options, image := first, procedure } node state =
      ReplayContext.apply
        { options, image := second, procedure } node state := by
  unfold ReplayContext.apply ReplayContext.constructString
  rw [reads]
  rfl

theorem replay_unlabeled
    (options : Options)
    (procedure : Nat)
    (reads : second.read = first.read)
    {nodes others : List Node}
    (same : nodes.map Node.unlabeled = others.map Node.unlabeled)
    (state : ReplayState) :
    Traced.AgreeBy Replayed.unlabeled
      (replay { options, image := first, procedure } nodes state)
      (replay { options, image := second, procedure } others state) := by
  induction nodes generalizing others state with
  | nil =>
      have empty := List.map_eq_nil_iff.mp same.symm
      subst empty
      exact Traced.agreeBy_pure rfl
  | cons node later hypothesis =>
      rcases List.map_eq_cons_iff.mp same.symm with
        ⟨node', later', rfl, sameNode, sameLater⟩
      have applies :
          ReplayContext.apply { options, image := first, procedure } node
          state =
          ReplayContext.apply { options, image := second, procedure } node'
          state := by
        rw [ReplayContext.apply_congr options procedure reads]
        exact Node.eq_of_unlabeled
          (fun node =>
            ReplayContext.apply { options, image := second, procedure } node
            state)
          (ReplayContext.apply_unlabeled _ state) sameNode.symm
      have checks : ∀ before stack, checkMovement node before stack =
          checkMovement node' before stack := by
        intro before stack
        exact Node.eq_of_unlabeled (fun node =>
          checkMovement node before stack) (fun _ => rfl)
          sameNode.symm
      have starts : node.lo = node'.lo :=
        Node.eq_of_unlabeled Node.lo (fun _ => rfl) sameNode.symm
      rw [replay, replay]
      split
      next =>
        exact Traced.agreeBy_pure
          (congrArg (fun nodes => Replayed.mk nodes state none) same)
      next =>
        apply Traced.agreeBy_bind_of_eq rfl
        intro before
        apply Traced.agreeBy_bind_of_eq applies
        intro next
        apply Traced.agreeBy_bind_of_eq
          (congrArg Traced.ofExcept (checks before next.stack))
        intro _
        apply (hypothesis sameLater.symm next).bind
        intro rest rest' alike
        rcases Replayed.mk.inj alike with ⟨sameNodes, sameState, sameLoss⟩
        apply Traced.agreeBy_pure
        have annotated :
            Node.unlabeled { node with stackAfter := some next.stack.text } =
            Node.unlabeled { node' with stackAfter := some next.stack.text } :=
          congrArg (fun view : Node =>
            { view with stackAfter := some next.stack.text })
            sameNode.symm
        simp only [Replayed.unlabeled, List.map_cons, sameNodes, sameState,
          sameLoss, starts, annotated]

theorem step_unlabeled
    (options : Options)
    (procedure : Nat)
    (reads : second.read = first.read)
    (block : Block)
    {state another : BlockReplay}
    (same : state.unlabeled = another.unlabeled) :
    Traced.AgreeBy BlockReplay.unlabeled
      (BlockReplay.step { options, image := first, procedure } state block)
      (BlockReplay.step { options, image := second, procedure } another
        block) := by
  rcases BlockReplay.mk.inj same with ⟨sameBody, sameSlots, sameLoss⟩
  unfold BlockReplay.step
  rw [sameLoss, sameSlots]
  split
  next stack notLost entered =>
    apply (Traced.agreeBy_ofExcept (nodesIn_unlabeled block sameBody)).bind
    intro own own' sameOwn
    apply (replay_unlabeled options procedure reads sameOwn _).bind
    intro replayed replayed' alike
    rcases Replayed.mk.inj alike with ⟨sameNodes, sameState, sameLost⟩
    have spliced : (state.body.take block.start ++ replayed.nodes ++
        state.body.drop block.stop).map Node.unlabeled =
        (another.body.take block.start ++ replayed'.nodes ++
          another.body.drop block.stop).map Node.unlabeled := by
      simp only [List.map_append, List.map_take, List.map_drop, sameBody,
        sameNodes]
    rw [sameState, sameLost]
    cases replayed'.lostAt with
    | some address =>
        apply Traced.agreeBy_bind_of_eq rfl
        intro _
        apply Traced.agreeBy_pure
        simp only [BlockReplay.unlabeled, spliced]
    | none =>
        apply Traced.agreeBy_pure
        simp only [BlockReplay.unlabeled, spliced]
  next => exact Traced.agreeBy_pure same

theorem replayBlocks_unlabeled
    (options : Options)
    (procedure : Nat)
    (reads : second.read = first.read)
    (graph : Graph)
    (slots : FrameSlots)
    {body other : List Node}
    (same : body.map Node.unlabeled = other.map Node.unlabeled) :
    Traced.AgreeBy BlockReplay.unlabeled
      (replayBlocks { options, image := first, procedure } graph body slots)
      (replayBlocks { options, image := second, procedure } graph other
        slots) := by
  have starts : BlockReplay.unlabeled { body, slots, lostAt := none } =
      BlockReplay.unlabeled { body := other, slots, lostAt := none } := by
    simp only [BlockReplay.unlabeled, same]
  unfold replayBlocks
  split
  next =>
    refine Traced.AgreeBy.foldlM ?_ starts
    intro block _ state another alike
    exact step_unlabeled options procedure reads block alike
  next => exact Traced.agreeBy_pure starts

end Replays

/-! ## The whole analysis -/

theorem literalEvents_unlabeled
    (options : Options)
    {body other : List Node}
    (same : body.map Node.unlabeled = other.map Node.unlabeled) :
    literalEvents options body = literalEvents options other := by
  apply eq_of_map_unlabeled (literalEvents options) _ same
  intro nodes
  unfold literalEvents
  rw [List.flatMap_map]
  split
  next =>
    refine congrArg (fun events => nodes.flatMap events) (funext ?_)
    rintro ⟨op, first, rest, delta, level, after⟩
    cases op with
    | none => rfl
    | some op => cases op <;> rfl
  next => rfl

namespace Procedure

variable {first second : Image}

theorem isTiledBy_unlabeled
    (procedure : Procedure)
    {body other : List Node}
    (same : body.map Node.unlabeled = other.map Node.unlabeled) :
    procedure.isTiledBy body = procedure.isTiledBy other := by
  apply eq_of_map_unlabeled procedure.isTiledBy _ same
  intro nodes
  have starts : Node.lo ∘ Node.unlabeled = Node.lo := rfl
  have ends : Node.hi ∘ Node.unlabeled = Node.hi := rfl
  have abuts : Abutting Node.lo Node.hi (nodes.map Node.unlabeled) ↔
      Abutting Node.lo Node.hi nodes := abutting_map_iff Node.unlabeled nodes
  simp only [isTiledBy, List.head?_map, List.getLast?_map, Option.map_map,
    starts, ends, abuts]

theorem calls_unlabeled
    (caller : Nat)
    {body other : List Node}
    (same : body.map Node.unlabeled = other.map Node.unlabeled) :
    (body.filterMap (Node.callSite? caller)).map CallSite.unlabeled =
      (other.filterMap (Node.callSite? caller)).map CallSite.unlabeled := by
  have viewed : ∀ nodes : List Node,
      (nodes.filterMap (Node.callSite? caller)).map CallSite.unlabeled =
        (nodes.map Node.unlabeled).filterMap (Node.callSite? caller) := by
    intro nodes
    rw [List.map_filterMap, List.filterMap_map]
    apply List.filterMap_congr
    intro node _
    exact (node.callSite?_unlabeled caller).symm
  rw [viewed, same, viewed]

theorem analyzeBody_unlabeled
    (options : Options)
    (shares : first.SharesProgram second)
    (procedure : Procedure)
    (body : List Node) :
    Traced.AgreeBy unlabeled (procedure.analyzeBody options first body)
      (procedure.analyzeBody options second body) := by
  unfold analyzeBody
  apply (recognize_unlabeled options shares procedure.lo body).bind
  intro recognized recognized' sameRecognized
  apply (assignDeltas_unlabeled _ procedure.lo sameRecognized).bind
  intro measured measured' sameMeasured
  apply Traced.agreeBy_bind_of_eq
    (partition_unlabeled procedure.lo sameMeasured)
  intro parts
  apply Traced.agreeBy_bind_of_eq rfl
  intro graph
  apply (Traced.agreeBy_ofExcept
    (annotateLevels_unlabeled graph sameMeasured)).bind
  intro leveled leveled' sameLeveled
  rw [collect_unlabeled sameLeveled]
  apply (replayBlocks_unlabeled options procedure.lo shares.read_eq graph _
    sameLeveled).bind
  intro replayed replayed' alike
  rcases BlockReplay.mk.inj alike with ⟨sameBody, sameSlots, sameLost⟩
  apply Traced.agreeBy_bind_of_eq
    (congrArg Traced.emit (literalEvents_unlabeled options sameBody))
  intro _
  have length : replayed.body.length = replayed'.body.length := by
    simpa using congrArg List.length sameBody
  have calls := calls_unlabeled procedure.lo sameBody
  have count : (replayed.body.filterMap (Node.callSite? procedure.lo)).length =
      (replayed'.body.filterMap (Node.callSite? procedure.lo)).length := by
    simpa using congrArg List.length calls
  rw [procedure.isTiledBy_unlabeled sameBody]
  split
  next =>
    dsimp only
    rw [length, count, sameSlots]
    apply Traced.agreeBy_bind_of_eq rfl
    intro _
    apply Traced.agreeBy_pure
    simp only [unlabeled, sameBody, calls, sameLost]
  next => exact .of_eq rfl

/--
In two images of the same program the analysis of a procedure leaves the same
events behind and ends the same way, apart from the labels of calls.
-/
theorem analyze_unlabeled
    (options : Options)
    (shares : first.SharesProgram second)
    (procedure : Procedure) :
    Traced.AgreeBy unlabeled (procedure.analyze options first)
      (procedure.analyze options second) := by
  unfold analyze
  split
  next => exact .of_eq rfl
  next => exact .of_eq rfl
  next =>
    apply Traced.agreeBy_bind_of_eq rfl
    intro _
    rw [Idiom.matchPrologue_congr first second]
    apply Traced.agreeBy_bind_of_eq rfl
    intro matched
    cases matched with
    | some body => exact analyzeBody_unlabeled options shares procedure body
    | none => exact .of_eq rfl

end Procedure

end ProcRecovery
