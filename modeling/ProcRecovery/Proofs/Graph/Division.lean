import ProcRecovery.Proofs.Emission
import ProcRecovery.Proofs.Graph.Tiling

/-!
# What a division into blocks is

The blocks of a body are the stretches between its leaders, so every node but
the last of a block just falls through, and every destination of a branch
starts a block.  The edges of the graph are the ways out of the last nodes that
lead to nodes of the body.  All other ways out of them are reported, except
falling off the end of the body.
-/

namespace ProcRecovery

/-- The ways in which control leaves a node for good. -/
def Node.ways (node : Node) : List Flow :=
  node.flow.filter (fun way => way.kind ≠ .call)

namespace Graph

/--
Whether control gets lost on a way out: no node starts where it leads to, and
it does not just fall off the end of the body.
-/
def isLost (body : List Node) (way : Flow) : Bool :=
  match way.destination with
  | some target =>
    !startsNode body target &&
      !(way.kind = .normal && body.getLast?.map Node.hi = some target)
  | none => true

/--
The ways out of a node on which control gets lost, each with the address of the
node.
-/
def lostFrom (body : List Node) (node : Node) : List (Nat × Option Nat) :=
  node.ways.filterMap (fun way =>
    if isLost body way then some (node.lo, way.destination) else none)

/-- The nodes of a body that control goes to from a node. -/
def targetsFrom (body : List Node) (node : Node) : List Nat :=
  node.ways.filterMap (fun way => way.destination.filter (startsNode body))

/-- The report of a way on which control gets lost. -/
def lostEvent (procedure : Nat) (lost : Nat × Option Nat) : Event :=
  .diagnosed procedure (.missingFlowTarget lost.1 lost.2)

theorem startsNode_iff {body : List Node} {address : Nat} :
    startsNode body address = true ↔ ∃ node ∈ body, node.lo = address := by
  simp [startsNode]

theorem isLost_iff {body : List Node} {way : Flow} :
    isLost body way = true ↔ ∀ target, way.destination = some target →
      startsNode body target = false ∧
        ¬ (way.kind = .normal ∧ body.getLast?.map Node.hi = some target) := by
  unfold isLost
  cases way.destination with
  | none => simp
  | some target =>
      simp only [Bool.and_eq_true, Bool.not_eq_true', Bool.and_eq_false_iff,
        decide_eq_false_iff_not, Option.some.injEq, forall_eq', ← not_and_or]

/-! ## Ways out of a block -/

/-- The ways out of a block are those of its last node. -/
theorem exits_eq
    {body : List Node} {procedure : Nat} {block : Block} {tail last : Node}
    (isTail : (block.nodes body).getLast? = some tail)
    (isLast : body.getLast? = some last) :
    exits body procedure block =
      ⟨(lostFrom body tail).map (lostEvent procedure),
        .ok
        ((targetsFrom body tail).map (fun target => (block.lo, target)))⟩ := by
  simp only [exits, isTail, isLast]
  rw [← Node.ways, lostFrom, targetsFrom, List.map_filterMap,
    List.map_filterMap, List.filterMap_eq_flatMap_toList,
    List.filterMap_eq_flatMap_toList, Traced.foldlM_gathering]
  · rfl
  · intro gathered way
    cases leads : way.destination with
    | none =>
        simp [isLost, leads, lostEvent, Traced.bind_eq, Traced.bind,
          Traced.report, Traced.emit, Traced.pure_eq]
    | some target =>
        by_cases starts : startsNode body target = true
        · simp [isLost, leads, starts, Traced.pure_eq, Option.filter]
        · rw [Bool.not_eq_true] at starts
          by_cases falls : way.kind = .normal ∧ target = last.hi
          · rcases falls with ⟨normal, rfl⟩
            simp [isLost, leads, starts, normal, isLast, Traced.pure_eq,
              Option.filter]
          · have lost : isLost body way = true := by
              rw [isLost_iff]
              rintro other isOther
              rw [leads] at isOther
              cases isOther
              refine ⟨starts, ?_⟩
              rintro ⟨normal, same⟩
              rw [isLast] at same
              exact falls ⟨normal, (Option.some.inj same).symm⟩
            simp [lost, starts, falls, lostEvent, Traced.bind_eq, Traced.bind,
              Traced.report, Traced.emit, Traced.pure_eq, Option.filter]

/-! ## Leaders -/

/-- A position that is no leader comes after a node that just falls through. -/
theorem fallsThroughOnly_of_not_mem_leadersFrom
    {targets : List Nat} {position : Nat} {fellThrough : Bool}
    {nodes : List Node} {index : Nat} {node : Node}
    (found : nodes[index]? = some node)
    (within : index + 1 < nodes.length)
    (isNone : position + (index + 1) ∉
      leadersFrom targets position fellThrough nodes) :
    node.fallsThroughOnly = true := by
  induction nodes generalizing position fellThrough index with
  | nil => cases found
  | cons first later hypothesis =>
      have notLater : position + (index + 1) ∉
          leadersFrom targets (position + 1) first.fallsThroughOnly later := by
        intro member
        apply isNone
        rw [leadersFrom]
        split
        next => exact List.mem_cons_of_mem _ member
        next => exact member
      cases index with
      | succ index =>
          rw [List.getElem?_cons_succ] at found
          rw [List.length_cons] at within
          apply hypothesis found (by omega)
          rwa [show position + 1 + (index + 1) =
            position + (index + 1 + 1) by omega]
      | zero =>
          cases found
          cases later with
          | nil => simp at within
          | cons second others =>
              by_contra bent
              rw [Bool.not_eq_true] at bent
              apply notLater
              rw [leadersFrom, bent]
              simp

/-- A node that a branch or jump goes to is a leader. -/
theorem mem_leadersFrom_of_target
    {targets : List Nat} {position : Nat} {fellThrough : Bool}
    {nodes : List Node} {index : Nat} {node : Node}
    (found : nodes[index]? = some node)
    (isTarget : node.lo ∈ targets) :
    position + index ∈ leadersFrom targets position fellThrough nodes := by
  induction nodes generalizing position fellThrough index with
  | nil => cases found
  | cons first later hypothesis =>
      rw [leadersFrom]
      cases index with
      | zero =>
          cases found
          simp [isTarget]
      | succ index =>
          rw [List.getElem?_cons_succ] at found
          have isLater : position + 1 + index ∈
              leadersFrom targets (position + 1) first.fallsThroughOnly
              later := hypothesis found
          rw [show position + 1 + index = position + (index + 1) by omega]
            at isLater
          split
          next => exact List.mem_cons_of_mem _ isLater
          next => exact isLater

/-- A span goes from one leader to the next, or to the end. -/
theorem mem_spans
    {stop : Nat} {leads : List Nat}
    (ascending : leads.Pairwise (· < ·))
    {span : Nat × Nat}
    (member : span ∈ spans stop leads) :
    span.1 ∈ leads ∧ (span.2 ∈ leads ∨ span.2 = stop) ∧
      ∀ leader ∈ leads, leader ≤ span.1 ∨ span.2 ≤ leader := by
  fun_induction spans stop leads with
  | case1 => cases member
  | case2 last =>
      rw [List.mem_singleton.mp member]
      simp
  | case3 first second later hypothesis =>
      rcases List.pairwise_cons.mp ascending with ⟨below, laterAscending⟩
      rcases List.mem_cons.mp member with rfl | isLater
      · refine ⟨by simp, .inl (by simp), ?_⟩
        have above := (List.pairwise_cons.mp laterAscending).1
        rintro leader isLeader
        rcases List.mem_cons.mp isLeader with rfl | isLater
        · exact .inl (Nat.le_refl _)
        · rcases List.mem_cons.mp isLater with rfl | isBeyond
          · exact .inr (Nat.le_refl _)
          · exact .inr (Nat.le_of_lt (above leader isBeyond))
      · rcases hypothesis laterAscending isLater with ⟨starts, ends, apart⟩
        refine ⟨List.mem_cons_of_mem first starts,
          ends.imp_left (List.mem_cons_of_mem first), ?_⟩
        rw [List.forall_mem_cons]
        exact ⟨.inl (Nat.le_of_lt (below span.1 starts)), apart⟩

/-- Every leader starts a span. -/
theorem exists_span_of_mem
    {stop : Nat} {leads : List Nat} {leader : Nat}
    (member : leader ∈ leads) :
    ∃ span ∈ spans stop leads, span.1 = leader := by
  fun_induction spans stop leads with
  | case1 => cases member
  | case2 last =>
      exact ⟨(last, stop), List.mem_singleton_self _,
        (List.mem_singleton.mp member).symm⟩
  | case3 first second later hypothesis =>
      rcases List.mem_cons.mp member with rfl | isLater
      · exact ⟨_, List.mem_cons_self, rfl⟩
      · rcases hypothesis isLater with ⟨span, isSpan, starts⟩
        exact ⟨span, List.mem_cons_of_mem _ isSpan, starts⟩

/-! ## Edges -/

/--
A block of a graph under an address, after edges have been added to the graph.
-/
structure Joins
    (edges : List (Nat × Nat))
    (address : Nat)
    (before after : Block) :
    Prop where
  extent_eq : after.extent = before.extent
  mem_successors : ∀ target, target ∈ after.successors ↔
    target ∈ before.successors ∨ (address, target) ∈ edges
  mem_predecessors : ∀ source, source ∈ after.predecessors ↔
    source ∈ before.predecessors ∨ (source, address) ∈ edges

theorem mem_appendNew
    {α : Type} [DecidableEq α] {items : List α} {item other : α} :
    other ∈ appendNew items item ↔ other ∈ items ∨ other = item := by
  unfold appendNew
  split
  next present =>
    constructor
    · exact .inl
    · rintro (old | rfl)
      · exact old
      · exact present
  next => simp

theorem get?_addEdge
    {graph : Graph} {source target address : Nat} {after : Block}
    (found : (graph.addEdge source target).blocks.get? address = some after) :
    ∃ before, graph.blocks.get? address = some before ∧
      Joins [(source, target)] address before after := by
  simp only [addEdge, Table.get?_modify] at found
  cases present : graph.blocks.get? address with
  | none => simp [present] at found
  | some before =>
      have same : after =
          { before with
            successors :=
              if address = source then appendNew before.successors target
                else before.successors
            predecessors :=
              if address = target then appendNew before.predecessors source
              else before.predecessors } := by
        rw [present] at found
        split at found <;> split at found <;> cases found <;> simp_all
      subst same
      refine ⟨before, rfl, rfl, ?_, ?_⟩
      · intro other
        by_cases isSource : address = source <;> simp [isSource, mem_appendNew]
      · intro other
        by_cases isTarget : address = target <;> simp [isTarget, mem_appendNew]

theorem get?_foldl_addEdge
    {graph : Graph} {edges : List (Nat × Nat)} {address : Nat} {after : Block}
    (found :
      (edges.foldl (fun graph edge => graph.addEdge edge.1 edge.2)
        graph).blocks.get? address = some after) :
    ∃ before, graph.blocks.get? address = some before ∧
      Joins edges address before after := by
  induction edges generalizing graph with
  | nil => exact ⟨after, found, rfl, by simp, by simp⟩
  | cons edge later hypothesis =>
      rcases edge with ⟨origin, goal⟩
      rcases hypothesis found with ⟨middle, inMiddle, fromMiddle⟩
      rcases get?_addEdge inMiddle with ⟨before, inBefore, fromBefore⟩
      refine ⟨before, inBefore,
        fromMiddle.extent_eq.trans fromBefore.extent_eq, ?_, ?_⟩
      · intro target
        simp [fromMiddle.mem_successors, fromBefore.mem_successors, or_assoc]
      · intro source
        simp [fromMiddle.mem_predecessors, fromBefore.mem_predecessors,
          or_assoc]

/-! ## Divisions -/

/-- The ways on which control gets lost at the end of a block. -/
def lostAfter (body : List Node) (block : Block) : List (Nat × Option Nat) :=
  (block.nodes body).getLast?.toList.flatMap (lostFrom body)

/-- The edges that leave a block. -/
def edgesAfter (body : List Node) (block : Block) : List (Nat × Nat) :=
  ((block.nodes body).getLast?.toList.flatMap (targetsFrom body)).map
    (fun target => (block.lo, target))

/-- The blocks of a tiling under their addresses, joined by their edges. -/
def joined (entry : Nat) (body : List Node) (blocks : List Block) : Graph :=
  ofEdges entry (Table.ofList (blocks.map (fun block => (block.lo, block))))
    (blocks.flatMap (edgesAfter body))

theorem mem_edgesAfter
    {body : List Node} {block : Block} {source target : Nat} :
    (source, target) ∈ edgesAfter body block ↔
      block.lo = source ∧ ∃ tail, (block.nodes body).getLast? = some tail ∧
        target ∈ targetsFrom body tail := by
  simp only [edgesAfter, List.mem_map, List.mem_flatMap, Option.mem_toList,
    Prod.mk.injEq]
  constructor
  · rintro ⟨other, leads, rfl, rfl⟩
    exact ⟨rfl, leads⟩
  · rintro ⟨rfl, leads⟩
    exact ⟨target, leads, rfl, rfl⟩

theorem getLast?_nodes
    {body : List Node} {block : Block}
    (proper : block.start < block.stop)
    (within : block.stop ≤ body.length) :
    (block.nodes body).getLast? = body[block.stop - 1]? :=
  getLast?_slice proper within

/-- The block of a span of a body, before it has edges. -/
structure IsBareBlockOf
    (body : List Node)
    (span : Nat × Nat)
    (block : Block) :
    Prop extends IsBlockOf body span block where
  successors_eq : block.successors = []
  predecessors_eq : block.predecessors = []

theorem delivers_bareBlockOf
    {body : List Node} {span : Nat × Nat}
    (proper : span.1 < span.2)
    (within : span.2 ≤ body.length) :
    Delivers (blockOf body span)
      (IsBareBlockOf body span) (fun _ => True) := by
  apply delivers_of_outcome
  · intro block isBlock
    refine ⟨(delivers_blockOf proper within).of_ok isBlock, ?_, ?_⟩
    all_goals
      simp only [blockOf] at isBlock
      split at isBlock
      next =>
        rcases bind_eq_ok_iff.mp isBlock with ⟨delta, -, same⟩
        cases same
        rfl
      next => cases isBlock
  · intro fault _
    trivial

/-- Blocks that have been built of all spans between leaders. -/
theorem areBareBlocks_of_built
    {first : Node} {later : List Node} {blocks : List Block}
    (built :
      (spans (first :: later).length (leaders (first :: later))).mapM
        (blockOf (first :: later)) = .ok blocks) :
    List.Forall₂ (IsBareBlockOf (first :: later))
      (spans (first :: later).length (leaders (first :: later))) blocks := by
  have each :
      ∀ span ∈ spans (first :: later).length (leaders (first :: later)),
      Delivers (blockOf (first :: later) span)
      (IsBareBlockOf (first :: later) span)
        (fun _ => True) := by
    intro span member
    rcases (consecutive_leaders first later).within.2 span member with
      ⟨proper, within⟩
    exact delivers_bareBlockOf proper within
  exact (Delivers.mapM each).of_ok built

/-- What is found of the ways out of a block of a tiling. -/
theorem exits_eq_of_tilesFrom
    {first : Node} {later : List Node} {blocks : List Block}
    (procedure : Nat)
    (tiled : tilesFrom (first :: later) 0 blocks = true)
    {block : Block}
    (member : block ∈ blocks) :
    exits (first :: later) procedure block =
      ⟨(lostAfter (first :: later) block).map (lostEvent procedure),
        .ok (edgesAfter (first :: later) block)⟩ := by
  rcases (within_of_tilesFrom tiled).2 block member with ⟨-, proper, within, -⟩
  have isTail := getLast?_nodes proper within
  rw [List.getElem?_eq_getElem (by omega)] at isTail
  rw [exits_eq isTail
    (List.getLast?_eq_some_getLast (List.cons_ne_nil first later)), lostAfter,
    edgesAfter, isTail]
  simp

/--
A partition that comes to its end has made the blocks of the spans between
leaders, joined them by their edges, and reported the ways that lead nowhere.
-/
theorem partition_finishes
    {first : Node} {later : List Node} {procedure : Nat} {events : List Event}
    {graph : Graph}
    (ascending :
      (first :: later).Pairwise (fun earlier later => earlier.lo < later.lo))
    (finished : (partition (first :: later) procedure).Finishes events graph) :
    ∃ blocks,
      List.Forall₂ (IsBareBlockOf (first :: later))
        (spans (first :: later).length (leaders (first :: later))) blocks ∧
      tilesFrom (first :: later) 0 blocks = true ∧
      graph.tiles (first :: later) = true ∧
      events = (blocks.flatMap (lostAfter (first :: later))).map
        (lostEvent procedure) ∧
      graph = joined first.lo (first :: later) blocks := by
  have consecutive := consecutive_leaders first later
  simp only [partition, Traced.finishes_bind_iff] at finished
  rcases finished with
    ⟨none, blocks, _, isBuilt, ⟨reports, edges, nothing, isJoined, isEnd, rfl⟩,
      rfl⟩
  rcases Traced.finishes_ofExcept_iff.mp isBuilt with ⟨rfl, built⟩
  have areBlocks := areBareBlocks_of_built built
  have tiled :=
    tilesFrom_of_consecutive consecutive
      (areBlocks.imp (fun _ _ bare => bare.toIsBlockOf))
  rw [values_ofList_blocks (ascending_of_tilesFrom ascending tiled)]
    at isJoined
  rw [Traced.mapM_of_forall _ _
    (fun _ => exits_eq_of_tilesFrom procedure tiled)] at isJoined
  cases isJoined.outcome_eq
  cases isJoined.events_eq
  split at isEnd
  next graphTiled =>
    rcases Traced.finishes_pure_iff.mp isEnd with ⟨rfl, rfl⟩
    refine ⟨blocks, areBlocks, tiled, graphTiled, ?_, ?_⟩
    · simp [List.map_flatMap]
    · rw [joined, ofEdges, List.flatMap_def]
  next => cases isEnd.outcome_eq

theorem mem_targetsFrom {body : List Node} {node : Node} {target : Nat} :
    target ∈ targetsFrom body node ↔
      ∃ way ∈ node.flow, way.kind ≠ .call ∧ way.destination = some target ∧
        startsNode body target = true := by
  simp [targetsFrom, Node.ways, Option.filter_eq_some_iff, and_assoc]

theorem mem_jumpTargets
    {body : List Node} {node : Node}
    (member : node ∈ body)
    {way : Flow}
    (isWay : way ∈ node.flow)
    (noCall : way.kind ≠ .call)
    (jumps : way.kind ≠ .normal)
    {target : Nat}
    (leads : way.destination = some target) :
    target ∈ jumpTargets body := by
  refine List.mem_flatMap.mpr ⟨node, member,
    List.mem_filterMap.mpr ⟨way, isWay, ?_⟩⟩
  split
  next => exact leads
  next => exact leads
  next normal => exact absurd normal jumps
  next isCall => exact absurd isCall noCall

/-- What the graph of a body has to do with the body. -/
structure IsDivision (body : List Node) (graph : Graph) : Prop where
  tiled : graph.tiles body = true
  keyed : ∀ address block, graph.blocks.get? address = some block →
    block.lo = address
  /-- Every node but the last of a block just falls through. -/
  inner : ∀ address block, graph.blocks.get? address = some block →
    ∀ position node, block.start ≤ position → position + 1 < block.stop →
      body[position]? = some node → node.fallsThroughOnly = true
  /-- The last node of a block decides where control goes. -/
  mem_successors : ∀ address block, graph.blocks.get? address = some block →
    ∀ target, target ∈ block.successors ↔
      ∃ tail, body[block.stop - 1]? = some tail ∧
      target ∈ targetsFrom body tail
  mem_predecessors : ∀ address block, graph.blocks.get? address = some block →
    ∀ source, source ∈ block.predecessors ↔
      ∃ other, graph.blocks.get? source = some other ∧
      address ∈ other.successors
  closed : ∀ address block, graph.blocks.get? address = some block →
    ∀ target ∈ block.successors, graph.blocks.contains target = true

section Dividing

variable {body : List Node}

/--
Two positions of a body whose nodes start at the same address are the same.
-/
theorem position_unique
    (ascending : body.Pairwise (fun earlier later => earlier.lo < later.lo))
    {first second : Nat} {firstNode secondNode : Node}
    (isFirst : body[first]? = some firstNode)
    (isSecond : body[second]? = some secondNode)
    (same : firstNode.lo = secondNode.lo) :
    first = second := by
  rcases List.getElem?_eq_some_iff.mp isFirst with ⟨firstBound, rfl⟩
  rcases List.getElem?_eq_some_iff.mp isSecond with ⟨secondBound, rfl⟩
  have below := List.pairwise_iff_getElem.mp ascending
  rcases Nat.lt_trichotomy first second with less | equal | greater
  · have lower := below first second firstBound secondBound less
    omega
  · exact equal
  · have lower := below second first secondBound firstBound greater
    omega

/-- The node after a node starts where that one ends. -/
theorem lo_of_succ
    (abuts : Abutting Node.lo Node.hi body)
    {position : Nat} {node next : Node}
    (isNode : body[position]? = some node)
    (isNext : body[position + 1]? = some next) :
    next.lo = node.hi := by
  induction body generalizing position with
  | nil => cases isNode
  | cons first later hypothesis =>
      cases position with
      | zero =>
          cases isNode
          cases later with
          | nil => cases isNext
          | cons second others =>
              cases isNext
              exact abuts.1.symm
      | succ position => exact hypothesis abuts.tail isNode isNext

/--
A body whose nodes abut, none of them empty, and each with its own end to fall
through to.
-/
structure IsLaidOut (body : List Node) : Prop where
  abuts : Abutting Node.lo Node.hi body
  proper : ∀ node ∈ body, node.lo < node.hi
  falls : ∀ node ∈ body, ∀ way ∈ node.flow, way.kind = .normal →
    way.destination = some node.hi

theorem IsLaidOut.ascending (laidOut : IsLaidOut body) :
    body.Pairwise (fun earlier later => earlier.lo < later.lo) :=
  laidOut.abuts.ascending laidOut.proper

/-- No node starts at the end of the last one. -/
theorem IsLaidOut.lo_lt_end
    (laidOut : IsLaidOut body)
    {last : Node}
    (isLast : body.getLast? = some last)
    {node : Node}
    (member : node ∈ body) :
    node.lo < last.hi := by
  have proper := laidOut.proper node member
  have isFirst := List.head?_eq_some_head (List.ne_nil_of_mem member)
  have bounds := laidOut.abuts.within laidOut.proper isFirst isLast node member
  omega

/--
Inside a block every node just falls through, for what follows it is no leader.
-/
theorem fallsThroughOnly_of_inside
    {stop : Nat} {blocks : List Block}
    (areBlocks :
      List.Forall₂ (IsBareBlockOf body) (spans stop (leaders body)) blocks)
    {block : Block}
    (member : block ∈ blocks)
    {position : Nat} {node : Node}
    (atLeast : block.start ≤ position)
    (below : position + 1 < block.stop)
    (within : position + 1 < body.length)
    (isNode : body[position]? = some node) :
    node.fallsThroughOnly = true := by
  rcases exists_of_mem_right areBlocks member with ⟨span, isSpan, isBare⟩
  rw [isBare.start_eq] at atLeast
  rw [isBare.stop_eq] at below
  apply fallsThroughOnly_of_not_mem_leadersFrom isNode within
  intro isLeader
  rw [Nat.zero_add] at isLeader
  rcases (mem_spans (leadersFrom_ascending _ _ _ _) isSpan).2.2 _ isLeader with
    low | high
  · omega
  · omega

/-- The block that starts at a leader. -/
theorem exists_block_of_leader
    {blocks : List Block}
    (ascending : blocks.Pairwise (fun earlier later => earlier.lo < later.lo))
    (areBlocks :
      List.Forall₂ (IsBareBlockOf body) (spans body.length (leaders body))
        blocks)
    {position : Nat}
    (leads : position ∈ leaders body)
    {node : Node}
    (isNode : body[position]? = some node) :
    ∃ block, (Table.ofList (blocks.map (fun block => (block.lo, block)))).get?
      node.lo =
      some block := by
  rcases exists_span_of_mem leads with ⟨span, isSpan, rfl⟩
  rcases exists_of_mem_left areBlocks isSpan with ⟨block, isBlock, bare⟩
  have same : node.lo = block.lo := by
    have starts := bare.lo_eq
    rw [isNode] at starts
    exact Option.some.inj starts
  refine ⟨block, ?_⟩
  rw [Table.get?_eq_some_iff,
    Table.entries_ofList (List.pairwise_map.mpr ascending), same]
  exact List.mem_map_of_mem isBlock

/--
Where the last node of a block leads to in the body, a block starts: the
destination of a jump is a leader, and the next node is one because the block
ends before it.
-/
theorem exists_block_of_target
    (laidOut : IsLaidOut body)
    {blocks : List Block}
    (ascending : blocks.Pairwise (fun earlier later => earlier.lo < later.lo))
    (areBlocks :
      List.Forall₂ (IsBareBlockOf body) (spans body.length (leaders body))
        blocks)
    {span : Nat × Nat}
    (isSpan : span ∈ spans body.length (leaders body))
    {tail : Node}
    (isTail : body[span.2 - 1]? = some tail)
    (proper : span.1 < span.2)
    {target : Nat}
    (leads : target ∈ targetsFrom body tail) :
    ∃ block, (Table.ofList (blocks.map (fun block => (block.lo, block)))).get?
      target =
      some block := by
  rcases mem_targetsFrom.mp leads with
    ⟨way, isWay, noCall, isDestination, starts⟩
  rcases startsNode_iff.mp starts with ⟨node, isNode, rfl⟩
  rcases List.getElem?_of_mem isNode with ⟨position, atPosition⟩
  have tailMember := List.mem_of_getElem? isTail
  apply exists_block_of_leader ascending areBlocks _ atPosition
  by_cases normal : way.kind = .normal
  · have same : node.lo = tail.hi := by
      have ends := laidOut.falls tail tailMember way isWay normal
      rw [isDestination] at ends
      exact Option.some.inj ends
    rcases (mem_spans (leadersFrom_ascending _ _ _ _) isSpan).2.1 with
      isLeader | isEnd
    · have within := (leadersFrom_within isLeader).2
      rw [Nat.zero_add] at within
      have isNext : body[span.2 - 1 + 1]? = some body[span.2] := by
        rw [show span.2 - 1 + 1 = span.2 by omega]
        exact List.getElem?_eq_getElem within
      have next := lo_of_succ laidOut.abuts isTail isNext
      rw [show span.2 - 1 + 1 = span.2 by omega] at isNext
      rw [position_unique laidOut.ascending atPosition isNext
        (same.trans next.symm)]
      exact isLeader
    · have isLast : body.getLast? = some tail := by
        rw [List.getLast?_eq_getElem?, ← isEnd]
        exact isTail
      have below := laidOut.lo_lt_end isLast isNode
      omega
  · have leader : 0 + position ∈ leaders body :=
      mem_leadersFrom_of_target atPosition
        (mem_jumpTargets tailMember isWay noCall normal isDestination)
    rwa [Nat.zero_add] at leader

theorem get?_ofList_blocks
    {blocks : List Block}
    (ascending : blocks.Pairwise (fun earlier later => earlier.lo < later.lo))
    {address : Nat} {block : Block} :
    (Table.ofList (blocks.map (fun block => (block.lo, block)))).get? address =
      some block ↔
      block ∈ blocks ∧ block.lo = address := by
  rw [Table.get?_eq_some_iff,
    Table.entries_ofList (List.pairwise_map.mpr ascending)]
  simp [and_comm, eq_comm]

/-- The edges that leave the address of a block are those of the block. -/
theorem mem_edges_iff
    {blocks : List Block}
    (ascending : blocks.Pairwise (fun earlier later => earlier.lo < later.lo))
    {block : Block}
    (member : block ∈ blocks)
    {target : Nat} :
    (block.lo, target) ∈ blocks.flatMap (edgesAfter body) ↔
      ∃ tail, (block.nodes body).getLast? = some tail ∧
        target ∈ targetsFrom body tail := by
  rw [List.mem_flatMap]
  constructor
  · rintro ⟨other, isOther, isEdge⟩
    rcases mem_edgesAfter.mp isEdge with ⟨same, leads⟩
    have isBlock := (get?_ofList_blocks ascending).mpr ⟨member, rfl⟩
    rw [(get?_ofList_blocks ascending).mpr ⟨isOther, same⟩] at isBlock
    cases isBlock
    exact leads
  · intro leads
    exact ⟨block, member, mem_edgesAfter.mpr ⟨rfl, leads⟩⟩

/--
A block with its edges is one of the blocks of the tiling, and its edges are
those of the tiling.
-/
theorem get?_joined
    {blocks : List Block} {entry address : Nat}
    (ascending : blocks.Pairwise (fun earlier later => earlier.lo < later.lo))
    (bare : ∀ block ∈ blocks, block.successors = [] ∧ block.predecessors = [])
    {after : Block}
    (found : (joined entry body blocks).blocks.get? address = some after) :
    ∃ before ∈ blocks, before.lo = address ∧ after.lo = address ∧
      after.start = before.start ∧ after.stop = before.stop ∧
      (∀ target, target ∈ after.successors ↔
        (address, target) ∈ blocks.flatMap (edgesAfter body)) ∧
      (∀ source, source ∈ after.predecessors ↔
        (source, address) ∈ blocks.flatMap (edgesAfter body)) := by
  rcases get?_foldl_addEdge found with ⟨before, inTable, joins⟩
  rcases (get?_ofList_blocks ascending).mp inTable with ⟨member, same⟩
  rcases bare before member with ⟨noSuccessors, noPredecessors⟩
  have extent := joins.extent_eq
  simp only [Block.extent, Prod.mk.injEq] at extent
  rcases extent with ⟨sameLo, -, sameStart, sameStop⟩
  refine ⟨before, member, same, sameLo.trans same, sameStart, sameStop, ?_, ?_⟩
  · intro target
    rw [joins.mem_successors, noSuccessors]
    simp
  · intro source
    rw [joins.mem_predecessors, noPredecessors]
    simp

/-- A partition divides its body. -/
theorem isDivision_of_partition
    (laidOut : IsLaidOut body)
    {procedure : Nat} {events : List Event} {graph : Graph}
    (finished : (partition body procedure).Finishes events graph)
    (nonempty : body ≠ []) :
    IsDivision body graph := by
  rcases List.exists_cons_of_ne_nil nonempty with ⟨first, later, rfl⟩
  rcases partition_finishes laidOut.ascending finished with
    ⟨blocks, areBlocks, tiled, graphTiled, -, rfl⟩
  have ascending := ascending_of_tilesFrom laidOut.ascending tiled
  have edgeless : ∀ block ∈ blocks, block.successors = [] ∧
      block.predecessors = [] := by
    intro block member
    rcases exists_of_mem_right areBlocks member with ⟨span, -, isBare⟩
    exact ⟨isBare.successors_eq, isBare.predecessors_eq⟩
  have tail : ∀ block ∈ blocks,
      (block.nodes (first :: later)).getLast? =
        (first :: later)[block.stop - 1]? := by
    intro block member
    rcases (within_of_tilesFrom tiled).2 block member with
      ⟨-, proper, within, -⟩
    exact getLast?_nodes proper within
  have present :
      ∀ address, (joined first.lo (first :: later) blocks).blocks.contains
        address =
      (Table.ofList (blocks.map (fun block => (block.lo, block)))).contains
      address :=
    (foldl_addEdge _ _).2.2.2
  refine ⟨graphTiled, ?_, ?_, ?_, ?_, ?_⟩
  · intro address block found
    rcases get?_joined ascending edgeless found with ⟨before, -, -, sameLo, -⟩
    exact sameLo
  · intro address block found position node atLeast below isNode
    rcases get?_joined ascending edgeless found with
      ⟨before, member, -, -, sameStart, sameStop, -⟩
    have within := ((within_of_tilesFrom tiled).2 before member).2.2.1
    exact fallsThroughOnly_of_inside areBlocks member (by omega) (by omega)
      (by omega) isNode
  · intro address block found target
    rcases get?_joined ascending edgeless found with
      ⟨before, member, rfl, -, -, sameStop, successors, -⟩
    rw [successors, mem_edges_iff ascending member, tail before member,
      sameStop]
  · intro address block found source
    rcases get?_joined ascending edgeless found with
      ⟨-, -, -, -, -, -, -, predecessors⟩
    rw [predecessors]
    constructor
    · intro isEdge
      rcases List.mem_flatMap.mp isEdge with ⟨other, isOther, isLeaving⟩
      rcases mem_edgesAfter.mp isLeaving with ⟨sameLo, -⟩
      have isPresent := present source
      rw [Table.contains, Table.contains,
        (get?_ofList_blocks ascending).mpr ⟨isOther, sameLo⟩,
        Option.isSome_some] at isPresent
      rcases Option.isSome_iff_exists.mp isPresent with ⟨after, isAfter⟩
      rcases get?_joined ascending edgeless isAfter with
        ⟨-, -, -, -, -, -, successors, -⟩
      exact ⟨after, isAfter, (successors address).mpr isEdge⟩
    · rintro ⟨other, isOther, leads⟩
      rcases get?_joined ascending edgeless isOther with
        ⟨-, -, -, -, -, -, successors, -⟩
      exact (successors address).mp leads
  · intro address block found target leads
    rcases get?_joined ascending edgeless found with
      ⟨before, member, rfl, -, -, -, successors, -⟩
    rw [successors, mem_edges_iff ascending member] at leads
    rcases leads with ⟨last, isLast, isTarget⟩
    rcases exists_of_mem_right areBlocks member with ⟨span, isSpan, isBare⟩
    rw [tail before member, isBare.stop_eq] at isLast
    have proper := ((consecutive_leaders first later).within.2 span isSpan).1
    rcases exists_block_of_target laidOut ascending areBlocks isSpan isLast
      proper isTarget with
      ⟨block, isBlock⟩
    rw [present, Table.contains, isBlock]
    rfl

/-! ## Reports -/

/-- All ways on which control gets lost in a body. -/
def lostWays (body : List Node) : List (Nat × Option Nat) :=
  body.flatMap (lostFrom body)

theorem eq_of_fallsThroughOnly
    {node : Node}
    (falls : node.fallsThroughOnly = true)
    {way : Flow}
    (isWay : way ∈ node.ways) :
    way = ⟨.normal, some node.hi⟩ := by
  simp only [Node.fallsThroughOnly, Bool.and_eq_true, List.all_eq_true,
    decide_eq_true_eq] at falls
  exact falls.1 way isWay

/-- Nothing gets lost where a node just falls through to the next one. -/
theorem lostFrom_eq_nil
    (laidOut : IsLaidOut body)
    {position : Nat} {node : Node}
    (isNode : body[position]? = some node)
    (within : position + 1 < body.length)
    (falls : node.fallsThroughOnly = true) :
    lostFrom body node = [] := by
  rw [lostFrom, List.filterMap_eq_nil_iff]
  intro way isWay
  have isNext := List.getElem?_eq_getElem within
  have starts : startsNode body node.hi = true :=
    startsNode_iff.mpr ⟨_, List.mem_of_getElem? isNext,
      lo_of_succ laidOut.abuts isNode isNext⟩
  have found : isLost body way = false := by
    rw [eq_of_fallsThroughOnly falls isWay]
    simp [isLost, starts]
  simp [found]

/-- The nodes of a tiling, block after block, are the nodes of the body. -/
theorem flatMap_nodes
    {position : Nat} {blocks : List Block}
    (tiled : tilesFrom body position blocks = true) :
    blocks.flatMap (fun block => block.nodes body) = body.drop position := by
  induction blocks generalizing position with
  | nil =>
      simp only [tilesFrom, decide_eq_true_eq] at tiled
      rw [tiled, List.drop_length]
      rfl
  | cons block later hypothesis =>
      rcases tilesFrom_cons_iff.mp tiled with ⟨rfl, proper, -, -, rest⟩
      rw [List.flatMap_cons, hypothesis rest, Block.nodes]
      have shifted : (body.drop block.start).drop (block.stop - block.start) =
          body.drop block.stop := by
        rw [List.drop_drop, show block.start + (block.stop - block.start) =
          block.stop by omega]
      rw [← shifted, List.take_append_drop]

/-- Within a block nothing gets lost but at its end. -/
theorem flatMap_lostFrom_nodes
    (laidOut : IsLaidOut body)
    {blocks : List Block}
    (tiled : tilesFrom body 0 blocks = true)
    (inside : ∀ block ∈ blocks, ∀ position node, block.start ≤ position →
      position + 1 < block.stop → body[position]? = some node →
      node.fallsThroughOnly = true)
    {block : Block}
    (member : block ∈ blocks) :
    (block.nodes body).flatMap (lostFrom body) = lostAfter body block := by
  rcases (within_of_tilesFrom tiled).2 block member with ⟨-, proper, within, -⟩
  have isTail := getLast?_nodes proper within
  rw [List.getElem?_eq_getElem (by omega)] at isTail
  rw [lostAfter, isTail]
  rcases List.getLast?_eq_some_iff.mp isTail with ⟨front, shape⟩
  have quiet : ∀ node ∈ front, lostFrom body node = [] := by
    intro node isFront
    rcases List.getElem?_of_mem isFront with ⟨index, atIndex⟩
    have bound := (List.getElem?_eq_some_iff.mp atIndex).1
    have size := congrArg List.length shape
    rw [Block.nodes, List.length_take, List.length_drop, List.length_append,
      List.length_singleton] at size
    have isNode : body[block.start + index]? = some node := by
      have inBlock : (block.nodes body)[index]? = some node := by
        rw [shape, List.getElem?_append_left bound]
        exact atIndex
      rw [Block.nodes, List.getElem?_take, if_pos (by omega),
        List.getElem?_drop] at inBlock
      exact inBlock
    apply lostFrom_eq_nil laidOut isNode (by omega)
    exact inside block member _ node (by omega) (by omega) isNode
  rw [shape, List.flatMap_append, List.flatMap_eq_nil_iff.mpr quiet]
  simp

/-- A partition reports exactly the ways on which control gets lost. -/
theorem events_of_partition
    (laidOut : IsLaidOut body)
    {procedure : Nat} {events : List Event} {graph : Graph}
    (finished : (partition body procedure).Finishes events graph)
    (nonempty : body ≠ []) :
    events = (lostWays body).map (lostEvent procedure) := by
  rcases List.exists_cons_of_ne_nil nonempty with ⟨first, later, rfl⟩
  rcases partition_finishes laidOut.ascending finished with
    ⟨blocks, areBlocks, tiled, -, rfl, -⟩
  congr 1
  have whole := flatMap_nodes tiled
  rw [List.drop_zero] at whole
  have lost := congrArg (List.flatMap (lostFrom (first :: later))) whole
  rw [List.flatMap_assoc] at lost
  rw [lostWays, ← lost]
  apply List.flatMap_congr
  intro block member
  apply (flatMap_lostFrom_nodes laidOut tiled _ member).symm
  intro other isOther position node atLeast below isNode
  have within := ((within_of_tilesFrom tiled).2 other isOther).2.2.1
  exact fallsThroughOnly_of_inside areBlocks isOther atLeast below (by omega)
    isNode

end Dividing

end Graph

end ProcRecovery
