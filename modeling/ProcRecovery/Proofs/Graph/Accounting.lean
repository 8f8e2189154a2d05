import ProcRecovery.Proofs.Graph.Annotation
import ProcRecovery.Proofs.Graph.Division

/-!
# Where control goes

On every way out of a node of a divided body control meets exactly one of four
fates: it goes on to the next node of the same block, along an edge of the
graph, off the end of the body, or to where nothing is, which is reported.
Levels and the texts of stacks have no part in this, so it holds of a body and
its graph after all of their annotations as well.
-/

namespace ProcRecovery

/-- The node without its level and the text of the stack after it. -/
def Node.outline (node : Node) : Node :=
  { node with stackLevel := .notComputed, stackAfter := none }

namespace Graph

/-- What becomes of control on a way out of a node. -/
inductive Fate where
  /-- It goes on with the next node of the block. -/
  | withinBlock
  /-- It goes to another block, or back to the start of this one. -/
  | alongEdge
  /-- It falls off the end of the body. -/
  | offEnd
  /-- It goes where no node starts, and that is reported. -/
  | reported
  deriving Repr, DecidableEq

/--
Control on a way out of the node at a position meets a fate, given the reports
of ways that lead nowhere.
-/
def Meets
    (graph : Graph)
    (body : List Node)
    (reports : List (Nat × Option Nat))
    (position : Nat)
    (node : Node)
    (way : Flow) :
    Fate → Prop
  | .withinBlock =>
    way = ⟨.normal, some node.hi⟩ ∧
      ∃ address block next, graph.blocks.get? address = some block ∧
      block.start ≤ position ∧
        position + 1 < block.stop ∧ body[position + 1]? = some next ∧
        next.lo = node.hi
  | .alongEdge =>
    ∃ address block target successor, graph.blocks.get? address = some block ∧
      block.start ≤ position ∧ position < block.stop ∧
      way.destination = some target ∧
      target ∈ block.successors ∧ graph.blocks.get? target = some successor ∧
      successor.lo = target ∧ address ∈ successor.predecessors
  | .offEnd => way = ⟨.normal, some node.hi⟩ ∧ body.getLast? = some node
  | .reported => isLost body way = true ∧ (node.lo, way.destination) ∈ reports

/--
Every way out of every node is accounted for, and nothing else is reported or
joined.
-/
structure AccountsForFlow
    (graph : Graph)
    (body : List Node)
    (reports : List (Nat × Option Nat)) :
    Prop where
  fates : ∀ position node, body[position]? = some node →
    ∀ way ∈ node.flow, way.kind ≠ .call →
    ∃! fate, graph.Meets body reports position node way fate
  reports_eq : reports = lostWays body
  successors : ∀ address block, graph.blocks.get? address = some block →
    ∀ target ∈ block.successors, graph.blocks.contains target = true
  predecessors : ∀ address block, graph.blocks.get? address = some block →
    ∀ source ∈ block.predecessors, graph.blocks.contains source = true

/-! ## Blocks at a position -/

theorem exists_of_tilesFrom
    {body : List Node} {start : Nat} {blocks : List Block}
    (tiled : tilesFrom body start blocks = true)
    {position : Nat}
    (atLeast : start ≤ position)
    (within : position < body.length) :
    ∃ block ∈ blocks, block.start ≤ position ∧ position < block.stop := by
  induction blocks generalizing start with
  | nil =>
      simp only [tilesFrom, decide_eq_true_eq] at tiled
      omega
  | cons block later hypothesis =>
      rcases tilesFrom_cons_iff.mp tiled with ⟨rfl, -, -, -, rest⟩
      by_cases inside : position < block.stop
      · exact ⟨block, by simp, atLeast, inside⟩
      · rcases hypothesis rest (by omega) with ⟨other, isOther, bounds⟩
        exact ⟨other, List.mem_cons_of_mem block isOther, bounds⟩

theorem eq_of_tilesFrom
    {body : List Node} {start : Nat} {blocks : List Block}
    (tiled : tilesFrom body start blocks = true)
    {first second : Block}
    (isFirst : first ∈ blocks)
    (isSecond : second ∈ blocks)
    {position : Nat}
    (firstStart : first.start ≤ position)
    (firstStop : position < first.stop)
    (secondStart : second.start ≤ position)
    (secondStop : position < second.stop) :
    first = second := by
  induction blocks generalizing start with
  | nil => cases isFirst
  | cons block later hypothesis =>
      rcases tilesFrom_cons_iff.mp tiled with ⟨rfl, -, -, -, rest⟩
      have beyond := (within_of_tilesFrom rest).2
      rcases List.mem_cons.mp isFirst with rfl | firstLater
      · rcases List.mem_cons.mp isSecond with rfl | secondLater
        · rfl
        · have above := (beyond second secondLater).1
          omega
      · rcases List.mem_cons.mp isSecond with rfl | secondLater
        · have above := (beyond first firstLater).1
          omega
        · exact hypothesis rest firstLater secondLater

namespace IsDivision

variable {body : List Node} {graph : Graph}

theorem exists_block
    (division : IsDivision body graph)
    {position : Nat}
    (within : position < body.length) :
    ∃ address block, graph.blocks.get? address = some block ∧
      block.start ≤ position ∧
      position < block.stop := by
  rcases exists_of_tilesFrom division.tiled (Nat.zero_le position) within with
    ⟨block, isBlock, atLeast, below⟩
  rcases Table.mem_values_iff.mp isBlock with ⟨address, found⟩
  exact ⟨address, block, found, atLeast, below⟩

/-- No block starts inside of another one. -/
theorem not_contains_of_inside
    (division : IsDivision body graph)
    (laidOut : IsLaidOut body)
    {address position : Nat} {block : Block} {next : Node}
    (found : graph.blocks.get? address = some block)
    (atLeast : block.start ≤ position)
    (below : position + 1 < block.stop)
    (isNext : body[position + 1]? = some next)
    {other : Block}
    (isOther : graph.blocks.get? next.lo = some other) :
    False := by
  have member := Table.mem_values_iff.mpr ⟨next.lo, isOther⟩
  rcases (within_of_tilesFrom division.tiled).2 other member with
    ⟨-, proper, -, starts⟩
  rcases Option.map_eq_some_iff.mp starts with ⟨first, isFirst, sameLo⟩
  rw [division.keyed next.lo other isOther] at sameLo
  have same := position_unique laidOut.ascending isFirst isNext sameLo
  have equal :=
    eq_of_tilesFrom division.tiled (Table.mem_values_iff.mpr ⟨address, found⟩)
      member
    (show block.start ≤ position + 1 by omega) below (by omega) (by omega)
  subst equal
  omega

/-! ## Fates -/

variable {reports : List (Nat × Option Nat)} {position : Nat} {node : Node}
  {way : Flow}

/--
The destination of a way out within a block or along an edge starts a node.
-/
theorem startsNode_of_meets
    (division : IsDivision body graph)
    (onward :
      graph.Meets body reports position node way .withinBlock ∨
        graph.Meets body reports position node way .alongEdge) :
    ∃ target, way.destination = some target ∧
      startsNode body target = true := by
  rcases onward with ⟨rfl, address, block, next, -, -, -, isNext, same⟩ |
    ⟨address, block, target, successor, found, -, -, leads, isSuccessor, -⟩
  · exact ⟨node.hi, rfl,
      startsNode_iff.mpr ⟨next, List.mem_of_getElem? isNext, same⟩⟩
  · rcases (division.mem_successors address block found target).mp
      isSuccessor with
      ⟨tail, -, isTarget⟩
    rcases mem_targetsFrom.mp isTarget with ⟨-, -, -, -, starts⟩
    exact ⟨target, leads, starts⟩

/-- The destination of a way out off the end or to nowhere starts no node. -/
theorem not_startsNode_of_meets
    (laidOut : IsLaidOut body)
    (astray : graph.Meets body reports position node way .offEnd ∨
      graph.Meets body reports position node way .reported)
    {target : Nat}
    (leads : way.destination = some target) :
    startsNode body target = false := by
  rcases astray with ⟨rfl, isLast⟩ | ⟨lost, -⟩
  · cases leads
    by_contra starts
    rw [Bool.not_eq_false, startsNode_iff] at starts
    rcases starts with ⟨other, isOther, same⟩
    have below := laidOut.lo_lt_end isLast isOther
    omega
  · exact (isLost_iff.mp lost target leads).1

theorem not_withinBlock_and_alongEdge
    (division : IsDivision body graph)
    (laidOut : IsLaidOut body)
    (inside : graph.Meets body reports position node way .withinBlock)
    (along : graph.Meets body reports position node way .alongEdge) :
    False := by
  rcases inside with
    ⟨rfl, address, block, next, found, atLeast, below, isNext, same⟩
  rcases along with
    ⟨-, -, target, successor, -, -, -, leads, -, isSuccessor, -⟩
  cases leads
  rw [← same] at isSuccessor
  exact division.not_contains_of_inside laidOut found atLeast below isNext
    isSuccessor

theorem not_offEnd_and_reported
    (off : graph.Meets body reports position node way .offEnd)
    (lost : graph.Meets body reports position node way .reported) :
    False := by
  rcases off with ⟨rfl, isLast⟩
  apply (isLost_iff.mp lost.1 node.hi rfl).2
  rw [isLast]
  exact ⟨rfl, rfl⟩

/-- No way out meets two fates. -/
theorem eq_of_meets
    (division : IsDivision body graph)
    (laidOut : IsLaidOut body)
    {first second : Fate}
    (meetsFirst : graph.Meets body reports position node way first)
    (meetsSecond : graph.Meets body reports position node way second) :
    first = second := by
  have apart : (graph.Meets body reports position node way .withinBlock ∨
      graph.Meets body reports position node way .alongEdge) →
      ¬ (graph.Meets body reports position node way .offEnd ∨
        graph.Meets body reports position node way .reported) := by
    intro onward astray
    rcases division.startsNode_of_meets onward with ⟨target, leads, starts⟩
    rw [not_startsNode_of_meets laidOut astray leads] at starts
    cases starts
  cases first with
  | withinBlock =>
      cases second with
      | withinBlock => rfl
      | alongEdge =>
          exact (division.not_withinBlock_and_alongEdge laidOut meetsFirst
            meetsSecond).elim
      | offEnd => exact (apart (.inl meetsFirst) (.inl meetsSecond)).elim
      | reported => exact (apart (.inl meetsFirst) (.inr meetsSecond)).elim
  | alongEdge =>
      cases second with
      | withinBlock =>
          exact (division.not_withinBlock_and_alongEdge laidOut meetsSecond
            meetsFirst).elim
      | alongEdge => rfl
      | offEnd => exact (apart (.inr meetsFirst) (.inl meetsSecond)).elim
      | reported => exact (apart (.inr meetsFirst) (.inr meetsSecond)).elim
  | offEnd =>
      cases second with
      | withinBlock => exact (apart (.inl meetsSecond) (.inl meetsFirst)).elim
      | alongEdge => exact (apart (.inr meetsSecond) (.inl meetsFirst)).elim
      | offEnd => rfl
      | reported => exact (not_offEnd_and_reported meetsFirst meetsSecond).elim
  | reported =>
      cases second with
      | withinBlock => exact (apart (.inl meetsSecond) (.inr meetsFirst)).elim
      | alongEdge => exact (apart (.inr meetsSecond) (.inr meetsFirst)).elim
      | offEnd => exact (not_offEnd_and_reported meetsSecond meetsFirst).elim
      | reported => rfl

/-- A node that ends where the body ends is the last one. -/
theorem getLast?_of_hi_eq
    (laidOut : IsLaidOut body)
    (isNode : body[position]? = some node)
    (ends : body.getLast?.map Node.hi = some node.hi) :
    body.getLast? = some node := by
  rcases Option.map_eq_some_iff.mp ends with ⟨last, isLast, same⟩
  have bound := (List.getElem?_eq_some_iff.mp isNode).1
  by_cases final : position + 1 = body.length
  · rw [List.getLast?_eq_getElem?, show body.length - 1 = position by omega]
    exact isNode
  · have isNext :=
      List.getElem?_eq_getElem (show position + 1 < body.length by omega)
    have next := lo_of_succ laidOut.abuts isNode isNext
    have below := laidOut.lo_lt_end isLast (List.mem_of_getElem? isNext)
    omega

/--
A way out of the last node of a block that leads to a node follows an edge of
the graph.
-/
theorem meets_alongEdge
    (division : IsDivision body graph)
    {address target : Nat} {block : Block}
    (found : graph.blocks.get? address = some block)
    (atLeast : block.start ≤ position)
    (below : position < block.stop)
    (isTail : body[block.stop - 1]? = some node)
    (isWay : way ∈ node.flow)
    (noCall : way.kind ≠ .call)
    (leads : way.destination = some target)
    (starts : startsNode body target = true) :
    graph.Meets body reports position node way .alongEdge := by
  have isTarget := mem_targetsFrom.mpr ⟨way, isWay, noCall, leads, starts⟩
  have isSuccessor := (division.mem_successors address block found target).mpr
    ⟨node, isTail, isTarget⟩
  rcases Option.isSome_iff_exists.mp
    (division.closed address block found target isSuccessor) with
    ⟨successor, isBlock⟩
  exact ⟨address, block, target, successor, found, atLeast, below, leads,
    isSuccessor, isBlock, division.keyed target successor isBlock,
    (division.mem_predecessors target successor isBlock address).mpr ⟨block,
      found, isSuccessor⟩⟩

/--
Every way out meets a fate: inside of a block because the node just falls
through, and at its end by where the way leads.
-/
theorem exists_meets
    (division : IsDivision body graph)
    (laidOut : IsLaidOut body)
    (isNode : body[position]? = some node)
    (isWay : way ∈ node.flow)
    (noCall : way.kind ≠ .call) :
    ∃ fate, graph.Meets body (lostWays body) position node way fate := by
  have bound := (List.getElem?_eq_some_iff.mp isNode).1
  have member := List.mem_of_getElem? isNode
  have leaves : way ∈ node.ways :=
    List.mem_filter.mpr ⟨isWay, by simpa using noCall⟩
  rcases division.exists_block bound with
    ⟨address, block, found, atLeast, below⟩
  have within := ((within_of_tilesFrom division.tiled).2 block
    (Table.mem_values_iff.mpr ⟨address, found⟩)).2.2.1
  by_cases inside : position + 1 < block.stop
  · have falls :=
      division.inner address block found position node atLeast inside isNode
    have isNext :=
      List.getElem?_eq_getElem (show position + 1 < body.length by omega)
    exact ⟨.withinBlock, eq_of_fallsThroughOnly falls leaves, address, block,
      _, found, atLeast, inside, isNext,
      lo_of_succ laidOut.abuts isNode isNext⟩
  · have isTail : body[block.stop - 1]? = some node := by
      rw [show block.stop - 1 = position by omega]
      exact isNode
    cases lost : isLost body way with
    | true =>
        refine ⟨.reported, lost, List.mem_flatMap.mpr ⟨node, member, ?_⟩⟩
        exact List.mem_filterMap.mpr ⟨way, leaves, by simp [lost]⟩
    | false =>
        cases leads : way.destination with
        | none => simp [isLost, leads] at lost
        | some target =>
            cases starts : startsNode body target with
            | true =>
                exact ⟨.alongEdge,
                  division.meets_alongEdge found atLeast below isTail isWay
                    noCall leads starts⟩
            | false =>
                simp only [isLost, leads, starts, Bool.not_false,
                  Bool.true_and, Bool.not_eq_false', Bool.and_eq_true,
                  decide_eq_true_eq] at lost
                rcases lost with ⟨normal, ends⟩
                have falls := laidOut.falls node member way isWay normal
                rw [leads] at falls
                cases falls
                have same : way = ⟨.normal, some node.hi⟩ := by
                  rcases way with ⟨kind, destination⟩
                  simp only at normal leads
                  rw [normal, leads]
                exact ⟨.offEnd, same, getLast?_of_hi_eq laidOut isNode ends⟩

/-- The graph of a body accounts for all of its ways. -/
theorem accountsForFlow
    (division : IsDivision body graph)
    (laidOut : IsLaidOut body) :
    graph.AccountsForFlow body (lostWays body) where
  fates := by
    intro position node isNode way isWay noCall
    rcases division.exists_meets laidOut isNode isWay noCall with ⟨fate, meets⟩
    exact ⟨fate, meets, fun other meetsOther =>
      division.eq_of_meets laidOut meetsOther meets⟩
  reports_eq := rfl
  successors := division.closed
  predecessors := by
    intro address block found source isSource
    rcases (division.mem_predecessors address block found source).mp
      isSource with
      ⟨other, isOther, -⟩
    rw [Table.contains, isOther]
    rfl

/-- Levels have no part in what a graph says about a body. -/
theorem of_unleveled
    (division : IsDivision body graph)
    {leveled : Graph}
    (tiled : leveled.tiles body = true)
    (shape : ∀ address, (leveled.blocks.get? address).map Block.unleveled =
      (graph.blocks.get? address).map Block.unleveled) :
    IsDivision body leveled := by
  have before : ∀ {address block}, leveled.blocks.get? address = some block →
      ∃ other, graph.blocks.get? address = some other ∧ block.lo = other.lo ∧
        block.start = other.start ∧ block.stop = other.stop ∧
        block.successors = other.successors ∧
        block.predecessors = other.predecessors := by
    intro address block found
    have same := shape address
    rw [found, Option.map_some] at same
    rcases Option.map_eq_some_iff.mp same.symm with ⟨other, isOther, equal⟩
    exact ⟨other, isOther, (congrArg Block.lo equal).symm,
      (congrArg Block.start equal).symm, (congrArg Block.stop equal).symm,
      (congrArg Block.successors equal).symm,
      (congrArg Block.predecessors equal).symm⟩
  have present : ∀ address,
      leveled.blocks.contains address = graph.blocks.contains address := by
    intro address
    have same := congrArg Option.isSome (shape address)
    rwa [Option.isSome_map, Option.isSome_map] at same
  refine ⟨tiled, ?_, ?_, ?_, ?_, ?_⟩
  · intro address block found
    rcases before found with ⟨other, isOther, sameLo, -⟩
    rw [sameLo]
    exact division.keyed address other isOther
  · intro address block found position node atLeast below
    rcases before found with ⟨other, isOther, -, sameStart, sameStop, -⟩
    rw [sameStart] at atLeast
    rw [sameStop] at below
    exact division.inner address other isOther position node atLeast below
  · intro address block found target
    rcases before found with
      ⟨other, isOther, -, -, sameStop, sameSuccessors, -⟩
    rw [sameSuccessors, sameStop]
    exact division.mem_successors address other isOther target
  · intro address block found source
    rcases before found with ⟨other, isOther, -, -, -, -, samePredecessors⟩
    rw [samePredecessors,
      division.mem_predecessors address other isOther source]
    constructor
    · rintro ⟨origin, isOrigin, leads⟩
      have isPresent := present source
      rw [Table.contains, Table.contains, isOrigin, Option.isSome_some]
        at isPresent
      rcases Option.isSome_iff_exists.mp isPresent with ⟨after, isAfter⟩
      rcases before isAfter with ⟨same, isSame, -, -, -, sameSuccessors, -⟩
      rw [isOrigin] at isSame
      cases isSame
      exact ⟨after, isAfter, sameSuccessors ▸ leads⟩
    · rintro ⟨origin, isOrigin, leads⟩
      rcases before isOrigin with ⟨same, isSame, -, -, -, sameSuccessors, -⟩
      exact ⟨same, isSame, sameSuccessors ▸ leads⟩
  · intro address block found target isSuccessor
    rcases before found with ⟨other, isOther, -, -, -, sameSuccessors, -⟩
    rw [sameSuccessors] at isSuccessor
    rw [present]
    exact division.closed address other isOther target isSuccessor

end IsDivision

/-! ## Views of nodes -/

/--
A view of nodes that shows everything that the division into blocks looks at.
-/
structure ShowsDivision (view : Node → Node) : Prop where
  range_eq : ∀ node, (view node).range = node.range
  flow_eq : ∀ node, (view node).flow = node.flow
  delta_eq : ∀ node, (view node).stackDelta = node.stackDelta
  epilogue_iff : ∀ node, (view node).op = some .epilogue ↔
    node.op = some .epilogue

namespace ShowsDivision

variable {view : Node → Node}

theorem lo_eq
    (shows : ShowsDivision view)
    (node : Node) :
    (view node).lo = node.lo :=
  congrArg Prod.fst (shows.range_eq node)

theorem hi_eq
    (shows : ShowsDivision view)
    (node : Node) :
    (view node).hi = node.hi :=
  congrArg Prod.snd (shows.range_eq node)

theorem leadersFrom_eq
    (shows : ShowsDivision view)
    (targets : List Nat)
    (position : Nat)
    (fellThrough : Bool)
    (body : List Node) :
    leadersFrom targets position fellThrough (body.map view) =
      leadersFrom targets position fellThrough body := by
  induction body generalizing position fellThrough with
  | nil => rfl
  | cons node later hypothesis =>
      have falls : (view node).fallsThroughOnly = node.fallsThroughOnly := by
        simp only [Node.fallsThroughOnly, shows.flow_eq, shows.hi_eq]
      simp only [List.map_cons, leadersFrom, hypothesis, falls, shows.lo_eq,
        shows.epilogue_iff]

theorem jumpTargets_eq (shows : ShowsDivision view) (body : List Node) :
    jumpTargets (body.map view) = jumpTargets body := by
  simp only [jumpTargets, List.flatMap_map, shows.flow_eq]

theorem leaders_eq (shows : ShowsDivision view) (body : List Node) :
    leaders (body.map view) = leaders body := by
  rw [leaders, shows.jumpTargets_eq, shows.leadersFrom_eq, leaders]

theorem blockOf_eq
    (shows : ShowsDivision view)
    (body : List Node)
    (span : Nat × Nat) :
    blockOf (body.map view) span = blockOf body span := by
  have deltas : Node.stackDelta ∘ view = Node.stackDelta :=
    funext shows.delta_eq
  simp only [blockOf, ← List.map_drop, ← List.map_take, List.head?_map,
    List.getLast?_map, List.map_map, deltas]
  cases ((body.drop span.1).take (span.2 - span.1)).head? with
  | none => rfl
  | some first =>
      cases ((body.drop span.1).take (span.2 - span.1)).getLast? with
      | none => rfl
      | some last => simp only [Option.map_some, shows.lo_eq, shows.hi_eq]

theorem exits_eq
    (shows : ShowsDivision view)
    (body : List Node)
    (procedure : Nat)
    (block : Block) :
    exits (body.map view) procedure block = exits body procedure block := by
  have starts : startsNode (body.map view) = startsNode body := by
    funext address
    simp only [startsNode, List.any_map, Function.comp_def, shows.lo_eq]
  simp only [exits, Block.nodes, ← List.map_drop, ← List.map_take,
    List.getLast?_map, starts]
  cases ((body.drop block.start).take (block.stop - block.start)).getLast? with
  | none => rfl
  | some tail =>
      cases body.getLast? with
      | none => rfl
      | some last =>
          simp only [Option.map_some, shows.flow_eq, shows.lo_eq, shows.hi_eq]

/-- A partition looks at nothing that the view does not show. -/
theorem partition_eq
    (shows : ShowsDivision view)
    (body : List Node)
    (procedure : Nat) :
    partition (body.map view) procedure = partition body procedure := by
  cases body with
  | nil => rfl
  | cons first later =>
      have sameLeaders := shows.leaders_eq (first :: later)
      have sameBlocks := funext (shows.blockOf_eq (first :: later))
      have sameExits := funext (shows.exits_eq (first :: later) procedure)
      have sameTiles : ∀ graph : Graph,
          graph.tiles ((first :: later).map view) =
          graph.tiles (first :: later) := by
        intro graph
        apply tilesFrom_congr _ rfl
        rw [List.map_map]
        exact List.map_congr_left (fun node _ => shows.range_eq node)
      rw [List.map_cons] at sameLeaders sameBlocks sameExits sameTiles
      simp only [partition, List.map_cons, sameLeaders, sameBlocks, sameExits,
        sameTiles, List.length_cons, List.length_map, shows.lo_eq]

end ShowsDivision

/-- A partition does not look at levels or at the texts of stacks. -/
theorem partition_outline (body : List Node) (procedure : Nat) :
    partition (body.map Node.outline) procedure =
      partition body procedure := by
  have shows : ShowsDivision Node.outline :=
    ⟨fun _ => rfl, fun _ => rfl, fun _ => rfl, fun _ => Iff.rfl⟩
  exact shows.partition_eq body procedure

end Graph

end ProcRecovery
