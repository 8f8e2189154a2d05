import ProcRecovery.Graph.Levels
import ProcRecovery.Proofs.Graph.Walks

/-!
# The invariant of propagation

The invariant has three parts.  Every level that has been given is that of a
walk.  Every block with a level is still pending, or is being expanded, or has
passed its level on along all of its edges.  And the reports are those of the
skewed edges found so far, one for each, with levels that never change again.
Passing a level along one edge keeps it, so expanding a block does, and so a
whole run does.
-/

namespace ProcRecovery

theorem Worklist.mem_pending_push
    {α : Type} [DecidableEq α] {worklist : Worklist α} {item other : α} :
    other ∈ (worklist.push item).pending ↔
      other ∈ worklist.pending ∨ other = item := by
  rw [Worklist.pending_push]
  split
  next held =>
    constructor
    · exact .inl
    · rintro (earlier | rfl)
      · exact earlier
      · exact held
  next => simp

namespace Graph

/-! ## The invariant -/

/-- The reports that a propagation has made so far. -/
def Propagation.reports
    (state : Propagation)
    (procedure : Nat) :
    List (Nat × Diagnostic) :=
  diagnosticsOf (state.trail.map (LevelEvent.toEvent procedure))

/--
A propagation under way on a graph, in the course of passing the level of one
block on to some of its successors.
-/
structure Consistent
    (graph : Graph)
    (procedure : Nat)
    (expanding : Nat)
    (remaining : List Nat)
    (state : Propagation) :
    Prop where
  shape : ∀ address,
    (state.blocks.get? address).map Block.unleveled =
      (graph.blocks.get? address).map Block.unleveled
  entry : levelAt state.blocks graph.entry = some 0
  walks : ∀ address level, levelAt state.blocks address = some level →
    ∃ length, Walk graph length address level ∧
      length + unsettled state.blocks < graph.blocks.size
  pending : ∀ address ∈ state.pending.pending, ∃ level,
    levelAt state.blocks address = some level
  complete : ∀ source block, state.blocks.get? source = some block →
    ∀ seen, levelAfter state.blocks source = some seen →
    ∀ target ∈ block.successors, (state.blocks.get? target).isSome →
      source ∈ state.pending.pending ∨
      (source = expanding ∧ target ∈ remaining) ∨
      ∃ kept, levelAt state.blocks target = some kept ∧
        (kept ≠ seen → (source, target) ∈ state.skewed)
  reports : List.Forall₂ (ReportsSkew state.blocks procedure) state.skewed
    (state.reports procedure)
  nodup : state.skewed.Nodup

/-- The three things that passing a level along an edge can do. -/
theorem Propagation.visit_cases
    (source : Nat)
    (level : Int)
    (state : Propagation)
    (target : Nat) :
    (state.visit source level target = state ∧
      (state.blocks.get? target = none ∨
        ∃ kept, levelAt state.blocks target = some kept ∧
          (kept ≠ level → (source, target) ∈ state.skewed))) ∨
    (∃ kept, levelAt state.blocks target = some kept ∧ kept ≠ level ∧
      (source, target) ∉ state.skewed ∧
      state.visit source level target =
        { state with
          skewed := state.skewed ++ [(source, target)]
          trail := state.trail ++ [.skewed source target kept level] }) ∨
    (∃ block, state.blocks.get? target = some block ∧
      levelAt state.blocks target = none ∧
      state.visit source level target =
        { state with
          blocks := state.blocks.modify target (Block.settle level)
          pending := state.pending.push target
          trail := state.trail ++ [.settled target level] }) := by
  unfold visit
  split
  next absent => exact .inl ⟨rfl, .inl absent⟩
  next block present =>
    split
    next kept known =>
      have keeps : levelAt state.blocks target = some kept :=
        levelAt_eq_some_iff.mpr ⟨block, present, known⟩
      split
      next quiet =>
        refine .inl ⟨rfl, .inr ⟨kept, keeps, ?_⟩⟩
        intro differ
        simp only [Bool.or_eq_true, decide_eq_true_eq, isAmong_iff] at quiet
        rcases quiet with same | among
        · exact (differ same).elim
        · exact among
      next loud =>
        simp only [Bool.or_eq_true, decide_eq_true_eq, isAmong_iff, not_or]
          at loud
        exact .inr (.inl ⟨kept, keeps, loud.1, loud.2, rfl⟩)
    next unknown =>
      refine .inr (.inr ⟨block, present, ?_, rfl⟩)
      cases known : levelAt state.blocks target with
      | none => rfl
      | some level =>
          obtain ⟨other, found, isKnown⟩ := levelAt_eq_some_iff.mp known
          rw [present] at found
          cases found
          exact (unknown level isKnown).elim

/-- Giving a block without a level its level. -/
theorem levelAt_modify_settle
    {blocks : Table Nat Block} {target : Nat} {block : Block}
    (present : blocks.get? target = some block)
    (level : Int)
    (address : Nat) :
    levelAt (blocks.modify target (Block.settle level)) address =
      if address = target then some level else levelAt blocks address := by
  unfold levelAt
  rw [Table.get?_modify]
  split
  next same =>
    rw [same, present]
    rfl
  next => rfl

theorem settles_modify
    {blocks : Table Nat Block} {target : Nat} {block : Block}
    (present : blocks.get? target = some block)
    (isOpen : levelAt blocks target = none)
    (level : Int) :
    Settles blocks (blocks.modify target (Block.settle level)) := by
  constructor
  · intro address
    rw [Table.get?_modify]
    split
    next =>
      rw [Option.map_map]
      rfl
    next => rfl
  · intro address other known
    rw [levelAt_modify_settle present, if_neg, known]
    rintro rfl
    rw [isOpen] at known
    cases known

/-- Giving a block its level leaves fewer blocks without one. -/
theorem unsettled_modify
    {blocks : Table Nat Block} {target : Nat} {block : Block}
    (present : blocks.get? target = some block)
    (isOpen : levelAt blocks target = none)
    (level : Int) :
    unsettled (blocks.modify target (Block.settle level)) + 1 ≤
      unsettled blocks := by
  apply Table.countP_values_modify (fun other : Block => !other.isSettled)
    (Block.settle level)
    present
  · have unknown : block.level.value? = none := by
      unfold levelAt at isOpen
      rw [present] at isOpen
      exact isOpen
    simp [Block.isSettled, Resolution.isKnown, unknown]
  · intro other
    rfl

theorem levelAfter_modify_of_ne
    {blocks : Table Nat Block} {target address : Nat}
    (other : address ≠ target)
    (change : Block → Block) :
    levelAfter (blocks.modify target change) address =
      levelAfter blocks address := by
  unfold levelAfter
  rw [Table.get?_modify, if_neg other]

/-- A walk to a block with a level goes on along each of its edges. -/
theorem Consistent.walk_step
    {graph : Graph} {procedure expanding source target : Nat}
    {remaining : List Nat} {state : Propagation} {seen : Int}
    {block next : Block}
    (consistent : Consistent graph procedure expanding remaining state)
    (present : state.blocks.get? source = some block)
    (edge : target ∈ block.successors)
    (passes : levelAfter state.blocks source = some seen)
    (found : state.blocks.get? target = some next) :
    ∃ length, Walk graph (length + 1) target seen ∧
      length + unsettled state.blocks < graph.blocks.size := by
  obtain ⟨sameBlock, level, samePresent, known, sum⟩ :=
    levelAfter_eq_some_iff.mp passes
  rw [present] at samePresent
  cases samePresent
  obtain ⟨length, walk, short⟩ := consistent.walks source level known
  have sourceShape := consistent.shape source
  have targetShape := consistent.shape target
  rw [present, Option.map_some] at sourceShape
  rw [found, Option.map_some] at targetShape
  obtain ⟨original, originalPresent, same⟩ :=
    Option.map_eq_some_iff.mp sourceShape.symm
  obtain ⟨endBlock, endPresent, -⟩ :=
    Option.map_eq_some_iff.mp targetShape.symm
  rw [← Block.successors_of_unleveled same] at edge
  rw [← Block.delta_of_unleveled same] at sum
  rw [← sum]
  exact ⟨length, walk.step originalPresent edge endPresent, short⟩

theorem reports_append
    {procedure : Nat} {state : Propagation} {event : LevelEvent}
    {trail : List LevelEvent}
    (extended : trail = state.trail ++ [event]) :
    diagnosticsOf (trail.map (LevelEvent.toEvent procedure)) =
      state.reports procedure ++ diagnosticsOf [event.toEvent procedure] := by
  rw [extended, List.map_append, diagnosticsOf_append]
  rfl

section Visit

variable {graph : Graph} {procedure source target : Nat} {remaining : List Nat}
  {state : Propagation} {seen : Int}

/--
Nothing happens at an edge to a missing block, or to one whose level is in
order.
-/
theorem Consistent.visit_quiet
    (consistent :
      Consistent graph procedure source (target :: remaining) state)
    (passes : levelAfter state.blocks source = some seen)
    (inOrder : state.blocks.get? target = none ∨ ∃ kept,
      levelAt state.blocks target = some kept ∧
      (kept ≠ seen → (source, target) ∈ state.skewed)) :
    Consistent graph procedure source remaining state := by
  refine { consistent with complete := ?_ }
  intro other block present otherSeen otherPasses goal edge found
  rcases consistent.complete other block present otherSeen otherPasses goal
    edge found with
    isPending | ⟨isSource, isDue⟩ | done
  · exact .inl isPending
  · rcases List.mem_cons.mp isDue with isTarget | later
    · subst isSource isTarget
      rw [passes] at otherPasses
      cases otherPasses
      rcases inOrder with absent | done
      · rw [absent] at found
        cases found
      · exact .inr (.inr done)
    · exact .inr (.inl ⟨isSource, later⟩)
  · exact .inr (.inr done)

/-- An edge that turns out to be skewed is reported for the first time. -/
theorem Consistent.visit_skewed
    {kept : Int}
    (consistent :
      Consistent graph procedure source (target :: remaining) state)
    (skewed : IsSkewed state.blocks source target kept seen)
    (fresh : (source, target) ∉ state.skewed) :
    Consistent graph procedure source remaining
      { state with
        skewed := state.skewed ++ [(source, target)]
        trail := state.trail ++ [.skewed source target kept seen] } := by
  refine { consistent with complete := ?_, reports := ?_, nodup := ?_ }
  · intro other block present otherSeen otherPasses goal edge found
    rcases consistent.complete other block present otherSeen otherPasses goal
      edge found with
      isPending | ⟨isSource, isDue⟩ | ⟨level, known, listed⟩
    · exact .inl isPending
    · rcases List.mem_cons.mp isDue with isTarget | later
      · subst isSource isTarget
        exact .inr (.inr ⟨kept, skewed.keeps, fun _ => by simp⟩)
      · exact .inr (.inl ⟨isSource, later⟩)
    · exact .inr (.inr ⟨level, known, fun unequal => by simp [listed unequal]⟩)
  · rw [Propagation.reports, reports_append rfl]
    apply List.rel_append consistent.reports
    exact .cons ⟨kept, seen, skewed, rfl⟩ .nil
  · rw [List.nodup_append]
    refine ⟨consistent.nodup, by simp, ?_⟩
    intro earlier member later single
    rw [List.mem_singleton.mp single]
    rintro rfl
    exact fresh member

/--
The walk to a block that has been reached for the first time has one edge more
than the one to the block before it, and there is one block less without a
level.
-/
theorem Consistent.walks_settle
    {block next : Block}
    (consistent :
      Consistent graph procedure source (target :: remaining) state)
    (present : state.blocks.get? source = some block)
    (edge : target ∈ block.successors)
    (passes : levelAfter state.blocks source = some seen)
    (found : state.blocks.get? target = some next)
    (isOpen : levelAt state.blocks target = none)
    {address : Nat} {level : Int}
    (known : levelAt (state.blocks.modify target (Block.settle seen)) address =
      some level) :
    ∃ length, Walk graph length address level ∧
      length + unsettled (state.blocks.modify target (Block.settle seen)) <
        graph.blocks.size := by
  have fewer := unsettled_modify found isOpen seen
  rw [levelAt_modify_settle found seen] at known
  split at known
  next isTarget =>
    cases known
    obtain ⟨length, walk, short⟩ :=
      consistent.walk_step present edge passes found
    rw [isTarget]
    exact ⟨length + 1, walk, by omega⟩
  next =>
    obtain ⟨length, walk, short⟩ := consistent.walks address level known
    exact ⟨length, walk, by omega⟩

/--
Nothing is forgotten when a block gets its level: it is pending itself, and
what every other block passes on stays the same.
-/
theorem Consistent.complete_settle
    {next : Block}
    (consistent :
      Consistent graph procedure source (target :: remaining) state)
    (passes : levelAfter state.blocks source = some seen)
    (found : state.blocks.get? target = some next)
    (isOpen : levelAt state.blocks target = none)
    {other : Nat} {block : Block}
    (present : (state.blocks.modify target (Block.settle seen)).get? other =
      some block)
    {otherSeen : Int}
    (otherPasses :
      levelAfter (state.blocks.modify target (Block.settle seen)) other =
        some otherSeen)
    {goal : Nat}
    (edge : goal ∈ block.successors)
    (isThere :
      ((state.blocks.modify target (Block.settle seen)).get? goal).isSome =
        true) :
    other ∈ (state.pending.push target).pending ∨
      (other = source ∧ goal ∈ remaining) ∨
      ∃ kept,
        levelAt (state.blocks.modify target (Block.settle seen)) goal =
          some kept ∧
          (kept ≠ otherSeen → (other, goal) ∈ state.skewed) := by
  have grows := settles_modify found isOpen seen
  by_cases isTarget : other = target
  · exact .inl (Worklist.mem_pending_push.mpr (.inr isTarget))
  · obtain ⟨earlier, earlierPresent, same⟩ := grows.block_eq present
    rw [levelAfter_modify_of_ne isTarget] at otherPasses
    rw [Block.successors_of_unleveled same] at edge
    rw [grows.isSome_eq] at isThere
    rcases consistent.complete other earlier earlierPresent otherSeen
      otherPasses goal
      edge isThere with isPending | ⟨isSource, isDue⟩ | ⟨level, known, listed⟩
    · exact .inl (Worklist.mem_pending_push.mpr (.inl isPending))
    · rcases List.mem_cons.mp isDue with isGoal | later
      · subst isSource isGoal
        rw [passes] at otherPasses
        cases otherPasses
        refine .inr (.inr ⟨seen, ?_, fun unequal => (unequal rfl).elim⟩)
        rw [levelAt_modify_settle found seen, if_pos rfl]
      · exact .inr (.inl ⟨isSource, later⟩)
    · exact .inr (.inr ⟨level, grows.levels goal level known, listed⟩)

/--
A block that has been reached for the first time gets the level and becomes
pending.
-/
theorem Consistent.visit_settled
    {block next : Block}
    (consistent :
      Consistent graph procedure source (target :: remaining) state)
    (present : state.blocks.get? source = some block)
    (edge : target ∈ block.successors)
    (passes : levelAfter state.blocks source = some seen)
    (found : state.blocks.get? target = some next)
    (isOpen : levelAt state.blocks target = none) :
    Consistent graph procedure source remaining
      { state with
        blocks := state.blocks.modify target (Block.settle seen)
        pending := state.pending.push target
        trail := state.trail ++ [.settled target seen] } := by
  have grows := settles_modify found isOpen seen
  refine
    { shape := fun address =>
        (grows.shape address).trans (consistent.shape address)
      entry := grows.levels _ _ consistent.entry
      walks := fun address level known =>
        consistent.walks_settle present edge passes found isOpen known
      pending := ?_
      complete :=
        fun other otherBlock otherPresent otherSeen otherPasses goal =>
        consistent.complete_settle passes found isOpen otherPresent otherPasses
      reports := ?_
      nodup := consistent.nodup }
  · intro address isPending
    dsimp only at isPending ⊢
    rw [levelAt_modify_settle found seen]
    split
    next => exact ⟨seen, rfl⟩
    next other =>
      apply consistent.pending address
      rcases Worklist.mem_pending_push.mp isPending with earlier | same
      · exact earlier
      · exact (other same).elim
  · have silent :
        diagnosticsOf [(LevelEvent.settled target seen).toEvent procedure] =
          [] := rfl
    rw [Propagation.reports, reports_append rfl, silent, List.append_nil]
    exact grows.reports consistent.reports

/--
Passing the level of a block on along one of its edges keeps the invariant,
with one edge less to go.
-/
theorem Consistent.visit
    {block : Block}
    (consistent :
      Consistent graph procedure source (target :: remaining) state)
    (present : state.blocks.get? source = some block)
    (edge : target ∈ block.successors)
    (passes : levelAfter state.blocks source = some seen) :
    Consistent graph procedure source remaining
      (state.visit source seen target) := by
  rcases state.visit_cases source seen target with
    ⟨unchanged, inOrder⟩ | ⟨kept, keeps, differ, fresh, skews⟩ | ⟨next, found,
      isOpen, settles⟩
  · rw [unchanged]
    exact consistent.visit_quiet passes inOrder
  · rw [skews]
    exact consistent.visit_skewed ⟨⟨block, present, edge⟩, passes, keeps,
      differ⟩ fresh
  · rw [settles]
    exact consistent.visit_settled present edge passes found isOpen

end Visit

/-! ## From one edge to a whole run -/

theorem Propagation.settles_visit
    (source : Nat)
    (level : Int)
    (state : Propagation)
    (target : Nat) :
    Settles state.blocks (state.visit source level target).blocks := by
  rcases state.visit_cases source level target with
    ⟨unchanged, -⟩ | ⟨kept, -, -, -, skews⟩ | ⟨block, present, isOpen, settles⟩
  · rw [unchanged]
    exact Settles.refl _
  · rw [skews]
    exact Settles.refl _
  · rw [settles]
    exact settles_modify present isOpen level

/--
Passing the level of a block on along all edges that are left completes its
expansion.
-/
theorem Consistent.foldl_visit
    {graph : Graph} {procedure source : Nat} {remaining : List Nat}
    {state : Propagation} {seen : Int} {block : Block}
    (consistent : Consistent graph procedure source remaining state)
    (present : state.blocks.get? source = some block)
    (edges : ∀ target ∈ remaining, target ∈ block.successors)
    (passes : levelAfter state.blocks source = some seen) :
    Consistent graph procedure source []
      (remaining.foldl (Propagation.visit source seen) state) := by
  induction remaining generalizing state block with
  | nil => exact consistent
  | cons target later hypothesis =>
      have grows := state.settles_visit source seen target
      obtain ⟨nextBlock, nextPresent, same⟩ := grows.block_eq' present
      rw [List.foldl_cons]
      apply hypothesis
        (consistent.visit present (edges target (by simp)) passes) nextPresent
      · intro other member
        rw [Block.successors_of_unleveled same]
        exact edges other (List.mem_cons_of_mem target member)
      · exact grows.levelAfter passes

theorem Propagation.outgoing_eq_some_iff
    {state : Propagation} {source : Nat} {level : Int} {successors : List Nat} :
    state.outgoing source = some (level, successors) ↔
      levelAfter state.blocks source = some level ∧
        ∃ block, state.blocks.get? source = some block ∧
        block.successors = successors := by
  unfold outgoing levelAfter
  cases state.blocks.get? source with
  | none => simp
  | some block =>
      cases known : block.level.value? with
      | none => simp [known]
      | some value => simp [known]

/-- Taking the oldest pending block and setting out to expand it. -/
theorem Consistent.pop
    {graph : Graph} {procedure expanding source : Nat} {rest : Worklist Nat}
    {state : Propagation} {block : Block}
    (consistent : Consistent graph procedure expanding [] state)
    (popped : state.pending.pending = source :: rest.pending)
    (present : state.blocks.get? source = some block) :
    Consistent graph procedure source block.successors
      { state with pending := rest } := by
  refine { consistent with pending := ?_, complete := ?_ }
  · intro address member
    apply consistent.pending address
    rw [popped]
    exact List.mem_cons_of_mem source member
  · intro other otherBlock otherPresent seen passes target edge goalPresent
    rcases consistent.complete other otherBlock otherPresent seen passes target
      edge goalPresent
      with isPending | ⟨-, impossible⟩ | done
    · rw [popped] at isPending
      rcases List.mem_cons.mp isPending with isSource | later
      · subst isSource
        rw [present] at otherPresent
        cases otherPresent
        exact .inr (.inl ⟨rfl, edge⟩)
      · exact .inl later
    · cases impossible
    · exact .inr (.inr done)

/--
With no edge left to pass a level along it does not matter which block was
expanded last.
-/
theorem Consistent.idle
    {graph : Graph} {procedure expanding : Nat} {state : Propagation}
    (consistent : Consistent graph procedure expanding [] state)
    (other : Nat) :
    Consistent graph procedure other [] state := by
  refine { consistent with complete := ?_ }
  intro source block present seen passes target edge goalPresent
  rcases consistent.complete source block present seen passes target edge
    goalPresent with
    isPending | ⟨-, impossible⟩ | done
  · exact .inl isPending
  · cases impossible
  · exact .inr (.inr done)

/--
The only fault of a propagation, and what it takes: a walk with fewer edges
than there are blocks whose movement, with that of the block it ends at, leaves
the range of a word.
-/
def LevelExcuse (graph : Graph) (fault : Fault) : Prop :=
  fault = .levelOverflow ∧
    ∃ length address total block, Walk graph length address total ∧
      length < graph.blocks.size ∧
      graph.blocks.get? address = some block ∧
      ¬ FitsSigned (total + block.delta)

theorem Consistent.levelExcuse
    {graph : Graph} {procedure expanding source : Nat} {remaining : List Nat}
    {state : Propagation} {level : Int}
    (consistent : Consistent graph procedure expanding remaining state)
    (passes : levelAfter state.blocks source = some level)
    (overflows : ¬ FitsSigned level) :
    LevelExcuse graph .levelOverflow := by
  obtain ⟨block, start, present, known, sum⟩ :=
    levelAfter_eq_some_iff.mp passes
  obtain ⟨length, walk, short⟩ := consistent.walks source start known
  have sameShape := consistent.shape source
  rw [present, Option.map_some] at sameShape
  obtain ⟨original, originalPresent, same⟩ :=
    Option.map_eq_some_iff.mp sameShape.symm
  refine ⟨rfl, length, source, start, original, walk,
    by omega, originalPresent, ?_⟩
  rw [Block.delta_of_unleveled same, sum]
  exact overflows

/-- One round of a run. -/
theorem Propagation.run_eq (state : Propagation) :
    state.run =
      match state.pending.pop? with
      | none => (state, .ok ())
      | some (source, rest) =>
        match state.outgoing source with
        | none => run { state with pending := rest }
        | some (level, successors) =>
          if FitsSigned level then
            run (successors.foldl (visit source level)
              { state with pending := rest })
          else
            (state, .error .levelOverflow) := by
  rw [run]
  split
  next popped => rw [popped]
  next source rest popped =>
    dsimp only
    rewrite [popped]
    rfl

/--
A run ends with the invariant and nothing pending, or with a level that
overflows.
-/
theorem Consistent.run
    {graph : Graph} {procedure expanding : Nat} {state : Propagation}
    (consistent : Consistent graph procedure expanding [] state) :
    Delivers state.run.2
      (fun _ => Consistent graph procedure graph.entry [] state.run.1 ∧
        state.run.1.pending.pending = [])
      (LevelExcuse graph) := by
  induction state using Propagation.run.induct generalizing expanding with
  | case1 state popped =>
      have nothing : state.pending.pending = [] := by
        cases shape : state.pending with
        | mk pending nodup =>
          cases pending with
          | nil => rfl
          | cons oldest later => simp [shape, Worklist.pop?] at popped
      rw [Propagation.run_eq, popped]
      exact ⟨consistent.idle graph.entry, nothing⟩
  | case2 state source rest popped this outgoing hypothesis =>
      -- impossible: a pending block always has a level
      obtain ⟨level, known⟩ := consistent.pending source (by simp [this])
      obtain ⟨block, present, isKnown⟩ := levelAt_eq_some_iff.mp known
      have passes : levelAfter state.blocks source =
          some (level + block.delta) :=
        levelAfter_eq_some_iff.mpr ⟨block, level, present, known, rfl⟩
      rw [Propagation.outgoing_eq_some_iff.mpr ⟨passes, block, present, rfl⟩]
        at outgoing
      cases outgoing
  | case3 state source rest popped this level successors outgoing fits
    hypothesis =>
      obtain ⟨passes, block, present, rfl⟩ :=
        Propagation.outgoing_eq_some_iff.mp outgoing
      have expanded := (consistent.pop this present).foldl_visit present
        (fun _ member => member) passes
      rw [Propagation.run_eq, popped]
      simp only [outgoing, if_pos fits]
      exact hypothesis expanded
  | case4 state source rest popped this level successors outgoing overflows =>
      obtain ⟨passes, -⟩ := Propagation.outgoing_eq_some_iff.mp outgoing
      rw [Propagation.run_eq, popped]
      simp only [outgoing, if_neg overflows]
      exact consistent.levelExcuse passes overflows

end Graph

end ProcRecovery
