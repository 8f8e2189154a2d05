import ProcRecovery.Diagnostic
import ProcRecovery.Graph.Basic
import ProcRecovery.Proofs.Outcome

/-!
# Walks and levels

A walk follows edges from the entry of a graph and adds up the movement of the
blocks it leaves.  The level of a block is compared with walks, and an edge is
skewed if the level passed along it differs from the level at its end.
-/

namespace ProcRecovery

/-- The block without its stack level. -/
def Block.unleveled (block : Block) : Block :=
  { block with level := .notComputed }

theorem Block.successors_of_unleveled
    {first second : Block}
    (same : first.unleveled = second.unleveled) :
    first.successors = second.successors := by
  change first.unleveled.successors = second.unleveled.successors
  rw [same]

theorem Block.delta_of_unleveled
    {first second : Block}
    (same : first.unleveled = second.unleveled) :
    first.delta = second.delta := by
  change first.unleveled.delta = second.unleveled.delta
  rw [same]

namespace Graph

/-! ## Walks -/

/--
A walk from the entry of a graph through blocks that exist: the number of its
edges, the block it ends at, and the movement of all blocks it leaves.
-/
inductive Walk (graph : Graph) : Nat → Nat → Int → Prop
  | entry
      {block : Block}
      (present : graph.blocks.get? graph.entry = some block) :
      Walk graph 0 graph.entry 0
  | step {length source target : Nat} {total : Int} {block next : Block}
      (walk : Walk graph length source total)
      (present : graph.blocks.get? source = some block)
      (edge : target ∈ block.successors)
      (exists_target : graph.blocks.get? target = some next) :
      Walk graph (length + 1) target (total + block.delta)

/-- A block that some walk ends at. -/
def Reachable (graph : Graph) (address : Nat) : Prop :=
  ∃ length total, Walk graph length address total

/-- The level of the block at an address, if it has one. -/
def levelAt (blocks : Table Nat Block) (address : Nat) : Option Int :=
  (blocks.get? address).bind (fun block => block.level.value?)

/-- The level that the block at an address passes on, if it has one. -/
def levelAfter (blocks : Table Nat Block) (address : Nat) : Option Int :=
  (blocks.get? address).bind (fun block =>
    block.level.value?.map (· + block.delta))

/--
An edge along which a level is passed on that differs from the level kept at
its end.
-/
structure IsSkewed
    (blocks : Table Nat Block)
    (source target : Nat)
    (kept seen : Int) :
    Prop where
  edge : ∃ block, blocks.get? source = some block ∧ target ∈ block.successors
  passes : levelAfter blocks source = some seen
  keeps : levelAt blocks target = some kept
  differ : kept ≠ seen

/-- One report for one skewed edge, with the levels as they are. -/
def ReportsSkew
    (blocks : Table Nat Block)
    (procedure : Nat)
    (edge : Nat × Nat)
    (report : Nat × Diagnostic) :
    Prop :=
  ∃ kept seen, IsSkewed blocks edge.1 edge.2 kept seen ∧
    report = (procedure, .stackLevelSkew edge.2 edge.1 kept seen)

theorem levelAt_eq_some_iff
    {blocks : Table Nat Block} {address : Nat} {level : Int} :
    levelAt blocks address = some level ↔
      ∃ block, blocks.get? address = some block ∧
        block.level = .known level := by
  unfold levelAt
  rw [Option.bind_eq_some_iff]
  constructor
  · rintro ⟨block, present, known⟩
    refine ⟨block, present, ?_⟩
    cases shape : block.level with
    | notComputed => simp [shape, Resolution.value?] at known
    | unrecoverable => simp [shape, Resolution.value?] at known
    | known value =>
        simp only [shape, Resolution.value?, Option.some.injEq] at known
        rw [known]
  · rintro ⟨block, present, known⟩
    exact ⟨block, present, by simp [known, Resolution.value?]⟩

theorem levelAfter_eq_some_iff
    {blocks : Table Nat Block} {address : Nat} {after : Int} :
    levelAfter blocks address = some after ↔
      ∃ block level, blocks.get? address = some block ∧
        levelAt blocks address = some level ∧
        level + block.delta = after := by
  unfold levelAfter levelAt
  cases blocks.get? address with
  | none => simp
  | some block => simp

/-! ## Growing knowledge of levels -/

/--
Two tables that differ in levels only, where the second knows every level of
the first.
-/
structure Settles (before after : Table Nat Block) : Prop where
  shape : ∀ address,
    (after.get? address).map Block.unleveled =
      (before.get? address).map Block.unleveled
  levels : ∀ address level, levelAt before address = some level →
    levelAt after address = some level

namespace Settles

variable {before after : Table Nat Block}

theorem refl (blocks : Table Nat Block) : Settles blocks blocks :=
  ⟨fun _ => rfl, fun _ _ known => known⟩

/-- A block has the same extent, movement and edges in both tables. -/
theorem block_eq
    (settles : Settles before after)
    {address : Nat} {block : Block}
    (present : after.get? address = some block) :
    ∃ earlier, before.get? address = some earlier ∧
      block.unleveled = earlier.unleveled := by
  have same := settles.shape address
  rw [present, Option.map_some] at same
  obtain ⟨earlier, found, equal⟩ := Option.map_eq_some_iff.mp same.symm
  exact ⟨earlier, found, equal.symm⟩

theorem block_eq'
    (settles : Settles before after)
    {address : Nat} {block : Block}
    (present : before.get? address = some block) :
    ∃ later, after.get? address = some later ∧
      later.unleveled = block.unleveled := by
  have same := settles.shape address
  rw [present, Option.map_some] at same
  obtain ⟨later, found, equal⟩ := Option.map_eq_some_iff.mp same
  exact ⟨later, found, equal⟩

theorem isSome_eq (settles : Settles before after) (address : Nat) :
    (after.get? address).isSome = (before.get? address).isSome := by
  have same := congrArg Option.isSome (settles.shape address)
  rwa [Option.isSome_map, Option.isSome_map] at same

end Settles

theorem Settles.levelAfter
    {before after : Table Nat Block}
    (settles : Settles before after)
    {address : Nat} {passed : Int}
    (known : levelAfter before address = some passed) :
    levelAfter after address = some passed := by
  obtain ⟨block, level, present, atAddress, sum⟩ :=
    levelAfter_eq_some_iff.mp known
  obtain ⟨later, found, same⟩ := settles.block_eq' present
  apply levelAfter_eq_some_iff.mpr
  refine ⟨later, level, found, settles.levels address level atAddress, ?_⟩
  rw [Block.delta_of_unleveled same]
  exact sum

theorem Settles.isSkewed
    {before after : Table Nat Block}
    (settles : Settles before after)
    {source target : Nat} {kept seen : Int}
    (skewed : IsSkewed before source target kept seen) :
    IsSkewed after source target kept seen := by
  obtain ⟨block, present, edge⟩ := skewed.edge
  obtain ⟨later, found, same⟩ := settles.block_eq' present
  refine ⟨⟨later, found, ?_⟩, settles.levelAfter skewed.passes,
    settles.levels target kept skewed.keeps, skewed.differ⟩
  rw [Block.successors_of_unleveled same]
  exact edge

theorem Settles.reports
    {before after : Table Nat Block}
    (settles : Settles before after)
    {procedure : Nat} {edges : List (Nat × Nat)}
    {reports : List (Nat × Diagnostic)}
    (reported : List.Forall₂ (ReportsSkew before procedure) edges reports) :
    List.Forall₂ (ReportsSkew after procedure) edges reports := by
  apply reported.imp
  rintro edge report ⟨kept, seen, skewed, same⟩
  exact ⟨kept, seen, settles.isSkewed skewed, same⟩

end Graph

end ProcRecovery
