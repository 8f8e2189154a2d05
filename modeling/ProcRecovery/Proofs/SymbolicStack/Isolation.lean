import Mathlib.Logic.Relation
import ProcRecovery.Proofs.SymbolicStack.Movement

/-!
# Isolation of ranges

Searching a symbolic stack for a range of bytes restructures it so that one
item covers exactly that range.  Items that only touch the range are divided or
merged and lose what was known about them; all others stay where they were.
Both cuts that this takes are described by one inversion lemma, in terms of
which item lies at which offset.  The main result holds of every stack that the
operations can make, because none of them leaves an item without bytes.
-/

namespace ProcRecovery

/-! ## Items at offsets -/

/-- An item lies at an offset from the top of some items. -/
def HoldsAt
    (items : List StackItem)
    (offset : Nat)
    (item : StackItem) :
    Prop :=
  ∃ above below, items = above ++ item :: below ∧ widthSum above = offset

/-- Every one of some items has bytes. -/
def IsSolid (items : List StackItem) : Prop := ∀ item ∈ items, 0 < item.width

section Offsets

variable {above below items : List StackItem} {item top : StackItem}
  {offset : Nat}

theorem holdsAt_append :
    HoldsAt (above ++ below) offset item ↔
      HoldsAt above offset item ∨ ∃ depth, offset = widthSum above + depth ∧
        HoldsAt below depth item := by
  constructor
  · rintro ⟨front, back, shape, rfl⟩
    rcases List.append_eq_append_iff.mp shape with
      ⟨gap, rfl, later⟩ | ⟨gap, rfl, later⟩
    · exact .inr ⟨widthSum gap, widthSum_append above gap, gap, back, later,
        rfl⟩
    · cases gap with
      | nil =>
          rw [List.append_nil]
          exact .inr ⟨0, rfl, [], back, later.symm, rfl⟩
      | cons first others =>
          cases later
          exact .inl ⟨front, others, rfl, rfl⟩
  · rintro (⟨front, back, rfl, rfl⟩ | ⟨depth, rfl, front, back, rfl, rfl⟩)
    · exact ⟨front, back ++ below, by simp, rfl⟩
    · exact ⟨above ++ front, back, by simp, widthSum_append above front⟩

theorem holdsAt_singleton :
    HoldsAt [top] offset item ↔ offset = 0 ∧ item = top := by
  constructor
  · rintro ⟨above, below, shape, rfl⟩
    cases above with
    | nil =>
        cases shape
        exact ⟨rfl, rfl⟩
    | cons first others =>
        cases others <;> cases shape
  · rintro ⟨rfl, rfl⟩
    exact ⟨[], [], rfl, rfl⟩

theorem holdsAt_cons :
    HoldsAt (top :: below) offset item ↔
      (offset = 0 ∧ item = top) ∨ ∃ depth, offset = top.width + depth ∧
        HoldsAt below depth item := by
  rw [← List.singleton_append, holdsAt_append, holdsAt_singleton]
  simp

/-- An item ends within the width of the items it is one of. -/
theorem HoldsAt.within (holds : HoldsAt items offset item) :
    offset + item.width ≤ widthSum items := by
  rcases holds with ⟨above, below, rfl, rfl⟩
  simp only [widthSum_append, widthSum_cons]
  omega

theorem HoldsAt.mem (holds : HoldsAt items offset item) : item ∈ items := by
  rcases holds with ⟨above, below, rfl, -⟩
  simp

end Offsets

/-! ## Cuts -/

section Cuts

variable {items above below : List StackItem} {item : StackItem}
  {offset start : Nat}

/--
A cut leaves all items as they are, or it divides the one across the offset.
-/
theorem cut_cases
    (divided : cut offset items = some (above, below)) :
    items = above ++ below ∨
      ∃ front across back upper, items = front ++ across :: back ∧
        above = front ++ [.unknown upper] ∧
        below = .unknown (across.width - upper) :: back ∧
        0 < upper ∧ upper < across.width := by
  induction items generalizing offset above with
  | nil =>
      unfold cut at divided
      split at divided <;> cases divided
      exact .inl rfl
  | cons first others hypothesis =>
      unfold cut at divided
      split at divided
      next =>
        cases divided
        exact .inl rfl
      next positive =>
        split at divided
        next whole =>
          rcases Option.map_eq_some_iff.mp divided with
            ⟨⟨upperItems, lowerItems⟩, inner, shape⟩
          cases shape
          rcases hypothesis inner with
            rfl | ⟨front, across, back, upper, rfl, rfl, rfl, bounds⟩
          · exact .inl rfl
          · exact .inr ⟨first :: front, across, back, upper, rfl, rfl, rfl,
              bounds⟩
        next across =>
          cases divided
          exact .inr ⟨[], first, others, offset, rfl, rfl, rfl,
            by omega, by omega⟩

/-- A cut between two items divides none. -/
theorem cut_append (solid : IsSolid above) (below : List StackItem) :
    cut (widthSum above) (above ++ below) = some (above, below) := by
  induction above with
  | nil => cases below <;> rfl
  | cons first others hypothesis =>
      have positive : 0 < first.width := solid first (by simp)
      have deeper :=
        hypothesis (fun item member =>
          solid item (List.mem_cons_of_mem first member))
      rw [List.cons_append, widthSum_cons, cut, if_neg (by omega),
        if_pos (by omega), Nat.add_sub_cancel_left, deeper]
      rfl

theorem IsSolid.of_cut
    (solid : IsSolid items)
    (divided : cut offset items = some (above, below)) :
    IsSolid above ∧ IsSolid below := by
  rcases cut_cases divided with
    rfl | ⟨front, across, back, upper, rfl, rfl, rfl, positive, inside⟩
  · exact List.forall_mem_append.mp solid
  · rcases List.forall_mem_append.mp solid with ⟨solidFront, solidRest⟩
    have solidBack := (List.forall_mem_cons.mp solidRest).2
    constructor
    · apply List.forall_mem_append.mpr ⟨solidFront, ?_⟩
      simpa [StackItem.unknown] using positive
    · apply List.forall_mem_cons.mpr ⟨?_, solidBack⟩
      exact Nat.sub_pos_of_lt inside

/-- Among items with bytes there are none to cut past. -/
theorem cutPast_of_solid (solid : IsSolid items) (offset : Nat) :
    cutPast offset items = cut offset items := by
  cases divided : cut offset items with
  | none => rw [cutPast, divided, Option.map_none]
  | some parts =>
      obtain ⟨above, below⟩ := parts
      rw [cutPast, divided, Option.map_some]
      cases below with
      | nil => simp
      | cons first others =>
          have solidBelow := (solid.of_cut divided).2
          have bytes : first.isEmpty = false :=
            isEmpty_eq_false (solidBelow first List.mem_cons_self)
          simp [bytes]

/-- An item above the cut stays where it is. -/
theorem HoldsAt.above_cut
    (holds : HoldsAt items start item)
    (positive : 0 < item.width)
    (divided : cut offset items = some (above, below))
    (ends : start + item.width ≤ offset) :
    HoldsAt above start item := by
  have widths := widthSum_of_cut divided
  rcases cut_cases divided with
    rfl | ⟨front, across, back, upper, rfl, rfl, rfl, -, inside⟩
  · rcases holdsAt_append.mp holds with isAbove | ⟨depth, rfl, -⟩
    · exact isAbove
    · omega
  · simp only [widthSum_append, widthSum_cons, widthSum_nil, StackItem.unknown]
      at widths
    rcases holdsAt_append.mp holds with isFront | ⟨depth, rfl, deeper⟩
    · exact holdsAt_append.mpr (.inl isFront)
    · rcases holdsAt_cons.mp deeper with
        ⟨rfl, rfl⟩ | ⟨beyond, rfl, -⟩ <;> omega

/-- An item below the cut stays where it is. -/
theorem HoldsAt.below_cut
    (holds : HoldsAt items start item)
    (positive : 0 < item.width)
    (divided : cut offset items = some (above, below))
    (starts : offset ≤ start) :
    HoldsAt below (start - offset) item := by
  have widths := widthSum_of_cut divided
  rcases cut_cases divided with
    rfl | ⟨front, across, back, upper, rfl, rfl, rfl, above, inside⟩
  · rcases holdsAt_append.mp holds with isAbove | ⟨depth, rfl, isBelow⟩
    · have ends := isAbove.within
      omega
    · rwa [widths.1, Nat.add_sub_cancel_left]
  · simp only [widthSum_append, widthSum_cons, widthSum_nil, StackItem.unknown]
      at widths
    rcases holdsAt_append.mp holds with isFront | ⟨depth, rfl, deeper⟩
    · have ends := isFront.within
      omega
    · rcases holdsAt_cons.mp deeper with ⟨rfl, rfl⟩ | ⟨beyond, rfl, isBack⟩
      · omega
      · refine holdsAt_cons.mpr (.inr ⟨beyond, ?_, isBack⟩)
        simp only [StackItem.unknown]
        omega

/-- What is known above a cut was known before it. -/
theorem HoldsAt.of_above_cut
    (divided : cut offset items = some (above, below))
    (holds : HoldsAt above start item)
    (known : item.content ≠ .unknown) :
    HoldsAt items start item := by
  rcases cut_cases divided with
    rfl | ⟨front, across, back, upper, rfl, rfl, rfl, -, -⟩
  · exact holdsAt_append.mpr (.inl holds)
  · rcases holdsAt_append.mp holds with isFront | ⟨depth, rfl, isPart⟩
    · exact holdsAt_append.mpr (.inl isFront)
    · rcases holdsAt_singleton.mp isPart with ⟨-, rfl⟩
      exact absurd rfl known

/-- What is known below a cut was known before it. -/
theorem HoldsAt.of_below_cut
    (divided : cut offset items = some (above, below))
    (holds : HoldsAt below start item)
    (known : item.content ≠ .unknown) :
    HoldsAt items (offset + start) item := by
  have widths := widthSum_of_cut divided
  rcases cut_cases divided with
    rfl | ⟨front, across, back, upper, rfl, rfl, rfl, -, inside⟩
  · exact holdsAt_append.mpr (.inr ⟨start, by omega, holds⟩)
  · simp only [widthSum_append, widthSum_cons, widthSum_nil, StackItem.unknown]
      at widths
    rcases holdsAt_cons.mp holds with ⟨-, rfl⟩ | ⟨beyond, rfl, isBack⟩
    · exact absurd rfl known
    · refine holdsAt_append.mpr (.inr ⟨across.width + beyond, ?_, ?_⟩)
      · simp only [StackItem.unknown]
        omega
      · exact holdsAt_cons.mpr (.inr ⟨beyond, rfl, isBack⟩)

end Cuts

/-! ## Isolated ranges -/

section Isolated

variable {items above below : List StackItem} {item middle : StackItem}
  {offset width start : Nat}

/-- Among items with bytes, isolating a range takes two plain cuts. -/
theorem IsSolid.isolate_eq_some_iff (solid : IsSolid items) :
    isolate items offset width = some (above, middle, below) ↔
      ∃ rest pieces, cut offset items = some (above, rest) ∧
        cut width rest = some (pieces, below) ∧
          middle = merged width pieces := by
  rw [ProcRecovery.isolate_eq_some_iff, cutPast_of_solid solid]

/-- A single item is known after merging only if it was the only one. -/
theorem eq_singleton_of_merged
    {pieces : List StackItem}
    (known : (merged width pieces).content ≠ .unknown) :
    pieces = [merged width pieces] := by
  unfold merged at known ⊢
  split at known
  next => rfl
  next => exact absurd rfl known

/-- Whatever has bytes can stand in for an isolated range. -/
theorem IsSolid.of_isolate
    (solid : IsSolid items)
    (positive : 0 < item.width)
    (isolated : isolate items offset width = some (above, middle, below)) :
    IsSolid (above ++ item :: below) := by
  rcases solid.isolate_eq_some_iff.mp isolated with
    ⟨rest, pieces, cutAbove, cutBelow, -⟩
  rcases solid.of_cut cutAbove with ⟨solidAbove, solidRest⟩
  have solidBelow := (solidRest.of_cut cutBelow).2
  exact List.forall_mem_append.mpr ⟨solidAbove,
    List.forall_mem_cons.mpr ⟨positive, solidBelow⟩⟩

/--
Items that do not touch the range stay where they are, whatever stands in for
the range.
-/
theorem HoldsAt.of_disjoint
    (holds : HoldsAt items start item)
    (solid : IsSolid items)
    (isolated : isolate items offset width = some (above, middle, below))
    {standIn : StackItem}
    (asWide : standIn.width = width)
    (disjoint : start + item.width ≤ offset ∨ offset + width ≤ start) :
    HoldsAt (above ++ standIn :: below) start item := by
  have positive : 0 < item.width := solid item holds.mem
  have widths := widthSum_of_isolate isolated
  rcases solid.isolate_eq_some_iff.mp isolated with
    ⟨rest, pieces, cutAbove, cutBelow, -⟩
  rcases disjoint with ends | starts
  · exact holdsAt_append.mpr (.inl (holds.above_cut positive cutAbove ends))
  · have inRest := holds.below_cut positive cutAbove (by omega)
    have isBelow := inRest.below_cut positive cutBelow (by omega)
    refine holdsAt_append.mpr (.inr ⟨start - offset, by omega, ?_⟩)
    exact holdsAt_cons.mpr (.inr ⟨start - offset - width, by omega, isBelow⟩)

/-- What is known after isolating a range was known before. -/
theorem HoldsAt.of_isolate
    (solid : IsSolid items)
    (isolated : isolate items offset width = some (above, middle, below))
    (holds : HoldsAt (above ++ middle :: below) start item)
    (known : item.content ≠ .unknown) :
    HoldsAt items start item := by
  have widths := widthSum_of_isolate isolated
  rcases solid.isolate_eq_some_iff.mp isolated with
    ⟨rest, pieces, cutAbove, cutBelow, rfl⟩
  rcases holdsAt_append.mp holds with isAbove | ⟨depth, rfl, deeper⟩
  · exact .of_above_cut cutAbove isAbove known
  · rw [widths.1]
    apply HoldsAt.of_below_cut cutAbove _ known
    rcases holdsAt_cons.mp deeper with ⟨rfl, rfl⟩ | ⟨beyond, rfl, isBelow⟩
    · apply HoldsAt.of_above_cut cutBelow _ known
      rw [eq_singleton_of_merged known]
      exact holdsAt_singleton.mpr ⟨rfl, rfl⟩
    · rw [widths.2.1]
      exact .of_below_cut cutBelow isBelow known

/-- An item that covers the range exactly is isolated already. -/
theorem isolate_of_covered (solid : IsSolid (above ++ item :: below)) :
    isolate (above ++ item :: below) (widthSum above) item.width =
      some (above, item, below) := by
  rcases List.forall_mem_append.mp solid with ⟨solidAbove, solidRest⟩
  have alone : IsSolid [item] := by
    simpa [IsSolid] using solidRest item (by simp)
  have cutBelow := cut_append alone below
  rw [widthSum_cons, widthSum_nil, Nat.add_zero] at cutBelow
  exact solid.isolate_eq_some_iff.mpr
    ⟨item :: below, [item], cut_append solidAbove (item :: below), cutBelow,
      rfl⟩

end Isolated

/-! ## Stacks that the operations make -/

namespace SymbolicStack

/-- One operation on a stack that does not end in a fault. -/
inductive Step : SymbolicStack → SymbolicStack → Prop
  | push {stack pushed : SymbolicStack} (item : StackItem)
      (isPushed : stack.boundedPush item = .ok pushed) : Step stack pushed
  | pop (stack : SymbolicStack) (width : Nat) : Step stack (stack.pop width).1
  | find
      {stack after : SymbolicStack} {offset width : Nat}
      {found : Option (Nat × StackItem)}
      (isFound : stack.boundedFind offset width = .ok (after, found)) :
      Step stack after
  | get
      {stack after : SymbolicStack} {offset width : Nat}
      {found : Option StackItem}
      (isFound : stack.boundedGet offset width = .ok (after, found)) :
      Step stack after
  | put {stack changed : SymbolicStack} {offset : Nat} {item : StackItem}
      (isPut : stack.boundedPut offset item = .ok changed) : Step stack changed
  | resolve {stack after : SymbolicStack} {offset : Nat} {target : Option Nat}
      (isResolved : stack.boundedResolve offset = .ok (after, target)) :
      Step stack after
  | mangle (stack : SymbolicStack) : Step stack mangled

/--
The stacks that operations make from the empty one or from some unknown bytes.
-/
def Reachable (stack : SymbolicStack) : Prop :=
  ∃ start, (start = empty ∨ ∃ width, start = withUnknown width) ∧
    Relation.ReflTransGen Step start stack

theorem isSolid_pushItem
    {items : List StackItem}
    (solid : IsSolid items)
    (item : StackItem) :
    IsSolid (pushItem item items) := by
  unfold pushItem
  split
  next => exact solid
  next nonempty =>
    split
    next width below _ =>
      rcases List.forall_mem_cons.mp solid with ⟨positive, solidBelow⟩
      exact List.forall_mem_cons.mpr ⟨Nat.add_pos_left positive _, solidBelow⟩
    next => exact List.forall_mem_cons.mpr ⟨Nat.pos_of_ne_zero nonempty, solid⟩

theorem isSolid_push
    {stack : SymbolicStack}
    (solid : IsSolid stack.items)
    (item : StackItem) :
    IsSolid (stack.push item).items := by
  cases stack with
  | tracked items => exact isSolid_pushItem solid item
  | mangled => exact solid

theorem isSolid_pop
    {stack : SymbolicStack}
    (solid : IsSolid stack.items)
    (width : Nat) :
    IsSolid (stack.pop width).1.items := by
  cases stack with
  | mangled => exact solid
  | tracked items =>
      simp only [pop]
      split
      next popped rest divided => exact (IsSolid.of_cut solid divided).2
      next => exact List.forall_mem_nil _

theorem isSolid_find
    {stack : SymbolicStack}
    (solid : IsSolid stack.items)
    (offset width : Nat) :
    IsSolid (stack.find offset width).1.items := by
  cases stack with
  | mangled => exact solid
  | tracked items =>
      simp only [find]
      split
      next => exact solid
      next range =>
        split
        next above item below isolated =>
          have asWide := (widthSum_of_isolate isolated).2.1
          have positive : 0 < item.width := by
            rw [asWide]
            exact (not_not.mp range).1
          exact IsSolid.of_isolate solid positive isolated
        next => exact solid

theorem isSolid_put
    {stack : SymbolicStack}
    (solid : IsSolid stack.items)
    (offset : Nat)
    (item : StackItem) :
    IsSolid (stack.put offset item).items := by
  cases stack with
  | mangled => exact solid
  | tracked items =>
      simp only [put]
      split
      next => exact List.forall_mem_nil _
      next range =>
        split
        next above replaced below isolated =>
          exact IsSolid.of_isolate solid (not_not.mp range).1 isolated
        next => exact List.forall_mem_nil _

/-- No operation leaves an item without bytes. -/
theorem Step.isSolid
    {stack next : SymbolicStack}
    (step : Step stack next)
    (solid : IsSolid stack.items) :
    IsSolid next.items := by
  cases step with
  | push item isPushed =>
      rw [(delivers_boundedPush stack item).of_ok isPushed]
      exact isSolid_push solid item
  | pop width => exact isSolid_pop solid width
  | @find _ offset width found isFound =>
      rw [boundedFind_eq] at isFound
      rcases bind_eq_ok_iff.mp isFound with ⟨-, -, answer⟩
      have same : (stack.find offset width).1 = next :=
        congrArg Prod.fst (Except.ok.inj answer)
      rw [← same]
      exact isSolid_find solid offset width
  | @get _ offset width found isFound =>
      have same : next = (stack.find offset width).1 :=
        congrArg Prod.fst
          ((delivers_boundedGet stack offset width).of_ok isFound)
      rw [same]
      exact isSolid_find solid offset width
  | @put _ offset item isPut =>
      rw [(delivers_boundedPut stack offset item).of_ok isPut]
      exact isSolid_put solid offset item
  | @resolve _ offset target isResolved =>
      have same : next = (stack.find offset 2).1 :=
        congrArg Prod.fst
          ((delivers_boundedResolve stack offset).of_ok isResolved)
      rw [same]
      exact isSolid_find solid offset 2
  | mangle => exact List.forall_mem_nil _

theorem Reachable.isSolid
    {stack : SymbolicStack}
    (reachable : stack.Reachable) :
    IsSolid stack.items := by
  rcases reachable with ⟨start, initial, steps⟩
  have first : IsSolid start.items := by
    rcases initial with rfl | ⟨width, rfl⟩
    · exact List.forall_mem_nil _
    · exact isSolid_pushItem (List.forall_mem_nil _) (.unknown width)
  induction steps with
  | refl => exact first
  | tail _ step hypothesis => exact step.isSolid hypothesis

/-! ## Searching -/

/--
The answer to a search for a range, and what the search makes of the stack.
-/
structure Isolates
    (stack : SymbolicStack)
    (offset width : Nat)
    (after : SymbolicStack)
    (found : Option (Nat × StackItem)) :
    Prop where
  /--
  Nothing is found exactly if tracking is lost, if the range is empty, or if it
  reaches past the bottom.
  -/
  none_iff : found = none ↔
    stack.isMangled = true ∨ width = 0 ∨ stack.totalWidth < offset + width
  /-- A search that finds nothing changes nothing. -/
  unchanged : found = none → after = stack
  /--
  What is found has the width of the range, lies at its offset, and is counted
  from the bottom.
  -/
  covers : ∀ index item, found = some (index, item) → item.width = width ∧
    ∃ above below, after.items = above ++ item :: below ∧
    widthSum above = offset ∧
      below.length = index
  totalWidth_eq : after.totalWidth = stack.totalWidth
  isMangled_eq : after.isMangled = stack.isMangled
  /-- Items that do not touch the range stay where they are. -/
  keeps : ∀ start item, HoldsAt stack.items start item →
    (start + item.width ≤ offset ∨ offset + width ≤ start) →
    HoldsAt after.items start item
  /-- Nothing becomes known. -/
  known : ∀ start item, HoldsAt after.items start item →
    item.content ≠ .unknown →
    HoldsAt stack.items start item
  /--
  An item that covers the range already stays as it is, and so does all else.
  -/
  covered : ∀ item, HoldsAt stack.items offset item → item.width = width →
    after = stack
  /-- The same search again gives the same answer and changes nothing. -/
  again : after.boundedFind offset width = .ok (after, found)

section Fitting

variable {stack : SymbolicStack}

theorem measureFor_of_fits
    (fits : FitsUnsigned stack.totalWidth)
    (offset width : Nat) :
    stack.measureFor offset width = .ok () := by
  unfold measureFor
  split
  · rw [measure, unsignedOr_eq_ok_iff.mpr ⟨fits, rfl⟩]
    rfl
  · rfl

theorem boundedFind_of_fits
    (fits : FitsUnsigned stack.totalWidth)
    (offset width : Nat) :
    stack.boundedFind offset width = .ok (stack.find offset width) := by
  rw [boundedFind_eq, measureFor_of_fits fits, ok_bind]

theorem boundedGet_of_fits
    (fits : FitsUnsigned stack.totalWidth)
    (offset width : Nat) :
    stack.boundedGet offset width = .ok (stack.get offset width) := by
  rw [boundedGet_eq, measureFor_of_fits fits, ok_bind]

theorem boundedPut_of_fits
    (fits : FitsUnsigned stack.totalWidth)
    (offset : Nat)
    (item : StackItem) :
    stack.boundedPut offset item = .ok (stack.put offset item) := by
  rw [boundedPut_eq, measureFor_of_fits fits, ok_bind]

theorem boundedResolve_of_fits
    (fits : FitsUnsigned stack.totalWidth)
    (offset : Nat) :
    stack.boundedResolve offset = .ok (stack.resolve offset) := by
  rw [boundedResolve_eq, measureFor_of_fits fits, ok_bind]

end Fitting

/-- A search that finds nothing. -/
theorem isolates_none
    {stack : SymbolicStack}
    (fits : FitsUnsigned stack.totalWidth)
    {offset width : Nat}
    (missing : stack.isMangled = true ∨ width = 0 ∨
      stack.totalWidth < offset + width)
    (nothing : stack.find offset width = (stack, none)) :
    stack.Isolates offset width stack none where
  none_iff := iff_of_true rfl missing
  unchanged := fun _ => rfl
  covers := fun _ _ impossible => by cases impossible
  totalWidth_eq := rfl
  isMangled_eq := rfl
  keeps := fun _ _ holds _ => holds
  known := fun _ _ holds _ => holds
  covered := fun _ _ _ => rfl
  again := by rw [boundedFind_of_fits fits, nothing]

/-- A search that finds its range. -/
theorem isolates_some
    {items above below : List StackItem} {item : StackItem}
    {offset width : Nat}
    (solid : IsSolid items)
    (fits : FitsUnsigned (widthSum items))
    (range : IsRange offset width)
    (isolated : isolate items offset width = some (above, item, below)) :
    (tracked items).Isolates offset width (tracked (above ++ item :: below))
      (some (below.length, item)) := by
  rcases widthSum_of_isolate isolated with ⟨atOffset, hasWidth, whole⟩
  have sameWidth : widthSum (above ++ item :: below) = widthSum items := by
    rw [widthSum_append, widthSum_cons]
    omega
  have nonempty : 0 < width := range.1
  have solidAfter : IsSolid (above ++ item :: below) :=
    solid.of_isolate (by omega) isolated
  have isolatedAgain : isolate (above ++ item :: below) offset width =
      some (above, item, below) := by
    rw [← atOffset, ← hasWidth]
    exact isolate_of_covered solidAfter
  constructor
  · refine iff_of_false (by simp) ?_
    rintro (mangled | empty | beyond)
    · cases mangled
    · omega
    · rw [totalWidth_tracked] at beyond
      omega
  · intro impossible
    cases impossible
  · intro index other isFound
    cases isFound
    exact ⟨hasWidth, above, below, rfl, atOffset, rfl⟩
  · exact sameWidth
  · rfl
  · intro start other holds disjoint
    exact holds.of_disjoint solid isolated hasWidth disjoint
  · intro start other holds isKnown
    exact .of_isolate solid isolated holds isKnown
  · rintro other ⟨front, back, shape, rfl⟩ rfl
    have shape : items = front ++ other :: back := shape
    subst shape
    rw [isolate_of_covered solid] at isolated
    cases isolated
    rfl
  · rw [boundedFind_of_fits (by rwa [totalWidth_tracked, sameWidth]),
      find_of_isolate range isolatedAgain]

theorem exists_isolates
    {stack : SymbolicStack}
    (solid : IsSolid stack.items)
    (fits : FitsUnsigned stack.totalWidth)
    (offset width : Nat) :
    ∃ after found, stack.find offset width = (after, found) ∧
      stack.Isolates offset width after found := by
  cases stack with
  | mangled => exact ⟨mangled, none, rfl, isolates_none fits (.inl rfl) rfl⟩
  | tracked items =>
      by_cases within : 0 < width ∧ offset + width ≤ widthSum items
      · have range : IsRange offset width := by
          refine ⟨within.1, ?_⟩
          rw [totalWidth_tracked] at fits
          unfold FitsUnsigned at *
          omega
        rcases Option.isSome_iff_exists.mp (isSome_isolate_iff.mpr within.2)
          with ⟨⟨above, item, below⟩, isolated⟩
        exact ⟨_, _, find_of_isolate range isolated,
          isolates_some solid fits range isolated⟩
      · have missing : width = 0 ∨
            (tracked items).totalWidth < offset + width := by
          rw [totalWidth_tracked]
          omega
        have nothing : (tracked items).find offset width =
            (tracked items, none) := by
          rcases missing with empty | beyond
          · rw [find, if_pos (by simp [IsRange, empty])]
          · apply find_of_outside
            rw [← Option.not_isSome_iff_eq_none, isSome_isolate_iff]
            exact Nat.not_le.mpr beyond
        exact ⟨tracked items, none, nothing,
          isolates_none fits (.inr missing) nothing⟩

/--
Searching any stack that the operations make isolates exactly the range that is
asked for, if there is one, and disturbs nothing else.
-/
theorem boundedFind_isolates
    {stack : SymbolicStack}
    (reachable : stack.Reachable)
    (fits : FitsUnsigned stack.totalWidth)
    (offset width : Nat) :
    IsSolid stack.items ∧
      ∃ after found, stack.boundedFind offset width = .ok (after, found) ∧
        stack.Isolates offset width after found := by
  rcases exists_isolates reachable.isSolid fits offset width with
    ⟨after, found, answer, isolates⟩
  refine ⟨reachable.isSolid, after, found, ?_, isolates⟩
  rw [boundedFind_of_fits fits, answer]

/-- Two literals on eight unknown bytes. -/
def literalsOnUnknown : SymbolicStack :=
  tracked [⟨2, .smallInt 6⟩, ⟨2, .smallInt 5⟩, ⟨8, .unknown⟩]

/--
A range across both literals leaves nothing known of either, and the unknown
bytes below stay where they are.
-/
theorem boundedFind_isolates_literalsOnUnknown :
    literalsOnUnknown.Reachable ∧ FitsUnsigned literalsOnUnknown.totalWidth ∧
      ∃ after found, literalsOnUnknown.boundedFind 1 2 = .ok (after, found) ∧
        after.items = [.unknown 1, .unknown 2, .unknown 1, .unknown 8] ∧
        found = some (2, .unknown 2) ∧
          literalsOnUnknown.Isolates 1 2 after found := by
  have reachable : literalsOnUnknown.Reachable := by
    refine ⟨withUnknown 8, .inr ⟨8, rfl⟩, ?_⟩
    exact .tail (.single (.push ⟨2, .smallInt 5⟩ rfl))
      (.push ⟨2, .smallInt 6⟩ rfl)
  have fits : FitsUnsigned literalsOnUnknown.totalWidth := by decide
  rcases boundedFind_isolates reachable fits 1 2 with
    ⟨-, after, found, answer, isolates⟩
  refine ⟨reachable, fits, after, found, answer, ?_, ?_, isolates⟩
  · cases answer
    rfl
  · cases answer
    rfl

end SymbolicStack

end ProcRecovery
