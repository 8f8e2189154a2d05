import Mathlib.Data.List.Chain
import ProcRecovery.Proofs.SymbolicStack.Algebra

/-!
# Precise updates

Overwriting bytes of a symbolic stack by an item puts the item there, forgets
what was known about the items that lose some of their bytes, and changes
nothing else.  This is one equivalence, which says of every place what is known
there afterwards.  Overwriting two ranges without a common byte therefore
leaves the same known items in either order, and a stack is determined by its
width and its known items up to the division of unknown bytes into items.
-/

namespace ProcRecovery

/-! ## An item in place of a range -/

section Replacement

variable {items above below : List StackItem}
  {item middle standIn top : StackItem} {offset width start depth : Nat}

/--
After an item has been put in place of a range, what is known is that item and
the items that do not touch the range.
-/
theorem holdsAt_replaced_iff
    (solid : IsSolid items)
    (isolated : isolate items offset width = some (above, middle, below))
    (asWide : standIn.width = width)
    (known : item.content ≠ .unknown) :
    HoldsAt (above ++ standIn :: below) start item ↔
      (start = offset ∧ item = standIn) ∨
        (HoldsAt items start item ∧
          (start + item.width ≤ offset ∨ offset + width ≤ start)) := by
  have widths := widthSum_of_isolate isolated
  constructor
  · intro holds
    rcases solid.isolate_eq_some_iff.mp isolated with
      ⟨rest, pieces, cutAbove, cutBelow, -⟩
    rcases holdsAt_append.mp holds with isAbove | ⟨depth, rfl, deeper⟩
    · have ends := isAbove.within
      exact .inr ⟨.of_above_cut cutAbove isAbove known, .inl (by omega)⟩
    · rcases holdsAt_cons.mp deeper with ⟨rfl, rfl⟩ | ⟨beyond, rfl, isBelow⟩
      · exact .inl ⟨by omega, rfl⟩
      · have inRest := HoldsAt.of_below_cut cutBelow isBelow known
        have inItems := HoldsAt.of_below_cut cutAbove inRest known
        rw [widths.1, asWide]
        exact .inr ⟨inItems, .inr (by omega)⟩
  · rintro (⟨rfl, rfl⟩ | ⟨holds, disjoint⟩)
    · exact ⟨above, below, rfl, widths.1⟩
    · exact holds.of_disjoint solid isolated asWide disjoint

/-- In front of an item that has bytes there is only that item. -/
theorem holdsAt_cons_zero (positive : 0 < top.width) :
    HoldsAt (top :: below) 0 item ↔ item = top := by
  rw [holdsAt_cons]
  constructor
  · rintro (⟨-, same⟩ | ⟨depth, starts, -⟩)
    · exact same
    · omega
  · intro same
    exact .inl ⟨rfl, same⟩

theorem holdsAt_cons_add (positive : 0 < top.width) :
    HoldsAt (top :: below) (top.width + depth) item ↔
    HoldsAt below depth item := by
  rw [holdsAt_cons]
  constructor
  · rintro (⟨starts, -⟩ | ⟨beyond, starts, holds⟩)
    · omega
    · have same : depth = beyond := by omega
      rwa [same]
  · intro holds
    exact .inr ⟨depth, rfl, holds⟩

/-- What is known below unknown bytes lies below all of them. -/
theorem holdsAt_cons_of_unknown
    (isUnknown : top.content = .unknown)
    (known : item.content ≠ .unknown) :
    HoldsAt (top :: below) start item ↔
      ∃ depth, start = top.width + depth ∧ HoldsAt below depth item := by
  rw [holdsAt_cons]
  constructor
  · rintro (⟨-, rfl⟩ | holds)
    · exact absurd isUnknown known
    · exact holds
  · exact .inr

end Replacement

/-! ## Below other items -/

section Below

variable {above items : List StackItem} {offset width : Nat}

/-- A cut below some items leaves them as they are. -/
theorem cut_append_add
    (solid : IsSolid above)
    (items : List StackItem)
    (offset : Nat) :
    cut (widthSum above + offset) (above ++ items) =
      (cut offset items).map (fun parts => (above ++ parts.1, parts.2)) := by
  induction above with
  | nil =>
      rw [widthSum_nil, Nat.zero_add, List.nil_append]
      exact Option.map_id'.symm
  | cons first others hypothesis =>
      rcases List.forall_mem_cons.mp solid with ⟨positive, solidOthers⟩
      rw [widthSum_cons, List.cons_append, cut, if_neg (by omega),
        if_pos (by omega), Nat.add_assoc, Nat.add_sub_cancel_left,
        hypothesis solidOthers, Option.map_map]
      rfl

theorem isolate_append_add
    (solid : IsSolid above)
    {upper lower : List StackItem} {middle : StackItem}
    (isolated : isolate items offset width = some (upper, middle, lower)) :
    isolate (above ++ items) (widthSum above + offset) width =
      some (above ++ upper, middle, lower) := by
  rcases isolate_eq_some_iff.mp isolated with
    ⟨rest, pieces, cutAbove, cutBelow, rfl⟩
  apply isolate_eq_some_iff.mpr
  refine ⟨rest, pieces, ?_, cutBelow, rfl⟩
  rcases cutPast_eq_some_iff.mp cutAbove with ⟨front, lower, divided, rfl, rfl⟩
  apply cutPast_eq_some_iff.mpr
  refine ⟨above ++ front, lower, ?_, (List.append_assoc _ _ _).symm, rfl⟩
  rw [cut_append_add solid, divided]
  rfl

end Below

/-! ## Division of unknown bytes -/

open SymbolicStack

/--
The items with neighbouring unknown ones made one, which is what becomes of
them when they are put on an empty stack again, bottom first.
-/
def coalesce (items : List StackItem) : List StackItem :=
  items.foldr pushItem []

theorem coalesce_cons (top : StackItem) (below : List StackItem) :
    coalesce (top :: below) = pushItem top (coalesce below) := rfl

/-- Every item has bytes, and no two neighbours are unknown. -/
structure IsCoalesced (items : List StackItem) : Prop where
  solid : IsSolid items
  alternates : items.IsChain (fun upper lower => upper.content = .unknown →
    lower.content ≠ .unknown)

section Coalescing

variable {items first second below rest : List StackItem}
  {item top other : StackItem} {start : Nat}

theorem IsCoalesced.tail
    (coalesced : IsCoalesced (top :: below)) :
    IsCoalesced below where
  solid := (List.forall_mem_cons.mp coalesced.solid).2
  alternates := coalesced.alternates.tail

theorem IsCoalesced.pos
    (coalesced : IsCoalesced (top :: below)) :
    0 < top.width :=
  (List.forall_mem_cons.mp coalesced.solid).1

theorem IsCoalesced.pushItem
    (coalesced : IsCoalesced items)
    (positive : 0 < item.width) :
    IsCoalesced (pushItem item items) where
  solid := isSolid_pushItem coalesced.solid item
  alternates := by
    rcases pushItem_cases positive items with
      ⟨plain, apart⟩ | ⟨width, below, -, rfl, joined⟩
    · rw [plain, List.isChain_cons]
      refine ⟨?_, coalesced.alternates⟩
      intro top isTop isUnknown
      exact apart isUnknown top isTop
    · rw [joined, List.isChain_cons]
      exact List.isChain_cons.mp coalesced.alternates

theorem isCoalesced_coalesce
    (solid : IsSolid items) :
    IsCoalesced (coalesce items) := by
  induction items with
  | nil => exact ⟨solid, .nil⟩
  | cons top below hypothesis =>
      rcases List.forall_mem_cons.mp solid with ⟨positive, solidBelow⟩
      rw [coalesce_cons]
      exact (hypothesis solidBelow).pushItem positive

theorem widthSum_coalesce (items : List StackItem) :
    widthSum (coalesce items) = widthSum items := by
  induction items with
  | nil => rfl
  | cons top below hypothesis =>
      rw [coalesce_cons, widthSum_pushItem, hypothesis, widthSum_cons]

/--
What is known once an item has been put on top is what is known if it simply
stands there.
-/
theorem holdsAt_pushItem_iff
    (positive : 0 < top.width)
    (known : item.content ≠ .unknown) :
    HoldsAt (pushItem top items) start item ↔
    HoldsAt (top :: items) start item := by
  rcases pushItem_cases positive items with
    ⟨plain, -⟩ | ⟨width, below, isUnknown, rfl, joined⟩
  · rw [plain]
  · have topUnknown : top.content = .unknown :=
      congrArg StackItem.content isUnknown
    rw [joined, holdsAt_cons_of_unknown rfl known,
      holdsAt_cons_of_unknown topUnknown known]
    constructor
    · rintro ⟨depth, rfl, holds⟩
      refine ⟨width + depth, ?_,
        (holdsAt_cons_of_unknown rfl known).mpr ⟨depth, rfl, holds⟩⟩
      simp only [StackItem.unknown]
      omega
    · rintro ⟨_, rfl, deeper⟩
      rcases (holdsAt_cons_of_unknown rfl known).mp deeper with
        ⟨depth, rfl, holds⟩
      refine ⟨depth, ?_, holds⟩
      simp only [StackItem.unknown]
      omega

theorem holdsAt_coalesce_iff
    (solid : IsSolid items)
    (known : item.content ≠ .unknown) :
    HoldsAt (coalesce items) start item ↔ HoldsAt items start item := by
  induction items generalizing start with
  | nil => rfl
  | cons top below hypothesis =>
      rcases List.forall_mem_cons.mp solid with ⟨positive, solidBelow⟩
      rw [coalesce_cons, holdsAt_pushItem_iff positive known]
      simp only [holdsAt_cons, hypothesis solidBelow]

/--
Unknown bytes on top end no later than those on top of items as wide with the
same known items.
-/
theorem width_le_of_known
    (coalesced : IsCoalesced (other :: rest))
    (isUnknown : other.content = .unknown)
    (sameWidth : widthSum (top :: below) = widthSum (other :: rest))
    (known : ∀ start item, item.content ≠ .unknown →
      HoldsAt (other :: rest) start item → HoldsAt (top :: below) start item) :
    top.width ≤ other.width := by
  by_contra shorter
  rw [widthSum_cons, widthSum_cons] at sameWidth
  cases rest with
  | nil =>
      rw [widthSum_nil] at sameWidth
      omega
  | cons next later =>
      -- the item after the shorter unknown one is known, but in the first list
      -- it would lie within the top item
      have nextKnown : next.content ≠ .unknown :=
        (List.isChain_cons.mp coalesced.alternates).1 next rfl isUnknown
      have onTop : HoldsAt (next :: later) 0 next :=
        (holdsAt_cons_zero coalesced.tail.pos).mpr rfl
      have atNext : HoldsAt (other :: next :: later) (other.width + 0) next :=
        (holdsAt_cons_add coalesced.pos).mpr onTop
      have positive := coalesced.pos
      rcases holdsAt_cons.mp (known _ next nextKnown atNext) with
        ⟨start, -⟩ | ⟨depth, start, -⟩
      · omega
      · omega

/--
Lists without neighbouring unknown items are determined by their width and
their known items.
-/
theorem eq_of_isCoalesced
    (firstCoalesced : IsCoalesced first)
    (secondCoalesced : IsCoalesced second)
    (sameWidth : widthSum first = widthSum second)
    (sameKnown : ∀ start item, item.content ≠ .unknown →
      (HoldsAt first start item ↔ HoldsAt second start item)) :
    first = second := by
  induction first generalizing second with
  | nil =>
      cases second with
      | nil => rfl
      | cons other rest =>
          have positive := secondCoalesced.pos
          rw [widthSum_nil, widthSum_cons] at sameWidth
          omega
  | cons top below hypothesis =>
      cases second with
      | nil =>
          have positive := firstCoalesced.pos
          rw [widthSum_nil, widthSum_cons] at sameWidth
          omega
      | cons other rest =>
          have sameTop : top = other := by
            by_cases topUnknown : top.content = .unknown
            · by_cases otherUnknown : other.content = .unknown
              · have upper :=
                  width_le_of_known secondCoalesced otherUnknown sameWidth
                  (fun start item known => (sameKnown start item known).mpr)
                have lower :=
                  width_le_of_known firstCoalesced topUnknown sameWidth.symm
                  (fun start item known => (sameKnown start item known).mp)
                rcases top with ⟨width, content⟩
                rcases other with ⟨otherWidth, otherContent⟩
                simp only at topUnknown otherUnknown upper lower
                rw [topUnknown, otherUnknown, Nat.le_antisymm upper lower]
              · have onTop : HoldsAt (other :: rest) 0 other :=
                  (holdsAt_cons_zero secondCoalesced.pos).mpr rfl
                have onFirst := (sameKnown 0 other otherUnknown).mpr onTop
                exact ((holdsAt_cons_zero firstCoalesced.pos).mp onFirst).symm
            · have onTop : HoldsAt (top :: below) 0 top :=
                (holdsAt_cons_zero firstCoalesced.pos).mpr rfl
              have onSecond := (sameKnown 0 top topUnknown).mp onTop
              exact (holdsAt_cons_zero secondCoalesced.pos).mp onSecond
          subst sameTop
          have sameBelow : below = rest := by
            apply hypothesis firstCoalesced.tail secondCoalesced.tail
            · rw [widthSum_cons, widthSum_cons] at sameWidth
              omega
            · intro start item known
              have positive := firstCoalesced.pos
              have sameDeeper := sameKnown (top.width + start) item known
              rwa [holdsAt_cons_add positive, holdsAt_cons_add positive]
                at sameDeeper
          rw [sameBelow]

/--
Items of the same width with the same known ones among them differ only in how
unknown bytes are divided.
-/
theorem coalesce_eq_of_known
    (firstSolid : IsSolid first)
    (secondSolid : IsSolid second)
    (sameWidth : widthSum first = widthSum second)
    (sameKnown : ∀ start item, item.content ≠ .unknown →
      (HoldsAt first start item ↔ HoldsAt second start item)) :
    coalesce first = coalesce second := by
  apply eq_of_isCoalesced (isCoalesced_coalesce firstSolid)
    (isCoalesced_coalesce secondSolid)
  · rw [widthSum_coalesce, widthSum_coalesce, sameWidth]
  · intro start item known
    rw [holdsAt_coalesce_iff firstSolid known,
      holdsAt_coalesce_iff secondSolid known]
    exact sameKnown start item known

end Coalescing

/-! ## Overwritten items -/

/--
What becomes of some items when an item is written over bytes at an offset.
-/
structure Overwrites
    (items : List StackItem)
    (offset : Nat)
    (item : StackItem)
    (after : List StackItem) :
    Prop where
  solid : IsSolid after
  widthSum_eq : widthSum after = widthSum items
  holds : HoldsAt after offset item
  /-- Items that do not touch the bytes stay where they are. -/
  keeps : ∀ start other, HoldsAt items start other →
    (start + other.width ≤ offset ∨ offset + item.width ≤ start) →
    HoldsAt after start other
  /-- What is known afterwards is the item, and what was known besides. -/
  known_iff : ∀ start other, other.content ≠ .unknown →
    (HoldsAt after start other ↔
      (start = offset ∧ other = item) ∨
      (HoldsAt items start other ∧
      (start + other.width ≤ offset ∨ offset + item.width ≤ start)))

section Overwriting

variable {items after : List StackItem} {item other : StackItem}
  {offset start : Nat}

theorem overwrites_of_isolate
    {above below : List StackItem} {middle : StackItem}
    (solid : IsSolid items)
    (positive : 0 < item.width)
    (isolated : isolate items offset item.width = some (above, middle, below)) :
    Overwrites items offset item (above ++ item :: below) where
  solid := solid.of_isolate positive isolated
  widthSum_eq := by
    have widths := widthSum_of_isolate isolated
    rw [widthSum_append, widthSum_cons]
    omega
  holds := ⟨above, below, rfl, (widthSum_of_isolate isolated).1⟩
  keeps := by
    intro start other holds disjoint
    exact holds.of_disjoint solid isolated rfl disjoint
  known_iff := fun _ _ known => holdsAt_replaced_iff solid isolated rfl known

/-- No known item but the one that was written has bytes in common with it. -/
theorem Overwrites.eq_of_touches
    (overwrites : Overwrites items offset item after)
    (holds : HoldsAt after start other)
    (known : other.content ≠ .unknown)
    (below : start < offset + item.width)
    (above : offset < start + other.width) :
    start = offset ∧ other = item := by
  rcases (overwrites.known_iff start other known).mp holds with
    same | ⟨-, disjoint⟩
  · exact same
  · omega

/--
Writing over two ranges without a common byte leaves the same in either order,
up to the division of unknown bytes.
-/
theorem Overwrites.coalesce_eq
    {otherOffset : Nat} {both alone reversed : List StackItem}
    (first : Overwrites items offset item after)
    (second : Overwrites after otherOffset other both)
    (secondAlone : Overwrites items otherOffset other alone)
    (firstLast : Overwrites alone offset item reversed)
    (disjoint : otherOffset + other.width ≤ offset ∨
      offset + item.width ≤ otherOffset) :
    coalesce both = coalesce reversed := by
  apply coalesce_eq_of_known second.solid firstLast.solid
  · rw [second.widthSum_eq, first.widthSum_eq, firstLast.widthSum_eq,
      secondAlone.widthSum_eq]
  · intro start found known
    rw [second.known_iff start found known, first.known_iff start found known,
      firstLast.known_iff start found known,
      secondAlone.known_iff start found known]
    constructor
    · rintro (⟨rfl, rfl⟩ | ⟨⟨rfl, rfl⟩ | ⟨holds, fromFirst⟩, fromSecond⟩)
      · exact .inr ⟨.inl ⟨rfl, rfl⟩, disjoint⟩
      · exact .inl ⟨rfl, rfl⟩
      · exact .inr ⟨.inr ⟨holds, fromSecond⟩, fromFirst⟩
    · rintro (⟨rfl, rfl⟩ | ⟨⟨rfl, rfl⟩ | ⟨holds, fromSecond⟩, fromFirst⟩)
      · exact .inr ⟨.inl ⟨rfl, rfl⟩, disjoint.symm⟩
      · exact .inl ⟨rfl, rfl⟩
      · exact .inr ⟨.inr ⟨holds, fromFirst⟩, fromSecond⟩

end Overwriting

namespace SymbolicStack

/-- The stack with neighbouring unknown items made one. -/
def coalesced : SymbolicStack → SymbolicStack
  | tracked items => tracked (coalesce items)
  | mangled => mangled

section Putting

variable {items : List StackItem} {item : StackItem} {offset : Nat}

/-- A search for the bytes of an item changes nothing. -/
theorem find_fst_of_holdsAt
    {items : List StackItem}
    (solid : IsSolid items)
    (holds : HoldsAt items offset item) :
    ((tracked items).find offset item.width).1 = tracked items := by
  rcases holds with ⟨above, below, rfl, rfl⟩
  by_cases range : IsRange (widthSum above) item.width
  · rw [find_of_isolate range (isolate_of_covered solid)]
  · rw [find, if_pos range]

/-- A search for the bytes of an item finds the item and changes nothing. -/
theorem get_of_holdsAt
    {stack : SymbolicStack}
    (solid : IsSolid stack.items)
    (fits : FitsUnsigned stack.totalWidth)
    (holds : HoldsAt stack.items offset item) :
    stack.get offset item.width = (stack, some item) := by
  have positive : 0 < item.width := solid item holds.mem
  cases stack with
  | mangled => cases holds.mem
  | tracked items =>
      have within : offset + item.width ≤ widthSum items := holds.within
      rcases holds with ⟨above, below, shape, rfl⟩
      have shape : items = above ++ item :: below := shape
      subst shape
      have range : IsRange (widthSum above) item.width := by
        refine ⟨positive, ?_⟩
        rw [totalWidth_tracked] at fits
        unfold FitsUnsigned at *
        omega
      rw [get, find_of_isolate range (isolate_of_covered solid)]
      rfl

/--
Overwriting puts an item with bytes in place of a range that can be isolated.
-/
theorem put_eq_tracked_iff {after : List StackItem} :
    (tracked items).put offset item = tracked after ↔
      IsRange offset item.width ∧ ∃ above middle below,
        isolate items offset item.width = some (above, middle, below) ∧
          after = above ++ item :: below := by
  simp only [put]
  split
  next noRange => exact iff_of_false (by simp) (fun given => noRange given.1)
  next range =>
    split
    next above middle below isolated =>
      constructor
      · intro same
        cases same
        exact ⟨not_not.mp range, above, middle, below, isolated, rfl⟩
      · rintro ⟨-, otherAbove, otherMiddle, otherBelow, again, rfl⟩
        rw [isolated] at again
        cases again
        rfl
    next missing =>
      refine iff_of_false (by simp) ?_
      rintro ⟨-, above, middle, below, isolated, -⟩
      rw [missing] at isolated
      cases isolated

/-- Where there are bytes they can be overwritten. -/
theorem exists_put
    (solid : IsSolid items)
    (fits : FitsUnsigned (widthSum items))
    (positive : 0 < item.width)
    (within : offset + item.width ≤ widthSum items) :
    ∃ after, (tracked items).put offset item = tracked after ∧
      Overwrites items offset item after := by
  rcases Option.isSome_iff_exists.mp (isSome_isolate_iff.mpr within) with
    ⟨⟨above, middle, below⟩, isolated⟩
  have range : IsRange offset item.width := by
    refine ⟨positive, ?_⟩
    unfold FitsUnsigned at *
    omega
  have isPut := put_eq_tracked_iff.mpr
    ⟨range, above, middle, below, isolated, rfl⟩
  exact ⟨_, isPut, overwrites_of_isolate solid positive isolated⟩

/-- Overwriting bytes below some items leaves these as they are. -/
theorem put_append
    {above after : List StackItem}
    (solid : IsSolid above)
    (fits : FitsUnsigned (widthSum (above ++ items)))
    (isPut : (tracked items).put offset item = tracked after) :
    (tracked (above ++ items)).put (widthSum above + offset) item =
      tracked (above ++ after) := by
  rcases put_eq_tracked_iff.mp isPut with
    ⟨range, upper, middle, lower, isolated, rfl⟩
  have widths := widthSum_of_isolate isolated
  have rangeBelow : IsRange (widthSum above + offset) item.width := by
    refine ⟨range.1, ?_⟩
    rw [widthSum_append] at fits
    unfold FitsUnsigned at *
    omega
  apply put_eq_tracked_iff.mpr
  refine ⟨rangeBelow, above ++ upper, middle, lower,
    isolate_append_add solid isolated, ?_⟩
  rw [List.append_assoc]

/--
Where overwriting does not lose track of the stack, the bytes were overwritten.
-/
theorem exists_overwrites
    (solid : IsSolid items)
    (staysTracked : ((tracked items).put offset item).isMangled = false) :
    ∃ after, (tracked items).put offset item = tracked after ∧
      Overwrites items offset item after := by
  cases isPut : (tracked items).put offset item with
  | mangled =>
      rw [isPut] at staysTracked
      cases staysTracked
  | tracked after =>
      rcases put_eq_tracked_iff.mp isPut with
        ⟨range, above, middle, below, isolated, rfl⟩
      exact ⟨_, rfl, overwrites_of_isolate solid range.1 isolated⟩

/--
Overwriting loses track of a stack exactly if there is nothing to write or not
enough room.
-/
theorem isMangled_put_iff
    (solid : IsSolid items)
    (fits : FitsUnsigned (widthSum items)) :
    ((tracked items).put offset item).isMangled = true ↔
      item.width = 0 ∨ widthSum items < offset + item.width := by
  constructor
  · intro mangled
    by_contra room
    have positive : 0 < item.width := by omega
    have within : offset + item.width ≤ widthSum items := by omega
    rcases exists_put solid fits positive within with ⟨after, isPut, -⟩
    rw [isPut] at mangled
    cases mangled
  · intro noRoom
    by_contra staysTracked
    rcases exists_overwrites solid (Bool.eq_false_iff.mpr staysTracked) with
      ⟨after, -, overwrites⟩
    have positive := overwrites.solid item overwrites.holds.mem
    have ends := overwrites.holds.within
    rw [overwrites.widthSum_eq] at ends
    omega

theorem fits_of_measure
    {stack : SymbolicStack} {width : Nat}
    (measured : stack.measure = .ok width) :
    FitsUnsigned stack.totalWidth ∧ stack.totalWidth = width :=
  unsignedOr_eq_ok_iff.mp measured

end Putting

/-- What becomes of a stack when an item is written over bytes at an offset. -/
structure UpdatesAt
    (stack : SymbolicStack)
    (offset : Nat)
    (item : StackItem)
    (after : SymbolicStack) :
    Prop where
  measure_eq : after.measure = stack.measure
  /-- The bytes now hold the item itself. -/
  get_eq : after.boundedGet offset item.width = .ok (after, some item)
  /-- Items that do not touch the bytes stay where they are. -/
  keeps : ∀ start other, HoldsAt stack.items start other →
    (start + other.width ≤ offset ∨ offset + item.width ≤ start) →
    HoldsAt after.items start other
  /--
  No known item but the one that was written has bytes in common with it.
  -/
  alone : ∀ start other, HoldsAt after.items start other →
    other.content ≠ .unknown →
    start < offset + item.width → offset < start + other.width →
    start = offset ∧ other = item
  /--
  Writing over bytes elsewhere can be done before or after, which makes no
  difference but in the division of unknown bytes.
  -/
  commutes : ∀ otherOffset other before, stack.boundedPut otherOffset other =
    .ok before →
    before.isMangled = false →
    (otherOffset + other.width ≤ offset ∨ offset + item.width ≤ otherOffset) →
      ∃ both reversed, after.boundedPut otherOffset other = .ok both ∧
        before.boundedPut offset item = .ok reversed ∧ both.isMangled = false ∧
        reversed.isMangled = false ∧ both.coalesced = reversed.coalesced

theorem updatesAt_tracked
    {items after : List StackItem} {offset : Nat} {item : StackItem}
    (solid : IsSolid items)
    (fits : FitsUnsigned (tracked items).totalWidth)
    (overwrites : Overwrites items offset item after) :
    (tracked items).UpdatesAt offset item (tracked after) := by
  have afterFits : FitsUnsigned (tracked after).totalWidth := by
    rwa [totalWidth_tracked, overwrites.widthSum_eq]
  constructor
  · rw [measure, measure, totalWidth_tracked, totalWidth_tracked,
      overwrites.widthSum_eq]
  · rw [boundedGet_of_fits afterFits]
    exact congrArg Except.ok
      (get_of_holdsAt overwrites.solid afterFits overwrites.holds)
  · exact overwrites.keeps
  · intro start other holds known below above
    exact overwrites.eq_of_touches holds known below above
  · intro otherOffset other before isPut isTracked disjoint
    rw [boundedPut_of_fits fits] at isPut
    cases isPut
    rcases exists_overwrites solid isTracked with ⟨alone, isAlone, secondAlone⟩
    have aloneFits : FitsUnsigned (tracked alone).totalWidth := by
      rwa [totalWidth_tracked, secondAlone.widthSum_eq]
    -- both ranges have bytes and end within the items, so either order finds
    -- them
    have firstEnds := overwrites.holds.within
    have secondEnds := secondAlone.holds.within
    rw [overwrites.widthSum_eq, ← secondAlone.widthSum_eq] at firstEnds
    rw [secondAlone.widthSum_eq, ← overwrites.widthSum_eq] at secondEnds
    have firstPositive := overwrites.solid item overwrites.holds.mem
    have secondPositive := secondAlone.solid other secondAlone.holds.mem
    rcases exists_put overwrites.solid afterFits secondPositive secondEnds with
      ⟨both, isBoth, second⟩
    rcases exists_put secondAlone.solid aloneFits firstPositive firstEnds with
      ⟨reversed, isReversed, firstLast⟩
    rw [isAlone, boundedPut_of_fits afterFits, boundedPut_of_fits aloneFits,
      isBoth, isReversed]
    refine ⟨tracked both, tracked reversed, rfl, rfl, rfl, rfl, ?_⟩
    exact congrArg tracked
      (overwrites.coalesce_eq second secondAlone firstLast disjoint)

/--
Writing an item over bytes of any stack that the operations make, if it is
tracked and has a width, is a precise update wherever there is room for the
item, and loses track of the stack elsewhere.
-/
theorem Reachable.boundedPut_updatesAt
    {stack : SymbolicStack} {width : Nat}
    (reachable : stack.Reachable)
    (isTracked : stack.isMangled = false)
    (measured : stack.measure = .ok width)
    (offset : Nat)
    (item : StackItem) :
    ∃ after, stack.boundedPut offset item = .ok after ∧
      (after.isMangled = true ↔ item.width = 0 ∨ width < offset + item.width) ∧
      (after.isMangled = false → stack.UpdatesAt offset item after) := by
  rcases fits_of_measure measured with ⟨fits, rfl⟩
  cases stack with
  | mangled => cases isTracked
  | tracked items =>
      have solid : IsSolid items := reachable.isSolid
      refine ⟨_, boundedPut_of_fits fits offset item,
        isMangled_put_iff solid fits, ?_⟩
      intro staysTracked
      rcases exists_overwrites solid staysTracked with
        ⟨after, isPut, overwrites⟩
      rw [isPut]
      exact updatesAt_tracked solid fits overwrites

/--
A literal written across two others leaves nothing known of either, and stays
apart from a text written further down; there is no room for it at the bottom.
-/
theorem boundedPut_updatesAt_literalsOnUnknown :
    literalsOnUnknown.Reachable ∧ literalsOnUnknown.measure = .ok 12 ∧
      (∃ after, literalsOnUnknown.boundedPut 1 ⟨2, .smallInt 9⟩ = .ok after ∧
        after.items = [.unknown 1, ⟨2, .smallInt 9⟩, .unknown 1, .unknown 8] ∧
        literalsOnUnknown.UpdatesAt 1 ⟨2, .smallInt 9⟩ after ∧
        ∃ both, after.boundedPut 6 ⟨3, .stringRef (some "abc")⟩ = .ok both ∧
          both.coalesced.items = [.unknown 1, ⟨2, .smallInt 9⟩, .unknown 3,
            ⟨3, .stringRef (some "abc")⟩, .unknown 3]) ∧
      ∃ lost, literalsOnUnknown.boundedPut 11 ⟨2, .smallInt 9⟩ = .ok lost ∧
        lost.isMangled = true := by
  have reachable : literalsOnUnknown.Reachable := by
    refine ⟨withUnknown 8, .inr ⟨8, rfl⟩, ?_⟩
    exact .tail (.single (.push ⟨2, .smallInt 5⟩ rfl))
      (.push ⟨2, .smallInt 6⟩ rfl)
  refine ⟨reachable, rfl, ?_, ?_⟩
  · rcases reachable.boundedPut_updatesAt rfl rfl 1 ⟨2, .smallInt 9⟩ with
      ⟨after, isPut, -, updates⟩
    cases isPut
    have updatesAt := updates rfl
    rcases updatesAt.commutes 6 ⟨3, .stringRef (some "abc")⟩ _ rfl rfl
      (.inr (by decide)) with
      ⟨both, reversed, isBoth, -⟩
    refine ⟨_, rfl, rfl, updatesAt, both, isBoth, ?_⟩
    cases isBoth
    rfl
  · rcases reachable.boundedPut_updatesAt rfl rfl 11 ⟨2, .smallInt 9⟩ with
      ⟨lost, isPut, mangles, -⟩
    exact ⟨lost, isPut, mangles.mpr (.inr (by decide))⟩

end SymbolicStack

end ProcRecovery
