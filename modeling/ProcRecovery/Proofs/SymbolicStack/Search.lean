import ProcRecovery.Proofs.Outcome
import ProcRecovery.SymbolicStack.Bounded

/-!
# Searches keep their promises

A search that locates, divides and joins items one after the other is a pair
of cuts, one at each end of the range: whatever one of its steps relies on is
there.  The place of the first byte of the range is described by the items
above it, and every step is computed on items that are divided at that place.

An operation on words is therefore the exact operation, and all that can stop
it is the width of the stack.
-/

namespace ProcRecovery

/-! ## Cuts past items without bytes -/

@[simp]
theorem cut_zero
    (items : List StackItem) :
    cut 0 items = some ([], items) := by
  cases items <;> rfl

theorem cutPast_eq_some_iff
    {items above below : List StackItem} {offset : Nat} :
    cutPast offset items = some (above, below) ↔
      ∃ upper lower, cut offset items = some (upper, lower) ∧
        above = upper ++ lower.takeWhile StackItem.isEmpty ∧
        below = lower.dropWhile StackItem.isEmpty := by
  simp only [cutPast, Option.map_eq_some_iff, Prod.mk.injEq]
  constructor
  · rintro ⟨⟨upper, lower⟩, divided, rfl, rfl⟩
    exact ⟨upper, lower, divided, rfl, rfl⟩
  · rintro ⟨upper, lower, divided, rfl, rfl⟩
    exact ⟨(upper, lower), divided, rfl, rfl⟩

theorem isEmpty_eq_false {item : StackItem} (positive : 0 < item.width) :
    item.isEmpty = false :=
  decide_eq_false (Nat.ne_of_gt positive)

theorem widthSum_takeWhile_isEmpty (items : List StackItem) :
    widthSum (items.takeWhile StackItem.isEmpty) = 0 := by
  induction items with
  | nil => rfl
  | cons item below hypothesis =>
      rw [List.takeWhile_cons]
      split
      next empty =>
        have noBytes : item.width = 0 := by
          simpa [StackItem.isEmpty] using empty
        rw [widthSum_cons, noBytes, hypothesis]
      next => rfl

/-- A cut past items without bytes divides the width like any other cut. -/
theorem widthSum_of_cutPast
    {items above below : List StackItem} {offset : Nat}
    (divided : cutPast offset items = some (above, below)) :
    widthSum above = offset ∧
      widthSum above + widthSum below = widthSum items := by
  rcases cutPast_eq_some_iff.mp divided with ⟨upper, lower, isCut, rfl, rfl⟩
  have widths := widthSum_of_cut isCut
  have empty := widthSum_takeWhile_isEmpty lower
  have whole : widthSum (lower.takeWhile StackItem.isEmpty) +
      widthSum (lower.dropWhile StackItem.isEmpty) = widthSum lower := by
    rw [← widthSum_append, List.takeWhile_append_dropWhile]
  rw [widthSum_append]
  omega

theorem isSome_cutPast (offset : Nat) (items : List StackItem) :
    (cutPast offset items).isSome = true ↔ offset ≤ widthSum items := by
  rw [cutPast, Option.isSome_map, isSome_cut]

/-- A cut goes past an item that ends at or above the offset. -/
theorem cutPast_cons_of_le
    {item : StackItem} {offset : Nat} (whole : item.width ≤ offset)
    (below : List StackItem) :
    cutPast offset (item :: below) =
      (cutPast (offset - item.width) below).map
        (fun parts => (item :: parts.1, parts.2)) := by
  by_cases zero : offset = 0
  · have noBytes : item.width = 0 := by omega
    have empty : item.isEmpty = true := by simp [StackItem.isEmpty, noBytes]
    simp [cutPast, zero, noBytes, empty]
  · simp only [cutPast, cut, if_neg zero, if_pos whole, Option.map_map]
    rfl

/--
A cut that goes past some items and then a part of the way into the next one,
or no part of it.
-/
theorem cutPast_append
    {item : StackItem} {upper : Nat} (inside : upper < item.width)
    (above below : List StackItem) :
    cutPast (widthSum above + upper) (above ++ item :: below) =
      some (if upper = 0 then (above, item :: below)
        else (above ++ [.unknown upper],
          .unknown (item.width - upper) :: below)) := by
  induction above with
  | nil =>
      rw [widthSum_nil, Nat.zero_add, List.nil_append]
      by_cases zero : upper = 0
      · have bytes : item.isEmpty = false := isEmpty_eq_false (by omega)
        simp [cutPast, zero, bytes]
      · have bytes : (StackItem.unknown (item.width - upper)).isEmpty =
            false :=
          isEmpty_eq_false (Nat.sub_pos_of_lt inside)
        have beyond : ¬ item.width ≤ upper := by omega
        simp [cutPast, cut, zero, beyond, bytes]
  | cons first others hypothesis =>
      have whole : first.width ≤ widthSum (first :: others) + upper := by
        rw [widthSum_cons]
        omega
      have deeper : widthSum (first :: others) + upper - first.width =
          widthSum others + upper := by
        rw [widthSum_cons]
        omega
      rw [List.cons_append, cutPast_cons_of_le whole, deeper, hypothesis]
      split <;> rfl

/-- Every byte lies in an item. -/
theorem exists_item_of_lt
    {items : List StackItem} {offset : Nat}
    (within : offset < widthSum items) :
    ∃ above item below upper, items = above ++ item :: below ∧
      offset = widthSum above + upper ∧ upper < item.width := by
  induction items generalizing offset with
  | nil => exact absurd within (Nat.not_lt_zero offset)
  | cons first others hypothesis =>
      rw [widthSum_cons] at within
      by_cases inFirst : offset < first.width
      · exact ⟨[], first, others, offset, rfl, (Nat.zero_add offset).symm,
          inFirst⟩
      · have deeper : offset - first.width < widthSum others := by omega
        rcases hypothesis deeper with
          ⟨above, item, below, upper, rfl, place, inside⟩
        refine ⟨first :: above, item, below, upper, rfl, ?_, inside⟩
        rw [widthSum_cons]
        omega

/-- One item in place of a run of items keeps the width of the run. -/
theorem width_merged
    {width : Nat} {pieces : List StackItem}
    (covers : widthSum pieces = width) :
    (merged width pieces).width = width := by
  unfold merged
  split
  · simpa using covers
  · rfl

/-- Isolating a range takes two cuts, one at each of its ends. -/
theorem isolate_eq_some_iff
    {items above below : List StackItem} {middle : StackItem}
    {offset width : Nat} :
    isolate items offset width = some (above, middle, below) ↔
      ∃ rest pieces, cutPast offset items = some (above, rest) ∧
        cut width rest = some (pieces, below) ∧
        middle = merged width pieces := by
  simp only [isolate, Option.bind_eq_bind, Option.bind_eq_some_iff,
    Option.some.injEq, Prod.mk.injEq]
  constructor
  · rintro ⟨⟨upper, rest⟩, cutAbove, ⟨pieces, lower⟩, cutBelow,
      rfl, rfl, rfl⟩
    exact ⟨rest, pieces, cutAbove, cutBelow, rfl⟩
  · rintro ⟨rest, pieces, cutAbove, cutBelow, rfl⟩
    exact ⟨(above, rest), cutAbove, (pieces, below), cutBelow, rfl, rfl, rfl⟩

/-! ## Steps of a search -/

namespace SymbolicStack

section Steps

variable {above below items : List StackItem} {item : StackItem}
  {offset upper width : Nat}

@[simp]
theorem itemAt_append :
    itemAt (above ++ item :: below) above.length = .ok item := by
  simp [itemAt]

/-- The item of a byte is located by the items above it. -/
theorem locate_append
    (inside : upper < item.width)
    (place start : Nat)
    (fits : FitsUnsigned (start + widthSum above + item.width)) :
    locate (start + widthSum above + upper) place start
        (above ++ item :: below) =
      .ok (some (place + above.length, start + widthSum above)) := by
  induction above generalizing place start with
  | nil =>
      simp only [widthSum_nil, Nat.add_zero] at fits ⊢
      have isBefore : start + upper < start + item.width := by omega
      rw [List.nil_append, locate,
        unsignedOr_eq_ok_iff.mpr ⟨fits, rfl⟩, ok_bind, if_pos isBefore]
      rfl
  | cons first others hypothesis =>
      rw [widthSum_cons] at fits ⊢
      have firstFits : FitsUnsigned (start + first.width) := by
        unfold FitsUnsigned at *
        omega
      have notBefore : ¬ start + (first.width + widthSum others) + upper <
          start + first.width := by omega
      have deeper := hypothesis (place + 1) (start + first.width)
        (by rwa [Nat.add_assoc start])
      rw [Nat.add_assoc start] at deeper
      rw [List.cons_append, locate,
        unsignedOr_eq_ok_iff.mpr ⟨firstFits, rfl⟩, ok_bind,
        if_neg notBefore, deeper, List.length_cons]
      congr 3
      omega

theorem divide_append (positive : 0 < upper) (inside : upper < item.width) :
    divide (above ++ item :: below) above.length upper =
      .ok (above ++
        .unknown upper :: .unknown (item.width - upper) :: below) := by
  have rest : (above ++ item :: below).drop (above.length + 1) = below := by
    simp
  rw [divide, itemAt_append, ok_bind, if_pos ⟨positive, inside⟩, rest,
    List.take_left]

/-- Entering an item is the cut at the start of the range. -/
theorem exists_enter
    (inside : upper < item.width)
    (above below : List StackItem) :
    ∃ higher first lower,
      cutPast (widthSum above + upper) (above ++ item :: below) =
          some (higher, first :: lower) ∧
        enter (above ++ item :: below) above.length (widthSum above)
            (widthSum above + upper) =
          .ok (higher ++ first :: lower, higher.length) := by
  by_cases zero : upper = 0
  · refine ⟨above, item, below, ?_, ?_⟩
    · rw [cutPast_append inside, if_pos zero]
    · rw [enter, if_neg (by omega)]
  · refine ⟨above ++ [.unknown upper], .unknown (item.width - upper), below,
      ?_, ?_⟩
    · rw [cutPast_append inside, if_neg zero]
    · rw [enter, if_pos (by omega), Nat.add_sub_cancel_left,
        divide_append (Nat.pos_of_ne_zero zero) inside, ok_bind]
      simp

theorem gather_of_le {covered : Nat} (covers : width ≤ covered) :
    gather width covered below = .ok (covered, below) := by
  have notMissing : ¬ covered < width := Nat.not_lt.mpr covers
  cases below <;> rw [gather, if_neg notMissing]

/--
Gathering items ends where a cut at the missing bytes does, or it takes in the
rest of the item that the cut divides.
-/
theorem gather_of_cut
    {covered : Nat} {pieces lower : List StackItem}
    (missing : covered ≤ width)
    (divided : cut (width - covered) below = some (pieces, lower))
    (fits : FitsUnsigned (covered + widthSum below)) :
    gather width covered below = .ok (width, lower) ∨
      ∃ total rest, gather width covered below = .ok (total, rest) ∧
        width < total ∧ lower = .unknown (total - width) :: rest := by
  induction below generalizing covered pieces with
  | nil =>
      have widths := widthSum_of_cut divided
      rw [widthSum_nil] at widths
      have same : covered = width := by omega
      have left : lower = [] := by
        rw [same, Nat.sub_self, cut_zero] at divided
        cases divided
        rfl
      exact .inl (by rw [gather_of_le (Nat.le_of_eq same.symm), same, left])
  | cons first others hypothesis =>
      by_cases covers : covered = width
      · subst covers
        rw [Nat.sub_self, cut_zero] at divided
        cases divided
        exact .inl (gather_of_le (Nat.le_refl covered))
      · rw [widthSum_cons] at fits
        have firstFits : FitsUnsigned (covered + first.width) := by
          unfold FitsUnsigned at *
          omega
        have step : gather width covered (first :: others) =
            gather width (covered + first.width) others := by
          rw [gather, if_pos (by omega),
            unsignedOr_eq_ok_iff.mpr ⟨firstFits, rfl⟩, ok_bind]
        rw [step]
        rw [cut, if_neg (by omega)] at divided
        split at divided
        next whole =>
          rcases Option.map_eq_some_iff.mp divided with
            ⟨⟨inner, rest⟩, deeper, shape⟩
          cases shape
          rw [Nat.sub_sub] at deeper
          exact hypothesis (by omega) deeper (by rwa [Nat.add_assoc])
        next across =>
          cases divided
          refine .inr ⟨covered + first.width, others,
            gather_of_le (by omega), by omega, ?_⟩
          congr 2
          omega

/-- Joining and dividing is the cut at the end of the range. -/
theorem fit_of_cut
    {pieces lower : List StackItem} (nonempty : 0 < width)
    (divided : cut width (item :: below) = some (pieces, lower))
    (fits : FitsUnsigned (item.width + widthSum below)) :
    fit (above ++ item :: below) above.length width =
      .ok (above ++ merged width pieces :: lower) := by
  have rest : (above ++ item :: below).drop (above.length + 1) = below := by
    simp
  rw [cut, if_neg (by omega)] at divided
  rw [fit, join, itemAt_append, ok_bind]
  by_cases narrow : item.width < width
  · rw [if_pos (by omega)] at divided
    rcases Option.map_eq_some_iff.mp divided with
      ⟨⟨inner, left⟩, deeper, shape⟩
    cases shape
    -- The item is not wide enough, so that something has to be joined to it.
    have severalPieces : merged width (item :: inner) = .unknown width := by
      cases inner with
      | nil =>
          have none := (widthSum_of_cut deeper).1
          rw [widthSum_nil] at none
          omega
      | cons => rfl
    rw [if_pos narrow, rest, List.take_left, severalPieces]
    rcases gather_of_cut (by omega) deeper fits with
      gathered | ⟨total, remaining, gathered, beyond, rfl⟩
    · rw [gathered, ok_bind, ok_bind, itemAt_append, ok_bind]
      exact if_neg (Nat.lt_irrefl width)
    · rw [gathered, ok_bind, ok_bind, itemAt_append, ok_bind]
      exact (if_pos beyond).trans (divide_append nonempty beyond)
  · rw [if_neg narrow, ok_bind, itemAt_append, ok_bind]
    by_cases exact : item.width = width
    · rw [if_pos (by omega), exact, Nat.sub_self, cut_zero] at divided
      cases divided
      rw [if_neg (by omega)]
      rfl
    · rw [if_neg (by omega)] at divided
      cases divided
      rw [if_pos (by omega), divide_append nonempty (by omega)]
      rfl

end Steps

/-- Every range within the width of the items can be isolated. -/
theorem isSome_isolate_iff
    {items : List StackItem} {offset width : Nat} :
    (isolate items offset width).isSome = true ↔
      offset + width ≤ widthSum items := by
  cases cutAbove : cutPast offset items with
  | none =>
      have outside := isSome_cutPast offset items
      rw [cutAbove] at outside
      simp only [Option.isSome_none, Bool.false_eq_true, false_iff] at outside
      simp only [isolate, cutAbove, Option.bind_eq_bind, Option.bind_none,
        Option.isSome_none, Bool.false_eq_true, false_iff]
      omega
  | some parts =>
      obtain ⟨above, rest⟩ := parts
      have widths := widthSum_of_cutPast cutAbove
      have inside := isSome_cut width rest
      have divided : (isolate items offset width).isSome =
          (cut width rest).isSome := by
        simp only [isolate, cutAbove, Option.bind_eq_bind, Option.bind_some]
        cases cut width rest <;> rfl
      rw [divided, inside]
      omega

/--
A search within the items finds all it relies on, and isolates the range.
-/
theorem search_eq
    {items : List StackItem} {offset width : Nat} (nonempty : 0 < width)
    (within : offset + width ≤ widthSum items)
    (fits : FitsUnsigned (widthSum items)) :
    ∃ above item below,
      isolate items offset width = some (above, item, below) ∧
        search items offset width =
          .ok (some (above ++ item :: below, below.length, item)) := by
  rcases exists_item_of_lt (show offset < widthSum items by omega) with
    ⟨front, located, back, upper, rfl, rfl, inside⟩
  rcases exists_enter inside front back with
    ⟨above, first, rest, cutAbove, entered⟩
  have widths := widthSum_of_cutPast cutAbove
  rcases Option.isSome_iff_exists.mp
    ((isSome_cut width (first :: rest)).mpr (by omega)) with
    ⟨⟨pieces, below⟩, cutBelow⟩
  rw [widthSum_cons] at widths
  have locatedFits : FitsUnsigned (0 + widthSum front + located.width) := by
    rw [widthSum_append, widthSum_cons] at fits
    unfold FitsUnsigned at *
    omega
  have fitsBelow : FitsUnsigned (first.width + widthSum rest) := by
    unfold FitsUnsigned at *
    omega
  have located_eq : locate (widthSum front + upper) 0 0
      (front ++ located :: back) =
        .ok (some (front.length, widthSum front)) := by
    simpa only [Nat.zero_add] using locate_append inside 0 0 locatedFits
  have asWide := width_merged (widthSum_of_cut cutBelow).1
  refine ⟨above, merged width pieces, below, ?_, ?_⟩
  · exact isolate_eq_some_iff.mpr ⟨_, pieces, cutAbove, cutBelow, rfl⟩
  · rw [search, located_eq, ok_bind]
    simp only [entered, ok_bind, fit_of_cut nonempty cutBelow fitsBelow,
      itemAt_append, if_pos asWide]
    congr 4
    rw [List.length_append, List.length_cons]
    omega

theorem find_of_isolate
    {items above below : List StackItem} {item : StackItem}
    {offset width : Nat} (range : IsRange offset width)
    (isolated : isolate items offset width = some (above, item, below)) :
    (tracked items).find offset width =
      (tracked (above ++ item :: below), some (below.length, item)) := by
  rw [find, if_neg (not_not.mpr range), isolated]

theorem find_of_outside
    {items : List StackItem} {offset width : Nat}
    (outside : isolate items offset width = none) :
    (tracked items).find offset width = (tracked items, none) := by
  rw [find, outside]
  split <;> rfl

/-! ## Operations on words -/

/--
What has to be known before a search: the width of the stack, unless tracking
is lost or there is no such range at all.
-/
def measureFor (stack : SymbolicStack) (offset width : Nat) :
    Except Fault Unit :=
  if stack.isMangled = false ∧ IsRange offset width then do
    let _ ← stack.measure
    .ok ()
  else
    .ok ()

/-- A search on words is the exact search once the width is known. -/
theorem boundedFind_eq (stack : SymbolicStack) (offset width : Nat) :
    stack.boundedFind offset width = (do
      stack.measureFor offset width
      .ok (stack.find offset width)) := by
  cases stack with
  | mangled => rfl
  | tracked items =>
      by_cases range : IsRange offset width
      · have measured : (tracked items).measureFor offset width = (do
            let _ ← (tracked items).measure
            .ok ()) := if_pos ⟨rfl, range⟩
        rw [boundedFind, if_neg (not_not.mpr range), measured]
        by_cases fits : FitsUnsigned (widthSum items)
        · have known : (tracked items).measure = .ok (widthSum items) :=
            unsignedOr_eq_ok_iff.mpr ⟨fits, rfl⟩
          simp only [known, ok_bind]
          by_cases within : offset + width ≤ widthSum items
          · rcases search_eq range.1 within fits with
              ⟨above, item, below, isolated, searched⟩
            rw [if_neg (Nat.not_lt.mpr within), searched,
              find_of_isolate range isolated]
            rfl
          · have nothing : isolate items offset width = none := by
              rw [← Option.not_isSome_iff_eq_none, isSome_isolate_iff]
              exact within
            rw [if_pos (Nat.lt_of_not_le within), find_of_outside nothing]
        · have unknown : (tracked items).measure = .error .widthOverflow :=
            if_neg fits
          simp only [unknown]
          rfl
      · have unmeasured : (tracked items).measureFor offset width = .ok () :=
          if_neg (fun both => range both.2)
        rw [boundedFind, if_pos range, unmeasured, find, if_pos range]
        rfl

theorem boundedGet_eq (stack : SymbolicStack) (offset width : Nat) :
    stack.boundedGet offset width = (do
      stack.measureFor offset width
      .ok (stack.get offset width)) := by
  rw [boundedGet, boundedFind_eq, bind_assoc]
  rfl

theorem boundedResolve_eq (stack : SymbolicStack) (offset : Nat) :
    stack.boundedResolve offset = (do
      stack.measureFor offset 2
      .ok (stack.resolve offset)) := by
  rw [boundedResolve, boundedGet_eq, bind_assoc]
  rfl

@[simp]
theorem store_append
    {above below : List StackItem} {replaced item : StackItem} :
    store (above ++ replaced :: below) below.length item =
      .ok (above ++ item :: below) := by
  have place : (above ++ replaced :: below).length - (below.length + 1) =
      above.length := by simp
  have present : below.length < (above ++ replaced :: below).length := by
    rw [List.length_append, List.length_cons]
    omega
  rw [store, if_pos present, place]
  simp

/-- The item that is overwritten is there, because the search has found it. -/
theorem boundedPut_eq
    (stack : SymbolicStack)
    (offset : Nat)
    (item : StackItem) :
    stack.boundedPut offset item = (do
      stack.measureFor offset item.width
      .ok (stack.put offset item)) := by
  rw [boundedPut, boundedFind_eq, bind_assoc]
  congr 1
  funext _
  rw [ok_bind]
  cases stack with
  | mangled => rfl
  | tracked items =>
      by_cases range : IsRange offset item.width
      · cases isolated : isolate items offset item.width with
        | none =>
            rw [find_of_outside isolated, put,
              if_neg (not_not.mpr range), isolated]
        | some parts =>
            obtain ⟨above, replaced, below⟩ := parts
            rw [find_of_isolate range isolated, put,
              if_neg (not_not.mpr range), isolated]
            exact congrArg (tracked <$> ·) store_append
      · rw [find, put, if_pos range, if_pos range]

end SymbolicStack

end ProcRecovery
