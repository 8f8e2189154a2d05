import ProcRecovery.Proofs.SymbolicStack.Isolation

/-!
# Stack laws

Putting items on a symbolic stack and taking bytes off it follow the laws of a
stack of bytes.  What was put on comes off again as it was, also if it was
merged with unknown bytes on top; bytes can be taken off in one go or in two;
and tracking is lost, for good, exactly if more bytes are taken off than there
are.  That it does not matter in how many goes rests on one equation, which
says what a cut at a sum of two offsets leaves below it.
-/

namespace ProcRecovery

/-! ## Cuts one after the other -/

/-- What lies below a cut can be reached by two cuts. -/
theorem map_snd_cut_add (first second : Nat) (items : List StackItem) :
    (cut (first + second) items).map Prod.snd =
      (cut first items).bind (fun parts =>
        (cut second parts.2).map Prod.snd) := by
  induction items generalizing first with
  | nil =>
      by_cases zero : first = 0
      · subst zero
        rw [Nat.zero_add]
        rfl
      · rw [cut, cut, if_neg zero, if_neg (by omega)]
        rfl
  | cons item below hypothesis =>
      by_cases zero : first = 0
      · subst zero
        rw [Nat.zero_add, cut.eq_2 0, if_pos rfl]
        rfl
      · by_cases whole : item.width ≤ first
        · have deeper : first + second - item.width =
              first - item.width + second := by omega
          rw [cut, cut, if_neg zero, if_neg (by omega), if_pos whole,
            if_pos (by omega), deeper, Option.map_map, Option.bind_map]
          exact hypothesis (first - item.width)
        · -- the first cut divides the item, and the second one starts in its
          -- lower part
          rw [cut.eq_2 first, if_neg zero, if_neg whole, Option.bind_some]
          by_cases past : item.width ≤ first + second
          · have deeper : first + second - item.width =
                second - (item.width - first) := by omega
            rw [cut, cut, if_neg (by omega), if_pos past, if_neg (by omega),
              if_pos (by simp only [StackItem.unknown]; omega), deeper,
              Option.map_map,
              Option.map_map]
            rfl
          · rw [cut, cut, if_neg (by omega), if_neg past]
            by_cases done : second = 0
            · subst done
              rfl
            · have left : item.width - (first + second) =
                  item.width - first - second := by omega
              rw [if_neg done,
                if_neg (by simp only [StackItem.unknown]; omega), left]
              rfl

namespace SymbolicStack

/-! ## Taking bytes off -/

theorem fst_pop_tracked
    (items : List StackItem)
    (width : Nat) :
    ((tracked items).pop width).1 =
      ((cut width items).map Prod.snd).elim mangled tracked := by
  cases divided : cut width items with
  | none => simp only [pop, divided, Option.map_none, Option.elim_none]
  | some parts => simp only [pop, divided, Option.map_some, Option.elim_some]

theorem pop_tracked_of_cut
    {items popped rest : List StackItem} {width : Nat}
    (divided : cut width items = some (popped, rest)) :
    (tracked items).pop width = (tracked rest, popped) := by
  simp only [pop, divided]

/-- As many bytes as there are can be taken off, by one cut. -/
theorem exists_pop
    {items : List StackItem} {width : Nat}
    (within : width ≤ (tracked items).totalWidth) :
    ∃ popped rest, cut width items = some (popped, rest) ∧
      (tracked items).pop width = (tracked rest, popped) := by
  rcases Option.isSome_iff_exists.mp ((isSome_cut width items).mpr within) with
    ⟨⟨popped, rest⟩, divided⟩
  exact ⟨popped, rest, divided, pop_tracked_of_cut divided⟩

/-- Bytes can be taken off in two goes. -/
theorem pop_pop (stack : SymbolicStack) (first second : Nat) :
    ((stack.pop first).1.pop second).1 = (stack.pop (first + second)).1 := by
  cases stack with
  | mangled => rfl
  | tracked items =>
      rw [fst_pop_tracked, fst_pop_tracked, map_snd_cut_add]
      cases cut first items with
      | none => rfl
      | some parts => exact fst_pop_tracked parts.2 second

/-! ## Putting items on -/

/--
An item with bytes is put on top as it is, or it is unknown and joins an
unknown top.
-/
theorem pushItem_cases
    {item : StackItem}
    (positive : 0 < item.width)
    (items : List StackItem) :
    (pushItem item items = item :: items ∧
        (item.content = .unknown →
          ∀ top ∈ items.head?, top.content ≠ .unknown)) ∨
      ∃ width below, item = .unknown item.width ∧
        items = .unknown width :: below ∧
        pushItem item items = .unknown (width + item.width) :: below := by
  rcases item with ⟨itemWidth, content⟩
  unfold pushItem
  rw [if_neg (Nat.ne_of_gt positive)]
  split
  next width below isUnknown =>
    have isUnknown : content = .unknown := isUnknown
    subst isUnknown
    exact .inr ⟨width, below, rfl, rfl, rfl⟩
  next apart =>
    refine .inl ⟨rfl, ?_⟩
    rintro isUnknown ⟨width, topContent⟩ isTop rfl
    rcases List.head?_eq_some_iff.mp isTop with ⟨below, rfl⟩
    exact apart width below isUnknown rfl

/-- Known bytes merge with nothing. -/
theorem pushItem_of_known
    {item : StackItem}
    (known : item.content ≠ .unknown)
    (positive : 0 < item.width)
    (items : List StackItem) :
    pushItem item items = item :: items := by
  rcases pushItem_cases positive items with
    ⟨plain, -⟩ | ⟨width, below, isUnknown, -, -⟩
  · exact plain
  · exact absurd (congrArg StackItem.content isUnknown) known

/--
An item comes off as it was put on, and the items below it are as they were.
-/
theorem cut_pushItem
    {items : List StackItem}
    (solid : IsSolid items)
    {item : StackItem}
    (positive : 0 < item.width) :
    cut item.width (pushItem item items) = some ([item], items) := by
  rcases pushItem_cases positive items with
    ⟨plain, -⟩ | ⟨width, below, isUnknown, rfl, joined⟩
  · have alone : IsSolid [item] := by simpa [IsSolid] using positive
    have between := cut_append alone items
    rw [widthSum_cons, widthSum_nil, Nat.add_zero, List.singleton_append]
      at between
    rw [plain, between]
  · -- the cut divides the joined bytes where they were joined
    have topPositive : 0 < width := solid (.unknown width) (by simp)
    rw [joined, cut, if_neg (Nat.ne_of_gt positive),
      if_neg (by simp only [StackItem.unknown]; omega), ← isUnknown]
    simp only [StackItem.unknown, Nat.add_sub_cancel]

theorem boundedPush_of_fits
    {stack : SymbolicStack} {item : StackItem}
    (fits : FitsUnsigned (stack.totalWidth + item.width)) :
    stack.boundedPush item = .ok (stack.push item) := by
  have contract := delivers_boundedPush stack item
  cases pushed : stack.boundedPush item with
  | ok next => rw [contract.of_ok pushed]
  | error fault => exact ((contract.of_error pushed).2 fits).elim

/-! ## The laws -/

/-- The laws of a stack of bytes. -/
structure ObeysStackLaws (stack : SymbolicStack) : Prop where
  /--
  What is put on comes off again as it was, and leaves the stack as it was.
  -/
  pop_push : ∀ item : StackItem, 0 < item.width →
    FitsUnsigned (stack.totalWidth + item.width) →
      ∃ pushed, stack.boundedPush item = .ok pushed ∧
      pushed.pop item.width = (stack, [item])
  pop_pop : ∀ first second : Nat,
    ((stack.pop first).1.pop second).1 = (stack.pop (first + second)).1
  /--
  Tracking is lost exactly if there are not as many bytes as are to be taken
  off.
  -/
  mangles_iff : ∀ width, (stack.pop width).1.isMangled = true ↔
    stack.totalWidth < width
  /-- The stack gets narrower by the bytes that are taken off. -/
  lowers : ∀ width ≤ stack.totalWidth,
    (stack.pop width).1.totalWidth = stack.totalWidth - width ∧
      widthSum (stack.pop width).2 = width
  /--
  The items that lie within these bytes are given as they were, counted from
  the top.
  -/
  returns : ∀ width ≤ stack.totalWidth, ∀ offset item,
    HoldsAt stack.items offset item →
    offset + item.width ≤ width → HoldsAt (stack.pop width).2 offset item
  /-- Nothing else that is given is known. -/
  known : ∀ width ≤ stack.totalWidth, ∀ offset item,
    HoldsAt (stack.pop width).2 offset item →
    item.content ≠ .unknown → HoldsAt stack.items offset item

theorem obeysStackLaws_tracked
    {items : List StackItem}
    (solid : IsSolid items) :
    (tracked items).ObeysStackLaws where
  pop_push := by
    intro item positive fits
    exact ⟨_, boundedPush_of_fits fits,
      pop_tracked_of_cut (cut_pushItem solid positive)⟩
  pop_pop := (tracked items).pop_pop
  mangles_iff := by
    intro width
    rw [totalWidth_tracked, ← pop_tracked_eq_mangled_iff]
    cases ((tracked items).pop width).1 <;> simp
  lowers := by
    intro width within
    rcases exists_pop within with ⟨popped, rest, divided, answer⟩
    have widths := widthSum_of_cut divided
    rw [answer, totalWidth_tracked, totalWidth_tracked]
    exact ⟨by omega, widths.1⟩
  returns := by
    intro width within offset item holds ends
    rcases exists_pop within with ⟨popped, rest, divided, answer⟩
    rw [answer]
    exact holds.above_cut (solid item holds.mem) divided ends
  known := by
    intro width within offset item holds isKnown
    rcases exists_pop within with ⟨popped, rest, divided, answer⟩
    rw [answer] at holds
    exact .of_above_cut divided holds isKnown

/--
Tracking is lost: the stack is empty, no operation changes that, and every
question goes unanswered.
-/
structure IsLost (stack : SymbolicStack) : Prop where
  isMangled_eq : stack.isMangled = true
  items_eq : stack.items = []
  measure_eq : stack.measure = .ok 0
  push_eq : ∀ item, stack.boundedPush item = .ok stack
  pop_eq : ∀ width, stack.pop width = (stack, [])
  find_eq : ∀ offset width, stack.boundedFind offset width = .ok (stack, none)
  get_eq : ∀ offset width, stack.boundedGet offset width = .ok (stack, none)
  put_eq : ∀ offset item, stack.boundedPut offset item = .ok stack
  resolve_eq : ∀ offset, stack.boundedResolve offset = .ok (stack, none)

theorem isLost_mangled : mangled.IsLost where
  isMangled_eq := rfl
  items_eq := rfl
  measure_eq := rfl
  push_eq := fun _ => rfl
  pop_eq := fun _ => rfl
  find_eq := fun _ _ => rfl
  get_eq := fun _ _ => rfl
  put_eq := fun _ _ => rfl
  resolve_eq := fun _ => rfl

theorem IsLost.step
    {stack next : SymbolicStack}
    (lost : stack.IsLost)
    (step : Step stack next) :
    next.IsLost := by
  cases step with
  | push item isPushed =>
      cases (lost.push_eq item).symm.trans isPushed
      exact lost
  | pop width =>
      rw [lost.pop_eq width]
      exact lost
  | @find _ offset width found isFound =>
      cases (lost.find_eq offset width).symm.trans isFound
      exact lost
  | @get _ offset width found isFound =>
      cases (lost.get_eq offset width).symm.trans isFound
      exact lost
  | @put _ offset item isPut =>
      cases (lost.put_eq offset item).symm.trans isPut
      exact lost
  | @resolve _ offset target isResolved =>
      cases (lost.resolve_eq offset).symm.trans isResolved
      exact lost
  | mangle => exact isLost_mangled

/-- Once tracking is lost it stays lost, whatever is done to the stack. -/
theorem isLost_of_steps
    {stack final : SymbolicStack}
    (mangled : stack.isMangled = true)
    (steps : Relation.ReflTransGen Step stack final) :
    final.IsLost := by
  induction steps with
  | refl =>
      cases stack with
      | tracked items => cases mangled
      | mangled => exact isLost_mangled
  | tail _ step hypothesis => exact hypothesis.step step

/--
Any stack that the operations make and that is still tracked obeys the laws of
a stack of bytes, and one that is not tracked any more stays lost.
-/
theorem Reachable.obeysStackLaws
    {stack : SymbolicStack}
    (reachable : stack.Reachable)
    (isTracked : stack.isMangled = false) :
    stack.ObeysStackLaws ∧
      ∀ lost final : SymbolicStack, lost.isMangled = true →
        Relation.ReflTransGen Step lost final → final.IsLost := by
  constructor
  · cases stack with
    | tracked items => exact obeysStackLaws_tracked reachable.isSolid
    | mangled => cases isTracked
  · intro lost final mangled steps
    exact isLost_of_steps mangled steps

/-- Four unknown bytes on a literal. -/
def unknownOnLiteral : SymbolicStack := tracked [.unknown 4, ⟨2, .smallInt 5⟩]

/--
Two more unknown bytes join the four and come off again; taking off five bytes
divides the literal, and taking off seven loses track of the stack.
-/
theorem obeysStackLaws_unknownOnLiteral :
    unknownOnLiteral.Reachable ∧ unknownOnLiteral.ObeysStackLaws ∧
      (∃ pushed, unknownOnLiteral.boundedPush (.unknown 2) = .ok pushed ∧
        pushed.items = [.unknown 6, ⟨2, .smallInt 5⟩] ∧
        pushed.pop 2 = (unknownOnLiteral, [.unknown 2])) ∧
      unknownOnLiteral.pop 5 = (tracked [.unknown 1],
        [.unknown 4, .unknown 1]) ∧
      (unknownOnLiteral.pop 7).1.IsLost := by
  have reachable : unknownOnLiteral.Reachable := by
    refine ⟨empty, .inl rfl, ?_⟩
    exact .tail (.single (.push ⟨2, .smallInt 5⟩ rfl)) (.push (.unknown 4) rfl)
  rcases reachable.obeysStackLaws rfl with ⟨laws, stays⟩
  refine ⟨reachable, laws, ?_, rfl, ?_⟩
  · rcases laws.pop_push (.unknown 2) (by decide) (by decide) with
      ⟨pushed, isPushed, popped⟩
    refine ⟨pushed, isPushed, ?_, popped⟩
    cases isPushed
    rfl
  · have mangles := (laws.mangles_iff 7).mpr (by decide)
    exact stays _ _ mangles .refl

end SymbolicStack

end ProcRecovery
