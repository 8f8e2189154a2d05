import ProcRecovery.Proofs.Replay.Movement
import ProcRecovery.Proofs.SymbolicStack.Algebra

/-!
# Long arithmetic

The routines of long arithmetic take two longs off the stack and put one on it.
If both are known, the result is that of exact integer arithmetic brought back
to 32 bits; only a division can be without a known result, by a divisor that is
zero or a quotient that is no long.  The literals on a symbolic stack are
integers of any size, so what counts of them is the long that stands for them.
Anything else on top of the stack gives a long of which nothing is known.
-/

namespace ProcRecovery

/-! ## Longs -/

/-- An integer that a signed 32-bit value can be. -/
def FitsLong (value : Int) : Prop := -0x80000000 ≤ value ∧ value < 0x80000000

instance (value : Int) : Decidable (FitsLong value) :=
  inferInstanceAs (Decidable (-0x80000000 ≤ value ∧ value < 0x80000000))

/--
A long stands for an integer that it differs from by a multiple of two to the
thirty-second.
-/
structure StandsFor (long value : Int) : Prop where
  fits : FitsLong long
  congruent : (0x100000000 : Int) ∣ value - long

theorem fitsLong_longValue (value : Int) : FitsLong (longValue value) := by
  have lower := Int.le_bmod (x := value) (m := 0x100000000) (by decide)
  have upper := Int.bmod_lt (x := value) (m := 0x100000000) (by decide)
  unfold FitsLong longValue
  omega

/-- There is exactly one long that stands for an integer. -/
theorem standsFor_iff
    {long value : Int} :
    StandsFor long value ↔ long = longValue value := by
  have fits := fitsLong_longValue value
  have congruent : (0x100000000 : Int) ∣ longValue value - value :=
    Int.dvd_bmod_sub_self
  constructor
  · rintro ⟨fitsToo, congruentToo⟩
    unfold FitsLong at fits fitsToo
    omega
  · rintro rfl
    exact ⟨fits, by omega⟩

/-- The long zero stands for the multiples of two to the thirty-second. -/
theorem longValue_eq_zero_iff {value : Int} :
    longValue value = 0 ↔ (0x100000000 : Int) ∣ value := by
  have isZero : StandsFor 0 value ↔ 0 = longValue value := standsFor_iff
  rw [eq_comm, ← isZero]
  constructor
  · intro standsFor
    simpa using standsFor.congruent
  · intro divides
    exact ⟨⟨by decide, by decide⟩, by simpa using divides⟩

/--
The quotient of two longs is a long but for the least long divided by minus
one.
-/
theorem fitsLong_tdiv_iff
    {dividend divisor : Int}
    (fits : FitsLong dividend)
    (nonzero : divisor ≠ 0) :
    FitsLong (dividend.tdiv divisor) ↔
      ¬ (dividend = -0x80000000 ∧ divisor = -1) := by
  unfold FitsLong at *
  constructor
  · rintro bounds ⟨rfl, rfl⟩
    revert bounds
    decide
  · intro other
    by_cases isNegation : divisor = -1
    · subst isNegation
      rw [Int.tdiv_neg, Int.tdiv_one]
      omega
    · by_cases isIdentity : divisor = 1
      · rw [isIdentity, Int.tdiv_one]
        exact fits
      · -- a divisor of two or more in size at least halves the dividend
        have halved :
          (dividend.tdiv divisor).natAbs ≤ dividend.natAbs / 2 := by
          rw [Int.natAbs_tdiv]
          exact Nat.div_le_div_left (by omega) (by decide)
        omega

theorem longQuotient?_eq_none_iff
    {dividend divisor : Int}
    (fits : FitsLong dividend) :
    longQuotient? dividend divisor = none ↔
      divisor = 0 ∨ ¬ FitsLong (dividend.tdiv divisor) := by
  unfold longQuotient?
  by_cases isZero : divisor = 0
  · simp [isZero]
  · rw [fitsLong_tdiv_iff fits isZero]
    simp [isZero]

theorem eq_of_longQuotient?_eq_some
    {dividend divisor quotient : Int}
    (isQuotient : longQuotient? dividend divisor = some quotient) :
    quotient = dividend.tdiv divisor := by
  unfold longQuotient? at isQuotient
  split at isQuotient
  next => cases isQuotient
  next => exact (Option.some.inj isQuotient).symm

/-! ## Results -/

/-- The routines of long arithmetic. -/
def longArithmetic : List Routine := [.longAdd, .longSub, .longMul, .longDiv]

/--
What a routine of long arithmetic makes of two integers, the left operand
first.  A quotient is that of the two longs, toward zero.
-/
def Calculates
    (left right : Int)
    (routine : Routine)
    (content : Content) :
    Prop :=
  match routine with
  | .longAdd => ∃ long, StandsFor long (left + right) ∧ content = .longInt long
  | .longSub => ∃ long, StandsFor long (left - right) ∧ content = .longInt long
  | .longMul => ∃ long, StandsFor long (left * right) ∧ content = .longInt long
  | .longDiv =>
    ∃ dividend divisor, StandsFor dividend left ∧ StandsFor divisor right ∧
      content =
        if (0x100000000 : Int) ∣ right ∨ ¬ FitsLong (dividend.tdiv divisor)
          then .unknown
        else .longInt (dividend.tdiv divisor)
  | _ => False

/--
Division has a known result unless the divisor stands for zero or the quotient
is no long.
-/
theorem resultContent_longDiv
    (left right : Int) :
    Routine.longDiv.resultContent [.longInt right, .longInt left] =
      if (0x100000000 : Int) ∣ right ∨
        ¬ FitsLong ((longValue left).tdiv (longValue right)) then
        .unknown
      else .longInt ((longValue left).tdiv (longValue right)) := by
  have undefined : longQuotient? (longValue left) (longValue right) = none ↔
      (0x100000000 : Int) ∣ right ∨
      ¬ FitsLong ((longValue left).tdiv (longValue right)) := by
    rw [longQuotient?_eq_none_iff (fitsLong_longValue left),
      longValue_eq_zero_iff]
  simp only [Routine.resultContent, Routine.arithmetic?]
  split
  next quotient isQuotient =>
    rw [if_neg
      (fun none => by rw [undefined.mpr none] at isQuotient; cases isQuotient)]
    rw [eq_of_longQuotient?_eq_some isQuotient]
  next isNone => rw [if_pos (undefined.mp isNone)]

/--
Of two literals, the right one on top, a routine makes what it calculates of
them and nothing else.
-/
theorem calculates_iff
    {routine : Routine}
    (isLong : routine ∈ longArithmetic)
    (left right : Int)
    (content : Content) :
    Calculates left right routine content ↔
      content = routine.resultContent [.longInt right, .longInt left] := by
  simp only [longArithmetic, List.mem_cons, List.not_mem_nil, or_false]
    at isLong
  rcases isLong with rfl | rfl | rfl | rfl
  · simp [Calculates, standsFor_iff, Routine.resultContent,
      Routine.arithmetic?, longValue]
  · simp [Calculates, standsFor_iff, Routine.resultContent,
      Routine.arithmetic?, longValue]
  · simp [Calculates, standsFor_iff, Routine.resultContent,
      Routine.arithmetic?, longValue]
  · rw [resultContent_longDiv]
    simp only [Calculates, standsFor_iff, exists_and_left, exists_eq_left]

/-- Without two literals there is no known result. -/
theorem resultContent_eq_unknown
    {routine : Routine}
    (isLong : routine ∈ longArithmetic)
    {first second : Content}
    (other : ∀ left right, first = .longInt right → second ≠ .longInt left) :
    routine.resultContent [first, second] = .unknown := by
  simp only [longArithmetic, List.mem_cons, List.not_mem_nil, or_false]
    at isLong
  rcases isLong with rfl | rfl | rfl | rfl
  all_goals
    cases first with
    | longInt right =>
        cases second with
        | longInt left => exact absurd rfl (other left right rfl)
        | _ => rfl
    | _ => rfl

/-! ## Arguments -/

open SymbolicStack

/-- An item on top is taken off as it is. -/
theorem popArgument_cons
    {width : Nat}
    (positive : 0 < width)
    (content : Content)
    (items : List StackItem) :
    popArgument (tracked (⟨width, content⟩ :: items)) width =
      (tracked items, ⟨width, content⟩) := by
  have alone : IsSolid [⟨width, content⟩] := by simpa [IsSolid] using positive
  have divided := cut_append alone items
  rw [widthSum_cons, widthSum_nil, Nat.add_zero, List.singleton_append]
    at divided
  simp only [popArgument, pop_tracked_of_cut divided, if_pos]

/-- Two long arguments are eight bytes. -/
theorem fst_popArgument_twice (stack : SymbolicStack) :
    (popArgument (popArgument stack 4).1 4).1 = (stack.pop 8).1 := by
  rw [fst_popArgument, fst_popArgument, pop_pop]

/--
An argument that has its bytes on the stack is unknown, or it is the item that
lay on top.
-/
theorem exists_popArgument
    {items : List StackItem} {width : Nat}
    (within : width ≤ (tracked items).totalWidth) :
    ∃ rest argument, popArgument (tracked items) width =
      (tracked rest, argument) ∧
      width + (tracked rest).totalWidth = (tracked items).totalWidth ∧
      (argument.content ≠ .unknown →
        argument.width = width ∧ items = argument :: rest) := by
  rcases exists_pop within with ⟨popped, rest, divided, answer⟩
  rcases widthSum_of_cut divided with ⟨taken, whole⟩
  rw [taken] at whole
  rw [popArgument, answer]
  split
  next below item shape =>
    cases shape
    refine ⟨rest, _, rfl, whole, ?_⟩
    split
    next isWide =>
      intro known
      rcases cut_cases divided with
        undivided | ⟨front, across, back, upper, -, isUnknown, -⟩
      · exact ⟨isWide, undivided⟩
      · -- what is cut off an item is unknown
        have last := congrArg List.getLast? isUnknown
        rw [List.getLast?_singleton, List.getLast?_append,
          List.getLast?_singleton] at last
        rw [Option.some.inj last] at known
        exact absurd rfl known
    next => exact fun known => absurd rfl known
  next below _ shape =>
    cases shape
    exact ⟨rest, _, rfl, whole, fun known => absurd rfl known⟩

/-! ## Pushes -/

/--
An outcome is that of one more push on the stack of a state.  The push goes
through if the item is known or the bytes fit in a word.
-/
structure IsPush
    (outcome : Except Fault ReplayState)
    (state : ReplayState)
    (item : StackItem) :
    Prop where
  outcome_eq : outcome = state.push item
  goesThrough : item.content ≠ .unknown ∨
    FitsUnsigned (state.stack.totalWidth + item.width) →
    outcome = .ok (state.withStack (state.stack.push item))

theorem boundedPush_of_known
    {content : Content}
    (known : content ≠ .unknown)
    {width : Nat}
    (positive : 0 < width)
    (fits : FitsUnsigned width)
    (items : List StackItem) :
    (tracked items).push ⟨width, content⟩ =
      tracked (⟨width, content⟩ :: items) ∧
      (tracked items).boundedPush ⟨width, content⟩ =
        .ok (tracked (⟨width, content⟩ :: items)) := by
  have pushed : (tracked items).push ⟨width, content⟩ =
      tracked (⟨width, content⟩ :: items) := by
    rw [push, pushItem_of_known known positive]
  refine ⟨pushed, ?_⟩
  simp only [boundedPush, pushed, items_tracked, if_pos fits]

theorem isPush_push
    (state : ReplayState)
    (content : Content)
    {width : Nat}
    (positive : 0 < width)
    (fits : FitsUnsigned width) :
    IsPush (state.push ⟨width, content⟩) state ⟨width, content⟩ where
  outcome_eq := rfl
  goesThrough := by
    have pushes : content ≠ .unknown ∨
        FitsUnsigned (state.stack.totalWidth + width) →
        state.stack.boundedPush ⟨width, content⟩ =
          .ok (state.stack.push ⟨width, content⟩) := by
      rintro (known | room)
      · cases state.stack with
        | mangled => rfl
        | tracked items =>
            rcases boundedPush_of_known known positive fits items with
              ⟨pushed, answer⟩
            rw [answer, pushed]
      · exact boundedPush_of_fits room
    intro reason
    rw [ReplayState.push, pushes reason, ok_bind]
    rfl

theorem foldlM_boundedPush_literals
    (left right : Int)
    (items : List StackItem) :
    [⟨4, .longInt left⟩, ⟨4, .longInt right⟩].foldlM boundedPush
      (tracked items) =
      .ok (tracked (⟨4, .longInt right⟩ :: ⟨4, .longInt left⟩ :: items)) := by
  have pushes : ∀ (value : Int) (below : List StackItem),
      (tracked below).boundedPush ⟨4, .longInt value⟩ =
        .ok (tracked (⟨4, .longInt value⟩ :: below)) :=
    fun value below =>
      (boundedPush_of_known (by simp) (by decide) (by decide) below).2
  rw [List.foldlM_cons, pushes, ok_bind, List.foldlM_cons, pushes]
  rfl

/-! ## Calls -/

namespace ReplayContext

section Calls

variable {routine : Routine} (isLong : routine ∈ longArithmetic)

include isLong

/-- A call takes two arguments and puts one long in their place. -/
theorem outcome_callRoutine
    {state : ReplayState} {once rest : SymbolicStack}
    {first second : StackItem}
    (takesFirst : popArgument state.stack 4 = (once, first))
    (takesSecond : popArgument once 4 = (rest, second))
    (site : Nat) :
    (callRoutine routine site state).outcome =
      (state.withStack rest).push
        ⟨4, routine.resultContent [first.content, second.content]⟩ := by
  simp only [longArithmetic, List.mem_cons, List.not_mem_nil, or_false]
    at isLong
  rcases isLong with rfl | rfl | rfl | rfl
  all_goals
    simp only [callRoutine, Routine.argumentWidths, popArguments, takesFirst,
      takesSecond]
    rfl

theorem apply_call
    {node : Node} {target : Resolution Nat} {label : Option String}
    (isCall : node.op = some (.call target label (some routine)))
    (context : ReplayContext)
    (state : ReplayState) :
    context.apply node state = callRoutine routine node.lo state := by
  simp only [longArithmetic, List.mem_cons, List.not_mem_nil, or_false]
    at isLong
  unfold apply
  rw [isCall]
  rcases isLong with rfl | rfl | rfl | rfl <;> rfl

/-- Two literals are folded, whatever they lie on. -/
theorem isPush_literals
    (left right : Int)
    (items : List StackItem)
    (slots : FrameSlots)
    (site : Nat) :
    IsPush (callRoutine routine site
        ⟨tracked (⟨4, .longInt right⟩ :: ⟨4, .longInt left⟩ :: items),
          slots⟩).outcome
      ⟨tracked items, slots⟩ ⟨4,
        routine.resultContent [.longInt right, .longInt left]⟩ := by
  have four : 0 < 4 := by decide
  have takesRight :=
    popArgument_cons four (.longInt right) (⟨4, .longInt left⟩ :: items)
  have takesLeft := popArgument_cons four (.longInt left) items
  rw [outcome_callRoutine isLong takesRight takesLeft]
  exact isPush_push _ _ four (by decide)

/--
Of other bytes nothing is known, and so of the long that a call puts in their
place.
-/
theorem isPush_unknown
    {items : List StackItem}
    (within : 8 ≤ (tracked items).totalWidth)
    (other : ∀ left right below,
      items ≠ ⟨4, .longInt right⟩ :: ⟨4, .longInt left⟩ :: below)
    (slots : FrameSlots)
    (site : Nat) :
    IsPush (callRoutine routine site ⟨tracked items, slots⟩).outcome
      ⟨((tracked items).pop 8).1, slots⟩ (.unknown 4) := by
  rcases exists_popArgument (show 4 ≤ (tracked items).totalWidth by omega) with
    ⟨once, first, takesFirst, whole, isTop⟩
  rcases exists_popArgument (show 4 ≤ (tracked once).totalWidth by omega) with
    ⟨rest, second, takesSecond, -, isNext⟩
  have taken : tracked rest = ((tracked items).pop 8).1 := by
    rw [← fst_popArgument_twice, takesFirst, takesSecond]
  have unknown : routine.resultContent [first.content, second.content] =
      .unknown := by
    apply resultContent_eq_unknown isLong
    intro left right isRight isLeft
    rcases first with ⟨firstWidth, firstContent⟩
    rcases second with ⟨secondWidth, secondContent⟩
    cases isRight
    cases isLeft
    rcases isTop (by simp) with ⟨rfl, rfl⟩
    rcases isNext (by simp) with ⟨rfl, rfl⟩
    exact other left right rest rfl
  rw [outcome_callRoutine isLong takesFirst takesSecond, unknown, ← taken]
  exact isPush_push _ _ (by decide) (by decide)

/-- With too few bytes on the stack a call loses track of it. -/
theorem outcome_of_short
    {items : List StackItem}
    (short : (tracked items).totalWidth < 8)
    (slots : FrameSlots)
    (site : Nat) :
    (callRoutine routine site ⟨tracked items, slots⟩).outcome =
      .ok ⟨mangled, slots⟩ := by
  rcases takesFirst : popArgument (tracked items) 4 with ⟨once, first⟩
  rcases takesSecond : popArgument once 4 with ⟨rest, second⟩
  have lost : rest = mangled := by
    have taken := fst_popArgument_twice (tracked items)
    rw [takesFirst, takesSecond] at taken
    exact taken.trans ((pop_tracked_eq_mangled_iff items 8).mpr short)
  rw [outcome_callRoutine isLong takesFirst takesSecond, lost]
  rfl

end Calls

/--
Long arithmetic on a symbolic stack is exact 32-bit arithmetic.  Two literals
that are pushed on any tracked stack give way to one more push on it, of the
long that the routine calculates of them.  Where the two longs on top are not
both known items of their own, their eight bytes give way to an unknown long,
and with fewer than eight bytes tracking is lost.
-/
theorem longCall_calculates
    (context : ReplayContext)
    {routine : Routine}
    (isLong : routine ∈ longArithmetic)
    {node : Node} {target : Resolution Nat} {label : Option String}
    (isCall : node.op = some (.call target label (some routine)))
    {stack : SymbolicStack}
    (isTracked : stack.isMangled = false)
    (slots : FrameSlots) :
    (∀ left right : Int, ∃ pushed content,
      [⟨4, .longInt left⟩, ⟨4, .longInt right⟩].foldlM boundedPush stack =
        .ok pushed ∧
        (∀ result, Calculates left right routine result ↔ result = content) ∧
        IsPush (context.apply node ⟨pushed, slots⟩).outcome ⟨stack, slots⟩ ⟨4,
          content⟩) ∧
    (8 ≤ stack.totalWidth →
      (∀ left right below,
        stack.items ≠ ⟨4, .longInt right⟩ :: ⟨4, .longInt left⟩ :: below) →
      IsPush (context.apply node ⟨stack, slots⟩).outcome ⟨(stack.pop 8).1,
        slots⟩
        (.unknown 4)) ∧
    (stack.totalWidth < 8 →
      (context.apply node ⟨stack, slots⟩).outcome = .ok ⟨mangled, slots⟩) := by
  cases stack with
  | mangled => cases isTracked
  | tracked items =>
      simp only [apply_call isLong isCall]
      refine ⟨?_, ?_, ?_⟩
      · intro left right
        refine ⟨_, _, foldlM_boundedPush_literals left right items,
          calculates_iff isLong left right, ?_⟩
        exact isPush_literals isLong left right items slots node.lo
      · intro within other
        exact isPush_unknown isLong within other slots node.lo
      · intro short
        exact outcome_of_short isLong short slots node.lo

/-- A procedure in an image without memory. -/
def divisionContext : ReplayContext where
  options := {}
  image := { name := "division" }
  procedure := 0x1000

/-- A call of the routine that divides longs. -/
def divisionCall : Node where
  op := some (.call (.known 0x3000) none (some .longDiv))
  first :=
    ⟨0x1010, 0x1014, .jsr, .word, [.register .pc, .absolute 0x3000], by decide⟩
  rest := []

/--
Minus seven divided by what stands for two is minus three; the least long
divided by minus one is unknown and joins the bytes below; and so is a known
long divided by unknown bytes.
-/
theorem longCall_calculates_divisionCall :
    Routine.longDiv ∈ longArithmetic ∧ (withUnknown 6).isMangled = false ∧
      (∃ pushed,
        [⟨4, .longInt (-7)⟩, ⟨4, .longInt 0x100000002⟩].foldlM boundedPush
          (withUnknown 6) = .ok pushed ∧
        (divisionContext.apply divisionCall ⟨pushed, ∅⟩).outcome =
          .ok ⟨tracked [⟨4, .longInt (-3)⟩, .unknown 6], ∅⟩) ∧
      (∃ pushed, [⟨4, .longInt (-0x80000000)⟩, ⟨4, .longInt (-1)⟩].foldlM
        boundedPush
          (withUnknown 6) = .ok pushed ∧
        (divisionContext.apply divisionCall ⟨pushed, ∅⟩).outcome =
          .ok ⟨withUnknown 10, ∅⟩) ∧
      (divisionContext.apply divisionCall
        ⟨tracked [.unknown 6, ⟨4, .longInt 8⟩], ∅⟩).outcome =
        .ok ⟨tracked [.unknown 6], ∅⟩ ∧
      (divisionContext.apply divisionCall ⟨withUnknown 6, ∅⟩).outcome =
        .ok ⟨mangled, ∅⟩ := by
  have isLong : Routine.longDiv ∈ longArithmetic := by decide
  rcases longCall_calculates divisionContext isLong (rfl : divisionCall.op = _)
    (rfl : (withUnknown 6).isMangled = false) ∅ with ⟨literals, -, short⟩
  rcases longCall_calculates divisionContext isLong (rfl : divisionCall.op = _)
    (rfl : (tracked [.unknown 6, ⟨4, .longInt 8⟩]).isMangled = false) ∅ with
      ⟨-, unknown, -⟩
  refine ⟨isLong, rfl, ?_, ?_, ?_, short (by decide)⟩
  · rcases literals (-7) 0x100000002 with
      ⟨pushed, content, isPushed, exactly, isPush⟩
    have three : Calculates (-7) 0x100000002 .longDiv (.longInt (-3)) :=
      ⟨-7, 2, ⟨by decide, by decide⟩, ⟨by decide, by decide⟩, by decide⟩
    rw [← (exactly _).mp three] at isPush
    exact ⟨pushed, isPushed, isPush.goesThrough (.inl (by decide))⟩
  · rcases literals (-0x80000000) (-1) with
      ⟨pushed, content, isPushed, exactly, isPush⟩
    have none : Calculates (-0x80000000) (-1) .longDiv .unknown :=
      ⟨-0x80000000, -1, ⟨by decide, by decide⟩, ⟨by decide, by decide⟩,
        by decide⟩
    rw [← (exactly _).mp none] at isPush
    exact ⟨pushed, isPushed, isPush.goesThrough (.inr (by decide))⟩
  · have isPush := unknown (by decide) (by simp [StackItem.unknown])
    exact isPush.goesThrough (.inr (by decide))

end ReplayContext

end ProcRecovery
