import ProcRecovery.Proofs.SymbolicStack.Update

/-!
# Back references

A back reference on a symbolic stack says how far above the top, at the time it
was pushed, the place lies that it refers to.  The top moves afterwards, but an
item that is left alone stays at the same height above the bottom, whatever is
pushed, popped, read and overwritten around it.  So the place that the
reference resolves to, counted from the bottom, is always the same.
-/

namespace ProcRecovery.SymbolicStack

/-! ## Items at heights -/

/-- An item lies on a number of bytes, which are those below it. -/
def HoldsOn (stack : SymbolicStack) (base : Nat) (item : StackItem) : Prop :=
  ∃ offset, HoldsAt stack.items offset item ∧
    offset + item.width + base = stack.totalWidth

/-- A range of bytes has one in common with the bytes that lie on a base. -/
def Touches (stack : SymbolicStack) (base extent offset width : Nat) : Prop :=
  offset + base < stack.totalWidth ∧
    stack.totalWidth < offset + width + base + extent

/--
A search restructures the bytes that lie on a base: it finds a range that has
one in common with them and is not just the same.
-/
def Restructures
    (stack : SymbolicStack)
    (base extent offset width : Nat) :
    Prop :=
  0 < width ∧ offset + width ≤ stack.totalWidth ∧
    stack.Touches base extent offset width ∧
    ¬ (offset + extent + base = stack.totalWidth ∧ width = extent)

instance (stack : SymbolicStack) (base extent offset width : Nat) :
    Decidable (stack.Touches base extent offset width) :=
  inferInstanceAs (Decidable (_ ∧ _))

instance (stack : SymbolicStack) (base extent offset width : Nat) :
    Decidable (stack.Restructures base extent offset width) :=
  inferInstanceAs (Decidable (_ ∧ _))

section Heights

variable {stack : SymbolicStack} {base : Nat} {item : StackItem}

theorem holdsOn_push
    (isTracked : stack.isMangled = false)
    (known : item.content ≠ .unknown)
    (positive : 0 < item.width) :
    (stack.push item).HoldsOn stack.totalWidth item := by
  cases stack with
  | mangled => cases isTracked
  | tracked items =>
      refine ⟨0, (holdsAt_pushItem_iff positive known).mpr ?_, ?_⟩
      · exact holdsAt_cons.mpr (.inl ⟨rfl, rfl⟩)
      · simp only [push, totalWidth_tracked, widthSum_pushItem]
        omega

theorem HoldsOn.push
    (holds : stack.HoldsOn base item)
    (known : item.content ≠ .unknown)
    (top : StackItem) :
    (stack.push top).HoldsOn base item := by
  cases stack with
  | mangled => exact holds
  | tracked items =>
      rcases holds with ⟨offset, holds, height⟩
      simp only [totalWidth_tracked] at height
      by_cases empty : top.width = 0
      · refine ⟨offset, ?_, ?_⟩
        · simpa only [SymbolicStack.push, pushItem, if_pos empty] using holds
        · simp only [SymbolicStack.push, totalWidth_tracked, widthSum_pushItem]
          omega
      · refine ⟨top.width + offset, ?_, ?_⟩
        · apply (holdsAt_pushItem_iff (Nat.pos_of_ne_zero empty) known).mpr
          exact holdsAt_cons.mpr (.inr ⟨offset, rfl, holds⟩)
        · simp only [SymbolicStack.push, totalWidth_tracked, widthSum_pushItem]
          omega

theorem HoldsOn.pop
    (holds : stack.HoldsOn base item)
    (positive : 0 < item.width)
    {width : Nat}
    (spares : width + base + item.width ≤ stack.totalWidth) :
    (stack.pop width).1.HoldsOn base item := by
  cases stack with
  | mangled => exact holds
  | tracked items =>
      rcases holds with ⟨offset, holds, height⟩
      have within : width ≤ (tracked items).totalWidth := by omega
      rcases exists_pop within with ⟨popped, rest, divided, answer⟩
      have widths := widthSum_of_cut divided
      rw [answer]
      simp only [totalWidth_tracked] at height spares
      refine ⟨offset - width, holds.below_cut positive divided (by omega), ?_⟩
      simp only [totalWidth_tracked]
      omega

theorem HoldsOn.find
    (holds : stack.HoldsOn base item)
    (solid : IsSolid stack.items)
    {offset width : Nat}
    (spares : ¬ stack.Restructures base item.width offset width) :
    (stack.find offset width).1.HoldsOn base item := by
  cases stack with
  | mangled => exact holds
  | tracked items =>
      rcases holds with ⟨start, holds, height⟩
      by_cases covered : offset = start ∧ width = item.width
      · rcases covered with ⟨rfl, rfl⟩
        have unchanged : ((tracked items).find offset item.width).1 =
            tracked items :=
          find_fst_of_holdsAt solid holds
        rw [unchanged]
        exact ⟨offset, holds, height⟩
      · simp only [SymbolicStack.find]
        split
        next => exact ⟨start, holds, height⟩
        next range =>
          have nonempty : 0 < width := (not_not.mp range).1
          split
          next above middle below isolated =>
            have widths := widthSum_of_isolate isolated
            simp only [Restructures, Touches, totalWidth_tracked]
              at spares height
            refine ⟨start, ?_, ?_⟩
            · exact holds.of_disjoint solid isolated widths.2.1 (by omega)
            · simp only [totalWidth_tracked, widthSum_append, widthSum_cons]
              omega
          next => exact ⟨start, holds, height⟩

theorem HoldsOn.put
    (holds : stack.HoldsOn base item)
    (solid : IsSolid stack.items)
    {offset : Nat} {other : StackItem}
    (spares : ¬ stack.Touches base item.width offset other.width)
    (staysTracked : (stack.put offset other).isMangled = false) :
    (stack.put offset other).HoldsOn base item := by
  cases stack with
  | mangled => exact holds
  | tracked items =>
      rcases holds with ⟨start, holds, height⟩
      have solid : IsSolid items := solid
      rcases exists_overwrites solid staysTracked with
        ⟨after, isPut, overwrites⟩
      rw [isPut]
      simp only [Touches, totalWidth_tracked] at height spares
      refine ⟨start, overwrites.keeps start item holds (by omega), ?_⟩
      rw [totalWidth_tracked, overwrites.widthSum_eq]
      exact height

end Heights

/-! ## Runs that leave an item alone -/

/--
One operation that does not pop, restructure or overwrite the bytes that lie on
a base.
-/
inductive SparingStep
    (base extent : Nat) :
    SymbolicStack → SymbolicStack → Prop
  | push {stack pushed : SymbolicStack} (item : StackItem)
      (isPushed : stack.boundedPush item = .ok pushed) :
      SparingStep base extent stack pushed
  | pop {stack : SymbolicStack} {width : Nat}
      (spares : width + base + extent ≤ stack.totalWidth) :
      SparingStep base extent stack (stack.pop width).1
  | get
      {stack after : SymbolicStack} {offset width : Nat}
      {found : Option StackItem}
      (isFound : stack.boundedGet offset width = .ok (after, found))
      (spares : ¬ stack.Restructures base extent offset width) :
      SparingStep base extent stack after
  | put {stack changed : SymbolicStack} {offset : Nat} {item : StackItem}
      (isPut : stack.boundedPut offset item = .ok changed)
      (spares : ¬ stack.Touches base extent offset item.width) :
      SparingStep base extent stack changed
  | resolve {stack after : SymbolicStack} {offset : Nat} {target : Option Nat}
      (isResolved : stack.boundedResolve offset = .ok (after, target))
      (spares : ¬ stack.Restructures base extent offset 2) :
      SparingStep base extent stack after

section Sparing

variable {stack next final : SymbolicStack} {base extent : Nat}
  {item : StackItem}

theorem SparingStep.step
    (sparing : SparingStep base extent stack next) :
    Step stack next := by
  cases sparing with
  | push item isPushed => exact .push item isPushed
  | pop _ => exact .pop stack _
  | get isFound _ => exact .get isFound
  | put isPut _ => exact .put isPut
  | resolve isResolved _ => exact .resolve isResolved

/-- One operation that leaves an item alone leaves it at its height. -/
theorem SparingStep.holdsOn
    (sparing : SparingStep base item.width stack next)
    (solid : IsSolid stack.items)
    (known : item.content ≠ .unknown)
    (positive : 0 < item.width)
    (holds : stack.HoldsOn base item)
    (staysTracked : next.isMangled = false) :
    next.HoldsOn base item := by
  cases sparing with
  | push top isPushed =>
      rw [(delivers_boundedPush stack top).of_ok isPushed]
      exact holds.push known top
  | pop spares => exact holds.pop positive spares
  | @get _ offset width found isFound spares =>
      have same : next = (stack.find offset width).1 :=
        congrArg Prod.fst
          ((delivers_boundedGet stack offset width).of_ok isFound)
      rw [same]
      exact holds.find solid spares
  | @put _ offset other isPut spares =>
      have same := (delivers_boundedPut stack offset other).of_ok isPut
      subst same
      exact holds.put solid spares staysTracked
  | @resolve _ offset target isResolved spares =>
      have same : next = (stack.find offset 2).1 :=
        congrArg Prod.fst
          ((delivers_boundedResolve stack offset).of_ok isResolved)
      rw [same]
      exact holds.find solid spares

/--
A run of operations that leave an item alone leaves it at its height, if the
stack is still tracked at the end.
-/
theorem holdsOn_of_run
    (run : Relation.ReflTransGen (SparingStep base item.width) stack final)
    (solid : IsSolid stack.items)
    (known : item.content ≠ .unknown)
    (positive : 0 < item.width)
    (holds : stack.HoldsOn base item)
    (staysTracked : final.isMangled = false) :
    IsSolid final.items ∧ final.HoldsOn base item := by
  induction run with
  | refl => exact ⟨solid, holds⟩
  | @tail middle next _ sparing hypothesis =>
      have wasTracked : middle.isMangled = false := by
        cases isMangled : middle.isMangled with
        | false => rfl
        | true =>
            have lost := isLost_of_steps isMangled (.single sparing.step)
            rw [lost.isMangled_eq] at staysTracked
            cases staysTracked
      rcases hypothesis wasTracked with ⟨solidMiddle, holdsMiddle⟩
      refine ⟨sparing.step.isSolid solidMiddle, ?_⟩
      exact sparing.holdsOn solidMiddle known positive holdsMiddle staysTracked

end Sparing

/-! ## Resolving references -/

/--
A reference near the top resolves to the place at its distance from where it
ends, exactly if a signed word can hold that place.
-/
theorem exists_resolve
    {stack : SymbolicStack} {offset : Nat} {distance : Int}
    (solid : IsSolid stack.items)
    (fits : FitsUnsigned stack.totalWidth)
    (holds : HoldsAt stack.items offset ⟨2, .backReference distance⟩)
    (near : FitsSigned ((offset : Int) + 2)) :
    ∃ target, stack.resolve offset = (stack, target) ∧
      ∀ place : Nat, target = some place ↔
        (place : Int) = offset + 2 + distance ∧
          FitsSigned (offset + 2 + distance) := by
  have found : stack.get offset 2 =
      (stack, some ⟨2, .backReference distance⟩) :=
    get_of_holdsAt solid fits holds
  have resolves : stack.resolve offset =
      (stack, referent? offset ⟨2, .backReference distance⟩) := by
    rw [resolve, found]
    exact congrArg (Prod.mk stack) (Option.bind_some _ _)
  refine ⟨_, resolves, ?_⟩
  intro place
  rw [referent?_backReference]
  split
  next resolves =>
    have reached := resolves.2.1
    constructor
    · rintro same
      cases same
      exact ⟨Int.toNat_of_nonneg reached, resolves.2.2⟩
    · rintro ⟨same, -⟩
      exact congrArg some (by omega)
  next unresolved =>
    refine iff_of_false (by simp) ?_
    rintro ⟨same, fits⟩
    exact unresolved ⟨near, by omega, fits⟩

theorem isMangled_find (stack : SymbolicStack) (offset width : Nat) :
    (stack.find offset width).1.isMangled = stack.isMangled := by
  cases stack with
  | mangled => rfl
  | tracked items =>
      simp only [find]
      split
      next => rfl
      next =>
        split
        next => rfl
        next => rfl

/--
A back reference keeps referring to the same byte of the stack.  It is pushed
on any stack that the operations make, and then left alone by any run of
operations after which the stack is still tracked and of ordinary width.  It
then lies where the bytes pushed before it end, and it resolves exactly if its
place can be given by a signed word, which is then as far from the bottom as it
was.  Resolving never loses track of a stack.
-/
theorem Reachable.resolve_backReference
    {stack final : SymbolicStack} {distance : Int}
    (reachable : stack.Reachable)
    (isTracked : stack.isMangled = false)
    (run :
      Relation.ReflTransGen (SparingStep stack.totalWidth 2)
        (stack.push ⟨2, .backReference distance⟩) final)
    (staysTracked : final.isMangled = false)
    (narrow : final.totalWidth < 0x4000000000000000) :
    stack.boundedPush ⟨2, .backReference distance⟩ =
        .ok (stack.push ⟨2, .backReference distance⟩) ∧
      (∃ offset target, offset + 2 + stack.totalWidth = final.totalWidth ∧
        HoldsAt final.items offset ⟨2, .backReference distance⟩ ∧
        final.boundedResolve offset = .ok (final, target) ∧
        (target.isSome = true ↔
          0 ≤ (offset : Int) + 2 + distance ∧
            (offset : Int) + 2 + distance ≤ 0x7fffffffffffffff) ∧
        ∀ place, target = some place →
          (final.totalWidth : Int) - place = stack.totalWidth - distance) ∧
      ∀ (other after : SymbolicStack) (elsewhere : Nat) (target : Option Nat),
        other.boundedResolve elsewhere = .ok (after, target) →
          after.isMangled = other.isMangled := by
  refine ⟨?_, ?_, ?_⟩
  · cases stack with
    | mangled => cases isTracked
    | tracked items => rfl
  · have known : (StackItem.mk 2 (.backReference distance)).content ≠
        .unknown := by simp
    have positive : 0 < (StackItem.mk 2 (.backReference distance)).width :=
      Nat.zero_lt_two
    have solid := isSolid_push reachable.isSolid ⟨2, .backReference distance⟩
    have onTop := holdsOn_push isTracked known positive
    rcases holdsOn_of_run run solid known positive onTop staysTracked with
      ⟨solidFinal, offset, holds, height⟩
    have height : offset + 2 + stack.totalWidth = final.totalWidth := height
    have fits : FitsUnsigned final.totalWidth := by
      unfold FitsUnsigned
      omega
    have near : FitsSigned ((offset : Int) + 2) := by
      unfold FitsSigned
      omega
    rcases exists_resolve solidFinal fits holds near with
      ⟨target, resolves, isTarget⟩
    unfold FitsSigned at isTarget
    refine ⟨offset, target, height, holds, ?_, ?_, ?_⟩
    · rw [boundedResolve_of_fits fits, resolves]
    · rw [Option.isSome_iff_exists]
      constructor
      · rintro ⟨place, isPlace⟩
        have reached := (isTarget place).mp isPlace
        omega
      · intro reached
        exact ⟨(offset + 2 + distance).toNat, (isTarget _).mpr (by omega)⟩
    · intro place isPlace
      have reached := (isTarget place).mp isPlace
      omega
  · intro other after elsewhere target isResolved
    have same : after = (other.find elsewhere 2).1 :=
      congrArg Prod.fst
        ((delivers_boundedResolve other elsewhere).of_ok isResolved)
    rw [same]
    exact isMangled_find other elsewhere 2

/--
A literal on a reference to a place further down, where a text has been
written.
-/
def textReferredTo : SymbolicStack :=
  tracked [⟨2, .smallInt 7⟩, ⟨2, .backReference 4⟩, .unknown 4,
    ⟨2, .stringRef (some "HI")⟩, .unknown 4]

/--
The reference was pushed on ten bytes, and the literal and the text came later:
it resolves to the text, which lies six bytes above the bottom as its place did
before.
-/
theorem resolve_backReference_textReferredTo :
    (withUnknown 10).Reachable ∧
      Relation.ReflTransGen (SparingStep (withUnknown 10).totalWidth 2)
        ((withUnknown 10).push ⟨2, .backReference 4⟩) textReferredTo ∧
      textReferredTo.boundedResolve 2 = .ok (textReferredTo, some 8) ∧
      ∃ offset target, offset + 2 + 10 = textReferredTo.totalWidth ∧
        textReferredTo.boundedResolve offset = .ok (textReferredTo, target) ∧
        ∀ place, target = some place →
          (textReferredTo.totalWidth : Int) - place =
            ((10 : Nat) : Int) - 4 := by
  have reachable : (withUnknown 10).Reachable := ⟨_, .inr ⟨10, rfl⟩, .refl⟩
  have isPut :
      (tracked [⟨2, .smallInt 7⟩, ⟨2, .backReference 4⟩,
        .unknown 10]).boundedPut 8
      ⟨2, .stringRef (some "HI")⟩ = .ok textReferredTo := rfl
  have run : Relation.ReflTransGen (SparingStep (withUnknown 10).totalWidth 2)
      ((withUnknown 10).push ⟨2, .backReference 4⟩) textReferredTo :=
    .tail (.single (.push ⟨2, .smallInt 7⟩ rfl)) (.put isPut (by decide))
  rcases reachable.resolve_backReference rfl run rfl (by decide) with
    ⟨-, ⟨offset, target, height, -, resolves, -, isPlace⟩, -⟩
  exact ⟨reachable, run, rfl, offset, target, height, resolves, isPlace⟩

end ProcRecovery.SymbolicStack
