import ProcRecovery.Proofs.Emission
import ProcRecovery.Proofs.SymbolicStack.Reference
import ProcRecovery.Replay

/-!
# Construction of strings

A call of the routine that constructs a string finds the length and the address
of a text on the stack, and below them where the string goes.  If that is a
place on the stack, the call followed by the removal of its arguments is
exactly one update of that place; if it is a frame slot, the stack is as it was
and the slot has got the text.  Reading the arguments changes nothing because
each of them is an item of its own, and the update reaches through them because
overwriting bytes below some items leaves these alone.
-/

namespace ProcRecovery

open SymbolicStack

/-! ## Loaded stacks -/

/--
The arguments of a string construction in the order in which they are pushed:
where the string goes, and the address and the length of its text.
-/
def stringArguments
    (destination : Content)
    (address length : Int) :
    List StackItem :=
  [⟨2, destination⟩, ⟨2, .smallInt address⟩, ⟨2, .smallInt length⟩]

/-- Some items with the arguments of a string construction on top. -/
def loaded
    (destination : Content)
    (address length : Int)
    (items : List StackItem) :
    List StackItem :=
  (stringArguments destination address length).reverse ++ items

section Loaded

variable {items : List StackItem} (destination : Content)
  (address length : Int)

theorem isSolid_stringArguments :
    IsSolid (stringArguments destination address length).reverse := by
  simp [IsSolid, stringArguments]

theorem isSolid_loaded (solid : IsSolid items) :
    IsSolid (loaded destination address length items) :=
  List.forall_mem_append.mpr
    ⟨isSolid_stringArguments destination address length, solid⟩

theorem widthSum_loaded (items : List StackItem) :
    widthSum (loaded destination address length items) =
      6 + widthSum items := by
  rw [loaded, widthSum_append]
  rfl

theorem fits_loaded (narrow : widthSum items < 0x4000000000000000) :
    FitsUnsigned (widthSum (loaded destination address length items)) := by
  rw [widthSum_loaded]
  unfold FitsUnsigned
  omega

/--
From the top there are the length, the address, and where the string goes.
-/
theorem holdsAt_loaded
    (items : List StackItem) :
    HoldsAt (loaded destination address length items) 0 ⟨2, .smallInt length⟩ ∧
      HoldsAt (loaded destination address length items) 2 ⟨2,
        .smallInt address⟩ ∧
      HoldsAt (loaded destination address length items) 4 ⟨2, destination⟩ :=
  ⟨⟨[], _, rfl, rfl⟩, ⟨[_], _, rfl, rfl⟩, ⟨[_, _], _, rfl, rfl⟩⟩

end Loaded

/-- Known items are pushed one on the other as they are. -/
theorem foldlM_boundedPush
    {arguments items : List StackItem}
    (solid : IsSolid arguments)
    (known : ∀ argument ∈ arguments, argument.content ≠ .unknown)
    (fits : FitsUnsigned (widthSum arguments + widthSum items)) :
    arguments.foldlM boundedPush (tracked items) =
      .ok (tracked (arguments.reverse ++ items)) := by
  induction arguments generalizing items with
  | nil => rfl
  | cons first later hypothesis =>
      rcases List.forall_mem_cons.mp solid with ⟨positive, solidLater⟩
      rcases List.forall_mem_cons.mp known with ⟨knownFirst, knownLater⟩
      have plain := pushItem_of_known knownFirst positive items
      unfold FitsUnsigned at fits
      rw [widthSum_cons] at fits
      have room : FitsUnsigned ((tracked items).totalWidth + first.width) := by
        rw [totalWidth_tracked]
        unfold FitsUnsigned
        omega
      have laterFits :
          FitsUnsigned (widthSum later + widthSum (first :: items)) := by
        rw [widthSum_cons]
        unfold FitsUnsigned
        omega
      rw [List.foldlM_cons, boundedPush_of_fits room, ok_bind, push, plain,
        hypothesis solidLater knownLater laterFits, List.reverse_cons,
        List.append_assoc]
      rfl

/-! ## Reading the arguments -/

namespace ReplayContext

variable {state : ReplayState} {address length : Int} {bytes : List UInt8}
  {site : Nat}

theorem smallArgument_of_holdsAt
    {stack : SymbolicStack} {offset : Nat} {value : Int}
    (solid : IsSolid stack.items)
    (fits : FitsUnsigned stack.totalWidth)
    (holds : HoldsAt stack.items offset ⟨2, .smallInt value⟩) :
    smallArgument stack offset = .ok (stack, some value) := by
  have found : stack.get offset 2 = (stack, some ⟨2, .smallInt value⟩) :=
    get_of_holdsAt solid fits holds
  rw [smallArgument, boundedGet_of_fits fits, found]
  rfl

/--
With its length and its address on the stack, a text that can be read is
attached to its destination.
-/
theorem constructString_finishes
    {context : ReplayContext} {attached : ReplayState}
    (solid : IsSolid state.stack.items)
    (fits : FitsUnsigned state.stack.totalWidth)
    (holdsLength : HoldsAt state.stack.items 0 ⟨2, .smallInt length⟩)
    (holdsAddress : HoldsAt state.stack.items 2 ⟨2, .smallInt address⟩)
    (positive : 0 < length)
    (nonnegative : 0 ≤ address)
    (isRead : context.image.read address.toNat length.toNat = .ok bytes)
    (attaches : attachText site length.toNat (Text.ofBytes bytes) state =
      pure attached) :
    (context.constructString site state).Finishes
      (context.textEvents site address.toNat (Text.ofBytes bytes))
        attached := by
  have readsLength := smallArgument_of_holdsAt solid fits holdsLength
  have readsAddress := smallArgument_of_holdsAt solid fits holdsAddress
  simp only [constructString, readsLength, Traced.ofExcept_ok_bind,
    readsAddress, if_pos (And.intro positive nonnegative), isRead]
  apply Traced.finishes_bind_iff.mpr
  refine ⟨_, (), [], ⟨rfl, rfl⟩, ?_, (List.append_nil _).symm⟩
  have attaches : attachText site length.toNat (Text.ofBytes bytes)
    (state.withStack state.stack) = pure attached := attaches
  rw [attaches]
  exact Traced.finishes_pure_iff.mpr ⟨rfl, rfl⟩

/-! ## Destinations -/

theorem attachText_frameReference
    (state : ReplayState)
    {offset : Int}
    (solid : IsSolid state.stack.items)
    (fits : FitsUnsigned state.stack.totalWidth)
    (holds : HoldsAt state.stack.items 4 ⟨2, .frameReference offset⟩)
    (extent : Nat)
    (text : String) :
    attachText site extent text state =
      pure { state with
        slots := state.slots.update offset (fun slot => { slot with text })
        } := by
  have found : state.stack.get 4 2 =
      (state.stack, some ⟨2, .frameReference offset⟩) :=
    get_of_holdsAt solid fits holds
  rw [attachText, boundedGet_of_fits fits, found]
  rfl

/--
A text whose destination is a place on the stack is put there.  The reference
to the place lies below the other arguments, and it counts from where it ends.
-/
theorem attachText_backReference
    (state : ReplayState)
    {distance : Int}
    (solid : IsSolid state.stack.items)
    (fits : FitsUnsigned state.stack.totalWidth)
    (holds : HoldsAt state.stack.items 4 ⟨2, .backReference distance⟩)
    (ahead : 0 ≤ distance)
    (near : FitsSigned (6 + distance))
    (extent : Nat)
    (text : String) :
    attachText site extent text state =
      pure (state.withStack
        (state.stack.put (6 + distance.toNat) ⟨extent,
          .stringRef (some text)⟩)) := by
  have found : state.stack.get 4 2 =
      (state.stack, some ⟨2, .backReference distance⟩) :=
    get_of_holdsAt solid fits holds
  rcases exists_resolve solid fits holds (by decide) with
    ⟨target, resolves, isTarget⟩
  have reaches : target = some (6 + distance.toNat) :=
    (isTarget _).mpr ⟨by omega, near⟩
  rw [reaches] at resolves
  simp only [attachText, boundedGet_of_fits fits, found,
    Traced.ofExcept_ok_bind, Option.map_some, boundedResolve_of_fits fits,
    resolves, boundedPut_of_fits fits]

/-! ## Calls with their arguments -/

theorem diagnosticsOf_textEvents
    (context : ReplayContext)
    (site address : Nat)
    (text : String) :
    diagnosticsOf (context.textEvents site address text) = [] := by
  unfold textEvents
  split
  next => rfl
  next => rfl

/--
Push the arguments of a string construction, replay a node, and remove the
arguments.
-/
def stringCall
    (context : ReplayContext)
    (node : Node)
    (destination : Content)
    (address length : Int)
    (state : ReplayState) :
    Traced ReplayState := do
  let pushed ← Traced.ofExcept
    ((stringArguments destination address length).foldlM boundedPush
      state.stack)
  let called ← context.apply node (state.withStack pushed)
  return called.withStack (called.stack.pop 6).1

section Calls

variable {context : ReplayContext} {node : Node} {target : Resolution Nat}
  {label : Option String} {items after : List StackItem}
  {slots changed : FrameSlots} {destination : Content}
  (isCall : node.op = some (.call target label (some .stringLiteral)))
  (solid : IsSolid items) (narrow : widthSum items < 0x4000000000000000)
  (positive : 0 < length) (nonnegative : 0 ≤ address)
  (isRead : context.image.read address.toNat length.toNat = .ok bytes)

include isCall solid narrow positive nonnegative isRead

/--
If a call changes nothing but what lies below its arguments, that is left when
these are removed.
-/
theorem stringCall_of_attachText
    (known : destination ≠ .unknown)
    (attaches :
      attachText node.lo length.toNat (Text.ofBytes bytes)
        ⟨tracked (loaded destination address length items), slots⟩ =
        pure ⟨tracked (loaded destination address length after), changed⟩) :
    (context.stringCall node destination address length ⟨tracked items,
      slots⟩).Finishes
      (context.textEvents node.lo address.toNat (Text.ofBytes bytes))
      ⟨tracked after, changed⟩ := by
  have fits := fits_loaded destination address length narrow
  have room : FitsUnsigned (6 + widthSum items) := by
    rwa [widthSum_loaded] at fits
  rcases holdsAt_loaded destination address length items with
    ⟨holdsLength, holdsAddress, -⟩
  have loads :
      (stringArguments destination address length).foldlM boundedPush
        (tracked items) =
      .ok (tracked (loaded destination address length items)) :=
    foldlM_boundedPush (by simp [IsSolid, stringArguments])
      (by simp [stringArguments, known]) room
  have applied : (context.apply node
      ⟨tracked (loaded destination address length items), slots⟩).Finishes
        (context.textEvents node.lo address.toNat (Text.ofBytes bytes))
        ⟨tracked (loaded destination address length after), changed⟩ := by
    rw [apply, isCall]
    exact constructString_finishes
      (isSolid_loaded destination address length solid) fits
      holdsLength holdsAddress positive nonnegative isRead attaches
  -- each argument is an item of its own, so the cut below them divides nothing
  have removes : (tracked (loaded destination address length after)).pop 6 =
      (tracked after, (stringArguments destination address length).reverse) :=
    pop_tracked_of_cut
      (cut_append (isSolid_stringArguments destination address length) after)
  rw [stringCall, loads, Traced.ofExcept_ok_bind]
  apply Traced.finishes_bind_iff.mpr
  refine ⟨_, _, [], applied, ?_, (List.append_nil _).symm⟩
  rw [removes]
  exact Traced.finishes_pure_iff.mpr ⟨rfl, rfl⟩

/--
With the arguments removed, a place on the stack has been overwritten where it
lay before they were pushed.
-/
theorem stringCall_backReference
    {distance : Int}
    (ahead : 0 ≤ distance)
    (within : distance + length ≤ widthSum items)
    (isPut :
      (tracked items).put distance.toNat ⟨length.toNat,
        .stringRef (some (Text.ofBytes bytes))⟩ = tracked after) :
    (context.stringCall node (.backReference distance) address length
      ⟨tracked items, slots⟩).Finishes
        (context.textEvents node.lo address.toNat (Text.ofBytes bytes))
        ⟨tracked after, slots⟩ := by
  have near : FitsSigned (6 + distance) := by
    unfold FitsSigned
    omega
  have putsBelow :
      (tracked (loaded (.backReference distance) address length items)).put
      (6 + distance.toNat) ⟨length.toNat,
        .stringRef (some (Text.ofBytes bytes))⟩ =
        tracked (loaded (.backReference distance) address length after) :=
    put_append (isSolid_stringArguments (.backReference distance) address
      length)
      (fits_loaded (.backReference distance) address length narrow) isPut
  rcases holdsAt_loaded (.backReference distance) address length items with
    ⟨-, -, holds⟩
  apply stringCall_of_attachText isCall solid narrow positive nonnegative
    isRead (by simp)
  rw [attachText_backReference
    ⟨tracked (loaded (.backReference distance) address length items), slots⟩
    (isSolid_loaded _ _ _ solid) (fits_loaded _ _ _ narrow) holds ahead near,
    putsBelow]
  rfl

theorem stringCall_frameReference
    (offset : Int) :
    (context.stringCall node (.frameReference offset) address length
      ⟨tracked items, slots⟩).Finishes
        (context.textEvents node.lo address.toNat (Text.ofBytes bytes))
        ⟨tracked items,
          slots.update offset (fun slot =>
            { slot with text := some (Text.ofBytes bytes) })⟩ := by
  rcases holdsAt_loaded (.frameReference offset) address length items with
    ⟨-, -, holds⟩
  apply stringCall_of_attachText isCall solid narrow positive nonnegative
    isRead (by simp)
  exact attachText_frameReference ⟨tracked _, slots⟩
    (isSolid_loaded _ _ _ solid)
    (fits_loaded _ _ _ narrow) holds _ _

end Calls

/--
Constructing a string is exactly one update of its destination.  Its arguments
are pushed on any stack that the operations make and that is tracked and of
ordinary width, the call is replayed, and the arguments are removed.  A place
on the stack is overwritten by the text; a frame slot gets the text, which
changes nothing else about it or any other slot, and the stack is as it was.
Nothing odd is reported.
-/
theorem stringCall_updates_destination
    (context : ReplayContext)
    {node : Node} {target : Resolution Nat} {label : Option String}
    (isCall : node.op = some (.call target label (some .stringLiteral)))
    {stack : SymbolicStack}
    (reachable : stack.Reachable)
    (isTracked : stack.isMangled = false)
    (narrow : stack.totalWidth < 0x4000000000000000)
    (slots : FrameSlots)
    {address length : Int}
    (positive : 0 < length)
    (nonnegative : 0 ≤ address)
    {bytes : List UInt8}
    (isRead : context.image.read address.toNat length.toNat = .ok bytes) :
    (∀ distance : Int, 0 ≤ distance → distance + length ≤ stack.totalWidth →
      ∃ events updated,
        (context.stringCall node (.backReference distance) address length
          ⟨stack, slots⟩).Finishes events ⟨updated, slots⟩ ∧
        diagnosticsOf events = [] ∧
        stack.boundedPut distance.toNat
          ⟨length.toNat, .stringRef (some (Text.ofBytes bytes))⟩ =
            .ok updated ∧
        updated.isMangled = false) ∧
    ∀ offset : Int, ∃ events changed,
      (context.stringCall node (.frameReference offset) address length
        ⟨stack, slots⟩).Finishes events ⟨stack, changed⟩ ∧
      diagnosticsOf events = [] ∧
      changed.get? offset =
        some { (slots.get? offset).getD { offset } with
          text := some (Text.ofBytes bytes) } ∧
      ∀ other, other ≠ offset → changed.get? other = slots.get? other := by
  cases stack with
  | mangled => cases isTracked
  | tracked items =>
      have solid : IsSolid items := reachable.isSolid
      have narrow : widthSum items < 0x4000000000000000 := narrow
      constructor
      · intro distance ahead within
        have within : distance + length ≤ widthSum items := within
        have fits : FitsUnsigned (tracked items).totalWidth := by
          rw [totalWidth_tracked]
          unfold FitsUnsigned
          omega
        have nonempty : 0 < StackItem.width
            ⟨length.toNat, .stringRef (some (Text.ofBytes bytes))⟩ :=
          Int.lt_toNat.mpr positive
        have ends : distance.toNat + length.toNat ≤ widthSum items := by omega
        rcases exists_put solid fits nonempty ends with ⟨after, isPut, -⟩
        refine ⟨context.textEvents node.lo address.toNat (Text.ofBytes bytes),
          tracked after, ?_, diagnosticsOf_textEvents context _ _ _, ?_, rfl⟩
        · exact stringCall_backReference isCall solid narrow positive
            nonnegative isRead ahead
            within isPut
        · rw [boundedPut_of_fits fits, isPut]
      · intro offset
        refine ⟨context.textEvents node.lo address.toNat (Text.ofBytes bytes),
          slots.update offset (fun slot =>
            { slot with text := some (Text.ofBytes bytes) }), ?_,
          diagnosticsOf_textEvents context _ _ _, ?_, ?_⟩
        · exact stringCall_frameReference isCall solid narrow positive
            nonnegative isRead offset
        · rw [FrameSlots.update, Table.get?_insert, if_pos rfl]
        · intro other distinct
          rw [FrameSlots.update, Table.get?_insert, if_neg distinct]

/-- An image with a text of two characters. -/
def greetingContext : ReplayContext where
  options := {}
  image :=
    { name := "greeting", memory := Table.ofList [(0x2000, [0x48, 0x49])] }
  procedure := 0x1000

/-- A call of the routine that constructs strings. -/
def greetingCall : Node where
  op := some (.call (.known 0x3000) none (some .stringLiteral))
  first := ⟨0x101e, 0x1022, .jsr, .word, [.absolute 0x3000], by decide⟩
  rest := []

/--
The text goes into the middle of ten unknown bytes, or into a frame slot that
has not been used before.
-/
theorem stringCall_updates_destination_greeting :
    (withUnknown 10).Reachable ∧
      greetingContext.image.read (0x2000 : Int).toNat (2 : Int).toNat =
        .ok [0x48, 0x49] ∧
      (∃ events,
        (greetingContext.stringCall greetingCall (.backReference 4) 0x2000 2
          ⟨withUnknown 10, ∅⟩).Finishes events
            ⟨tracked [.unknown 4, ⟨2, .stringRef (some "HI")⟩, .unknown 4],
              ∅⟩ ∧
        diagnosticsOf events = []) ∧
      ∃ events changed,
        (greetingContext.stringCall greetingCall (.frameReference (-6)) 0x2000
          2
          ⟨withUnknown 10, ∅⟩).Finishes events ⟨withUnknown 10, changed⟩ ∧
        diagnosticsOf events = [] ∧
        changed.get? (-6) = some { offset := -6, text := some "HI" } := by
  have reachable : (withUnknown 10).Reachable := ⟨_, .inr ⟨10, rfl⟩, .refl⟩
  have isRead :
      greetingContext.image.read (0x2000 : Int).toNat (2 : Int).toNat =
      .ok [0x48, 0x49] := rfl
  have spelled : Text.ofBytes [0x48, 0x49] = "HI" := by decide
  rcases stringCall_updates_destination greetingContext
      (rfl : greetingCall.op = _) reachable rfl (by decide) ∅ (by decide)
      (by decide) isRead with
    ⟨onStack, inFrame⟩
  refine ⟨reachable, isRead, ?_, ?_⟩
  · rcases onStack 4 (by decide) (by decide) with
      ⟨events, updated, finished, silent, isPut, -⟩
    rw [spelled] at isPut
    cases isPut
    exact ⟨events, finished, silent⟩
  · rcases inFrame (-6) with ⟨events, changed, finished, silent, found, -⟩
    rw [spelled] at found
    exact ⟨events, changed, finished, silent, found⟩

end ReplayContext

end ProcRecovery
