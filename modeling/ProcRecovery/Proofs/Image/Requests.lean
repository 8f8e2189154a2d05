import ProcRecovery.Proofs.Image.Sweep
import ProcRecovery.Proofs.Listing.Statements

/-!
# Requests for decoding

A request goes from instruction to instruction and decodes each one until it
comes to a return, to a gap, or to an instruction that has been decoded before.
Here it is written as that loop, which ends because every round leaves less
code that is not decoded.  Stopping early loses nothing: what lies beyond a
decoded instruction has been decoded with it.  So the requests that have been
made determine what is decoded, whatever their order and however often they
were made.
-/

namespace ProcRecovery

/--
If a test passes less often and fails for one more item, then fewer items pass
it.
-/
theorem countP_lt_countP
    {α : Type} {items : List α} {weak strong : α → Bool} {item : α}
    (stronger : ∀ other ∈ items, strong other = true → weak other = true)
    (member : item ∈ items)
    (passes : weak item = true)
    (fails : strong item = false) :
    items.countP strong < items.countP weak := by
  rcases List.append_of_mem member with ⟨before, after, rfl⟩
  have earlier := List.countP_mono_left
    (fun other isBefore => stronger other (List.mem_append_left _ isBefore))
  have later := List.countP_mono_left (fun other isAfter =>
    stronger other
      (List.mem_append_right before (List.mem_cons_of_mem item isAfter)))
  simp only [List.countP_append, List.countP_cons, passes, fails,
    Bool.false_eq_true, ↓reduceIte]
  omega

theorem isKeyed_iff_forall_entries {code : Table Nat Instruction} :
    IsKeyed code ↔ ∀ entry ∈ code.entries, entry.2.lo = entry.1 := by
  simp only [IsKeyed, Table.get?_eq_some_iff, Prod.forall]

instance decidableIsKeyed
    (code : Table Nat Instruction) :
    Decidable (IsKeyed code) :=
  decidable_of_iff _ isKeyed_iff_forall_entries.symm

/-! ## The loop -/

/-- The amount of code that is not decoded. -/
def undecoded
    (code : Table Nat Instruction)
    (decoded : Table Nat Unit) :
    Nat :=
  code.keys.countP (fun address => !decoded.contains address)

theorem contains_insert_unit (decoded : Table Nat Unit) (address other : Nat) :
    (decoded.insert address ()).contains other =
      (decide (other = address) || decoded.contains other) := by
  rw [Table.contains, Table.get?_insert]
  by_cases same : other = address <;> simp [same, Table.contains]

theorem undecoded_insert_lt
    {code : Table Nat Instruction} {decoded : Table Nat Unit} {address : Nat}
    (coded : (code.get? address).isSome)
    (fresh : ¬ decoded.contains address = true) :
    undecoded code (decoded.insert address ()) < undecoded code decoded := by
  have isKey : address ∈ code.keys := Table.mem_keys_iff.mpr coded
  refine countP_lt_countP ?_ isKey ?_ ?_
  · intro other _ stillFresh
    rw [contains_insert_unit, Bool.not_or, Bool.and_eq_true] at stillFresh
    exact stillFresh.2
  · simpa using fresh
  · simp [contains_insert_unit]

/--
Decode instruction after instruction from an address, up to a return, a gap, or
an instruction decoded before: what is decoded then, and where the loop has
stopped.
-/
def sweep
    (code : Table Nat Instruction)
    (decoded : Table Nat Unit)
    (address : Nat) :
    Table Nat Unit × Nat :=
  match _found : code.get? address with
  | none => (decoded, address)
  | some instruction =>
    if _known : decoded.contains address = true then (decoded, address)
    else if instruction.isReturn then (decoded.insert address (), address)
    else sweep code (decoded.insert address ()) instruction.hi
termination_by undecoded code decoded
decreasing_by exact undecoded_insert_lt (by rw [_found]; rfl) _known

section Loop

variable {code : Table Nat Instruction} {decoded : Table Nat Unit}
  {address : Nat} {instruction : Instruction}

theorem sweep_of_missing (missing : code.get? address = none) :
    sweep code decoded address = (decoded, address) := by
  rw [sweep]
  split
  next => rfl
  next found =>
    rw [missing] at found
    cases found

theorem sweep_of_found (found : code.get? address = some instruction) :
    sweep code decoded address =
      if decoded.contains address then (decoded, address)
      else if instruction.isReturn then (decoded.insert address (), address)
      else sweep code (decoded.insert address ()) instruction.hi := by
  rw [sweep]
  split
  next missing =>
    rw [found] at missing
    cases missing
  next other foundToo =>
    cases found.symm.trans foundToo
    rfl

end Loop

/-- Nothing of a chain lies below where it starts. -/
theorem ChainAt.le_lo
    {code : Table Nat Instruction}
    (keyed : IsKeyed code)
    {address : Nat} {chain : List Instruction}
    (isChain : ChainAt code address chain) :
    ∀ instruction ∈ chain, address ≤ instruction.lo := by
  induction isChain with
  | gap missing => exact List.forall_mem_nil _
  | last found returns =>
      rw [List.forall_mem_singleton]
      exact Nat.le_of_eq (keyed _ _ found).symm
  | @next address first later found continues rest hypothesis =>
      have starts := keyed _ _ found
      have proper := first.lo_lt_hi
      rw [List.forall_mem_cons]
      refine ⟨Nat.le_of_eq starts.symm, ?_⟩
      intro instruction member
      have above := hypothesis instruction member
      omega

/--
The part of a chain that a sweep decodes, and where the sweep stops, depend on
nothing but what is decoded of the chain.
-/
theorem sweepExtent_congr
    {decoded other : Table Nat Unit} {chain : List Instruction}
    (agree : ∀ instruction ∈ chain,
      other.contains instruction.lo = decoded.contains instruction.lo)
    (address : Nat) :
    chain.takeWhile (fun instruction => !other.contains instruction.lo) =
        chain.takeWhile (fun instruction => !decoded.contains instruction.lo) ∧
      Image.sweepStop other address chain =
        Image.sweepStop decoded address chain := by
  induction chain generalizing address with
  | nil => exact ⟨rfl, rfl⟩
  | cons first later hypothesis =>
      rw [List.forall_mem_cons] at agree
      rcases hypothesis agree.2 first.hi with ⟨sameExtent, sameStop⟩
      simp only [List.takeWhile_cons, Image.sweepStop, agree.1, sameExtent,
        sameStop, and_self]

/--
The loop decodes a chain up to the first instruction that has been decoded
before.  What it decodes on its way lies below everything that it still comes
to.
-/
theorem sweep_eq
    {code : Table Nat Instruction}
    (keyed : IsKeyed code)
    {address : Nat} {chain : List Instruction}
    (isChain : ChainAt code address chain)
    (decoded : Table Nat Unit) :
    sweep code decoded address =
      ((chain.takeWhile
        (fun instruction => !decoded.contains instruction.lo)).foldl
          (fun decoded instruction => decoded.insert instruction.lo ())
            decoded,
        Image.sweepStop decoded address chain) := by
  induction isChain generalizing decoded with
  | gap missing => exact sweep_of_missing missing
  | @last address last found returns =>
      have starts := keyed _ _ found
      rw [sweep_of_found found]
      by_cases known : decoded.contains address = true
      · simp [known, starts, Image.sweepStop]
      · simp [known, starts, returns, Image.sweepStop]
  | @next address first later found continues rest hypothesis =>
      have starts := keyed _ _ found
      have proper := first.lo_lt_hi
      rw [sweep_of_found found]
      by_cases known : decoded.contains address = true
      · simp [known, starts, Image.sweepStop]
      · have agree : ∀ instruction ∈ later,
            (decoded.insert address ()).contains instruction.lo =
              decoded.contains instruction.lo := by
          intro instruction member
          have above := rest.le_lo keyed instruction member
          have apart : instruction.lo ≠ address := by omega
          simp [contains_insert_unit, apart]
        rcases sweepExtent_congr agree first.hi with ⟨sameExtent, sameStop⟩
        rw [if_neg known, if_neg (by simp [continues]), hypothesis, sameExtent,
          sameStop]
        simp [known, starts, continues, Image.sweepStop]

namespace Image

/-- Ask for an address to be decoded, by way of the loop. -/
def sweepFrom (image : Image) (address : Nat) : Decoding :=
  if image.code.contains address then
    let (decoded, stop) := sweep image.code image.decoded address
    { image := { image with decoded }, found := true,
      note := .decoded address stop }
  else
    { image, found := false, note := .nothingToDecode address }

/-- A request runs the loop. -/
theorem requestDecode_eq_sweepFrom
    {image : Image}
    (keyed : IsKeyed image.code)
    (address : Nat) :
    image.requestDecode address = image.sweepFrom address := by
  have isChain := chainAt_chainFrom keyed address
  rw [requestDecode]
  split
  next empty =>
    have missing : image.code.get? address = none := by
      by_contra coded
      exact isChain.ne_nil (Option.isSome_iff_ne_none.mpr coded) empty
    rw [sweepFrom, if_neg (by simp [Table.contains, missing])]
  next filled =>
    have coded : image.code.contains address = true :=
      isChain.isSome_get? filled
    rw [sweepFrom, if_pos coded, sweep_eq keyed isChain]

/-- A request finds something exactly where there is code. -/
theorem found_requestDecode_iff
    {image : Image}
    (keyed : IsKeyed image.code)
    (address : Nat) :
    (image.requestDecode address).found = true ↔
      (image.code.get? address).isSome := by
  rw [requestDecode_eq_sweepFrom keyed, sweepFrom, Table.contains]
  split
  next coded => simp [coded]
  next missing => simp [missing]

/-! ## Requests one after the other -/

/-- Ask for addresses to be decoded, one after the other. -/
def requestAll (image : Image) (requests : List Nat) : Image :=
  requests.foldl (fun image address => (image.requestDecode address).image)
    image

/-- Requests are made as the entries of a listing are. -/
theorem requestAll_eq_decodeEntries (image : Image) (requests : List Nat) :
    image.requestAll requests = (Listing.decodeEntries image requests).1 := by
  induction requests generalizing image with
  | nil => rfl
  | cons address later hypothesis =>
      exact hypothesis (image.requestDecode address).image

theorem requestAll_eq_with_decoded
    (image : Image)
    (requests : List Nat) :
    image.requestAll requests =
      { image with decoded := (image.requestAll requests).decoded } := by
  rw [requestAll_eq_decodeEntries]
  exact Listing.decodeEntries_eq_with_decoded image requests

/--
From an image without anything decoded, requests decode the chains that they
are for.
-/
theorem contains_requestAll_iff
    {image : Image}
    (keyed : IsKeyed image.code)
    (fresh : image.decoded = ∅)
    (requests : List Nat)
    {place : Nat} :
    (image.requestAll requests).decoded.contains place = true ↔
      ∃ address ∈ requests, ∃ instruction ∈ image.chainFrom address,
        instruction.lo = place := by
  have nothing : image.decoded.contains place = false := by
    rw [fresh]
    rfl
  rw [requestAll_eq_decodeEntries,
    Listing.contains_decodeEntries_iff keyed (isSwept_of_decoded_empty fresh),
    nothing]
  simp only [Bool.false_eq_true, false_or]

/-- Which requests have been made determines the image. -/
theorem requestAll_eq_of_mem_iff
    {image : Image}
    (keyed : IsKeyed image.code)
    (fresh : image.decoded = ∅)
    {requests others : List Nat}
    (same : ∀ address, address ∈ others ↔ address ∈ requests) :
    image.requestAll others = image.requestAll requests := by
  have decoded_eq : (image.requestAll others).decoded =
      (image.requestAll requests).decoded := by
    apply Table.ext_contains
    intro place
    rw [Bool.eq_iff_iff, contains_requestAll_iff keyed fresh,
      contains_requestAll_iff keyed fresh]
    simp only [same]
  rw [requestAll_eq_with_decoded, decoded_eq, ← requestAll_eq_with_decoded]

/--
What requests for some addresses, made one after the other, have made of an
image.
-/
structure HasAnswered
    (image : Image)
    (requests : List Nat)
    (reached : Image) :
    Prop where
  /-- Nothing but what is decoded has changed. -/
  unchanged : reached = { image with decoded := reached.decoded }
  /-- Nothing is decoded that is not code. -/
  coded : ∀ address, reached.decoded.contains address = true →
    (image.code.get? address).isSome
  swept : reached.IsSwept
  contains_iff : ∀ place, reached.decoded.contains place = true ↔
    ∃ address ∈ requests, ∃ instruction ∈ image.chainFrom address,
    instruction.lo = place
  /-- Another request runs the loop to its end. -/
  sweeps : ∀ address, reached.requestDecode address = reached.sweepFrom address
  found_iff : ∀ address,
    (reached.requestDecode address).found = true ↔
    (image.code.get? address).isSome
  /-- The same requests in another order or number lead to the same image. -/
  orderFree : ∀ others, (∀ address, address ∈ others ↔ address ∈ requests) →
    image.requestAll others = reached

theorem hasAnswered_requestAll
    {image : Image}
    (keyed : IsKeyed image.code)
    (fresh : image.decoded = ∅)
    (requests : List Nat) :
    image.HasAnswered requests (image.requestAll requests) := by
  have contains_iff := @contains_requestAll_iff image keyed fresh requests
  have code_eq : (image.requestAll requests).code = image.code := by
    rw [requestAll_eq_with_decoded]
  have stillKeyed : IsKeyed (image.requestAll requests).code := by
    rw [code_eq]
    exact keyed
  constructor
  case unchanged => exact requestAll_eq_with_decoded image requests
  case coded =>
    intro place held
    rcases contains_iff.mp held with ⟨address, -, instruction, member, rfl⟩
    exact Option.isSome_of_eq_some
      ((chainAt_chainFrom keyed address).get?_of_mem keyed member)
  case swept =>
    rw [requestAll_eq_decodeEntries]
    exact Listing.isSwept_decodeEntries keyed (isSwept_of_decoded_empty fresh)
      requests
  case contains_iff => exact fun place => contains_iff
  case sweeps => exact requestDecode_eq_sweepFrom stillKeyed
  case found_iff =>
    intro address
    rw [found_requestDecode_iff stillKeyed, code_eq]
  case orderFree =>
    exact fun others same => requestAll_eq_of_mem_iff keyed fresh same

end Image

end ProcRecovery
