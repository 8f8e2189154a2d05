import ProcRecovery.Proofs.Abutting
import ProcRecovery.Proofs.Image.Chain

/-!
# Layout of code

The instructions of a listing are valid and do not overlap.  So the chains of
code at two addresses either keep apart or run together: once a chain comes to
an address it goes on as the chain at that address does, and both end at the
same place.
-/

namespace ProcRecovery

/--
Code whose instructions stand under their own addresses, are valid and do not
overlap.
-/
structure IsSoundCode (code : Table Nat Instruction) : Prop where
  keyed : IsKeyed code
  valid : ∀ address instruction, code.get? address = some instruction →
    instruction.defect? = none
  apart : ∀ address instruction other, code.get? address = some instruction →
    (code.get? other).isSome → address < other → instruction.hi ≤ other

/--
Code whose instructions stand under their own addresses and do not overlap.
-/
structure IsSpacedCode (code : Table Nat Instruction) : Prop where
  keyed : IsKeyed code
  apart : ∀ address instruction other, code.get? address = some instruction →
    (code.get? other).isSome → address < other → instruction.hi ≤ other

theorem IsSoundCode.isSpacedCode
    {code : Table Nat Instruction}
    (sound : IsSoundCode code) :
    IsSpacedCode code :=
  ⟨sound.keyed, sound.apart⟩

theorem isSpacedCode_empty : IsSpacedCode (∅ : Table Nat Instruction) := by
  refine ⟨Image.isKeyed_empty, ?_⟩
  intro address instruction other found
  cases found

namespace Image

/--
An instruction goes into the code only if it ends before the next one and the
one before it has ended.
-/
theorem apart_of_addCode
    {image extended : Image} {instruction : Instruction}
    (spaced : IsSpacedCode image.code)
    (added : image.addCode instruction = .ok extended) :
    extended.code = image.code.insert instruction.lo instruction ∧
      ∀ address other, image.code.get? address = some other →
        (address < instruction.lo → other.hi ≤ instruction.lo) ∧
          (instruction.lo < address → instruction.hi ≤ address) := by
  simp only [addCode] at added
  split at added
  next => cases added
  next noClash =>
    cases added
    refine ⟨rfl, ?_⟩
    rw [Option.orElse_eq_orElse, Option.orElse_eq_or, Option.or_eq_none_iff,
      Option.filter_eq_none_iff, Option.filter_eq_none_iff] at noClash
    intro address other found
    constructor
    · intro before
      cases isFloor : image.code.floor? instruction.lo with
      | none =>
          have above := Table.floor?_eq_none isFloor found
          omega
      | some entry =>
          rcases Table.floor?_eq_some isFloor with
            ⟨isEntry, notAbove, greatest⟩
          have ended := noClash.1 entry isFloor
          simp only [decide_eq_true_eq] at ended
          rcases greatest address other found (by omega) with rfl | below
          · rw [found] at isEntry
            cases isEntry
            omega
          · have between :=
              spaced.apart address other entry.1 found (by rw [isEntry]; rfl)
                below
            omega
    · intro after
      cases isCeiling : image.code.ceiling? instruction.lo with
      | none =>
          have below := Table.ceiling?_eq_none isCeiling found
          omega
      | some entry =>
          rcases Table.ceiling?_eq_some isCeiling with ⟨isEntry, least⟩
          have begins := noClash.2 entry isCeiling
          simp only [decide_eq_true_eq] at begins
          rw [spaced.keyed entry.1 entry.2 isEntry] at begins
          rcases least address other found (by omega) with rfl | above
          · omega
          · omega

theorem isSpacedCode_of_addCode
    {image extended : Image} {instruction : Instruction}
    (spaced : IsSpacedCode image.code)
    (added : image.addCode instruction = .ok extended) :
    IsSpacedCode extended.code := by
  rcases apart_of_addCode spaced added with ⟨same, apart⟩
  refine ⟨isKeyed_of_addCode spaced.keyed added, ?_⟩
  intro address first other found isCode below
  rw [same, Table.get?_insert] at found isCode
  split at found
  next here =>
    cases found
    subst here
    split at isCode
    next => omega
    next =>
      rcases Option.isSome_iff_exists.mp isCode with ⟨second, isSecond⟩
      exact (apart other second isSecond).2 below
  next =>
    split at isCode
    next here =>
      subst here
      exact (apart address first found).1 below
    next => exact spaced.apart address first other found isCode below

theorem isSoundCode_of_addCode
    {image extended : Image} {instruction : Instruction}
    (sound : IsSoundCode image.code)
    (valid : instruction.defect? = none)
    (added : image.addCode instruction = .ok extended) :
    IsSoundCode extended.code := by
  have spaced := isSpacedCode_of_addCode sound.isSpacedCode added
  refine ⟨spaced.keyed, ?_, spaced.apart⟩
  intro address other found
  rw [(apart_of_addCode sound.isSpacedCode added).1, Table.get?_insert]
    at found
  split at found
  next =>
    cases found
    exact valid
  next => exact sound.valid address other found

end Image

/-- One of two instructions ends before the other begins. -/
def Instruction.KeepsApart (first second : Instruction) : Prop :=
  first.hi ≤ second.lo ∨ second.hi ≤ first.lo

theorem Instruction.KeepsApart.symm
    {first second : Instruction}
    (apart : first.KeepsApart second) :
    second.KeepsApart first :=
  Or.symm apart

theorem Instruction.KeepsApart.lo_ne
    {first second : Instruction}
    (apart : first.KeepsApart second) :
    first.lo ≠ second.lo := by
  have firstProper := first.lo_lt_hi
  have secondProper := second.lo_lt_hi
  rcases apart with before | after <;> omega

/--
An instruction goes into the code exactly if it keeps apart from all that is
there.
-/
theorem Image.addCode_eq_ok_iff
    {image extended : Image} {instruction : Instruction}
    (spaced : IsSpacedCode image.code) :
    image.addCode instruction = .ok extended ↔
      extended =
        { image with code := image.code.insert instruction.lo instruction } ∧
        ∀ address other, image.code.get? address = some other →
          other.KeepsApart instruction := by
  have proper := instruction.lo_lt_hi
  constructor
  · intro added
    rcases apart_of_addCode spaced added with ⟨-, apart⟩
    simp only [addCode] at added
    split at added
    next => cases added
    next noClash =>
      cases added
      refine ⟨rfl, ?_⟩
      intro address other found
      have starts := spaced.keyed address other found
      rcases Nat.lt_trichotomy address instruction.lo with below | same | above
      · exact .inl ((apart address other found).1 below)
      · -- An instruction at the same address would be in the way.
        subst same
        rw [Table.floor?_of_get? found, Option.orElse_eq_orElse,
          Option.orElse_eq_or, Option.or_eq_none_iff,
          Option.filter_eq_none_iff] at noClash
        have ended := noClash.1 _ rfl
        have otherProper := other.lo_lt_hi
        simp only [decide_eq_true_eq] at ended
        omega
      · rw [← starts] at above
        exact .inr (starts ▸ (apart address other found).2 (starts ▸ above))
  · rintro ⟨rfl, apart⟩
    have noFloor : ((image.code.floor? instruction.lo).filter (fun entry =>
        instruction.lo < entry.2.hi)) = none := by
      rw [Option.filter_eq_none_iff]
      intro entry isFloor
      rcases Table.floor?_eq_some isFloor with ⟨found, notAbove, -⟩
      have starts := spaced.keyed entry.1 entry.2 found
      have otherProper := entry.2.lo_lt_hi
      simp only [decide_eq_true_eq]
      rcases apart entry.1 entry.2 found with before | after <;> omega
    have noCeiling : ((image.code.ceiling? instruction.lo).filter (fun entry =>
        entry.2.lo < instruction.hi)) = none := by
      rw [Option.filter_eq_none_iff]
      intro entry isCeiling
      have found := (Table.ceiling?_eq_some isCeiling).1
      have notBelow : ¬ entry.1 < instruction.lo := by
        have passes := List.find?_some isCeiling
        simpa using passes
      have starts := spaced.keyed entry.1 entry.2 found
      have otherProper := entry.2.lo_lt_hi
      simp only [decide_eq_true_eq]
      rcases apart entry.1 entry.2 found with before | after <;> omega
    simp only [addCode, noFloor, noCeiling]
    rfl

/-- The code of a listing is sound. -/
theorem Listing.isSoundCode_of_lift
    {text : String} {lifted : Lifted}
    (isLifted : lift text = .ok lifted) :
    IsSoundCode lifted.image.code := by
  have keeps : IsKeptByReading IsSoundCode := by
    refine ⟨⟨Image.isKeyed_empty, ?_, ?_⟩, Image.isSoundCode_of_addCode⟩
    · intro address instruction found
      cases found
    · intro address instruction other found
      cases found
  exact keeps.of_lift isLifted

namespace ChainAt

variable {code : Table Nat Instruction} {address : Nat}
  {chain : List Instruction}

theorem unique
    {other : List Instruction}
    (isChain : ChainAt code address chain)
    (isOther : ChainAt code address other) :
    chain = other := by
  induction isChain generalizing other with
  | gap missing =>
      cases isOther with
      | gap _ => rfl
      | last found _ =>
          rw [missing] at found
          cases found
      | next found _ _ =>
          rw [missing] at found
          cases found
  | last found returns =>
      cases isOther with
      | gap missing =>
          rw [missing] at found
          cases found
      | last again _ =>
          rw [found] at again
          cases again
          rfl
      | next again continues _ =>
          rw [found] at again
          cases again
          rw [returns] at continues
          cases continues
  | next found continues rest hypothesis =>
      cases isOther with
      | gap missing =>
          rw [missing] at found
          cases found
      | last again returns =>
          rw [found] at again
          cases again
          rw [continues] at returns
          cases returns
      | next again _ otherRest =>
          rw [found] at again
          cases again
          rw [hypothesis otherRest]

/-- From each of its instructions on, a chain is the chain there. -/
theorem exists_tail
    (keyed : IsKeyed code)
    (isChain : ChainAt code address chain)
    {instruction : Instruction}
    (member : instruction ∈ chain) :
    ∃ front later, chain = front ++ instruction :: later ∧
      ChainAt code instruction.lo (instruction :: later) := by
  induction isChain with
  | gap missing => cases member
  | last found returns =>
      have same := List.mem_singleton.mp member
      subst same
      rw [keyed _ _ found]
      exact ⟨[], [], rfl, .last found returns⟩
  | @next address first later found continues rest hypothesis =>
      rcases List.mem_cons.mp member with rfl | isLater
      · rw [keyed _ _ found]
        exact ⟨[], later, rfl, .next found continues rest⟩
      · rcases hypothesis isLater with ⟨front, after, rfl, isTail⟩
        exact ⟨first :: front, after, rfl, isTail⟩

theorem get?_of_mem
    (keyed : IsKeyed code)
    (isChain : ChainAt code address chain)
    {instruction : Instruction}
    (member : instruction ∈ chain) :
    code.get? instruction.lo = some instruction := by
  rcases isChain.exists_tail keyed member with ⟨front, later, -, isTail⟩
  cases isTail with
  | last found returns => exact found
  | next found continues rest => exact found

/--
The instructions of a chain cover all addresses from its start up to its end.
-/
theorem exists_covering
    (isChain : ChainAt code address chain)
    (keyed : IsKeyed code)
    {last : Instruction}
    (isLast : chain.getLast? = some last)
    {place : Nat}
    (atLeast : address ≤ place)
    (below : place < last.hi) :
    ∃ instruction ∈ chain,
      instruction.lo ≤ place ∧ place < instruction.hi := by
  induction isChain with
  | gap missing => cases isLast
  | last found returns =>
      cases isLast
      rw [← keyed _ _ found] at atLeast
      exact ⟨_, List.mem_singleton_self _, atLeast, below⟩
  | @next address first later found continues rest hypothesis =>
      by_cases inFirst : place < first.hi
      · rw [← keyed _ _ found] at atLeast
        exact ⟨first, by simp, atLeast, inFirst⟩
      · cases later with
        | nil =>
            cases isLast
            exact absurd below inFirst
        | cons second others =>
            rw [List.getLast?_cons_cons] at isLast
            rcases hypothesis isLast (by omega) with
              ⟨instruction, member, bounds⟩
            exact ⟨instruction, List.mem_cons_of_mem first member, bounds⟩

end ChainAt

/-! ## Chains that run together -/

/-- The chain of code at an address comes to another address. -/
def RunsInto (code : Table Nat Instruction) (address place : Nat) : Prop :=
  ∃ chain, ChainAt code address chain ∧ ∃ instruction ∈ chain,
    instruction.lo = place

section Together

variable {code : Table Nat Instruction} {address place : Nat}
  {chain : List Instruction} {last : Instruction}

/-- A chain comes to all places with code before its end. -/
theorem runsInto_iff
    (sound : IsSoundCode code)
    (isChain : ChainAt code address chain)
    (isLast : chain.getLast? = some last)
    (atLeast : address ≤ place)
    (coded : (code.get? place).isSome) :
    RunsInto code address place ↔ place < last.hi := by
  constructor
  · rintro ⟨other, isOther, instruction, member, rfl⟩
    rw [← isChain.unique isOther] at member
    have starts := List.head?_eq_some_head (List.ne_nil_of_mem member)
    have bounds :=
      (isChain.abutting sound.keyed).within (fun other _ => other.lo_lt_hi)
        starts
      isLast instruction member
    have proper := instruction.lo_lt_hi
    omega
  · intro below
    rcases isChain.exists_covering sound.keyed isLast atLeast below with
      ⟨instruction, member, starts, ends⟩
    refine ⟨chain, isChain, instruction, member, ?_⟩
    -- Otherwise the instruction would reach over the one at the place.
    by_contra differs
    have found := isChain.get?_of_mem sound.keyed member
    have reach :=
      sound.apart instruction.lo instruction place found coded (by omega)
    omega

/-- Chains that run together end at the same place. -/
theorem getLast?_eq_of_runsInto
    (keyed : IsKeyed code)
    (runs : RunsInto code address place)
    {other : List Instruction}
    (isChain : ChainAt code address chain)
    (isOther : ChainAt code place other) :
    chain.getLast? = other.getLast? := by
  rcases runs with ⟨same, isSame, instruction, member, rfl⟩
  rw [← isChain.unique isSame] at member
  rcases isChain.exists_tail keyed member with ⟨front, later, rfl, isTail⟩
  rw [← isTail.unique isOther]
  exact List.getLast?_append_of_ne_nil front
    (List.cons_ne_nil instruction later)

end Together

end ProcRecovery
