import ProcRecovery.Proofs.Image.Growth
import ProcRecovery.Proofs.Image.Layout

/-!
# Sweeps

Code is decoded in sweeps that go on to the next return, the next gap or the
next instruction that has been decoded before.  So what follows a decoded
instruction is decoded as well, unless the instruction returns.  Nothing else
than a sweep changes what is decoded.
-/

namespace ProcRecovery

namespace Image

/--
What follows a decoded instruction is decoded as well, unless the instruction
returns.
-/
def IsSwept (image : Image) : Prop :=
  ∀ address instruction, image.decoded.contains address = true →
    image.code.get? address = some instruction → instruction.isReturn = false →
    (image.code.get? instruction.hi).isSome →
    image.decoded.contains instruction.hi = true

/-- An image has the code, the memory and the routines of another one. -/
structure SharesProgram (before after : Image) : Prop where
  code_eq : after.code = before.code
  memory_eq : after.memory = before.memory
  runtime_eq : after.runtime = before.runtime

theorem SharesProgram.refl
    (image : Image) :
    image.SharesProgram image := ⟨rfl, rfl, rfl⟩

theorem SharesProgram.symm
    {before after : Image}
    (shares : before.SharesProgram after) :
    after.SharesProgram before :=
  ⟨shares.code_eq.symm, shares.memory_eq.symm, shares.runtime_eq.symm⟩

theorem SharesProgram.trans
    {first second third : Image}
    (early : first.SharesProgram second)
    (late : second.SharesProgram third) :
    first.SharesProgram third where
  code_eq := late.code_eq.trans early.code_eq
  memory_eq := late.memory_eq.trans early.memory_eq
  runtime_eq := late.runtime_eq.trans early.runtime_eq

theorem sharesProgram_requestDecode (image : Image) (address : Nat) :
    image.SharesProgram (image.requestDecode address).image := by
  unfold requestDecode
  split
  next => exact .refl image
  next => exact ⟨rfl, rfl, rfl⟩

/-- Events say nothing about the program or about what is decoded. -/
theorem sharesProgram_absorbAll (image : Image) (events : List Event) :
    image.SharesProgram (image.absorbAll events) ∧
      (image.absorbAll events).decoded = image.decoded := by
  induction events generalizing image with
  | nil => exact ⟨.refl image, rfl⟩
  | cons event later hypothesis =>
      have first : image.SharesProgram (image.absorb event) ∧
          (image.absorb event).decoded = image.decoded := by
        cases event <;> exact ⟨⟨rfl, rfl, rfl⟩, rfl⟩
      rcases hypothesis (image.absorb event) with ⟨shares, decoded⟩
      exact ⟨first.1.trans shares, decoded.trans first.2⟩

end Image

/--
A sweep over a chain comes, after each instruction that does not return, to an
instruction it decodes or to one that was decoded before.
-/
theorem ChainAt.swept
    {code : Table Nat Instruction}
    (keyed : IsKeyed code)
    {address : Nat} {chain : List Instruction}
    (isChain : ChainAt code address chain)
    (decoded : Table Nat Unit) :
    ∀ instruction ∈
      chain.takeWhile (fun instruction => !decoded.contains instruction.lo),
      instruction.isReturn = false → (code.get? instruction.hi).isSome →
      decoded.contains instruction.hi = true ∨
        ∃ next ∈
          chain.takeWhile (fun instruction => !decoded.contains instruction.lo),
          next.lo = instruction.hi := by
  induction isChain with
  | gap missing => simp
  | last found returns =>
      intro instruction member continues
      have isLast :=
        List.mem_singleton.mp ((List.takeWhile_prefix _).subset member)
      rw [isLast, returns] at continues
      cases continues
  | @next address first later found continues rest hypothesis =>
      intro instruction member goesOn coded
      by_cases known : decoded.contains first.lo = true
      · rw [List.takeWhile_cons_of_neg (by simpa using known)] at member
        cases member
      · rw [List.takeWhile_cons_of_pos (by simpa using known)] at member ⊢
        rcases List.mem_cons.mp member with rfl | isLater
        · cases later with
          | nil =>
              have missing := rest.ne_nil coded
              exact absurd rfl missing
          | cons second others =>
              have follows : second.lo = instruction.hi :=
                Option.some.inj
                  (rest.head?_lo keyed (List.cons_ne_nil second others))
              by_cases met : decoded.contains second.lo = true
              · rw [follows] at met
                exact .inl met
              · refine .inr ⟨second, List.mem_cons_of_mem _ ?_, follows⟩
                rw [List.takeWhile_cons_of_pos (by simpa using met)]
                exact List.mem_cons_self
        · rcases hypothesis instruction isLater goesOn coded with
            known | ⟨next, isNext, follows⟩
          · exact .inl known
          · exact .inr ⟨next, List.mem_cons_of_mem first isNext, follows⟩

namespace Image

/-- A sweep leaves the image swept. -/
theorem IsSwept.requestDecode
    {image : Image}
    (keyed : IsKeyed image.code)
    (swept : image.IsSwept)
    (address : Nat) :
    (image.requestDecode address).image.IsSwept := by
  have isChain := chainAt_chainFrom keyed address
  unfold Image.requestDecode
  split
  next => exact swept
  next =>
    intro place instruction held found continues coded
    rw [contains_foldl_insert] at held ⊢
    rcases held with known | ⟨fresh, isFresh, rfl⟩
    · exact .inl (swept place instruction known found continues coded)
    · have inChain := (List.takeWhile_prefix _).subset isFresh
      have same := (isChain.get?_of_mem keyed inChain).symm.trans found
      cases same
      exact isChain.swept keyed image.decoded instruction isFresh continues
        coded

/-- In a swept image a chain that starts at a decoded address is decoded. -/
theorem IsSwept.contains_of_chainAt
    {image : Image}
    (swept : image.IsSwept)
    (keyed : IsKeyed image.code)
    {address : Nat} {chain : List Instruction}
    (isChain : ChainAt image.code address chain)
    (held : image.decoded.contains address = true) :
    ∀ instruction ∈ chain, image.decoded.contains instruction.lo = true := by
  induction isChain with
  | gap missing => exact List.forall_mem_nil _
  | last found returns =>
      rw [List.forall_mem_singleton, keyed _ _ found]
      exact held
  | @next address first later found continues rest hypothesis =>
      rw [List.forall_mem_cons, keyed _ _ found]
      refine ⟨held, ?_⟩
      by_cases ends : later = []
      · rw [ends]
        exact List.forall_mem_nil _
      · exact hypothesis
          (swept address first held found continues (rest.isSome_get? ends))

/-- In a swept image a sweep misses nothing of its chain. -/
theorem IsSwept.contains_or_fresh
    {image : Image}
    (swept : image.IsSwept)
    (keyed : IsKeyed image.code)
    {address : Nat} {chain : List Instruction}
    (isChain : ChainAt image.code address chain) :
    ∀ instruction ∈ chain, image.decoded.contains instruction.lo = true ∨
      instruction ∈ chain.takeWhile (fun instruction =>
        !image.decoded.contains instruction.lo) := by
  induction isChain with
  | gap missing => exact List.forall_mem_nil _
  | @last address last found returns =>
      by_cases known : image.decoded.contains last.lo = true
      · simp [known]
      · simp [known]
  | @next address first later found continues rest hypothesis =>
      have isChain := ChainAt.next found continues rest
      by_cases known : image.decoded.contains first.lo = true
      · intro instruction member
        rw [keyed _ _ found] at known
        exact .inl (swept.contains_of_chainAt keyed isChain known instruction
          member)
      · rw [List.takeWhile_cons_of_pos (by simpa using known),
          List.forall_mem_cons]
        refine ⟨.inr List.mem_cons_self, ?_⟩
        intro instruction member
        exact (hypothesis instruction member).imp_right
          (List.mem_cons_of_mem first)

/--
In a swept image a request decodes the chain that it is for, and nothing else.
-/
theorem IsSwept.contains_requestDecode_iff
    {image : Image}
    (swept : image.IsSwept)
    (keyed : IsKeyed image.code)
    (address : Nat)
    {place : Nat} :
    (image.requestDecode address).image.decoded.contains place = true ↔
      image.decoded.contains place = true ∨
        ∃ instruction ∈ image.chainFrom address, instruction.lo = place := by
  have isChain := chainAt_chainFrom keyed address
  unfold Image.requestDecode
  split
  next empty => simp [empty]
  next =>
    rw [contains_foldl_insert]
    constructor
    · rintro (known | ⟨fresh, isFresh, rfl⟩)
      · exact .inl known
      · exact .inr ⟨fresh, (List.takeWhile_prefix _).subset isFresh, rfl⟩
    · rintro (known | ⟨instruction, inChain, rfl⟩)
      · exact .inl known
      · exact (swept.contains_or_fresh keyed isChain instruction
          inChain).imp_right
          (fun isFresh => ⟨instruction, isFresh, rfl⟩)

theorem isSwept_of_decoded_empty
    {image : Image}
    (fresh : image.decoded = ∅) :
    image.IsSwept := by
  intro address instruction held
  rw [fresh] at held
  cases held

/-- Whether an image is swept depends on its code and on what is decoded. -/
theorem IsSwept.congr
    {image other : Image}
    (swept : image.IsSwept)
    (sameCode : other.code = image.code)
    (sameDecoded : other.decoded = image.decoded) :
    other.IsSwept := by
  intro address instruction
  rw [sameCode, sameDecoded]
  exact swept address instruction

end Image

/-! ## Sweeps of listings -/

theorem Image.decoded_addCode
    {image extended : Image} {instruction : Instruction}
    (added : image.addCode instruction = .ok extended) :
    extended.decoded = image.decoded := by
  simp only [Image.addCode] at added
  split at added
  · cases added
  · cases added
    rfl

namespace Listing

theorem delivers_decoded_readMemoryLine
    (image : Image)
    (line : Nat)
    (text : List Char) :
    Delivers (readMemoryLine image line text) (fun read =>
      read.decoded = image.decoded)
      (fun _ => True) := by
  unfold readMemoryLine
  apply (delivers_trivially _).bind
  intro parts _
  apply (delivers_trivially _).bind
  intro address _
  apply (delivers_trivially _).bind
  intro bytes _
  exact rfl

theorem delivers_decoded_readCodeLine
    (image : Image)
    (line : Nat)
    (text : List Char) :
    Delivers (readCodeLine image line text) (fun read =>
      read.decoded = image.decoded)
      (fun _ => True) := by
  unfold readCodeLine
  apply (delivers_trivially _).bind
  intro instruction _
  split
  next => trivial
  next =>
    split
    next => trivial
    next extended added =>
      have same := Image.decoded_addCode added
      split
      next => exact same
      next => exact same

/-- Lines of a listing are not decoded as they are read. -/
theorem delivers_decoded_readLine
    (draft : Draft)
    (numbered : List Char × Nat) :
    Delivers (readLine draft numbered)
      (fun read => read.image.decoded = draft.image.decoded)
        (fun _ => True) := by
  unfold readLine
  dsimp only
  split
  · exact rfl
  · split
    · apply (delivers_readSectionLine draft numbered.2 _).weaken
      intro read same
      rw [same]
    · apply (delivers_decoded_readMemoryLine draft.image numbered.2
        (Text.trim numbered.1)).bind
      intro read same
      exact same
    · apply (delivers_trivially _).bind
      intro name _
      exact rfl
    · apply (delivers_trivially _).bind
      intro name _
      exact rfl
    · apply (delivers_trivially _).bind
      intro addresses _
      exact rfl
    · apply (delivers_decoded_readCodeLine draft.image numbered.2
        (Text.trim numbered.1)).bind
      intro read same
      exact same

theorem delivers_decoded_readDraft
    (text : String) :
    Delivers (readDraft text) (fun draft => draft.image.decoded = ∅) (fun _ =>
      True) := by
  unfold readDraft
  dsimp only
  split
  · trivial
  next header body _ =>
    apply (delivers_trivially _).bind
    intro name _
    have read : Delivers (body.foldlM readLine { image := { name } })
        (fun draft => draft.image.decoded = ∅) (fun _ => True) := by
      apply Delivers.foldlM
      · exact rfl
      · intro draft fresh numbered _
        apply (delivers_decoded_readLine draft numbered).weaken
        intro read same
        exact same.trans fresh
    apply read.bind
    intro draft fresh
    split
    · exact fresh
    · trivial

theorem isSwept_decodeEntries
    {image : Image}
    (keyed : IsKeyed image.code)
    (swept : image.IsSwept)
    (addresses : List Nat) :
    (decodeEntries image addresses).1.IsSwept := by
  induction addresses generalizing image with
  | nil => exact swept
  | cons address later hypothesis =>
      simp only [decodeEntries]
      apply hypothesis
      · rw [show (decodeEntry image address).1.code = image.code from
          Image.code_requestDecode image address]
        exact keyed
      · exact swept.requestDecode keyed address

/-- Entries decode the chains that start at them, whatever their order. -/
theorem contains_decodeEntries_iff
    {image : Image}
    (keyed : IsKeyed image.code)
    (swept : image.IsSwept)
    (addresses : List Nat)
    {place : Nat} :
    (decodeEntries image addresses).1.decoded.contains place = true ↔
      image.decoded.contains place = true ∨
        ∃ address ∈ addresses, ∃ instruction ∈ image.chainFrom address,
          instruction.lo = place := by
  induction addresses generalizing image with
  | nil => simp [decodeEntries]
  | cons address later hypothesis =>
      have code_eq : (image.requestDecode address).image.code = image.code :=
        image.code_requestDecode address
      have chains_eq : (image.requestDecode address).image.chainFrom =
          image.chainFrom := by
        funext start
        rw [Image.chainFrom, code_eq, Image.chainFrom]
      simp only [decodeEntries, decodeEntry]
      rw [hypothesis (code_eq ▸ keyed) (swept.requestDecode keyed address),
        chains_eq, swept.contains_requestDecode_iff keyed,
        List.exists_mem_cons_iff, or_assoc]

/-- The image of a listing is swept. -/
theorem isSwept_of_lift
    {text : String} {lifted : Lifted}
    (isLifted : lift text = .ok lifted) :
    lifted.image.IsSwept := by
  have keyed := isKeyed_of_lift isLifted
  rcases bind_eq_ok_iff.mp isLifted with ⟨draft, isDraft, rest⟩
  cases rest
  rw [code_decodeEntries] at keyed
  apply isSwept_decodeEntries keyed
  exact Image.isSwept_of_decoded_empty
    ((delivers_decoded_readDraft text).of_ok isDraft)

end Listing

end ProcRecovery
