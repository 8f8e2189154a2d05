import ProcRecovery.Abutting
import ProcRecovery.Listing.Reader
import ProcRecovery.Proofs.Outcome
import ProcRecovery.Proofs.Table

/-!
# Chains of code

Where a procedure ends is decided by the code alone: its instructions follow
one another from its entry up to and including the first return, or up to the
first gap.  `ChainAt` says this with nothing but lookups, and walking once over
the sorted code finds it.  In the image of a listing every instruction is kept
under its own address, so chains abut.
-/

namespace ProcRecovery

/-- Every instruction is kept under its own address. -/
def IsKeyed (code : Table Nat Instruction) : Prop :=
  ∀ address instruction, code.get? address = some instruction →
    instruction.lo = address

/--
The instructions that follow one another from an address, up to and including
the first return or up to the first gap.
-/
inductive ChainAt
    (code : Table Nat Instruction) :
    Nat → List Instruction → Prop
  | gap {address : Nat} (missing : code.get? address = none) :
  ChainAt code address []
  | last
      {address : Nat} {instruction : Instruction}
      (found : code.get? address = some instruction)
      (returns : instruction.isReturn = true) :
      ChainAt code address [instruction]
  | next
      {address : Nat} {instruction : Instruction} {later : List Instruction}
      (found : code.get? address = some instruction)
      (continues : instruction.isReturn = false)
      (rest : ChainAt code instruction.hi later) :
      ChainAt code address (instruction :: later)

namespace ChainAt

variable {code : Table Nat Instruction} {address : Nat}
  {chain : List Instruction}

theorem head?_lo
    (keyed : IsKeyed code)
    (isChain : ChainAt code address chain)
    (nonempty : chain ≠ []) :
    chain.head?.map Instruction.lo = some address := by
  cases isChain with
  | gap missing => exact (nonempty rfl).elim
  | last found returns => exact congrArg some (keyed address _ found)
  | next found continues rest => exact congrArg some (keyed address _ found)

theorem abutting
    (keyed : IsKeyed code)
    (isChain : ChainAt code address chain) :
    Abutting Instruction.lo Instruction.hi chain := by
  induction isChain with
  | gap missing => trivial
  | last found returns => trivial
  | @next address instruction later found continues rest hypothesis =>
      cases later with
      | nil => trivial
      | cons second others =>
          have starts := rest.head?_lo keyed (List.cons_ne_nil second others)
          exact ⟨(Option.some.inj starts).symm, hypothesis⟩

theorem ne_nil
    (isChain : ChainAt code address chain)
    (found : (code.get? address).isSome) :
    chain ≠ [] := by
  cases isChain with
  | gap missing =>
      rw [missing] at found
      cases found
  | last _ _ => exact List.cons_ne_nil _ _
  | next _ _ _ => exact List.cons_ne_nil _ _

theorem isSome_get?
    (isChain : ChainAt code address chain)
    (nonempty : chain ≠ []) :
    (code.get? address).isSome := by
  cases isChain with
  | gap missing => exact absurd rfl nonempty
  | last found returns => rw [found, Option.isSome_some]
  | next found continues rest => rw [found, Option.isSome_some]

end ChainAt

/-! ## Walking over the code -/

namespace Image

theorem chain_eq_nil
    {entries : List (Nat × Instruction)} {address : Nat}
    (absent : ∀ entry ∈ entries, entry.1 ≠ address) :
    chain entries address = [] := by
  induction entries with
  | nil => rfl
  | cons entry later hypothesis =>
      obtain ⟨start, instruction⟩ := entry
      rw [chain, if_neg (absent (start, instruction) (by simp))]
      exact hypothesis (fun other member =>
        absent other (List.mem_cons_of_mem _ member))

/-- Behind an entry above an address there is nothing at that address. -/
theorem ne_of_passed
    {code : Table Nat Instruction} {passed later : List (Nat × Instruction)}
    {start address : Nat} {instruction : Instruction}
    (shape : code.entries = passed ++ (start, instruction) :: later)
    (beyond : address < start) :
    ∀ entry ∈ later, entry.1 ≠ address := by
  have sorted := code.sorted
  rw [shape] at sorted
  obtain ⟨-, fromHere, -⟩ := List.pairwise_append.mp sorted
  intro entry member
  have higher : start < entry.1 :=
    (List.pairwise_cons.mp fromHere).1 entry member
  omega

/--
The walk finds the chain.  Along the walk everything that has been passed lies
below the address that is looked for, because every instruction ends above
where it starts.
-/
theorem chainAt_chain
    {code : Table Nat Instruction}
    (keyed : IsKeyed code)
    {passed entries : List (Nat × Instruction)} {address : Nat}
    (shape : code.entries = passed ++ entries)
    (below : ∀ entry ∈ passed, entry.1 < address) :
    ChainAt code address (chain entries address) := by
  induction entries generalizing passed address with
  | nil =>
      apply ChainAt.gap
      apply Table.get?_eq_none_of_forall_ne
      intro entry member
      rw [shape, List.append_nil] at member
      exact Nat.ne_of_lt (below entry member)
  | cons entry later hypothesis =>
      obtain ⟨start, instruction⟩ := entry
      have found : code.get? start = some instruction := by
        rw [Table.get?_eq_some_iff, shape]
        simp
      have regrouped : code.entries = (passed ++ [(start, instruction)]) ++
          later := by
        rw [shape, List.append_assoc, List.singleton_append]
      rw [chain]
      by_cases here : start = address
      · subst here
        rw [if_pos rfl]
        have above : start < instruction.hi := by
          have starts := keyed start instruction found
          have proper := instruction.lo_lt_hi
          omega
        cases returns : instruction.isReturn with
        | true => exact ChainAt.last found returns
        | false =>
            apply ChainAt.next found returns
            apply hypothesis regrouped
            rw [List.forall_mem_append]
            constructor
            · intro entry member
              exact Nat.lt_trans (below entry member) above
            · simpa using above
      · rw [if_neg here]
        by_cases beyond : address < start
        · -- the walk has passed the address, so nothing is there
          have absent := ne_of_passed shape beyond
          rw [chain_eq_nil absent]
          apply ChainAt.gap
          apply Table.get?_eq_none_of_forall_ne
          rw [shape, List.forall_mem_append, List.forall_mem_cons]
          exact ⟨fun entry member => Nat.ne_of_lt (below entry member), here,
            absent⟩
        · apply hypothesis regrouped
          rw [List.forall_mem_append]
          constructor
          · exact below
          · have under : start < address := by omega
            simpa using under

theorem chainAt_chainFrom
    {image : Image}
    (keyed : IsKeyed image.code)
    (address : Nat) :
    ChainAt image.code address (image.chainFrom address) :=
  chainAt_chain keyed (List.nil_append _).symm (fun _ member =>
    by cases member)

/-! ## Code of an image -/

theorem isKeyed_empty : IsKeyed (∅ : Table Nat Instruction) := by
  intro address instruction found
  cases found

theorem isKeyed_of_addCode
    {image extended : Image} {instruction : Instruction}
    (keyed : IsKeyed image.code)
    (added : image.addCode instruction = .ok extended) :
    IsKeyed extended.code := by
  simp only [addCode] at added
  split at added
  · cases added
  · cases added
    intro address other found
    rw [Table.get?_insert] at found
    split at found
    next here =>
      cases found
      exact here.symm
    next => exact keyed address other found

theorem code_absorbAll (image : Image) (events : List Event) :
    (image.absorbAll events).code = image.code := by
  induction events generalizing image with
  | nil => rfl
  | cons event later hypothesis =>
      rw [absorbAll, List.foldl_cons, ← absorbAll, hypothesis]
      cases event <;> rfl

end Image

namespace Listing

/--
A property of code that holds where there is none, and that adding a valid
instruction keeps.
-/
structure IsKeptByReading (kept : Table Nat Instruction → Prop) : Prop where
  none : kept ∅
  added : ∀ {image extended : Image} {instruction : Instruction},
    kept image.code →
    instruction.defect? = Option.none →
    image.addCode instruction = .ok extended →
    kept extended.code

section Reading

variable {kept : Table Nat Instruction → Prop}

theorem delivers_readCodeLine
    (keeps : IsKeptByReading kept)
    {image : Image}
    (holds : kept image.code)
    (line : Nat)
    (text : List Char) :
    Delivers (readCodeLine image line text) (fun read => kept read.code)
      (fun _ => True) := by
  apply delivers_of_outcome
  · intro read isRead
    simp only [readCodeLine] at isRead
    obtain ⟨instruction, -, rest⟩ := bind_eq_ok_iff.mp isRead
    cases defect : instruction.defect? with
    | some other =>
        rw [defect] at rest
        cases rest
    | none =>
        rw [defect] at rest
        cases added : image.addCode instruction with
        | error clash =>
            rw [added] at rest
            cases rest
        | ok extended =>
            rw [added] at rest
            have stillHolds := keeps.added holds defect added
            cases remark : (splitComment text).2 with
            | none =>
                rw [remark] at rest
                cases rest
                exact stillHolds
            | some comment =>
                rw [remark] at rest
                cases rest
                exact stillHolds
  · intro fault _
    trivial

theorem delivers_readSectionLine
    (draft : Draft)
    (line : Nat)
    (text : List Char) :
    Delivers (readSectionLine draft line text) (fun read =>
      read.image = draft.image)
      (fun _ => True) := by
  unfold readSectionLine
  dsimp only
  split
  · trivial
  · apply (delivers_trivially _).bind
    intro addresses _
    exact rfl
  · split
    · exact rfl
    · trivial

/--
Lines other than code leave the code alone, and code is added once it is valid.
-/
theorem delivers_readLine
    (keeps : IsKeptByReading kept)
    {draft : Draft}
    (holds : kept draft.image.code)
    (numbered : List Char × Nat) :
    Delivers (readLine draft numbered) (fun read => kept read.image.code)
      (fun _ => True) := by
  unfold readLine
  dsimp only
  split
  · exact holds
  · split
    · apply (delivers_readSectionLine draft numbered.2 _).weaken
      intro read same
      rw [same]
      exact holds
    · have memory :
          Delivers
            (readMemoryLine draft.image numbered.2 (Text.trim numbered.1))
          (fun read => kept read.code) (fun _ => True) := by
        unfold readMemoryLine
        apply (delivers_trivially _).bind
        intro parts _
        apply (delivers_trivially _).bind
        intro address _
        apply (delivers_trivially _).bind
        intro bytes _
        exact holds
      apply memory.bind
      intro read stillHolds
      exact stillHolds
    · apply (delivers_trivially _).bind
      intro name _
      exact holds
    · apply (delivers_trivially _).bind
      intro name _
      exact holds
    · apply (delivers_trivially _).bind
      intro addresses _
      exact holds
    · apply (delivers_readCodeLine keeps holds numbered.2
        (Text.trim numbered.1)).bind
      intro read stillHolds
      exact stillHolds

theorem delivers_readDraft
    (keeps : IsKeptByReading kept)
    (text : String) :
    Delivers (readDraft text) (fun draft => kept draft.image.code) (fun _ =>
      True) := by
  unfold readDraft
  dsimp only
  split
  · trivial
  next header body _ =>
    apply (delivers_trivially _).bind
    intro name _
    have read : Delivers (body.foldlM readLine { image := { name } })
        (fun draft => kept draft.image.code) (fun _ => True) := by
      apply Delivers.foldlM
      · exact keeps.none
      · intro draft holds numbered _
        exact delivers_readLine keeps holds numbered
    apply read.bind
    intro draft holds
    split
    · exact holds
    · trivial

end Reading

theorem code_decodeEntries (image : Image) (addresses : List Nat) :
    (decodeEntries image addresses).1.code = image.code := by
  induction addresses generalizing image with
  | nil => rfl
  | cons address later hypothesis =>
      simp only [decodeEntries]
      rw [hypothesis]
      exact Image.code_requestDecode image address

/-- What reading keeps holds of the code of a listing. -/
theorem IsKeptByReading.of_lift
    {kept : Table Nat Instruction → Prop}
    (keeps : IsKeptByReading kept)
    {text : String} {lifted : Lifted}
    (isLifted : lift text = .ok lifted) :
    kept lifted.image.code := by
  obtain ⟨draft, isDraft, rest⟩ := bind_eq_ok_iff.mp isLifted
  have holds := (delivers_readDraft keeps text).of_ok isDraft
  cases rest
  have same := code_decodeEntries draft.image draft.entries
  rw [← same] at holds
  exact holds

/-- A listing keeps every instruction under its own address. -/
theorem isKeyed_of_lift
    {text : String} {lifted : Lifted}
    (isLifted : lift text = .ok lifted) :
    IsKeyed lifted.image.code := by
  have keeps : IsKeptByReading IsKeyed :=
    ⟨Image.isKeyed_empty, fun keyed _ added =>
      Image.isKeyed_of_addCode keyed added⟩
  exact keeps.of_lift isLifted

end Listing

end ProcRecovery
