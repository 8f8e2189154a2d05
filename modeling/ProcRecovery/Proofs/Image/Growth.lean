import ProcRecovery.Proofs.Image.Chain

/-!
# Growth of images

An analysis decodes more and more of an image, but it never adds code or
routines, and it forgets nothing that has been decoded.
-/

namespace ProcRecovery.Image

theorem instruction?_eq_some_iff
    {image : Image} {address : Nat} {instruction : Instruction} :
    image.instruction? address = some instruction ↔
      image.decoded.contains address = true ∧
        image.code.get? address = some instruction := by
  unfold instruction?
  split
  next held => simp [held]
  next missing => simp [missing]

/--
An image has the code and the routines of another one, and what is decoded
there and maybe more.
-/
structure Extends (before after : Image) : Prop where
  code_eq : after.code = before.code
  runtime_eq : after.runtime = before.runtime
  decoded : ∀ address, before.decoded.contains address = true →
    after.decoded.contains address = true

theorem Extends.refl
    (image : Image) :
    image.Extends image := ⟨rfl, rfl, fun _ held => held⟩

theorem Extends.trans
    {first second third : Image}
    (early : first.Extends second)
    (late : second.Extends third) :
    first.Extends third where
  code_eq := late.code_eq.trans early.code_eq
  runtime_eq := late.runtime_eq.trans early.runtime_eq
  decoded :=
    fun address held => late.decoded address (early.decoded address held)

theorem Extends.isSome_instruction?
    {before after : Image}
    (grows : before.Extends after)
    {address : Nat}
    (known : (before.instruction? address).isSome) :
    (after.instruction? address).isSome := by
  unfold instruction? at known ⊢
  split at known
  next held =>
    rw [if_pos (grows.decoded address held), grows.code_eq]
    exact known
  next => cases known

theorem extends_absorbAll (image : Image) (events : List Event) :
    image.Extends (image.absorbAll events) := by
  induction events generalizing image with
  | nil => exact .refl image
  | cons event later hypothesis =>
      have first : image.Extends (image.absorb event) := by
        cases event with
        | stringFound address => exact ⟨rfl, rfl, fun _ held => held⟩
        | commented address text => exact ⟨rfl, rfl, fun _ held => held⟩
        | diagnosed procedure diagnostic => exact .refl image
        | noted note => exact .refl image
      exact first.trans (hypothesis (image.absorb event))

/-! ## Decoding -/

theorem contains_foldl_insert
    (instructions : List Instruction)
    (decoded : Table Nat Unit)
    (address : Nat) :
    (instructions.foldl (fun decoded instruction =>
      decoded.insert instruction.lo ())
        decoded).contains address = true ↔
      decoded.contains address = true ∨ ∃ instruction ∈ instructions,
        instruction.lo = address := by
  induction instructions generalizing decoded with
  | nil => simp
  | cons first later hypothesis =>
      rw [List.foldl_cons, hypothesis, List.exists_mem_cons_iff, ← or_assoc]
      apply or_congr_left
      rw [Table.contains, Table.get?_insert]
      by_cases same : address = first.lo
      · simp [same]
      · have differs : first.lo ≠ address := fun equal => same equal.symm
        simp [same, differs, Table.contains]

theorem extends_requestDecode (image : Image) (address : Nat) :
    image.Extends (image.requestDecode address).image := by
  unfold requestDecode
  split
  next => exact .refl image
  next =>
    refine ⟨rfl, rfl, ?_⟩
    intro other held
    exact (contains_foldl_insert _ _ _).mpr (.inl held)

/-- What was found is decoded. -/
theorem isSome_instruction?_requestDecode
    {image : Image}
    (keyed : IsKeyed image.code)
    {address : Nat}
    (found : (image.requestDecode address).found = true) :
    ((image.requestDecode address).image.instruction? address).isSome := by
  have isChain := chainAt_chainFrom keyed address
  unfold requestDecode at found ⊢
  split at found
  next => cases found
  next filled =>
    cases shape : image.chainFrom address with
    | nil => exact absurd shape filled
    | cons first later =>
        rw [shape] at isChain
        have starts : first.lo = address :=
          Option.some.inj
            (isChain.head?_lo keyed (List.cons_ne_nil first later))
        dsimp only [instruction?]
        rw [if_pos ((contains_foldl_insert _ _ _).mpr ?_)]
        · exact isChain.isSome_get? (List.cons_ne_nil first later)
        · by_cases held : image.decoded.contains address = true
          · exact .inl held
          · refine .inr ⟨first, ?_, starts⟩
            rw [List.takeWhile_cons_of_pos (by rw [starts]; simpa using held)]
            exact List.mem_cons_self

end ProcRecovery.Image
