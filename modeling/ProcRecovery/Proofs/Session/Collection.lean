import ProcRecovery.Proofs.Image.Requests
import ProcRecovery.Session.Discovery

/-!
# Collecting procedures

A procedure is collected one instruction after the other.  An address that
holds no decoded instruction is asked for first, and the collection ends behind
a return or where there is nothing to decode.  It ends because it goes on to
higher and higher addresses of the code.  What it collects is the chain at the
entry, whatever had been decoded before, and adding a procedure comes down to
collecting it.
-/

namespace ProcRecovery

/--
What is at hand once an address has been asked for, unless it held a decoded
instruction.
-/
structure Supply where
  image : Image
  /-- Whether there is a decoded instruction at the address now. -/
  available : Bool
  events : List Event

/-- Ask for an address to be decoded unless it holds a decoded instruction. -/
def Image.supply (image : Image) (address : Nat) : Supply :=
  match image.instruction? address with
  | some _ => { image, available := true, events := [] }
  | none =>
    let decoding := image.requestDecode address
    { image := decoding.image, available := decoding.found,
      events := [.noted decoding.note] }

theorem Image.code_supply (image : Image) (address : Nat) :
    (image.supply address).image.code = image.code := by
  rw [supply]
  split
  · rfl
  · exact image.code_requestDecode address

theorem IsKeyed.supply
    {image : Image}
    (keyed : IsKeyed image.code)
    (address : Nat) :
    IsKeyed (image.supply address).image.code := by
  rw [image.code_supply]
  exact keyed

/-- The amount of code that does not lie below an address. -/
def codeFrom (code : Table Nat Instruction) (address : Nat) : Nat :=
  code.keys.countP (fun key => decide (address ≤ key))

theorem codeFrom_hi_lt
    {code : Table Nat Instruction}
    (keyed : IsKeyed code)
    {address : Nat} {instruction : Instruction}
    (found : code.get? address = some instruction) :
    codeFrom code instruction.hi < codeFrom code address := by
  have starts := keyed _ _ found
  have proper := instruction.lo_lt_hi
  have isKey : address ∈ code.keys :=
    Table.mem_keys_iff.mpr (Option.isSome_of_eq_some found)
  refine countP_lt_countP ?_ isKey ?_ ?_
  · simp only [decide_eq_true_eq]
    omega
  · simp
  · simp only [decide_eq_false_iff_not]
    omega

/-- What has been collected for a procedure. -/
structure Collected where
  /-- The image, in which what was collected is decoded. -/
  image : Image
  body : List Instruction
  events : List Event

/--
Collect the instructions of the procedure at an entry, from an address on.
-/
def collect
    (entry : Nat)
    (image : Image)
    (keyed : IsKeyed image.code)
    (address : Nat) :
    Collected :=
  let supply := image.supply address
  if supply.available then
    match _found : supply.image.instruction? address with
    | none => { image := supply.image, body := [], events := supply.events }
    | some instruction =>
      if instruction.isReturn then
        { image := supply.image, body := [instruction],
          events := supply.events }
      else
        let rest :=
          collect entry supply.image (keyed.supply address) instruction.hi
        { rest with
          body := instruction :: rest.body
          events := supply.events ++ rest.events }
  else
    { image := supply.image, body := [],
      events := supply.events ++ [.noted (.bodyEnds entry address)] }
termination_by codeFrom image.code address
decreasing_by
  rw [image.code_supply]
  have coded := (Image.instruction?_eq_some_iff.mp _found).2
  rw [image.code_supply] at coded
  exact codeFrom_hi_lt keyed coded

namespace Image

variable {image : Image} {address : Nat} {instruction : Instruction}

/-- Where there is no code, nothing can be supplied. -/
theorem supply_of_missing
    (keyed : IsKeyed image.code)
    (missing : image.code.get? address = none) :
    image.supply address =
      { image, available := false,
        events := [.noted (.nothingToDecode address)] } := by
  have absent : image.instruction? address = none := by
    rw [instruction?, missing, ite_self]
  have refused : image.code.contains address = false := by
    rw [Table.contains, missing]
    rfl
  rw [supply, absent]
  simp [requestDecode_eq_sweepFrom keyed, sweepFrom, refused]

/-- Where there is code, it is decoded once it has been asked for. -/
theorem supply_of_found
    (keyed : IsKeyed image.code)
    (found : image.code.get? address = some instruction) :
    (image.supply address).available = true ∧
      (image.supply address).image.instruction? address =
        some instruction := by
  have available : (image.supply address).available = true := by
    rw [supply]
    split
    · rfl
    · exact (found_requestDecode_iff keyed address).mpr (by rw [found]; rfl)
  have isThere :
    ((image.supply address).image.instruction? address).isSome := by
    rw [supply] at available ⊢
    split at available
    next held =>
      rw [held]
      rfl
    next missing => exact isSome_instruction?_requestDecode keyed available
  refine ⟨available, ?_⟩
  rcases Option.isSome_iff_exists.mp isThere with ⟨other, isOther⟩
  have coded := (instruction?_eq_some_iff.mp isOther).2
  rw [image.code_supply] at coded
  cases coded.symm.trans found
  exact isOther

/-- Decoding a chain begins with a supply of its first instruction. -/
theorem decodeChain_cons
    (found : image.code.get? instruction.lo = some instruction)
    (later : List Instruction) :
    decodeChain image (instruction :: later) =
      ((decodeChain (image.supply instruction.lo).image later).1,
        (image.supply instruction.lo).events ++
          (decodeChain (image.supply instruction.lo).image later).2) := by
  by_cases known : image.decoded.contains instruction.lo = true
  · simp [decodeChain, supply, instruction?, known, found]
  · simp [decodeChain, supply, instruction?, known]

end Image

/-- The events at the end of what is collected from an address. -/
def endEvents (entry address : Nat) (chain : List Instruction) : List Event :=
  match chain.getLast? with
  | some last =>
    if last.isReturn then []
    else [.noted (.nothingToDecode last.hi), .noted (.bodyEnds entry last.hi)]
  | none =>
      [.noted (.nothingToDecode address), .noted (.bodyEnds entry address)]

theorem endEvents_cons
    (entry address : Nat)
    {instruction : Instruction}
    (continues : instruction.isReturn = false)
    (later : List Instruction) :
    endEvents entry address (instruction :: later) =
      endEvents entry instruction.hi later := by
  cases later with
  | nil => simp [endEvents, continues]
  | cons second others => simp [endEvents, List.getLast?_cons]

section Collect

variable {image : Image} {address : Nat} {instruction : Instruction}

theorem collect_of_missing
    (keyed : IsKeyed image.code)
    (missing : image.code.get? address = none)
    (entry : Nat) :
    collect entry image keyed address =
      { image, body := []
        events :=
          [.noted (.nothingToDecode address), .noted (.bodyEnds entry address)]
            } := by
  rw [collect]
  simp [Image.supply_of_missing keyed missing]

theorem collect_of_found
    (keyed : IsKeyed image.code)
    (found : image.code.get? address = some instruction)
    (entry : Nat) :
    collect entry image keyed address =
      if instruction.isReturn then
        { image := (image.supply address).image, body := [instruction]
          events := (image.supply address).events }
      else
        let rest :=
          collect entry (image.supply address).image (keyed.supply address)
            instruction.hi
        { rest with
          body := instruction :: rest.body
          events := (image.supply address).events ++ rest.events } := by
  rcases Image.supply_of_found keyed found with ⟨available, isThere⟩
  rw [collect]
  simp only [available, ↓reduceIte]
  split
  next missing =>
    rw [isThere] at missing
    cases missing
  next other isOther =>
    cases isThere.symm.trans isOther
    rfl

/--
A collection gives the chain at its address and decodes it, whatever had been
decoded.
-/
theorem collect_eq
    {code : Table Nat Instruction} {chain : List Instruction}
    (isChain : ChainAt code address chain)
    (keyed : IsKeyed image.code)
    (same : image.code = code)
    (entry : Nat) :
    collect entry image keyed address =
      { image := (decodeChain image chain).1, body := chain
        events :=
          (decodeChain image chain).2 ++ endEvents entry address chain } := by
  induction isChain generalizing image with
  | gap missing =>
      subst same
      rw [collect_of_missing keyed missing]
      rfl
  | @last address last found returns =>
      subst same
      have starts := keyed _ _ found
      rw [collect_of_found keyed found, if_pos returns,
        Image.decodeChain_cons (starts ▸ found)]
      simp [decodeChain, endEvents, returns, starts]
  | @next address first later found continues rest hypothesis =>
      subst same
      have starts := keyed _ _ found
      rw [collect_of_found keyed found, if_neg (by simp [continues]),
        hypothesis (keyed.supply address) (image.code_supply address),
        Image.decodeChain_cons (starts ▸ found),
        endEvents_cons entry address continues, starts,
        List.append_assoc]

end Collect

/-- Decoding a chain consists of requests. -/
theorem exists_requestAll_eq_decodeChain
    (image : Image)
    (chain : List Instruction) :
    ∃ requests, (decodeChain image chain).1 = image.requestAll requests := by
  induction chain generalizing image with
  | nil => exact ⟨[], rfl⟩
  | cons first later hypothesis =>
      simp only [decodeChain]
      split
      · exact hypothesis image
      · rcases hypothesis (image.requestDecode first.lo).image with
          ⟨requests, same⟩
        exact ⟨first.lo :: requests, same⟩

namespace Session

/-- Add the procedure at an entry from what has been collected for it. -/
def addCollected
    (session : Session)
    (entry : Nat)
    (collected : Collected) :
    Stepped Session :=
  let procedure := Procedure.ofInstructions collected.body
  let found :=
    Note.procedureFound entry procedure.hi (collected.image.labels.get? entry)
  let noted : Session :=
    { session with
      image := collected.image
      journal := session.journal ++ collected.events ++ [.noted found] }
  if noted.procedures.contains entry then noted.halt (.entryTaken entry)
  else .ok { noted with procedures := noted.procedures.insert entry procedure }

/--
Procedures are added by collecting them, and what is collected at an entry is a
body.  On the way nothing happens to the image but requests.
-/
structure Collects
    (session : Session)
    (entry : Nat)
    (body : List Instruction) :
    Prop where
  keyed : IsKeyed session.image.code
  body_eq : (collect entry session.image keyed entry).body = body
  image_eq : ∃ requests,
    (collect entry session.image keyed entry).image =
      session.image.requestAll requests
  added : session.addProcedure entry =
    session.addCollected entry (collect entry session.image keyed entry)

theorem collects_chainFrom
    {session : Session}
    (keyed : IsKeyed session.image.code)
    (entry : Nat) :
    session.Collects entry (session.image.chainFrom entry) := by
  have collected :=
    collect_eq (Image.chainAt_chainFrom keyed entry) keyed rfl entry
  refine ⟨keyed, ?_, ?_, ?_⟩
  · rw [collected]
  · rw [collected]
    exact exists_requestAll_eq_decodeChain _ _
  · rw [collected]
    simp only [addCollected, ← List.append_assoc]
    rfl

/--
Requests decode code and nothing else, they leave no gap behind a decoded
instruction, and their order and number do not matter.  So a procedure is never
cut short by what has been decoded before it is collected: its body is the
chain at its entry.
-/
theorem hasAnswered_and_collects
    {image : Image}
    (keyed : IsKeyed image.code)
    (fresh : image.decoded = ∅)
    (requests : List Nat) :
    image.HasAnswered requests (image.requestAll requests) ∧
      ∀ session : Session, session.image.code = image.code → ∀ entry,
        session.Collects entry (image.chainFrom entry) ∧
          ChainAt image.code entry (image.chainFrom entry) ∧
          Abutting Instruction.lo Instruction.hi (image.chainFrom entry) := by
  refine ⟨Image.hasAnswered_requestAll keyed fresh requests, ?_⟩
  intro session sameCode entry
  have isChain := Image.chainAt_chainFrom keyed entry
  have sameChain : session.image.chainFrom entry = image.chainFrom entry := by
    rw [Image.chainFrom, sameCode, ← Image.chainFrom]
  have sessionKeyed : IsKeyed session.image.code := by
    rw [sameCode]
    exact keyed
  rw [← sameChain]
  refine ⟨collects_chainFrom sessionKeyed entry, ?_, ?_⟩
  · rw [sameChain]
    exact isChain
  · rw [sameChain]
    exact isChain.abutting keyed

/-- Three instructions up to a return, and one more behind a gap. -/
def patchyImage : Image where
  name := "patchy"
  code := Table.ofList
    [ (0x10, { lo := 0x10, hi := 0x10 + 4, mnemonic := .mov, width := .word,
               operands := [.immediate 1, .register ⟨1⟩], lo_lt_hi := by
                 decide }),
      (0x14, { lo := 0x14, hi := 0x16, mnemonic := .mov, width := .word,
               operands := [.register ⟨1⟩, .register ⟨2⟩], lo_lt_hi := by
                 decide }),
      (0x16, { lo := 0x16, hi := 0x18, mnemonic := .rts, width := .word,
               operands := [.register .pc], lo_lt_hi := by decide }),
      (0x20, { lo := 0x20, hi := 0x22, mnemonic := .mov, width := .word,
               operands := [.register ⟨1⟩, .register ⟨2⟩], lo_lt_hi := by
                 decide }) ]

/--
The second request comes from below and meets what the first one has decoded.
-/
theorem hasAnswered_and_collects_patchyImage :
    (patchyImage.requestAll [0x14, 0x10, 0x18, 0x14]).decoded.keys =
      [0x10, 0x14, 0x16] ∧
      (patchyImage.requestAll [0x14]).decoded.keys = [0x14, 0x16] ∧
      patchyImage.HasAnswered [0x14, 0x10, 0x18, 0x14]
        (patchyImage.requestAll [0x14, 0x10, 0x18, 0x14]) ∧
      ∀ session : Session, session.image.code = patchyImage.code → ∀ entry,
        session.Collects entry (patchyImage.chainFrom entry) ∧
          ChainAt patchyImage.code entry (patchyImage.chainFrom entry) ∧
          Abutting Instruction.lo Instruction.hi
          (patchyImage.chainFrom entry) :=
  ⟨by decide, by decide,
    hasAnswered_and_collects (by decide) rfl [0x14, 0x10, 0x18, 0x14]⟩

end Session

end ProcRecovery
