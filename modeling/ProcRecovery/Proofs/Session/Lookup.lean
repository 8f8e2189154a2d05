import ProcRecovery.Proofs.Session.FaultFreedom
import ProcRecovery.Proofs.Session.Overlap

/-!
# Looking up procedures by address

A session that is asked for the procedure at an address looks at one candidate
only, the procedure with the nearest entry below.  This is enough although
procedures may overlap: of two procedures that have an address in common the
lower one runs into the upper one, so both end at the same place, and whatever
lies in the lower one from the entry of the upper one on lies in the upper one
too.
-/

namespace ProcRecovery.Session

/--
A procedure of the session contains the address, and none with a greater entry
does.
-/
structure IsInnermost
    (session : Session)
    (address : Nat)
    (procedure : Procedure) :
    Prop where
  known : session.procedures.get? procedure.lo = some procedure
  inside : procedure.lo ≤ address ∧ address < procedure.hi
  greatest : ∀ entry other, session.procedures.get? entry = some other →
    other.lo ≤ address → address < other.hi → entry ≤ procedure.lo

/--
Procedures are found by address: every procedure is kept under its own start
and has a range that is not empty, the lookup finds something wherever there is
something, and then the innermost procedure.
-/
structure FindsByAddress (session : Session) : Prop where
  starts : ∀ entry procedure, session.procedures.get? entry = some procedure →
    procedure.lo = entry ∧ procedure.lo < procedure.hi
  finds_iff : ∀ address, (session.procedureContaining? address).isSome = true ↔
    ∃ entry procedure, session.procedures.get? entry = some procedure ∧
      procedure.lo ≤ address ∧ address < procedure.hi
  innermost_iff : ∀ address procedure,
    session.procedureContaining? address = some procedure ↔
    session.IsInnermost address procedure

section Lookup

variable {code : Table Nat Instruction} {session : Session}

/--
What the lookup finds is the candidate with the nearest entry below, and it
contains the address.
-/
theorem procedureContaining?_eq_some
    {address : Nat} {procedure : Procedure}
    (found : session.procedureContaining? address = some procedure) :
    procedure.lo ≤ address ∧ address < procedure.hi ∧
      ∃ entry,
        session.procedures.floor? address = some (entry, procedure) := by
  rcases Option.filter_eq_some_iff.mp found with ⟨isFloor, inside⟩
  rcases Option.map_eq_some_iff.mp isFloor with
    ⟨⟨entry, candidate⟩, atFloor, rfl⟩
  simp only [Procedure.contains, Bool.and_eq_true, decide_eq_true_eq] at inside
  exact ⟨inside.1, inside.2, entry, atFloor⟩

theorem procedureContaining?_of_floor?
    {address entry : Nat} {procedure : Procedure}
    (atFloor : session.procedures.floor? address = some (entry, procedure))
    (above : procedure.lo ≤ address)
    (below : address < procedure.hi) :
    session.procedureContaining? address = some procedure := by
  have inside : procedure.contains address = true := by
    simp only [Procedure.contains, above, below, decide_true, Bool.and_self]
  simp only [procedureContaining?, atFloor, Option.map_some,
    Option.filter_some, inside, ↓reduceIte]

/--
Wherever a procedure contains an address, the one with the nearest entry below
does.
-/
theorem IsAccounted.exists_innermost
    (sound : IsSoundCode code)
    (accounted : session.IsAccounted code)
    {address entry : Nat} {procedure : Procedure}
    (known : session.procedures.get? entry = some procedure)
    (above : procedure.lo ≤ address)
    (below : address < procedure.hi) :
    ∃ nearest, session.procedureContaining? address = some nearest ∧
      entry ≤ nearest.lo := by
  rcases accounted.lo_eq sound.keyed known with ⟨sameLo, -⟩
  cases atFloor : session.procedures.floor? address with
  | none =>
      have beyond := Table.floor?_eq_none atFloor known
      omega
  | some candidate =>
      rcases Table.floor?_eq_some atFloor with ⟨isNearest, notAbove, greatest⟩
      rcases accounted.lo_eq sound.keyed isNearest with ⟨nearestLo, -⟩
      -- A lower procedure that reaches the address runs into the nearest one
      -- and ends with it.
      have reaches : address < candidate.2.hi ∧ entry ≤ candidate.1 := by
        rcases greatest entry procedure known (by omega) with rfl | lower
        · rw [known] at isNearest
          cases isNearest
          exact ⟨below, Nat.le_refl _⟩
        · rcases accounted.runsInto_iff sound known isNearest lower with
            ⟨runs, together⟩
          have ends := together (runs.mpr (by omega))
          omega
      exact ⟨candidate.2,
        procedureContaining?_of_floor? atFloor (by omega) reaches.1, by omega⟩

theorem IsAccounted.isInnermost
    (sound : IsSoundCode code)
    (accounted : session.IsAccounted code)
    {address : Nat} {procedure : Procedure}
    (found : session.procedureContaining? address = some procedure) :
    session.IsInnermost address procedure := by
  rcases procedureContaining?_eq_some found with ⟨above, below, entry, atFloor⟩
  have known := (Table.floor?_eq_some atFloor).1
  refine ⟨?_, ⟨above, below⟩, ?_⟩
  · rw [(accounted.lo_eq sound.keyed known).1]
    exact known
  · intro other another isOther otherAbove otherBelow
    rcases accounted.exists_innermost sound isOther otherAbove otherBelow with
      ⟨nearest, isNearest, ordered⟩
    rw [found] at isNearest
    cases isNearest
    exact ordered

theorem IsAccounted.findsByAddress
    (sound : IsSoundCode code)
    (accounted : session.IsAccounted code) :
    session.FindsByAddress where
  starts := by
    intro entry procedure known
    rcases accounted.lo_eq sound.keyed known with ⟨sameLo, proper⟩
    exact ⟨sameLo, by omega⟩
  finds_iff := by
    intro address
    constructor
    · intro found
      rcases Option.isSome_iff_exists.mp found with ⟨procedure, isFound⟩
      have innermost := accounted.isInnermost sound isFound
      exact ⟨procedure.lo, procedure, innermost.known, innermost.inside⟩
    · rintro ⟨entry, procedure, known, above, below⟩
      rcases accounted.exists_innermost sound known above below with
        ⟨nearest, isNearest, -⟩
      rw [isNearest, Option.isSome_some]
  innermost_iff := by
    intro address procedure
    constructor
    · exact accounted.isInnermost sound
    · intro innermost
      rcases accounted.exists_innermost sound innermost.known
        innermost.inside.1
        innermost.inside.2 with ⟨nearest, isNearest, ordered⟩
      -- Both are innermost, so they have the same entry.
      have other := accounted.isInnermost sound isNearest
      have same : nearest.lo = procedure.lo := by
        have reversed :=
          innermost.greatest nearest.lo nearest other.known other.inside.1
          other.inside.2
        omega
      have known := other.known
      rw [same, innermost.known] at known
      rw [isNearest, known]

end Lookup

/--
After any commands the lookup by address is exact, and a scan finds no entry
taken: the only way to halt on the way is a sum that leaves its word, and the
next scan does not halt at all.
-/
theorem executeAll_findsByAddress
    {text : String} {lifted : Listing.Lifted}
    (isLifted : Listing.lift text = .ok lifted)
    (options : Options)
    (commands : List Command) :
    Delivers ((ofListing lifted).executeAll options commands)
      (fun session => session.FindsByAddress ∧
        ∃ scanned found, session.scan = .ok (scanned, found))
      HaltsByOverflow := by
  have sound := Listing.isSoundCode_of_lift isLifted
  apply (delivers_executeAll (fun _ => True) sound.keyed
    (isAccounted_ofListing lifted) trivial (fun _ _ _ _ _ => trivial)
    commands).weaken
  rintro session ⟨accounted, -⟩
  refine ⟨accounted.findsByAddress sound, ?_⟩
  rcases (delivers_scan_faultless sound.keyed accounted).exists_ok with
    ⟨⟨scanned, found⟩, ends, -⟩
  exact ⟨scanned, found, ends⟩

/--
Two procedures contain an address, and the lookup finds the one that begins
later.
-/
theorem executeAll_findsByAddress_overlappingListing :
    ∃ lifted session outer inner,
      Listing.lift overlappingListing = .ok lifted ∧
      (ofListing lifted).executeAll {} [.step .run,
        .step (.requestDecode 0x1000)] = .ok session ∧
      session.procedures.get? 0x1000 = some outer ∧
      outer.contains 0x1010 = true ∧
      session.procedureContaining? 0x1010 = some inner ∧ inner.lo = 0x100e ∧
      session.IsInnermost 0x1010 inner ∧
      ∃ scanned found, session.scan = .ok (scanned, found) := by
  have works : ((Listing.lift overlappingListing).toOption.bind (fun lifted =>
      ((ofListing lifted).executeAll {}
        [.step .run, .step (.requestDecode 0x1000)]).toOption)).bind
        (fun session =>
      (session.procedures.get? 0x1000).bind (fun outer =>
        (session.procedureContaining? 0x1010).map (fun inner =>
          (outer.contains 0x1010, inner.lo)))) = some (true, 0x100e) := by
    decide +kernel
  rcases exists_of_computed works with
    ⟨lifted, session, isLifted, executed, viewed⟩
  rcases Option.bind_eq_some_iff.mp viewed with ⟨outer, isOuter, rest⟩
  rcases Option.map_eq_some_iff.mp rest with ⟨inner, isInner, same⟩
  rcases Prod.mk.inj same with ⟨inside, starts⟩
  rcases (executeAll_findsByAddress isLifted {}
    [.step .run, .step (.requestDecode 0x1000)]).of_ok executed with
      ⟨finds, scans⟩
  exact ⟨lifted, session, outer, inner, isLifted, executed, isOuter, inside,
    isInner, starts, (finds.innermost_iff 0x1010 inner).mp isInner, scans⟩

end ProcRecovery.Session
