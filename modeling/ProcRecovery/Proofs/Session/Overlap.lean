import ProcRecovery.Proofs.Image.Layout
import ProcRecovery.Proofs.Session.Moves

/-!
# Procedures that overlap

A scan takes an address for the entry of a procedure only if no procedure
contains it, but it does not look at where the new procedure ends.  So the
ranges of two procedures have addresses in common exactly if the code of the
lower one runs into the upper one.  Then both end at the same place, and the
upper one was found first.
-/

namespace ProcRecovery

/-- No address lies in both procedures. -/
def Procedure.IsApartFrom (first second : Procedure) : Prop :=
  ∀ address, ¬ (first.contains address = true ∧ second.contains address = true)

theorem Event.IsLocal.finding?
    {owner : Nat} {event : Event}
    (isLocal : event.IsLocal owner) :
    event.finding? = none := by
  cases event with
  | noted note =>
      cases note with
      | procedureFound entry stop name => cases isLocal
      | _ => rfl
  | _ => rfl

theorem Event.IsAboutCall.finding?
    {event : Event}
    (aboutCall : event.IsAboutCall) :
    event.finding? = none := by
  cases event with
  | noted note => exact aboutCall
  | _ => rfl

namespace Session

/--
The entries of the procedures found so far, in the order in which they were
found.
-/
def findings (session : Session) : List Nat :=
  session.journal.filterMap Event.finding?

theorem findings_append
    {session next : Session} {events : List Event}
    (appended : next.journal = session.journal ++ events)
    (others : ∀ event ∈ events, event.finding? = none) :
    next.findings = session.findings := by
  rw [findings, appended, List.filterMap_append,
    List.filterMap_eq_nil_iff.mpr others, List.append_nil, findings]

/-! ## Ranges of two procedures -/

section Ranges

variable {code : Table Nat Instruction} {session : Session} {lower upper : Nat}
  {first second : Procedure}

/--
The code of a procedure runs into a higher one exactly if it goes on beyond
that one's entry, and then both end at the same place.
-/
theorem IsAccounted.runsInto_iff
    (sound : IsSoundCode code)
    (accounted : session.IsAccounted code)
    (isFirst : session.procedures.get? lower = some first)
    (isSecond : session.procedures.get? upper = some second)
    (below : lower < upper) :
    (RunsInto code lower upper ↔ upper < first.hi) ∧
      (RunsInto code lower upper → first.hi = second.hi) := by
  rcases accounted.procedures lower first isFirst with
    ⟨chain, isChain, byChain⟩
  rcases accounted.procedures upper second isSecond with
    ⟨other, isOther, byOther⟩
  rcases Option.map_eq_some_iff.mp byChain.spans.hi_eq with
    ⟨last, isLast, lastHi⟩
  have coded := isOther.isSome_get? byOther.nonempty
  constructor
  · rw [ProcRecovery.runsInto_iff sound isChain isLast (Nat.le_of_lt below)
      coded, lastHi]
  · intro runs
    have sameLast := getLast?_eq_of_runsInto sound.keyed runs isChain isOther
    have ends := byChain.spans.hi_eq
    rw [sameLast, byOther.spans.hi_eq] at ends
    exact (Option.some.inj ends).symm

/-- Procedures are apart if the lower one ends before the upper one begins. -/
theorem IsAccounted.isApartFrom_iff
    (keyed : IsKeyed code)
    (accounted : session.IsAccounted code)
    (isFirst : session.procedures.get? lower = some first)
    (isSecond : session.procedures.get? upper = some second)
    (below : lower < upper) :
    first.IsApartFrom second ↔ first.hi ≤ upper := by
  rcases accounted.lo_eq keyed isFirst with ⟨firstLo, firstProper⟩
  rcases accounted.lo_eq keyed isSecond with ⟨secondLo, secondProper⟩
  simp only [Procedure.IsApartFrom, Procedure.contains, Bool.and_eq_true,
    decide_eq_true_eq]
  constructor
  · intro apart
    by_contra beyond
    exact apart upper ⟨⟨by omega, by omega⟩, by omega, by omega⟩
  · intro ends address common
    omega

/--
A procedure below an address that no procedure claims ends there at the latest.
-/
theorem IsAccounted.hi_le_of_unclaimed
    (sound : IsSoundCode code)
    (accounted : session.IsAccounted code)
    (isFirst : session.procedures.get? lower = some first)
    (unclaimed : session.procedureContaining? upper = none)
    (below : lower < upper) :
    first.hi ≤ upper := by
  cases isFloor : session.procedures.floor? upper with
  | none =>
      have above := Table.floor?_eq_none isFloor isFirst
      omega
  | some nearest =>
      rcases Table.floor?_eq_some isFloor with ⟨isNearest, notAbove, greatest⟩
      rcases accounted.lo_eq sound.keyed isNearest with ⟨nearestLo, -⟩
      have ends : nearest.2.hi ≤ upper := by
        simp only [Session.procedureContaining?, isFloor, Option.map_some,
          Option.filter_eq_none_iff, Option.some.injEq, forall_eq',
          Procedure.contains, Bool.and_eq_true, decide_eq_true_eq] at unclaimed
        omega
      rcases greatest lower first isFirst (by omega) with rfl | lowerStill
      · rw [isFirst] at isNearest
        cases isNearest
        exact ends
      · -- The nearest procedure ends in time, and a lower one that reaches it
        -- ends with it.
        rcases accounted.runsInto_iff sound isFirst isNearest lowerStill with
          ⟨runs, together⟩
        by_cases reaches : nearest.1 < first.hi
        · rw [together (runs.mpr reaches)]
          exact ends
        · omega

end Ranges

/-! ## The order of findings -/

/--
Every procedure has been found once, and a procedure whose range reaches into a
higher one was found after it.
-/
structure IsArranged (session : Session) : Prop where
  once : session.findings.Nodup
  found_iff : ∀ entry, entry ∈ session.findings ↔
    session.procedures.contains entry = true
  order : ∀ lower upper first second,
    session.procedures.get? lower = some first →
    session.procedures.get? upper = some second → lower < upper →
    first.hi ≤ upper ∨ [upper, lower].Sublist session.findings

section Arrangement

variable {options : Options} {code : Table Nat Instruction} {session : Session}

/--
The order of findings does not depend on anything but the ends of procedures.
-/
theorem IsArranged.congr
    {other : Session}
    (arranged : session.IsArranged)
    (sameFindings : other.findings = session.findings)
    (sameEnds : ∀ entry, (other.procedures.get? entry).map Procedure.hi =
      (session.procedures.get? entry).map Procedure.hi) :
    other.IsArranged where
  once := by
    rw [sameFindings]
    exact arranged.once
  found_iff := by
    intro entry
    have sameSome := congrArg Option.isSome (sameEnds entry)
    rw [Option.isSome_map, Option.isSome_map] at sameSome
    rw [sameFindings, arranged.found_iff, Table.contains, Table.contains,
      sameSome]
  order := by
    intro lower upper first second isFirst isSecond below
    have firstEnds := sameEnds lower
    have secondEnds := sameEnds upper
    rw [isFirst, Option.map_some] at firstEnds
    rw [isSecond, Option.map_some] at secondEnds
    rcases Option.map_eq_some_iff.mp firstEnds.symm with
      ⟨before, isBefore, sameHi⟩
    rcases Option.map_eq_some_iff.mp secondEnds.symm with ⟨above, isAbove, -⟩
    rw [sameFindings, ← sameHi]
    exact arranged.order lower upper before above isBefore isAbove below

/-- A procedure that is found where no procedure is comes after all others. -/
theorem IsArranged.find
    (sound : IsSoundCode code)
    (accounted : session.IsAccounted code)
    (arranged : session.IsArranged)
    {entry : Nat} {found : Procedure}
    (unclaimed : session.procedureContaining? entry = none)
    {stop : Nat} {name : Option String} :
    IsArranged { session.record [.noted (.procedureFound entry stop name)] with
      procedures := session.procedures.insert entry found } := by
  have extended :
      findings { session.record [.noted (.procedureFound entry stop name)] with
      procedures :=
        session.procedures.insert entry found } =
          session.findings ++ [entry] := by
    rw [findings, journal_record, List.filterMap_append]
    rfl
  have unknown := accounted.not_contains sound.keyed unclaimed
  refine ⟨?_, ?_, ?_⟩
  · rw [extended, List.nodup_append]
    refine ⟨arranged.once, by simp, ?_⟩
    intro other isOther same isSame
    rw [List.mem_singleton.mp isSame]
    rintro rfl
    rw [(arranged.found_iff other).mp isOther] at unknown
    cases unknown
  · intro other
    rw [extended, List.mem_append, List.mem_singleton, arranged.found_iff,
      Table.contains, Table.contains, Table.get?_insert]
    by_cases same : other = entry
    · simp [same]
    · simp [same]
  · intro lower upper first second isFirst isSecond below
    rw [extended]
    rw [Table.get?_insert] at isFirst isSecond
    split at isFirst
    next isNew =>
      -- The new procedure is the lower one: all others were found before.
      right
      rw [if_neg (by omega)] at isSecond
      have isFound : upper ∈ session.findings := by
        rw [arranged.found_iff, Table.contains, isSecond, Option.isSome_some]
      rw [isNew]
      exact (List.singleton_sublist.mpr isFound).append
        (List.Sublist.refl [entry])
    next =>
      split at isSecond
      next isNew =>
        left
        rw [isNew] at below ⊢
        exact accounted.hi_le_of_unclaimed sound isFirst unclaimed below
      next =>
        rcases arranged.order lower upper first second isFirst isSecond
          below with ends | before
        · exact .inl ends
        · exact .inr (before.trans (List.sublist_append_left _ _))

/-- Analysis does not change where a procedure ends. -/
theorem IsAccounted.hi_of_analyze
    (keyed : IsKeyed code)
    (accounted : session.IsAccounted code)
    {entry : Nat} {procedure analyzed : Procedure} {events : List Event}
    (known : session.procedures.get? entry = some procedure)
    (isPending : procedure.progress = .pending)
    (finished :
      (procedure.analyze options session.image).Finishes events analyzed) :
    analyzed.hi = procedure.hi := by
  rcases accounted.procedures entry procedure known with
    ⟨chain, isChain, byChain⟩
  have spans :=
    ((Procedure.delivers_analyze options session.image byChain.nonempty
      (isChain.abutting keyed) (byChain.isPendingOn isPending)).of_ok
      finished.outcome_eq).1
  have same := spans.hi_eq
  rw [byChain.spans.hi_eq] at same
  exact (Option.some.inj same).symm

/-- Every move keeps the order of findings. -/
theorem IsArranged.move
    (sound : IsSoundCode code)
    {work next : Work}
    (accounted : work.session.IsAccounted code)
    (arranged : work.session.IsArranged)
    (moves : Move options work next) :
    next.session.IsArranged := by
  cases moves with
  | decode session waiting address =>
      have others := finding?_requestDecode session.image address
      exact arranged.congr (findings_append rfl (by simpa using others))
        (fun _ => rfl)
  | label session waiting address label =>
      exact arranged.congr rfl (fun _ => rfl)
  | mention session waiting other =>
      exact arranged.congr (findings_append rfl (by simpa using other))
        (fun _ => rfl)
  | count session waiting => exact arranged.congr rfl (fun _ => rfl)
  | find session waiting unclaimed coded found_eq =>
      exact arranged.find sound accounted unclaimed
  | @analyze session waiting entry procedure analyzed events known pending
    finished =>
      have isLocal := Procedure.isLocal_of_analyze pending finished
      apply arranged.congr
        (findings_append rfl
          (fun event member => (isLocal event member).finding?))
      intro other
      rw [Table.get?_insert]
      split
      next same =>
        rw [same, known, Option.map_some, Option.map_some,
          accounted.hi_of_analyze sound.keyed known pending finished]
      next => rfl
  | register session site waiting count =>
      rcases exists_events_registerCall session count site with
        ⟨same, events, appended, aboutCalls⟩
      apply arranged.congr
        (findings_append appended
          (fun event member => (aboutCalls event member).finding?))
      intro entry
      rw [same]

theorem isArranged_ofListing
    {text : String} {lifted : Listing.Lifted}
    (isLifted : Listing.lift text = .ok lifted) :
    (ofListing lifted).IsArranged := by
  have none : (ofListing lifted).findings = [] := by
    rw [findings, List.filterMap_eq_nil_iff]
    intro event member
    exact (silent_ofListing isLifted event member).2
  refine ⟨?_, ?_, ?_⟩
  · rw [none]
    exact List.nodup_nil
  · intro entry
    rw [none]
    constructor
    · intro member
      cases member
    · intro known
      cases known
  · intro lower upper first second isFirst
    cases isFirst

end Arrangement

/--
Two procedures of a session are apart exactly if the code of the lower one does
not run into the upper one.  If it does, both end at the same place, and the
upper one was found first.
-/
theorem isApartFrom_iff_not_runsInto
    {text : String} {lifted : Listing.Lifted}
    (isLifted : Listing.lift text = .ok lifted)
    (options : Options)
    (commands : List Command) :
    Delivers ((ofListing lifted).executeAll options commands)
      (fun session => session.findings.Nodup ∧
        ∀ lower upper first second,
          session.procedures.get? lower = some first →
          session.procedures.get? upper = some second → lower < upper →
          (first.IsApartFrom second ↔
            ¬ RunsInto lifted.image.code lower upper) ∧
          (RunsInto lifted.image.code lower upper →
            first.hi = second.hi ∧ [upper, lower].Sublist session.findings))
      HaltsByOverflow := by
  have sound := Listing.isSoundCode_of_lift isLifted
  apply (delivers_executeAll (fun work => work.session.IsArranged) sound.keyed
    (isAccounted_ofListing lifted) (isArranged_ofListing isLifted)
    (fun work next accounted arranged moves =>
      arranged.move sound accounted moves)
    commands).weaken
  rintro session ⟨accounted, arranged⟩
  refine ⟨arranged.once, ?_⟩
  intro lower upper first second isFirst isSecond below
  rcases accounted.runsInto_iff sound isFirst isSecond below with
    ⟨runs, together⟩
  constructor
  · rw [accounted.isApartFrom_iff sound.keyed isFirst isSecond below, runs,
      Nat.not_lt]
  · intro isRun
    refine ⟨together isRun, ?_⟩
    rcases arranged.order lower upper first second isFirst isSecond below with
      ends | before
    · have beyond := runs.mp isRun
      omega
    · exact before

/--
A listing of a procedure without a return that runs into another one, which
calls it.
-/
def overlappingListing : String := "LISTING overlapping

ENTRY 100e

CODE
1000 mov fp,-(sp)
1002 mov sp,fp
1004 cmp sp,@#0x2100
1008 bhi 0x100e
100a sev
100c trap
100e mov fp,-(sp)
1010 mov sp,fp
1012 cmp sp,@#0x2100
1016 bhi 0x101c
1018 sev
101a trap
101c jsr pc,0x1000
1020 rts pc
"

/--
The upper procedure is found first and contains the destination of a branch in
the lower one.
-/
theorem exists_overlap :
    ∃ lifted session first second,
      Listing.lift overlappingListing = .ok lifted ∧
      (ofListing lifted).executeAll {} [.step .run] = .ok session ∧
      session.procedures.get? 0x1000 = some first ∧
      session.procedures.get? 0x100e = some second ∧
      first.contains 0x100e = true ∧ second.contains 0x100e = true := by
  have works : ((Listing.lift overlappingListing).toOption.bind (fun lifted =>
      ((ofListing lifted).executeAll {} [.step .run]).toOption)).bind
        (fun session =>
      (session.procedures.get? 0x1000).bind (fun first =>
        (session.procedures.get? 0x100e).map (fun second =>
          first.contains 0x100e && second.contains 0x100e))) = some true := by
    decide +kernel
  rcases exists_of_computed works with
    ⟨lifted, session, isLifted, executed, viewed⟩
  rcases Option.bind_eq_some_iff.mp viewed with ⟨first, isFirst, rest⟩
  rcases Option.map_eq_some_iff.mp rest with ⟨second, isSecond, inside⟩
  rw [Bool.and_eq_true] at inside
  exact ⟨lifted, session, first, second, isLifted, executed, isFirst, isSecond,
    inside⟩

theorem isApartFrom_iff_not_runsInto_overlappingListing :
    ∃ lifted session first second,
      Listing.lift overlappingListing = .ok lifted ∧
      (ofListing lifted).executeAll {} [.step .run] = .ok session ∧
      session.procedures.get? 0x1000 = some first ∧
      session.procedures.get? 0x100e = some second ∧
      RunsInto lifted.image.code 0x1000 0x100e ∧ first.hi = second.hi ∧
      [0x100e, 0x1000].Sublist session.findings := by
  rcases exists_overlap with
    ⟨lifted, session, first, second, isLifted, executed, isFirst, isSecond,
      inside⟩
  have promised :=
    (isApartFrom_iff_not_runsInto isLifted {} [.step .run]).of_ok executed
  rcases promised.2 0x1000 0x100e first second isFirst isSecond
    (by decide) with
    ⟨apart_iff, together⟩
  have runs : RunsInto lifted.image.code 0x1000 0x100e := by
    by_contra apart
    exact apart_iff.mpr apart 0x100e inside
  exact ⟨lifted, session, first, second, isLifted, executed, isFirst, isSecond,
    runs, together runs⟩

/-- Procedures with different entries do overlap. -/
theorem not_isApartFrom_overlappingListing :
    ∃ lifted session first second,
    Listing.lift overlappingListing = .ok lifted ∧
      (ofListing lifted).executeAll {} [.step .run] = .ok session ∧
      session.procedures.get? 0x1000 = some first ∧
      session.procedures.get? 0x100e = some second ∧
      ¬ first.IsApartFrom second := by
  rcases exists_overlap with
    ⟨lifted, session, first, second, isLifted, executed, isFirst, isSecond,
      inside⟩
  refine ⟨lifted, session, first, second, isLifted, executed, isFirst,
    isSecond, ?_⟩
  intro apart
  exact apart 0x100e inside

end Session

end ProcRecovery
