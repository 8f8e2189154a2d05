import ProcRecovery.Proofs.Graphviz.Drawing
import ProcRecovery.Proofs.Image.Layout
import ProcRecovery.Proofs.Session.Moves

/-!
# Drawings of the procedures of a session

Whatever a session has found can be drawn: a procedure that has been analyzed
is tiled by its blocks, and one that has not has none.  So every procedure has
a drawing, and whether its labels end where they should is a matter of the
names and texts in it.
-/

namespace ProcRecovery

namespace Session

/-- Procedures have no blocks before their analysis. -/
def IsBareBefore (session : Session) : Prop :=
  ∀ entry procedure, session.procedures.get? entry = some procedure →
    procedure.progress ≠ .analyzed → procedure.graph = {}

theorem IsBareBefore.insert
    {session : Session}
    (bare : session.IsBareBefore)
    {entry : Nat} {procedure : Procedure}
    (isBare : procedure.progress ≠ .analyzed → procedure.graph = {}) :
    ∀ other found, (session.procedures.insert entry procedure).get? other =
      some found →
      found.progress ≠ .analyzed → found.graph = {} := by
  intro other found isFound
  rw [Table.get?_insert] at isFound
  split at isFound
  next =>
    cases isFound
    exact isBare
  next => exact bare other found isFound

theorem IsBareBefore.move
    {options : Options} {work next : Work}
    (bare : work.session.IsBareBefore)
    (moves : Move options work next) :
    next.session.IsBareBefore := by
  cases moves with
  | decode session waiting address => exact bare
  | label session waiting address label => exact bare
  | mention session waiting other => exact bare
  | count session waiting => exact bare
  | find session waiting unclaimed coded found_eq =>
      apply bare.insert
      rw [found_eq]
      exact fun _ => rfl
  | @analyze session waiting entry procedure analyzed events known pending
    finished =>
      apply bare.insert
      rcases Procedure.analyze_cases pending finished with
        ⟨rfl, -⟩ | ⟨body, later, -, -, ⟨stages⟩⟩
      · intro _
        exact bare entry procedure known (by simp [pending])
      · rw [stages.analyzed_eq]
        exact fun notAnalyzed => absurd rfl notAnalyzed
  | register session site waiting count =>
      have kept := (exists_events_registerCall session count site).1
      intro entry procedure found
      rw [kept] at found
      exact bare entry procedure found

/-- What is found, given up or analyzed can be drawn. -/
theorem IsAccounted.isDrawable
    {code : Table Nat Instruction} {session : Session}
    (accounted : session.IsAccounted code)
    (bare : session.IsBareBefore)
    {procedure : Procedure}
    (member : procedure ∈ session.procedures.values) :
    procedure.IsDrawable := by
  rcases Table.mem_values_iff.mp member with ⟨entry, found⟩
  rcases accounted.procedures entry procedure found with ⟨chain, -, byChain⟩
  have unanalyzed : procedure.progress ≠ .analyzed → procedure.IsDrawable := by
    intro notAnalyzed block isBlock
    rw [bare entry procedure found notAnalyzed] at isBlock
    cases isBlock
  rcases byChain.state with pending | failed | ⟨-, context, promises⟩
  · exact unanalyzed (by simp [pending.progress_eq])
  · exact unanalyzed (by simp [failed])
  · intro block isBlock
    rcases (Graph.within_of_tilesFrom promises.tiled).2 block isBlock with
      ⟨-, proper, upper, -⟩
    exact ⟨Nat.le_of_lt proper, upper⟩

/-- After discovery every procedure can be drawn. -/
theorem isDrawable_of_run
    {text : String} {lifted : Listing.Lifted}
    (isLifted : Listing.lift text = .ok lifted)
    {options : Options} {final : Session}
    (ran : (ofListing lifted).run options = .ok final)
    {procedure : Procedure}
    (member : procedure ∈ final.procedures.values) :
    procedure.IsDrawable := by
  have keyed := (Listing.isSoundCode_of_lift isLifted).keyed
  have accounted :=
    (delivers_runPasses keyed options _ (isAccounted_ofListing lifted)).of_ok
      ran
  have initial : (ofListing lifted).IsBareBefore := by
    intro entry procedure found
    cases found
  have bare : final.IsBareBefore :=
    (proceeds_runPasses ran).reaches.keeps (fun work =>
      work.session.IsBareBefore) initial
      (fun work next isBare moves => isBare.move moves)
  exact accounted.isDrawable bare member

end Session

namespace Graphviz

open Text

/--
Every procedure that discovery has found in a listing has a drawing, and its
text is generated.  The labels of a drawing are closed where they should be
exactly if neither the name of the procedure, on the label of its entry, nor a
node of a block holds an escaped quote.
-/
theorem closesLabels_iff
    {library : Library} {layout : Layout}
    (follows : library.Follows layout) :
    (∀ (text : String) (lifted : Listing.Lifted),
      Listing.lift text = .ok lifted →
      ∀ (options : Options) (final : Session),
        (Session.ofListing lifted).run options = .ok final →
        ∀ procedure ∈ final.procedures.values, ∃ drawn,
          drawing library final.image procedure = .ok drawn) ∧
    ∀ (image : Image) (procedure : Procedure) (drawn : Drawing),
      drawing library image procedure = .ok drawn →
        generate library image procedure = .ok (layout.text drawn) ∧
        (layout.ClosesLabels drawn ↔
          ∀ address block, procedure.graph.blocks.get? address = some block →
            (address = procedure.graph.entry →
              hasEscapedQuote (image.procedureName procedure.lo).toList =
                false) ∧
            ∀ node ∈ block.nodes procedure.body,
              node.writesEscapedQuote = false) := by
  constructor
  · intro text lifted isLifted options final ran procedure member
    exact exists_drawing follows final.image
      (Session.isDrawable_of_run isLifted ran member)
  · intro image procedure drawn isDrawn
    exact ⟨generate_of_drawing follows isDrawn,
      closesLabels_of_drawing_iff isDrawn⟩

/--
Without names and texts the label of the only block ends where it should.
-/
theorem closesLabels_iff_pushingListing :
    Library.standard.Follows .standard ∧
      ∃ lifted session procedure drawn,
        Listing.lift Session.pushingListing = .ok lifted ∧
        (Session.ofListing lifted).run {} = .ok session ∧
        session.procedures.get? 0x1000 = some procedure ∧
        procedure.graph.blocks.keys = [0x1000] ∧
        drawing .standard session.image procedure = .ok drawn ∧
        generate .standard session.image procedure =
          .ok (Layout.standard.text drawn) ∧
        Layout.standard.ClosesLabels drawn := by
  have works : ((Listing.lift Session.pushingListing).toOption.bind
      (fun lifted =>
        ((Session.ofListing lifted).run {}).toOption.bind (fun session =>
          (session.procedures.get? 0x1000).map (fun procedure =>
            (procedure.graph.blocks.keys,
              procedure.graph.blocks.values.all (fun block =>
                block.nodes procedure.body |>.all (!·.writesEscapedQuote)),
              hasEscapedQuote
                (session.image.procedureName procedure.lo).toList))))) =
      some ([0x1000], true, false) := by
    decide +kernel
  rcases Option.bind_eq_some_iff.mp works with ⟨lifted, lifts, rest⟩
  rcases Option.bind_eq_some_iff.mp rest with ⟨session, runs, rest⟩
  rcases Option.map_eq_some_iff.mp rest with ⟨procedure, known, computed⟩
  simp only [Prod.mk.injEq, List.all_eq_true, Bool.not_eq_true'] at computed
  rcases computed with ⟨keys, plainNodes, plainName⟩
  have isLifted := eq_ok_of_toOption lifts
  have ran := eq_ok_of_toOption runs
  rcases closesLabels_iff Library.follows_standard with ⟨exists_drawn, closes⟩
  rcases exists_drawn _ _ isLifted {} _ ran procedure
    (Table.mem_values_iff.mpr ⟨_, known⟩) with ⟨drawn, isDrawn⟩
  rcases closes _ _ _ isDrawn with ⟨generated, closes⟩
  refine ⟨Library.follows_standard, lifted, session, procedure, drawn,
    isLifted, ran, known, keys, isDrawn, generated, closes.mpr ?_⟩
  intro address block found
  exact ⟨fun _ => plainName,
    plainNodes block (Table.mem_values_iff.mpr ⟨address, found⟩)⟩

/-- A procedure that pushes a text with a quote in it. -/
def quotingListing : String := "LISTING quote

MEMORY
2000: 22 49

ENTRY 1000

CODE
1000 mov fp,-(sp)
1002 mov sp,fp
1004 cmp sp,@#0x2100
1008 bhi 0x100e
100a sev
100c trap
100e mov #0x2002,r1
1012 mov #1,r2
1016 movb -(r1),-(sp)
1018 sob r2,0x1016
101a movb -(r1),-(sp)
101c rts pc
"

/-- The quote in the text ends the label of the only block too early. -/
theorem not_closesLabels_quotingListing :
    ∃ lifted session procedure drawn,
      Listing.lift quotingListing = .ok lifted ∧
      (Session.ofListing lifted).run {} = .ok session ∧
      session.procedures.get? 0x1000 = some procedure ∧
      drawing .standard session.image procedure = .ok drawn ∧
      generate .standard session.image procedure =
        .ok (Layout.standard.text drawn) ∧
      ¬ Layout.standard.ClosesLabels drawn := by
  have works : ((Listing.lift quotingListing).toOption.bind (fun lifted =>
      ((Session.ofListing lifted).run {}).toOption.bind (fun session =>
        (session.procedures.get? 0x1000).bind (fun procedure =>
          (procedure.graph.blocks.get? 0x1000).map (fun block =>
            (block.nodes procedure.body).any Node.writesEscapedQuote))))) =
      some true := by
    decide +kernel
  rcases Option.bind_eq_some_iff.mp works with ⟨lifted, isLifted, rest⟩
  rcases Option.bind_eq_some_iff.mp rest with ⟨session, ran, rest⟩
  rcases Option.bind_eq_some_iff.mp rest with ⟨procedure, known, rest⟩
  rcases Option.map_eq_some_iff.mp rest with ⟨block, found, escaped⟩
  have isLifted := eq_ok_of_toOption isLifted
  have ran := eq_ok_of_toOption ran
  have drawable :=
    Session.isDrawable_of_run isLifted ran
      (Table.mem_values_iff.mpr ⟨_, known⟩)
  rcases exists_drawing Library.follows_standard session.image drawable with
    ⟨drawn, isDrawn⟩
  refine ⟨lifted, session, procedure, drawn, isLifted, ran, known, isDrawn,
    generate_of_drawing Library.follows_standard isDrawn, ?_⟩
  intro closes
  rcases List.any_eq_true.mp escaped with ⟨node, member, holdsQuote⟩
  have unescaped :=
    ((closesLabels_of_drawing_iff isDrawn).mp closes _ _ found).2 node member
  rw [holdsQuote] at unescaped
  cases unescaped

end Graphviz

end ProcRecovery
