import ProcRecovery.Proofs.Idiom.Substitution
import ProcRecovery.Proofs.Procedure.Operations
import ProcRecovery.Proofs.Replay.Widths
import ProcRecovery.Proofs.Session.Moves

/-!
# Widths of items in sessions

Routines on long arguments fold what the replay knows to be a long literal, so
it matters that items are as wide as their kinds promise.  A literal that is
pushed is.  A long literal that is stored into a slot is not: it stays a small
one, and no routine folds it.  The procedures of a session replay nothing else
that is out of size, whatever its listing and its commands are.
-/

namespace ProcRecovery

theorem Image.length_of_read
    {image : Image} {address length : Nat} {bytes : List UInt8}
    (isRead : image.read address length = .ok bytes) :
    bytes.length = length := by
  unfold read at isRead
  split at isRead
  next base segment _ =>
    split at isRead
    next within =>
      cases isRead
      rw [List.length_take, List.length_drop]
      omega
    next => cases isRead
  next => cases isRead

/--
What a recognized operation pushes has been read, and it is as long as it
should be.
-/
theorem PseudoOp.IsRecognizedIn.isSized
    {image : Image} {op : PseudoOp}
    (recognized : op.IsRecognizedIn image) :
    op.IsSized := by
  have isRead := recognized.isReadFrom
  unfold IsSized
  split
  next width source direction bytes =>
    rcases isRead with ⟨address, -, found⟩
    exact Image.length_of_read found
  next => trivial

/-! ## Replays of a procedure -/

theorem isSized_of_entryStack?
    {level : Resolution Int} {stack : SymbolicStack}
    (entered : entryStack? level = some stack) :
    stack.IsSized := by
  unfold entryStack? at entered
  split at entered
  next depth =>
    split at entered
    next =>
      cases entered
      exact SymbolicStack.isSized_withUnknown _
    next => cases entered
  next => cases entered

namespace Procedure

/--
Something holds of the replay of every block from the stack on entry to it.
-/
def EachReplay
    (holds : ReplayContext → ReplayState → List Node → Prop)
    (analyzed : Procedure) :
    Prop :=
  ∀ block ∈ analyzed.graph.blocks.values, ∀ stack,
    entryStack? block.level = some stack →
    ∀ nodes, nodes.map Node.unstacked =
      (block.nodes analyzed.body).map Node.unstacked →
      ∀ (context : ReplayContext) (slots : FrameSlots),
      holds context { stack, slots } nodes

/--
At every point of the replay of every block all items are as wide as their
kinds promise.
-/
def KeepsWidths (analyzed : Procedure) : Prop :=
  analyzed.EachReplay (fun context start nodes =>
    ∀ earlier later annotated reached, nodes = earlier ++ later →
      context.Run start earlier annotated reached → reached.stack.IsSized)

/--
The analysis of a procedure leaves replays in which nothing is out of size but
long literals that are stored into slots.
-/
theorem sizesItems_of_analyze
    {options : Options} {image : Image} {procedure analyzed : Procedure}
    {instructions : List Instruction} {events : List Event}
    (pending : procedure.IsPendingOn instructions)
    (finished : (procedure.analyze options image).Finishes events analyzed)
    (isAnalyzed : analyzed.progress = .analyzed) :
    analyzed.EachReplay ReplayContext.SizesItems := by
  have recognized := isRecognizedIn_of_analyze pending finished isAnalyzed
  intro block member stack entered nodes same context slots
  have inBlock : ∀ node ∈ block.nodes analyzed.body, ∀ op ∈ node.op,
      op.IsSized := by
    intro node isNode op isOp
    have inBody : node ∈ analyzed.body :=
      List.mem_of_mem_drop (List.mem_of_mem_take isNode)
    exact (recognized node inBody op isOp).isSized
  have opsSized : ∀ node ∈ nodes, ∀ op ∈ node.op, op.IsSized :=
    forall_mem_of_map_eq same.symm (fun _ => Iff.rfl) inBlock
  exact context.sizesItems_of_isSized opsSized (isSized_of_entryStack? entered)

end Procedure

namespace Session

/--
In every procedure that a session of a listing has analyzed, at every point of
the replay of every block, an item is as wide as its kind promises unless it is
a long literal that was stored into a slot, which is there as a small literal
of four bytes.  A replay that stores none of these, and no other, keeps all
items in size.
-/
theorem executeAll_sizes_items
    {text : String} {lifted : Listing.Lifted}
    (isLifted : Listing.lift text = .ok lifted)
    (options : Options)
    (commands : List Command) :
    Delivers ((ofListing lifted).executeAll options commands)
      (fun session => ∀ entry procedure,
        session.procedures.get? entry = some procedure →
        procedure.progress = .analyzed →
          procedure.EachReplay ReplayContext.SizesItems)
      HaltsByOverflow :=
  delivers_eachAnalyzed (Listing.isKeyed_of_lift isLifted)
    (fun _ _ _ _ _ pending finished isAnalyzed =>
      Procedure.sizesItems_of_analyze pending finished isAnalyzed) commands

set_option maxRecDepth 4000 in
/-- A procedure that pushes a literal keeps all items in size. -/
theorem executeAll_sizes_items_pushingListing :
    ∃ lifted session procedure, Listing.lift pushingListing = .ok lifted ∧
      (ofListing lifted).executeAll {} [.step .run] = .ok session ∧
      session.procedures.get? 0x1000 = some procedure ∧
      procedure.progress = .analyzed ∧
      procedure.graph.blocks.values.map Block.level = [.known 0] ∧
        procedure.KeepsWidths := by
  have works : ∃ characters, pushingListing = String.ofList characters ∧
      ∀ text : String, text.toList = characters →
        ((Listing.lift text).toOption.bind (fun lifted =>
          ((ofListing lifted).executeAll {} [.step .run]).toOption)).bind
            (fun session =>
        (session.procedures.get? 0x1000).map (fun procedure =>
          (procedure.progress, procedure.graph.blocks.values.map Block.level,
            procedure.body.all (fun node => node.first.width = .word)))) =
        some (.analyzed, [.known 0], true) := by
    refine ⟨_, rfl, ?_⟩
    intro text spelled
    unfold Listing.lift Listing.readDraft
    rw [spelled]
    decide +kernel
  rcases exists_of_characters works with
    ⟨lifted, session, isLifted, executed, viewed⟩
  rcases Option.map_eq_some_iff.mp viewed with ⟨procedure, found, same⟩
  simp only [Prod.mk.injEq, List.all_eq_true, decide_eq_true_eq] at same
  rcases same with ⟨isAnalyzed, levels, short⟩
  refine ⟨lifted, session, procedure, isLifted, executed, found, isAnalyzed,
    levels, ?_⟩
  have sizes :=
    (executeAll_sizes_items isLifted {} [.step .run]).of_ok executed _ _ found
      isAnalyzed
  intro block member stack entered nodes unstacked context slots
  refine (sizes block member stack entered nodes unstacked context
    slots).exactly.mpr ?_
  rintro ⟨earlier, node, later, _, _, _, _, rfl, _, _, _, _, -, isLong, -⟩
  have inBlock : ∀ other ∈ block.nodes procedure.body,
      other.first.width = .word :=
    fun other isOther =>
      short other (List.mem_of_mem_drop (List.mem_of_mem_take isOther))
  have wordwise : ∀ other ∈ earlier ++ node :: later,
      other.first.width = .word :=
    forall_mem_of_map_eq unstacked.symm (fun _ => Iff.rfl) inBlock
  rw [wordwise node (by simp)] at isLong
  cases isLong

/--
A listing of a procedure that pushes two long literals, stores another one over
the second and adds.
-/
def longsListing : String := "LISTING longs

RUNTIME
3000 long_add

ENTRY 7000

CODE
7000 mov fp,-(sp)
7002 mov sp,fp
7004 cmp sp,@#0x2100
7008 bhi 0x700e
700a sev
700c trap
700e movl #1,-(sp)
7012 clrl -(sp)
7014 movl #2,0(sp)
701a jsr pc,@#0x3000
701e rts pc
"

/-- The body of the procedure. -/
def longsBody : List Node :=
  [ { Idiom.plainPrologue 0x7000 with
      stackDelta := -2
      stackLevel := .known 0 },
    { op := some (.constantPush .long 1)
      first :=
        ⟨0x700e, 0x7012, .mov, .long, [.immediate 1, .autoDecrement .sp],
          by decide⟩
      rest := []
      stackDelta := -4
      stackLevel := .known (-2) },
    { op := some (.constantPush .long 0)
      first := ⟨0x7012, 0x7014, .clr, .long, [.autoDecrement .sp], by decide⟩
      rest := []
      stackDelta := -4
      stackLevel := .known (-6) },
    { op := none
      first :=
        ⟨0x7014, 0x701a, .mov, .long, [.immediate 2, .indexed 0 .sp],
          by decide⟩
      rest := []
      stackLevel := .known (-10) },
    { op := some (.call (.known 0x3000) (some "long_add") (some .longAdd))
      first :=
        ⟨0x701a, 0x701e, .jsr, .word, [.register .pc, .absolute 0x3000],
          by decide⟩
      rest := []
      stackDelta := 4
      stackLevel := .known (-10) },
    { op := none
      first := ⟨0x701e, 0x7020, .rts, .word, [.register .pc], by decide⟩
      rest := []
      stackLevel := .known (-6) } ]

/--
A long literal is a small one after it has been stored, and the sum is not
known.
-/
theorem run_longsBody (context : ReplayContext) (slots : FrameSlots) :
    ∃ annotated later,
    context.Run { stack := .tracked [], slots } (longsBody.take 4) annotated
        { stack := .tracked [⟨4, .smallInt 2⟩, ⟨4, .longInt 1⟩, .unknown 2],
          slots } ∧
      context.Run { stack := .tracked [], slots } (longsBody.take 5) later
        { stack := .tracked [.unknown 6], slots } := by
  refine ⟨_, _,
    .step rfl rfl (.step rfl rfl (.step rfl rfl (.step rfl rfl (.stay _)))),
    .step rfl rfl
      (.step rfl rfl
      (.step rfl rfl (.step rfl rfl (.step rfl rfl (.stay _)))))⟩

set_option maxRecDepth 4000 in
/--
A procedure that stores a long literal into a slot does not keep all items in
size.
-/
theorem not_keepsWidths_longsListing :
    ∃ lifted session procedure, Listing.lift longsListing = .ok lifted ∧
      (ofListing lifted).executeAll {} [.step .run] = .ok session ∧
      session.procedures.get? 0x7000 = some procedure ∧
      procedure.progress = .analyzed ∧
      ¬ procedure.KeepsWidths := by
  have works : ∃ characters, longsListing = String.ofList characters ∧
      ∀ text : String, text.toList = characters →
        ((Listing.lift text).toOption.bind (fun lifted =>
          ((ofListing lifted).executeAll {} [.step .run]).toOption)).bind
            (fun session =>
        (session.procedures.get? 0x7000).map (fun procedure =>
          (procedure.progress, procedure.graph.blocks.values.map (fun block =>
            (block.level,
              (block.nodes procedure.body).map Node.unstacked))))) =
        some (.analyzed, [(.known 0, longsBody.map Node.unstacked)]) := by
    refine ⟨_, rfl, ?_⟩
    intro text spelled
    unfold Listing.lift Listing.readDraft
    rw [spelled]
    decide +kernel
  rcases exists_of_characters works with
    ⟨lifted, session, isLifted, executed, viewed⟩
  rcases Option.map_eq_some_iff.mp viewed with ⟨procedure, found, same⟩
  rw [Prod.mk.injEq, List.map_eq_singleton_iff] at same
  rcases same with ⟨isAnalyzed, block, isBlock, ofBlock⟩
  rw [Prod.mk.injEq] at ofBlock
  rcases ofBlock with ⟨level, unstacked⟩
  refine ⟨lifted, session, procedure, isLifted, executed, found, isAnalyzed,
    ?_⟩
  intro keeps
  rcases run_longsBody
    { options := {}, image := lifted.image, procedure := 0x7000 } ∅ with
    ⟨annotated, _, run, -⟩
  have entered : entryStack? block.level = some (.tracked []) := by
    rw [level]
    rfl
  have sized :=
    keeps block (by simp [isBlock]) (.tracked []) entered longsBody
      unstacked.symm
    { options := {}, image := lifted.image, procedure := 0x7000 } ∅
    (longsBody.take 4)
    (longsBody.drop 4) annotated _ rfl run
  have literal := sized ⟨4, .smallInt 2⟩ (by simp)
  simp [StackItem.IsSized] at literal

end Session

end ProcRecovery
