import ProcRecovery.Graph.Levels
import ProcRecovery.Graph.Partition
import ProcRecovery.Idiom.Collapse
import ProcRecovery.Idiom.Leftovers
import ProcRecovery.Idiom.RegisterCache
import ProcRecovery.Procedure.Basic
import ProcRecovery.Replay
import ProcRecovery.StackEffect

/-!
# Analysis of a procedure

The analysis of one procedure is a function of the image as it is before the
analysis: it recognizes idioms, computes stack effects, divides the body into
blocks with their stack levels, collects the uses of frame slots, and replays
every block with a known level.
-/

namespace ProcRecovery

/-- The replay of the blocks of a body. -/
structure BlockReplay where
  body : List Node
  slots : FrameSlots
  lostAt : Option Nat

/-- Replay one block, unless tracking has been lost in an earlier one. -/
def BlockReplay.step
    (context : ReplayContext)
    (state : BlockReplay)
    (block : Block) :
    Traced BlockReplay :=
  match state.lostAt, entryStack? block.level with
  | none, some stack => do
    let own ← Traced.ofExcept (block.nodesIn state.body)
    let replayed ← replay context own { stack, slots := state.slots }
    let body :=
      state.body.take block.start ++ replayed.nodes ++
        state.body.drop block.stop
    match replayed.lostAt with
    | some address =>
      Traced.report context.procedure (.stackTrackingLost address)
      return { body, slots := replayed.state.slots, lostAt := some address }
    | none => return { body, slots := replayed.state.slots, lostAt := none }
  | _, _ => return state

/-- Replay the blocks of a graph in ascending order. -/
def replayBlocks
    (context : ReplayContext)
    (graph : Graph)
    (body : List Node)
    (slots : FrameSlots) :
    Traced BlockReplay :=
  if context.options.replaysBlocks then
    graph.blocks.values.foldlM (BlockReplay.step context)
      { body, slots, lostAt := none }
  else
    return { body, slots, lostAt := none }

/-- The events of the string constants that a body pushes. -/
def literalEvents (options : Options) (body : List Node) : List Event :=
  if options.materializesStrings then
    body.flatMap (fun node =>
      match node.op with
      | some (.stringLiteral source _ (.known text)) =>
        [.stringFound source, .commented node.lo (Text.quoted text)]
      | _ => [])
  else []

namespace Procedure

/-- Whether some nodes cover the range of a procedure. -/
def isTiledBy (procedure : Procedure) (body : List Node) : Bool :=
  Abutting Node.lo Node.hi body &&
    body.head?.map Node.lo = some procedure.lo &&
    body.getLast?.map Node.hi = some procedure.hi

/-- The frame size of a body whose first node is a prologue. -/
def frameSizeOf (body : List Node) : Nat :=
  match body.head?.bind Node.op with
  | some (.prologue frameSize) => frameSize
  | _ => 0

/--
The body of a procedure with all idioms in it recognized, and its prologue
already so.
-/
def recognize
    (options : Options)
    (image : Image)
    (procedure : Nat)
    (body : List Node) :
    Traced (List Node) := do
  let cached ← Idiom.registerCache options body
  let collapsed ← Idiom.collapseAll image cached
  Traced.emit (Idiom.reportLeftovers options procedure collapsed)
  Traced.emit (Idiom.reportUnreadable procedure collapsed)
  return collapsed

/-- The analysis of a procedure from its body with a recognized prologue on. -/
def analyzeBody
    (options : Options)
    (image : Image)
    (procedure : Procedure)
    (body : List Node) :
    Traced Procedure := do
  let entry := procedure.lo
  let frameSize := frameSizeOf body
  let recognized ← recognize options image entry body
  let measured ← assignDeltas frameSize entry recognized
  let parts ← Graph.partition measured entry
  let graph ← parts.propagateLevels entry
  let leveled ← Traced.ofExcept (graph.annotateLevels measured)
  let replayed ←
    replayBlocks { options, image, procedure := entry } graph leveled
      (FrameSlots.collect leveled)
  let final := replayed.body
  Traced.emit (literalEvents options final)
  if procedure.isTiledBy final then
    let calls := final.filterMap (Node.callSite? entry)
    Traced.note
      (.analysisFinished entry final.length graph.blocks.size
        replayed.slots.size calls.length)
    return { procedure with
      body := final
      slots := replayed.slots
      frameSize := some frameSize
      graph
      calls
      progress := .analyzed
      trackingLostAt := replayed.lostAt }
  else
    Traced.stop (.untiledProcedure entry)

/--
Analyze a procedure that has not been analyzed yet.  Without a prologue the
analysis fails.
-/
def analyze
    (options : Options)
    (image : Image)
    (procedure : Procedure) :
    Traced Procedure :=
  match procedure.progress with
  | .analyzed | .failed => return procedure
  | .pending => do
    Traced.note (.analysisStarted procedure.lo procedure.body.length)
    match ← Traced.ofExcept (Idiom.matchPrologue image procedure.body) with
    | some body => procedure.analyzeBody options image body
    | none =>
      Traced.report procedure.lo (.noPrologue procedure.lo)
      return { procedure with progress := .failed }

end Procedure

end ProcRecovery
