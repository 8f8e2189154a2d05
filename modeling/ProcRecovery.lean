import ProcRecovery.Abutting
import ProcRecovery.CommandLine.Invocation
import ProcRecovery.CommandLine.LogText
import ProcRecovery.CommandLine.Run
import ProcRecovery.Diagnostic
import ProcRecovery.Fault
import ProcRecovery.FrameSlot
import ProcRecovery.Graph.Basic
import ProcRecovery.Graph.Levels
import ProcRecovery.Graph.Partition
import ProcRecovery.Graphviz.Drawing
import ProcRecovery.Graphviz.Library
import ProcRecovery.Idiom.Catalog
import ProcRecovery.Idiom.Collapse
import ProcRecovery.Idiom.Leftovers
import ProcRecovery.Idiom.RegisterCache
import ProcRecovery.Idiom.Shape
import ProcRecovery.Image.Basic
import ProcRecovery.Image.Decoding
import ProcRecovery.Instruction.Basic
import ProcRecovery.Instruction.Dump
import ProcRecovery.Instruction.Mnemonic
import ProcRecovery.Instruction.Operand
import ProcRecovery.Instruction.Register
import ProcRecovery.Instruction.Validity
import ProcRecovery.Instruction.Width
import ProcRecovery.Journal.Event
import ProcRecovery.Journal.Note
import ProcRecovery.Journal.Record
import ProcRecovery.Listing.Error
import ProcRecovery.Listing.Operand
import ProcRecovery.Listing.Reader
import ProcRecovery.Main
import ProcRecovery.Node
import ProcRecovery.Options
import ProcRecovery.Procedure.Analysis
import ProcRecovery.Procedure.Basic
import ProcRecovery.Proofs.Abutting
import ProcRecovery.Proofs.Emission
import ProcRecovery.Proofs.FrameSlot
import ProcRecovery.Proofs.Graph.Accounting
import ProcRecovery.Proofs.Graph.Annotation
import ProcRecovery.Proofs.Graph.Bounds
import ProcRecovery.Proofs.Graph.BreadthFirst
import ProcRecovery.Proofs.Graph.Division
import ProcRecovery.Proofs.Graph.Levels
import ProcRecovery.Proofs.Graph.Maximality
import ProcRecovery.Proofs.Graph.Tiling
import ProcRecovery.Proofs.Graphviz.Drawing
import ProcRecovery.Proofs.Graphviz.Labels
import ProcRecovery.Proofs.Idiom.Absorption
import ProcRecovery.Proofs.Idiom.Bounds
import ProcRecovery.Proofs.Idiom.Catalog
import ProcRecovery.Proofs.Idiom.Conservation
import ProcRecovery.Proofs.Idiom.Containment
import ProcRecovery.Proofs.Idiom.Labels
import ProcRecovery.Proofs.Idiom.Linkage
import ProcRecovery.Proofs.Idiom.Looping
import ProcRecovery.Proofs.Idiom.Loops
import ProcRecovery.Proofs.Idiom.NormalForm
import ProcRecovery.Proofs.Idiom.Recognition
import ProcRecovery.Proofs.Idiom.SlotUses
import ProcRecovery.Proofs.Idiom.Substitution
import ProcRecovery.Proofs.Image.Annotations
import ProcRecovery.Proofs.Image.Chain
import ProcRecovery.Proofs.Image.Growth
import ProcRecovery.Proofs.Image.Insertion
import ProcRecovery.Proofs.Image.Layout
import ProcRecovery.Proofs.Image.Memory
import ProcRecovery.Proofs.Image.Requests
import ProcRecovery.Proofs.Image.Sweep
import ProcRecovery.Proofs.Listing.Overflow
import ProcRecovery.Proofs.Listing.Rearrangement
import ProcRecovery.Proofs.Listing.RoundTrip
import ProcRecovery.Proofs.Listing.Sections
import ProcRecovery.Proofs.Listing.Spelling
import ProcRecovery.Proofs.Listing.Statements
import ProcRecovery.Proofs.Lockstep
import ProcRecovery.Proofs.Machine
import ProcRecovery.Proofs.Outcome
import ProcRecovery.Proofs.Procedure.Analysis
import ProcRecovery.Proofs.Procedure.Bounds
import ProcRecovery.Proofs.Procedure.Flow
import ProcRecovery.Proofs.Procedure.Frames
import ProcRecovery.Proofs.Procedure.Levels
import ProcRecovery.Proofs.Procedure.Locality
import ProcRecovery.Proofs.Procedure.Operations
import ProcRecovery.Proofs.Procedure.Skeleton
import ProcRecovery.Proofs.Procedure.Stages
import ProcRecovery.Proofs.Procedure.Texts
import ProcRecovery.Proofs.Replay.LongArithmetic
import ProcRecovery.Proofs.Replay.Movement
import ProcRecovery.Proofs.Replay.Run
import ProcRecovery.Proofs.Replay.Stores
import ProcRecovery.Proofs.Replay.Strings
import ProcRecovery.Proofs.Replay.Widths
import ProcRecovery.Proofs.Session.Append
import ProcRecovery.Proofs.Session.CallGraph
import ProcRecovery.Proofs.Session.Collection
import ProcRecovery.Proofs.Session.Comments
import ProcRecovery.Proofs.Session.Conservation
import ProcRecovery.Proofs.Session.Drawings
import ProcRecovery.Proofs.Session.FaultFreedom
import ProcRecovery.Proofs.Session.Fixpoint
import ProcRecovery.Proofs.Session.Flow
import ProcRecovery.Proofs.Session.Growth
import ProcRecovery.Proofs.Session.Locality
import ProcRecovery.Proofs.Session.Lookup
import ProcRecovery.Proofs.Session.Moves
import ProcRecovery.Proofs.Session.Overlap
import ProcRecovery.Proofs.Session.Skeleton
import ProcRecovery.Proofs.Session.Widths
import ProcRecovery.Proofs.StackPointer
import ProcRecovery.Proofs.SymbolicStack.Algebra
import ProcRecovery.Proofs.SymbolicStack.Isolation
import ProcRecovery.Proofs.SymbolicStack.Movement
import ProcRecovery.Proofs.SymbolicStack.Reference
import ProcRecovery.Proofs.SymbolicStack.Search
import ProcRecovery.Proofs.SymbolicStack.Update
import ProcRecovery.Proofs.Table
import ProcRecovery.Proofs.Text.Blank
import ProcRecovery.Proofs.Text.Numeral
import ProcRecovery.PseudoOp
import ProcRecovery.Replay
import ProcRecovery.Report
import ProcRecovery.Resolution
import ProcRecovery.Routine
import ProcRecovery.Session.Basic
import ProcRecovery.Session.Discovery
import ProcRecovery.StackEffect
import ProcRecovery.SymbolicStack.Basic
import ProcRecovery.SymbolicStack.Bounded
import ProcRecovery.SymbolicStack.Item
import ProcRecovery.SymbolicStack.Search
import ProcRecovery.Table
import ProcRecovery.Text.Blank
import ProcRecovery.Text.Extending
import ProcRecovery.Text.Numeral
import ProcRecovery.Text.Quoted
import ProcRecovery.Text.Unprintable
import ProcRecovery.Word
import ProcRecovery.Worklist
