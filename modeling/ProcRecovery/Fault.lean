import ProcRecovery.Word

/-!
# Faults

A fault is a broken promise of the analysis itself: a sum that leaves its
64-bit word, a run of instructions that should have been contiguous, blocks
that should have covered a body.  It ends the computation it occurs in.
Whatever is merely odd about the analyzed code is a diagnostic instead and ends
nothing.
-/

namespace ProcRecovery

/-- The ways in which the analysis can stop short. -/
inductive Fault where
  /--
  An instruction starting at this address would end outside the address range
  of a word.
  -/
  | extentOverflow (lo : Nat)
  /-- The negation of a literal does not fit in a word. -/
  | negationOverflow
  /-- A pseudo-operation was asked to stand for no instruction at all. -/
  | emptyRun
  /--
  A pseudo-operation was asked to stand for instructions that do not abut.
  -/
  | brokenRun (lo : Nat)
  /--
  The stack effect of a node, or the sum over a block, does not fit in a word.
  -/
  | deltaOverflow
  /-- The stack level after a node or a block does not fit in a word. -/
  | levelOverflow
  /-- The blocks of a graph do not cover the body they were computed from. -/
  | untiledBlocks
  /-- A block names nodes which the body does not have. -/
  | missingNodes (lo : Nat)
  /-- The width of a symbolic stack does not fit in a word. -/
  | widthOverflow
  /-- A symbolic stack has no item where one was looked for. -/
  | missingItem
  /--
  An item of a symbolic stack was to be divided with nothing on one side.
  -/
  | emptyPart
  /-- The item that a search has isolated is not as wide as the range. -/
  | inexactRange
  /--
  The replay of a node moved the stack by something else than the node's stack
  effect.
  -/
  | replayDivergence (lo : Nat)
  /-- A procedure was found twice at one entry. -/
  | entryTaken (lo : Nat)
  /-- The nodes of an analyzed procedure do not cover its address range. -/
  | untiledProcedure (lo : Nat)
  /-- A text that has to be a name of a drawing is not accepted as one. -/
  | refusedName
  /-- A block that is to be drawn is not there. -/
  | missingBlock (lo : Nat)
  /-- A drawing could not be written to memory. -/
  | unwrittenDrawing
  /-- What has been written for a drawing is not text. -/
  | brokenText
  deriving Repr, DecidableEq

/--
The integer itself if a signed word can hold it, and the given fault otherwise.
-/
def signedOr (fault : Fault) (value : Int) : Except Fault Int :=
  if FitsSigned value then .ok value else .error fault

/--
The natural number itself if an unsigned word can hold it, and the given fault
otherwise.
-/
def unsignedOr (fault : Fault) (value : Nat) : Except Fault Nat :=
  if FitsUnsigned value then .ok value else .error fault

theorem signedOr_eq_ok_iff {fault : Fault} {value result : Int} :
    signedOr fault value = .ok result ↔ FitsSigned value ∧ value = result := by
  unfold signedOr
  split <;> simp_all

theorem unsignedOr_eq_ok_iff {fault : Fault} {value result : Nat} :
    unsignedOr fault value = .ok result ↔
    FitsUnsigned value ∧ value = result := by
  unfold unsignedOr
  split <;> simp_all

/--
Sum of a list of signed quantities from left to right, every partial sum within
a word.
-/
def signedSum (fault : Fault) (values : List Int) : Except Fault Int :=
  values.foldlM (fun total value => signedOr fault (total + value)) 0

end ProcRecovery
