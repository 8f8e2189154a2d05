import ProcRecovery.FrameSlot
import ProcRecovery.Image.Basic
import ProcRecovery.Journal.Event
import ProcRecovery.Options
import ProcRecovery.SymbolicStack.Bounded

/-!
# Symbolic replay

The nodes of a block are replayed on a symbolic stack, so that literal operands
and the arguments of calls come to light.  Calls of known runtime routines have
their own effect; every other node without a more specific one moves the stack
by its stack effect.  As long as the stack is tracked, its width changes by
exactly the stack effect of each node.
-/

namespace ProcRecovery

/--
The signed 32-bit value that an integer stands for modulo two to the
thirty-second.
-/
def longValue (value : Int) : Int := Int.bmod value 0x100000000

/--
The signed 16-bit value that an integer stands for modulo two to the sixteenth.
-/
def shortValue (value : Int) : Int := Int.bmod value 0x10000

/-- The quotient of two 32-bit values toward zero, if it is one. -/
def longQuotient? (dividend divisor : Int) : Option Int :=
  if divisor = 0 ∨ (dividend = -0x80000000 ∧ divisor = -1) then none
  else some (dividend.tdiv divisor)

namespace Routine

/--
The 32-bit result of an arithmetic routine on 32-bit operands, left operand
first.
-/
def arithmetic? (routine : Routine) (left right : Int) : Option Int :=
  match routine with
  | longAdd => some (longValue (left + right))
  | longSub => some (longValue (left - right))
  | longMul => some (longValue (left * right))
  | longDiv => longQuotient? left right
  | _ => none

/--
The content that a routine leaves on the stack for given argument contents, top
first.
-/
def resultContent (routine : Routine) (arguments : List Content) : Content :=
  match routine, arguments with
  | longAdd, [.longInt right, .longInt left]
  | longSub, [.longInt right, .longInt left]
  | longMul, [.longInt right, .longInt left]
  | longDiv, [.longInt right, .longInt left] =>
    match routine.arithmetic? (longValue left) (longValue right) with
    | some value => .longInt value
    | none => .unknown
  | longFromInt, [.smallInt value] => .longInt (shortValue value)
  | stringConcat, [.stringRef (some right), .stringRef (some left)] =>
    .stringRef (some (left ++ right))
  | stringConcat, _ => .stringRef none
  | _, _ => .unknown

/--
The item that a routine leaves on the stack for given arguments, top first.
-/
def result?
    (routine : Routine)
    (arguments : List StackItem) :
    Option StackItem :=
  if routine.resultWidth = 0 then none
  else
    some ⟨routine.resultWidth,
      routine.resultContent (arguments.map StackItem.content)⟩

end Routine

/-- What a replay looks at besides the nodes and the stack. -/
structure ReplayContext where
  options : Options
  image : Image
  /-- Entry of the procedure that is replayed. -/
  procedure : Nat

/-- What a replay changes. -/
structure ReplayState where
  stack : SymbolicStack
  slots : FrameSlots

namespace ReplayState

/-- The state with another stack. -/
def withStack
    (state : ReplayState)
    (stack : SymbolicStack) :
    ReplayState :=
  { state with stack }

/-- Put an item on the stack. -/
def push (state : ReplayState) (item : StackItem) : Except Fault ReplayState :=
  return state.withStack (← state.stack.boundedPush item)

/-- Move the stack by a stack effect. -/
def move (state : ReplayState) (delta : Int) : Except Fault ReplayState :=
  if delta < 0 then state.push (.unknown delta.natAbs)
  else .ok (state.withStack (state.stack.pop delta.natAbs).1)

end ReplayState

/--
Take one argument from the stack; one that is not a single item is unknown.
-/
def popArgument
    (stack : SymbolicStack)
    (width : Nat) :
    SymbolicStack × StackItem :=
  match stack.pop width with
  | (rest, [item]) =>
      (rest, if item.width = width then item else .unknown width)
  | (rest, _) => (rest, .unknown width)

/-- Take arguments from the stack, top first. -/
def popArguments
    (stack : SymbolicStack) :
    List Nat → SymbolicStack × List StackItem
  | [] => (stack, [])
  | width :: later =>
    let (rest, argument) := popArgument stack width
    let (final, arguments) := popArguments rest later
    (final, argument :: arguments)

namespace ReplayContext

/-- Call a routine that removes its arguments. -/
def callRoutine
    (routine : Routine)
    (site : Nat)
    (state : ReplayState) :
    Traced ReplayState :=
  let (rest, arguments) := popArguments state.stack routine.argumentWidths
  match routine.result? arguments with
  | some result => do
    Traced.note (.callResult site routine.name result.text)
    Traced.ofExcept ((state.withStack rest).push result)
  | none => return state.withStack rest

/-- The small literal at an offset of the stack. -/
def smallArgument (stack : SymbolicStack) (offset : Nat) :
    Except Fault (SymbolicStack × Option Int) := do
  let (restructured, found) ← stack.boundedGet offset 2
  match found with
  | some ⟨_, .smallInt value⟩ => .ok (restructured, some value)
  | _ => .ok (restructured, none)

/-- Attach a text to the destination that a string construction was given. -/
def attachText (site length : Nat) (text : String) (state : ReplayState) :
    Traced ReplayState := do
  let (stack, destination) ← Traced.ofExcept (state.stack.boundedGet 4 2)
  match destination.map StackItem.content with
  | some (.frameReference offset) =>
    return {
      stack
      slots := state.slots.update offset (fun slot => { slot with text }) }
  | some (.backReference _) =>
    let (resolved, target) ← Traced.ofExcept (stack.boundedResolve 4)
    match target with
    | some offset =>
      let stored ← Traced.ofExcept
          (resolved.boundedPut offset ⟨length, .stringRef (some text)⟩)
      return state.withStack stored
    | none => return state.withStack resolved
  | _ =>
    Traced.note (.stringDestinationUnknown site)
    return state.withStack stack

/-- The events of a text found at an address and used at a site. -/
def textEvents
    (context : ReplayContext)
    (site address : Nat)
    (text : String) :
    List Event :=
  if context.options.materializesStrings then
    [.stringFound address, .commented site (Text.quoted text)]
  else []

/--
Call the routine that copies a text into a string.  Its arguments are, from the
top, the length of the text, its address, and the destination.
-/
def constructString
    (context : ReplayContext)
    (site : Nat)
    (state : ReplayState) :
    Traced ReplayState := do
  let (once, length) ← Traced.ofExcept (smallArgument state.stack 0)
  let (stack, address) ← Traced.ofExcept (smallArgument once 2)
  match length, address with
  | some length, some address =>
    if 0 < length ∧ 0 ≤ address then
      match context.image.read address.toNat length.toNat with
      | .ok bytes =>
        let text := Text.ofBytes bytes
        Traced.emit (context.textEvents site address.toNat text)
        attachText site length.toNat text (state.withStack stack)
      | .error read =>
        Traced.report context.procedure (.memoryUnavailable site read)
        return state.withStack stack
    else
      Traced.note (.stringArgumentsUnknown site)
      return state.withStack stack
  | _, _ =>
    Traced.note (.stringArgumentsUnknown site)
    return state.withStack stack

/--
Replay a machine instruction: it moves the stack, and a literal may be stored
into a slot that is already there.
-/
def applyInstruction
    (instruction : Instruction)
    (delta : Int)
    (state : ReplayState) :
    Except Fault ReplayState := do
  let moved ← state.move delta
  match instruction.mnemonic, instruction.operands with
  | .mov, [.immediate value, .indexed displacement base] =>
    if base = .sp ∧ 0 ≤ displacement then
      let stack ← moved.stack.boundedPut displacement.toNat
        ⟨instruction.width.bytes, .smallInt value⟩
      return moved.withStack stack
    else
      return moved
  | _, _ => return moved

/-- Replay a node. -/
def apply
    (context : ReplayContext)
    (node : Node)
    (state : ReplayState) :
    Traced ReplayState :=
  match node.op with
  | none => Traced.ofExcept (applyInstruction node.first node.stackDelta state)
  | some (.constantPush width value) =>
    let content := if width = .long then Content.longInt value
      else .smallInt value
    Traced.ofExcept (state.push ⟨width.bytes, content⟩)
  | some (.blob width _ .push content) =>
    Traced.ofExcept (state.push ⟨width, .blob content.value?⟩)
  | some (.stringLiteral _ width text) =>
    Traced.ofExcept (state.push ⟨width, .stringRef text.value?⟩)
  | some (.frameReference offset) =>
      Traced.ofExcept (state.push ⟨2, .frameReference offset⟩)
  | some (.stackReference offset) =>
      Traced.ofExcept (state.push ⟨2, .backReference offset⟩)
  | some (.call _ _ (some .stringLiteral)) =>
      context.constructString node.lo state
  | some (.call _ _ (some routine)) => callRoutine routine node.lo state
  | some _ => Traced.ofExcept (state.move node.stackDelta)

end ReplayContext

/--
Make sure that a replayed node has moved a tracked stack by its stack effect.
-/
def checkMovement
    (node : Node)
    (before : Nat)
    (stack : SymbolicStack) :
    Except Fault Unit :=
  if stack.isMangled then .ok ()
  else do
    let after ← stack.measure
    let change ← signedOr .widthOverflow
        (signedReading after - signedReading before)
    let expected ← signedOr .deltaOverflow (-node.stackDelta)
    if change = expected then .ok () else .error (.replayDivergence node.lo)

/-- The outcome of replaying some nodes. -/
structure Replayed where
  /-- The nodes with the stack after each one that was replayed. -/
  nodes : List Node
  state : ReplayState
  /-- Where tracking was lost, if it was. -/
  lostAt : Option Nat

/-- Replay nodes one after the other, as long as the stack is tracked. -/
def replay
    (context : ReplayContext) :
    List Node → ReplayState → Traced Replayed
  | [], state => return { nodes := [], state, lostAt := none }
  | node :: later, state =>
    if state.stack.isMangled then
      return { nodes := node :: later, state, lostAt := none }
    else do
      let before ← Traced.ofExcept state.stack.measure
      let next ← context.apply node state
      Traced.ofExcept (checkMovement node before next.stack)
      let rest ← replay context later next
      let annotated := { node with stackAfter := some next.stack.text }
      let lostAt := if next.stack.isMangled then some node.lo else rest.lostAt
      return { nodes := annotated :: rest.nodes, state := rest.state, lostAt }

/--
The stack of a block entered at a level.  Nothing can be said about a block
that is entered above the level at procedure entry.
-/
def entryStack? : Resolution Int → Option SymbolicStack
  | .known level =>
      if level ≤ 0 then some (.withUnknown level.natAbs) else none
  | _ => none

end ProcRecovery
