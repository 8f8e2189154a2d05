import ProcRecovery.Idiom.Shape
import ProcRecovery.Image.Basic
import ProcRecovery.PseudoOp
import ProcRecovery.Text.Quoted

/-!
# The catalog of idioms

Each template recognizes a fixed number of consecutive instructions and says
which pseudo-operation they stand for.  Templates come in families; within a
family the more specific ones come first.
-/

namespace ProcRecovery

/--
Trap code of an exhausted heap; any other code on a checked branch is that of a
plain limit check.
-/
def heapExhausted : Int := 7

namespace Idiom

/-- A recognizer of a run of instructions. -/
abbrev Recognizer := Image → List Instruction → Option PseudoOp

/-- A template for a fixed number of instructions. -/
structure Template where
  name : String
  length : Nat
  recognize : Recognizer
  length_pos : 0 < length := by decide

/-- Frame setup, allocation of locals, and stack check. -/
def prologueWithLocals : Recognizer
  | _, save :: set :: alloc :: check =>
    match alloc.mnemonic, alloc.operands with
    | .sub, [.immediate size, .register base] =>
      if Instruction.isFrameSetup save set && base = .sp && 0 ≤ size &&
        isStackCheck check then
        some (.prologue size.toNat)
      else none
    | _, _ => none
  | _, _ => none

/-- Frame setup and stack check. -/
def prologue : Recognizer
  | _, save :: set :: check =>
    if Instruction.isFrameSetup save set && isStackCheck check
      then some (.prologue 0) else none
  | _, _ => none

/-- Frame teardown and return. -/
def epilogue : Recognizer
  | _, [reset, restore, ret] =>
    if reset.mnemonic = .mov ∧ reset.operands =
      [.register .fp, .register .sp] ∧
        restore.mnemonic = .mov ∧
        restore.operands = [.autoIncrement .sp, .register .fp] ∧
        ret.mnemonic = .rts ∧ ret.operands = [.register .pc] then
      some .epilogue
    else none
  | _, _ => none

/-- Reload of the stack pointer from a frame slot and jump. -/
def bailout : Recognizer
  | _, [reload, jump] =>
    match reload.move? with
    | some (.indexed slot frame, .register destination) =>
      if jump.mnemonic = .jmp ∧ reload.width = .word ∧ frame = .fp ∧
        destination = .sp then
        some (.bailout slot)
      else none
    | _ => none
  | _, _ => none

/-- The stack check outside of a prologue. -/
def stackCheck : Recognizer
  | _, window => if isStackCheck window then some .stackCheck else none

/-- A comparison or subtraction, a branch past a trap, and the trap. -/
def checkedBranch : Recognizer
  | _, [test, branch, trap] =>
    if (test.mnemonic = .cmp ∨ test.mnemonic = .sub) ∧
      test.movesStack = false ∧
        branch.isBranch ∧ branch.firstTarget? = some trap.hi ∧
        trap.mnemonic = .trap then
      if trap.operands.head?.bind Operand.immediate? = some heapExhausted then
        some .allocationCheck
      else some .limitCheck
    else none
  | _, _ => none

/-- A step of a variable followed by a check of the same variable. -/
def checkedStep : Recognizer
  | _, [step, check] =>
    match step.operands, check.operands with
    | [stepped], [checked, _] =>
      if (step.mnemonic = .inc ∨ step.mnemonic = .dec) ∧
        stepped.base? ≠ some .sp ∧
          check.mnemonic = .chk ∧ checked = stepped ∧ check.movesStack = false
            then
        some .limitCheck
      else none
    | _, _ => none
  | _, _ => none

/--
A loop that pushes units downwards from the end of a text, with the last unit
outside of the loop.
-/
def stringLiteral : Recognizer
  | image, [base, load, move, step, last] => do
    let (stop, pointer) ← base.load?
    let loop ← CountedLoop.ofInstructions? load move step
    if pointer ≠ loop.counter ∧ loop.source = .autoDecrement pointer ∧
        loop.destination = .autoDecrement .sp ∧ last.mnemonic = .mov ∧
        last.width = loop.unit ∧ last.operands = move.operands then do
      let width ← loopBytes? loop.count 1 loop.unit
      if (width : Int) ≤ stop then
        let source := stop.toNat - width
        let text := (image.read source width).toOption.map Text.ofBytes
        some (.stringLiteral source width (.ofOption text))
      else none
    else none
  | _, _ => none

/-- A loop that pushes units upwards from a fixed address. -/
def blobPushLiteral : Recognizer
  | image, [base, load, move, step] => do
    let (address, pointer) ← base.load?
    let loop ← CountedLoop.ofInstructions? load move step
    if loop.source = .autoIncrement pointer ∧
      loop.destination = .autoDecrement .sp ∧
        loop.counter ≠ pointer then do
      let width ← loopBytes? loop.count 0 loop.unit
      if 0 ≤ address then
        let source := address.toNat
        let content := (image.read source width).toOption
        some (.blob width (some source) .push (.ofOption content))
      else none
    else none
  | _, _ => none

/-- A loop that pushes units upwards from where a register points. -/
def blobPushRegister : Recognizer
  | _, [load, move, step] => do
    let loop ← CountedLoop.ofInstructions? load move step
    match loop.source, loop.destination with
    | .autoIncrement pointer, .autoDecrement stack =>
      if pointer.isGeneral ∧ stack = .sp then do
        let width ← loopBytes? loop.count 0 loop.unit
        some (.blob width none .push .unrecoverable)
      else none
    | _, _ => none
  | _, _ => none

/-- A loop that pops units to where a register points. -/
def blobPop : Recognizer
  | _, [load, move, step] => do
    let loop ← CountedLoop.ofInstructions? load move step
    match loop.source, loop.destination with
    | .autoIncrement stack, .autoIncrement pointer =>
      if stack = .sp ∧ pointer.isGeneral then do
        let width ← loopBytes? loop.count 0 loop.unit
        some (.blob width none .pop .notComputed)
      else none
    | _, _ => none
  | _, _ => none

/--
A loop that copies units from where one register points to where another one
does.
-/
def blockMove : Recognizer
  | _, [load, move, step] => do
    let loop ← CountedLoop.ofInstructions? load move step
    match loop.source, loop.destination with
    | .autoIncrement source, .autoIncrement destination =>
      if source.isGeneral ∧ destination.isGeneral ∧ source ≠ destination
        then do
        let count ← loopBytes? loop.count 0 loop.unit
        some (.blockMove source destination count)
      else none
    | _, _ => none
  | _, _ => none

/--
The distance in a push of a register followed by an addition to the pushed
value.
-/
def computedReference? (base : Register) : List Instruction → Option Int
  | [push, add] =>
    match push.move?, add.mnemonic, add.operands with
    | some (.register pushed, .autoDecrement stack), .add,
      [.immediate distance, .deferred top] =>
      if push.isWord ∧ add.isWord ∧ pushed = base ∧ stack = .sp ∧ top = .sp
        then some distance
      else none
    | _, _, _ => none
  | _ => none

/-- The distance in a push of an effective address. -/
def effectiveReference? (base : Register) : List Instruction → Option Int
  | [push] =>
    match push.mnemonic, push.operands with
    | .lea, [.indexed distance register, .autoDecrement stack] =>
      if register = base ∧ stack = .sp then some distance else none
    | _, _ => none
  | _ => none

/-- The address of a frame slot, computed on the stack. -/
def frameReferenceComputed : Recognizer
  | _, window => (computedReference? .fp window).map .frameReference

/-- The address of a stack location, computed on the stack. -/
def stackReferenceComputed : Recognizer
  | _, window => (computedReference? .sp window).map .stackReference

/-- The address of a frame slot. -/
def frameReference : Recognizer
  | _, window => (effectiveReference? .fp window).map .frameReference

/-- The address of a stack location. -/
def stackReference : Recognizer
  | _, window => (effectiveReference? .sp window).map .stackReference

/-- A push of a literal, or of zero by clearing. -/
def constantPush : Recognizer
  | _, [push] =>
    match push.mnemonic, push.operands with
    | .mov, [.immediate value, .autoDecrement stack] =>
      if stack = .sp then some (.constantPush push.width value) else none
    | .clr, [.autoDecrement stack] =>
      if stack = .sp then some (.constantPush push.width 0) else none
    | _, _ => none
  | _, _ => none

/--
The distance by which an instruction moves the stack pointer and does nothing
else of interest.
-/
def adjustment? (instruction : Instruction) : Option Int :=
  match instruction.mnemonic, instruction.operands with
  | .add, [.immediate bytes, .register base] =>
      if base = .sp then some bytes else none
  | .sub, [.immediate bytes, .register base] =>
      if base = .sp then some (-bytes) else none
  | .tst, [.autoIncrement base] =>
    if base = .sp then some instruction.width.bytes else none
  | .cmp, [.autoIncrement first, .autoIncrement second] =>
    if first = .sp ∧ second = .sp then some (2 * instruction.width.bytes)
      else none
  | _, _ => none

/-- A movement of the stack pointer within the address space. -/
def stackAdjust : Recognizer
  | _, [instruction] => do
    let bytes ← adjustment? instruction
    if bytes.natAbs < addressSpace then some (.stackAdjust bytes) else none
  | _, _ => none

/-- A call through the program counter. -/
def call : Recognizer
  | image, [instruction] =>
    match instruction.mnemonic, instruction.operands with
    | .jsr, [.register linkage, destination] =>
      if linkage = .pc then
        let address := destination.staticAddress?
        let routineName := address.bind image.runtime.get?
        let label := address.bind image.labels.get? <|> routineName
        some (.call (.ofOption address) label
          (routineName.bind Routine.ofName?))
      else none
    | _, _ => none
  | _, _ => none

/-- The templates of prologues. -/
def prologues : List Template :=
  [ { name := "prologue-with-locals", length := 7,
      recognize := prologueWithLocals },
    { name := "prologue", length := 6, recognize := prologue } ]

/-- Idioms that leave the procedure. -/
def leavingFamily : List Template :=
  [ { name := "epilogue", length := 3, recognize := epilogue },
    { name := "bailout", length := 2, recognize := bailout } ]

/-- Idioms that check something. -/
def checkingFamily : List Template :=
  [ { name := "stack-check", length := 4, recognize := stackCheck },
    { name := "checked-branch", length := 3, recognize := checkedBranch },
    { name := "checked-step", length := 2, recognize := checkedStep } ]

/-- Idioms that move bytes in a loop. -/
def loopingFamily : List Template :=
  [ { name := "string-literal", length := 5, recognize := stringLiteral },
    { name := "blob-push-literal", length := 4, recognize := blobPushLiteral },
    { name := "blob-push-register", length := 3,
      recognize := blobPushRegister },
    { name := "blob-pop", length := 3, recognize := blobPop },
    { name := "block-move", length := 3, recognize := blockMove } ]

/-- Idioms that move the stack pointer once, and calls. -/
def stackFamily : List Template :=
  [ { name := "frame-ref-computed", length := 2,
      recognize := frameReferenceComputed },
    { name := "stack-ref-computed", length := 2,
      recognize := stackReferenceComputed },
    { name := "frame-ref", length := 1, recognize := frameReference },
    { name := "stack-ref", length := 1, recognize := stackReference },
    { name := "const-push", length := 1, recognize := constantPush },
    { name := "stack-adjust", length := 1, recognize := stackAdjust },
    { name := "call", length := 1, recognize := call } ]

/-- The families in the order in which they are applied. -/
def families : List (List Template) :=
  [leavingFamily, checkingFamily, loopingFamily, stackFamily]

end Idiom

end ProcRecovery
