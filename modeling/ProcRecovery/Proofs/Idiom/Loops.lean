import ProcRecovery.Proofs.Idiom.Substitution
import ProcRecovery.Proofs.Machine

/-!
# What loops do

A counted loop of a copying instruction stands for one operation that moves
bytes.  Executed on the reference machine, the instructions of such an
operation come to their end, move the stack pointer by the stack effect of the
operation and copy as many bytes as it records.  A text that is pushed from its
end arrives in order, and a piece that is pushed from its start arrives with
its units in reverse order.
-/

namespace ProcRecovery

open Machine Memory

/-! ## The parts of a loop -/

theorem Instruction.load?_eq_some
    {load : Instruction} {value : Int} {base : Register}
    (loads : load.load? = some (value, base)) :
    load.mnemonic = .mov ∧ load.operands = [.immediate value, .register base] ∧
      base.isGeneral = true := by
  unfold load? at loads
  split at loads
  next source destination moves operands =>
    split at loads
    next =>
      simp only [Option.bind_eq_bind, Option.bind_eq_some_iff] at loads
      obtain ⟨number, isNumber, register, isGeneral, same⟩ := loads
      cases same
      obtain ⟨rfl, passes⟩ := Operand.general?_eq_some isGeneral
      refine ⟨moves, ?_, passes⟩
      unfold Operand.immediate? at isNumber
      split at isNumber
      next =>
        cases isNumber
        exact operands
      next => cases isNumber
    next => cases loads
  next => cases loads

/-- The instructions that a counted loop is made of. -/
structure CountedLoop.IsMadeOf
    (loop : CountedLoop)
    (load move step : Instruction) :
    Prop where
  loads : load.mnemonic = .mov
  loaded : load.operands = [.immediate loop.count, .register loop.counter]
  general : loop.counter.isGeneral = true
  moves : move.mnemonic = .mov
  moved : move.operands = [loop.source, loop.destination]
  unit : move.width = loop.unit
  loops : step.mnemonic = .sob
  looped : step.operands = [.register loop.counter, .target move.lo]
  sourceApart : loop.source.base? ≠ some loop.counter
  destinationApart : loop.destination.base? ≠ some loop.counter

theorem CountedLoop.isMadeOf_of_ofInstructions?
    {load move step : Instruction} {loop : CountedLoop}
    (found : ofInstructions? load move step = some loop) :
    loop.IsMadeOf load move step := by
  unfold ofInstructions? at found
  simp only [Option.bind_eq_bind, Option.bind_eq_some_iff] at found
  obtain ⟨⟨count, counter⟩, isLoad, ⟨source, destination⟩, isMove,
      ⟨stepped, start⟩, isLoop, found⟩ := found
  split at found
  next same =>
    cases found
    obtain ⟨rfl, rfl, unmentioned⟩ := same
    obtain ⟨loads, loaded, general⟩ := Instruction.load?_eq_some isLoad
    have moves : move.mnemonic = .mov ∧
        move.operands = [source, destination] := by
      unfold Instruction.move? at isMove
      split at isMove
      next first second moves operands =>
        cases isMove
        exact ⟨moves, operands⟩
      next => cases isMove
    have loops : step.mnemonic = .sob ∧
        step.operands = [.register counter, .target move.lo] := by
      unfold Instruction.loop? at isLoop
      split at isLoop
      next first second loops operands =>
        simp only [Option.bind_eq_bind, Option.bind_eq_some_iff] at isLoop
        obtain ⟨register, isGeneral, target, isTarget, same⟩ := isLoop
        cases same
        obtain ⟨rfl, -⟩ := Operand.general?_eq_some isGeneral
        refine ⟨loops, ?_⟩
        unfold Operand.target? at isTarget
        split at isTarget
        next =>
          cases isTarget
          exact operands
        next => cases isTarget
      next => cases isLoop
    have apart : source.base? ≠ some counter ∧
        destination.base? ≠ some counter := by
      simpa [Instruction.mentions, moves.2] using unmentioned
    exact ⟨loads, loaded, general, moves.1, moves.2, rfl, loops.1, loops.2,
      apart.1, apart.2⟩
  next => cases found

/--
The loop of its instructions, if each of its operands moves a register of its
own.
-/
theorem CountedLoop.IsMadeOf.isLoopedBy
    {loop : CountedLoop} {load move step : Instruction}
    (made : loop.IsMadeOf load move step)
    (transfer : Transfer)
    (unit : transfer.unit = loop.unit.bytes)
    (source : loop.source.stepping? transfer.unit = some transfer.source)
    (target : loop.destination.stepping? transfer.unit = some transfer.target)
    (apart : transfer.source.base ≠ transfer.target.base)
    (meets : move.hi = step.lo) :
    transfer.IsLoopedBy loop.counter move step where
  made :=
    { moves := made.moves
      unit := by rw [made.unit, unit]
      operands := ⟨loop.source, loop.destination, made.moved, source, target⟩
      apart }
  loops := made.loops
  operands := made.looped
  meets
  sourceApart := by
    rintro same
    apply made.sourceApart
    rw [same, Operand.base?_of_stepping? source]
  targetApart := by
    rintro same
    apply made.destinationApart
    rw [same, Operand.base?_of_stepping? target]

/--
From its load on, a loop copies as many units as it counts, and comes out at
its end.
-/
theorem CountedLoop.IsMadeOf.runs
    {loop : CountedLoop} {load move step : Instruction}
    (made : loop.IsMadeOf load move step)
    {transfer : Transfer}
    (looped : transfer.IsLoopedBy loop.counter move step)
    (positive : 0 < loop.count)
    {code : List Instruction}
    (abuts : Abutting Instruction.lo Instruction.hi code)
    (hasLoad : load ∈ code)
    (hasMove : move ∈ code)
    (hasStep : step ∈ code)
    (meets : load.hi = move.lo)
    {start : Machine}
    (atLoad : start.next = load.lo) :
    ∃ after, Runs code start after ∧
      transfer.HasCopied loop.counter start loop.count.toNat after ∧
        after.next = step.hi := by
  have loads := execute_load start made.loads made.loaded
  have nothing :=
    (Transfer.hasCopied_zero transfer loop.counter start).load loop.count
      load.hi
    looped.sourceApart looped.targetApart
  obtain ⟨after, run, copied, atEnd⟩ :=
    looped.runs abuts hasMove hasStep (loop.count.toNat - 1)
    meets nothing (by rw [registers_load_self]; omega)
  refine ⟨after, run.head (steps_of_execute abuts hasLoad atLoad loads), ?_,
    atEnd⟩
  rwa [Nat.zero_add, Nat.sub_add_cancel (by omega)] at copied

/-! ## What is left behind -/

/-- Whether an instruction copies from memory to memory. -/
def Instruction.isTransfer (instruction : Instruction) : Bool :=
  instruction.mnemonic = .mov && instruction.operands.all Operand.isMemory

/-- Between operands in memory, a loop copies from memory to memory. -/
theorem CountedLoop.IsMadeOf.isTransfer
    {loop : CountedLoop} {load move step : Instruction}
    (made : loop.IsMadeOf load move step)
    (source : loop.source.isMemory = true)
    (destination : loop.destination.isMemory = true) :
    move.isTransfer = true := by
  simp [Instruction.isTransfer, made.moves, made.moved, source, destination]

namespace PseudoOp

/--
The bytes that the loop of an operation copies from one place in memory to
another, as the operation records them.
-/
def copiedBytes : PseudoOp → Nat
  | blob width _ _ _ | stringLiteral _ width _ => width
  | blockMove _ _ count => count
  | _ => 0

/--
What is on the stack after a push from a fixed address, as long as nothing is
overwritten before it is pushed: a text as it is in memory, and a piece with
its units in reverse order.  The unit is that of an instruction of the window
that copies.
-/
def LeavesCopy
    (op : PseudoOp)
    (window : List Instruction)
    (start final : Machine) :
    Prop :=
  match op with
  | stringLiteral source width _ =>
    ∃ copies ∈ window, copies.isTransfer = true ∧ ∃ count : Nat,
      width = count * copies.width.bytes ∧
      (ReadsIntact (start.registers .sp) copies.width.bytes
          (downward (source + width) copies.width.bytes) count →
        final.memory.bytes (final.registers .sp) width =
          start.memory.bytes source width)
  | blob width (some source) .push _ =>
    ∃ copies ∈ window, copies.isTransfer = true ∧ ∃ count : Nat,
      width = count * copies.width.bytes ∧
      (ReadsIntact (start.registers .sp) copies.width.bytes
          (upward source copies.width.bytes) count →
        final.memory.bytes (final.registers .sp) width =
          (start.memory.units copies.width.bytes
            (upward source copies.width.bytes) count).reverse.flatten)
  | _ => True

end PseudoOp

/--
The execution of the instructions of a node does what the operation of the node
says: it comes to the end of the node, copies the bytes that are recorded,
moves the stack pointer by the stack effect, and leaves what is pushed on the
stack.
-/
structure Node.IsPerformed
    (node : Node)
    (op : PseudoOp)
    (frameSize : Nat)
    (start final : Machine) :
    Prop where
  ends : EndsIn node.instructions start final
  atEnd : final.next = node.hi
  moved : final.moved = start.moved + op.copiedBytes
  effect : ∃ delta, node.stackEffect frameSize = .ok (.delta delta) ∧
    final.registers .sp = start.registers .sp + delta
  copy : op.LeavesCopy node.instructions start final

namespace Node

theorem lo_of_wrap
    {op : Option PseudoOp} {first : Instruction} {rest : List Instruction}
    {node : Node}
    (wrapped : wrap op (first :: rest) = .ok node) :
    node.lo = first.lo :=
  congrArg Instruction.lo (List.cons.inj (instructions_of_wrap wrapped)).1

theorem abutting_of_wrap
    {op : Option PseudoOp} {window : List Instruction} {node : Node}
    (wrapped : wrap op window = .ok node) :
    Abutting Instruction.lo Instruction.hi window := by
  cases window with
  | nil => cases wrapped
  | cons first rest =>
      rw [wrap] at wrapped
      split at wrapped
      next abuts => exact abuts
      next => cases wrapped

/--
A run of the instructions of a node to its end does what the operation says if
it copies the bytes, moves the stack pointer and leaves the pushed bytes as it
should.
-/
theorem isPerformed_of_runs
    {op : PseudoOp} {window : List Instruction} {node : Node}
    (wrapped : wrap (some op) window = .ok node)
    {frameSize : Nat} {start final : Machine}
    (runs : Runs window start final)
    {last : Instruction}
    (isLast : window.getLast? = some last)
    (atEnd : final.next = last.hi)
    (moved : final.moved = start.moved + op.copiedBytes)
    {delta : Int}
    (effect : node.stackEffect frameSize = .ok (.delta delta))
    (moves : final.registers .sp = start.registers .sp + delta)
    (copy : op.LeavesCopy window start final) :
    node.IsPerformed op frameSize start final := by
  have owns := instructions_of_wrap wrapped
  have abuts := abutting_of_wrap wrapped
  have isEnd : node.hi = last.hi := by
    rw [← owns, getLast?_instructions, Option.some.injEq] at isLast
    rw [hi, isLast]
  subst owns
  exact
    { ends := ⟨runs, step?_of_end abuts isLast atEnd⟩
      atEnd := atEnd.trans isEnd.symm
      moved
      effect := ⟨delta, effect, moves⟩
      copy }

end Node

/--
A loop on its own does what an operation says if it copies as many bytes and
moves the stack pointer as it should, and nothing is promised of what it leaves
on the stack.
-/
theorem CountedLoop.IsMadeOf.isPerformed
    {loop : CountedLoop} {load move step : Instruction}
    (made : loop.IsMadeOf load move step)
    {op : PseudoOp} {node : Node}
    (wrapped : Node.wrap (some op) [load, move, step] = .ok node)
    {start : Machine}
    (atStart : start.next = node.lo)
    (bytes : loopBytes? loop.count 0 loop.unit = some op.copiedBytes)
    {source target : Stepping}
    (isSource : loop.source.stepping? loop.unit.bytes = some source)
    (isTarget : loop.destination.stepping? loop.unit.bytes = some target)
    (apart : source.base ≠ target.base)
    {frameSize : Nat} {delta : Int}
    (effect : node.stackEffect frameSize = .ok (.delta delta))
    (moves :
      ∀ final,
      Transfer.HasCopied ⟨loop.unit.bytes, source, target⟩ loop.counter start
        loop.count.toNat final → final.registers .sp =
        start.registers .sp + delta)
    (copy : ∀ final, op.LeavesCopy [load, move, step] start final) :
    ∃ final, node.IsPerformed op frameSize start final := by
  have abuts := Node.abutting_of_wrap wrapped
  obtain ⟨positive, isWidth, -⟩ := loopBytes?_eq_some bytes
  have looped :=
    made.isLoopedBy ⟨loop.unit.bytes, source, target⟩ rfl isSource isTarget
      apart
    abuts.2.1
  obtain ⟨final, runs, copied, atEnd⟩ :=
    made.runs looped positive abuts (by simp) (by simp)
    (by simp) abuts.1 (atStart.trans (Node.lo_of_wrap wrapped))
  have moved : final.moved = start.moved + op.copiedBytes := by
    rw [isWidth]
    exact copied.moved
  exact ⟨final, Node.isPerformed_of_runs wrapped runs rfl atEnd moved effect
    (moves final copied) (copy final)⟩

namespace Idiom

/--
The nodes of a recognizer do what their operations say, from any machine that
is about to execute them.
-/
def Recognizer.IsPerformed (recognize : Recognizer) : Prop :=
  ∀ (image : Image) (window : List Instruction) (op : PseudoOp) (node : Node)
    (frameSize : Nat)
    (start : Machine), recognize image window = some op →
    Node.wrap (some op) window = .ok node →
    start.next = node.lo → ∃ final, node.IsPerformed op frameSize start final

/-! ## Loops without a fixed address -/

/-- The bytes that are pushed are taken off the stack pointer. -/
theorem stackEffect_of_pushes
    {node : Node} {width : Nat}
    (pushes :
      (∃ source content, node.op = some (.blob width source .push content)) ∨
      ∃ source text, node.op = some (.stringLiteral source width text))
    (small : width ≤ addressSpace)
    (frameSize : Nat) :
    node.stackEffect frameSize = .ok (.delta (-width)) := by
  unfold addressSpace at small
  have reading :=
    signedReading_of_lt (show width < 0x8000000000000000 by omega)
  have fits : signedOr .deltaOverflow (-(width : Int)) =
      .ok (-(width : Int)) :=
    signedOr_of_natAbs_lt _ (by omega)
  rcases pushes with ⟨source, content, isOp⟩ | ⟨source, text, isOp⟩
  · rw [Node.stackEffect, isOp]
    simp only [reading, fits]
    rfl
  · rw [Node.stackEffect, isOp]
    simp only [reading, fits]
    rfl

theorem isGeneral_ne_sp
    {base : Register}
    (general : base.isGeneral = true) :
    base ≠ .sp := by
  rintro rfl
  cases general

theorem isPerformed_blobPushRegister :
    Recognizer.IsPerformed blobPushRegister := by
  intro image window op node frameSize start recognized wrapped atStart
  unfold blobPushRegister at recognized
  split at recognized
  next load move step =>
    simp only [Option.bind_eq_bind, Option.bind_eq_some_iff] at recognized
    obtain ⟨loop, found, recognized⟩ := recognized
    split at recognized
    next pointer stack isSource isTarget =>
      split at recognized
      next conditions =>
        obtain ⟨general, rfl⟩ := conditions
        obtain ⟨width, bytes, same⟩ := Option.bind_eq_some_iff.mp recognized
        cases same
        obtain ⟨-, isWidth, small⟩ := loopBytes?_eq_some bytes
        apply (CountedLoop.isMadeOf_of_ofInstructions? found).isPerformed
          wrapped atStart bytes
          (by rw [isSource]; rfl) (by rw [isTarget]; rfl)
          (isGeneral_ne_sp general)
          (stackEffect_of_pushes (.inl ⟨_, _, Node.op_of_wrap wrapped⟩) small
            frameSize)
        · intro final copied
          simpa [Stepping.falling, isWidth] using copied.target
        · exact fun _ => trivial
      next => cases recognized
    next => cases recognized
  next => cases recognized

theorem isPerformed_blobPop : Recognizer.IsPerformed blobPop := by
  intro image window op node frameSize start recognized wrapped atStart
  unfold blobPop at recognized
  split at recognized
  next load move step =>
    simp only [Option.bind_eq_bind, Option.bind_eq_some_iff] at recognized
    obtain ⟨loop, found, recognized⟩ := recognized
    split at recognized
    next stack pointer isSource isTarget =>
      split at recognized
      next conditions =>
        obtain ⟨rfl, general⟩ := conditions
        obtain ⟨width, bytes, same⟩ := Option.bind_eq_some_iff.mp recognized
        cases same
        obtain ⟨-, isWidth, small⟩ := loopBytes?_eq_some bytes
        have effect : node.stackEffect frameSize =
            .ok (.delta (width : Int)) := by
          unfold addressSpace at small
          rw [Node.stackEffect, Node.op_of_wrap wrapped]
          simp only [signedReading_of_lt
            (show width < 0x8000000000000000 by omega)]
        apply (CountedLoop.isMadeOf_of_ofInstructions? found).isPerformed
          wrapped atStart bytes
          (by rw [isSource]; rfl) (by rw [isTarget]; rfl)
          (isGeneral_ne_sp general).symm effect
        · intro final copied
          simpa [Stepping.rising, isWidth] using copied.source
        · exact fun _ => trivial
      next => cases recognized
    next => cases recognized
  next => cases recognized

theorem isPerformed_blockMove : Recognizer.IsPerformed blockMove := by
  intro image window op node frameSize start recognized wrapped atStart
  unfold blockMove at recognized
  split at recognized
  next load move step =>
    simp only [Option.bind_eq_bind, Option.bind_eq_some_iff] at recognized
    obtain ⟨loop, found, recognized⟩ := recognized
    have made := CountedLoop.isMadeOf_of_ofInstructions? found
    split at recognized
    next source destination isSource isTarget =>
      split at recognized
      next conditions =>
        obtain ⟨sourceGeneral, destinationGeneral, apart⟩ := conditions
        obtain ⟨count, bytes, same⟩ := Option.bind_eq_some_iff.mp recognized
        cases same
        have effect : node.stackEffect frameSize = .ok (.delta 0) := by
          rw [Node.stackEffect, Node.op_of_wrap wrapped]
        apply made.isPerformed wrapped atStart bytes (by rw [isSource]; rfl)
          (by rw [isTarget]; rfl)
          apart effect
        · intro final copied
          rw [Int.add_zero]
          exact copied.others .sp (isGeneral_ne_sp sourceGeneral).symm
            (isGeneral_ne_sp destinationGeneral).symm
            (isGeneral_ne_sp made.general).symm
        · exact fun _ => trivial
      next => cases recognized
    next => cases recognized
  next => cases recognized

/-! ## Pushes from a fixed address -/

section Pushed

variable {unit count next : Nat} {address : Int} {pointer counter : Register}
  {start final : Machine}

/--
Whatever is pushed from the place that a register has been loaded with is taken
off the stack pointer.
-/
theorem registers_sp_of_pushed
    {reading : Stepping}
    (copied :
      Transfer.HasCopied ⟨unit, reading, .falling unit .sp⟩ counter
        (start.load pointer address next) count final)
    (apart : pointer ≠ .sp) :
    final.registers .sp =
      start.registers .sp + -((count * unit : Nat) : Int) := by
  rw [copied.registers_sp, registers_load_of_ne _ _ _ apart.symm]
  push_cast
  ring

/-- A piece that is pushed from its start arrives with its units reversed. -/
theorem bytes_pushed_upward
    (copied :
      Transfer.HasCopied ⟨unit, .rising unit pointer, .falling unit .sp⟩
        counter (start.load pointer address next) count final)
    (apart : pointer ≠ .sp)
    (intact :
      ReadsIntact (start.registers .sp) unit (upward address unit) count) :
    final.memory.bytes (final.registers .sp) (count * unit) =
      (start.memory.units unit (upward address unit)
        count).reverse.flatten := by
  have pushed := copied.bytes_pushed
  rw [Stepping.places_rising, registers_load_self,
    registers_load_of_ne _ _ _ apart.symm] at pushed
  exact pushed intact

/-- A text that is pushed from its end arrives as it is. -/
theorem bytes_pushed_downward
    (copied :
      Transfer.HasCopied ⟨unit, .falling unit pointer, .falling unit .sp⟩
        counter (start.load pointer address next) count final)
    (apart : pointer ≠ .sp)
    (intact :
      ReadsIntact (start.registers .sp) unit (downward address unit) count) :
    final.memory.bytes (final.registers .sp) (count * unit) =
      start.memory.bytes (address - count * unit) (count * unit) := by
  have pushed := copied.bytes_pushed
  rw [Stepping.places_falling, registers_load_self,
    registers_load_of_ne _ _ _ apart.symm, flatten_reverse_units_down]
    at pushed
  exact pushed intact

end Pushed

theorem isPerformed_blobPushLiteral :
    Recognizer.IsPerformed blobPushLiteral := by
  intro image window op node frameSize start recognized wrapped atStart
  have abuts := Node.abutting_of_wrap wrapped
  have isOp := Node.op_of_wrap wrapped
  unfold blobPushLiteral at recognized
  split at recognized
  next base load move step =>
    simp only [Option.bind_eq_bind, Option.bind_eq_some_iff] at recognized
    obtain ⟨⟨address, pointer⟩, isBase, loop, found, recognized⟩ := recognized
    have made := CountedLoop.isMadeOf_of_ofInstructions? found
    obtain ⟨loads, operands, general⟩ := Instruction.load?_eq_some isBase
    split at recognized
    next conditions =>
      obtain ⟨isSource, isTarget, -⟩ := conditions
      obtain ⟨width, bytes, recognized⟩ :=
        Option.bind_eq_some_iff.mp recognized
      split at recognized
      next nonneg =>
        cases recognized
        obtain ⟨positive, rfl, small⟩ := loopBytes?_eq_some bytes
        have looped := made.isLoopedBy
          ⟨loop.unit.bytes, .rising loop.unit.bytes pointer,
            .falling loop.unit.bytes .sp⟩ rfl
          (by rw [isSource]; rfl) (by rw [isTarget]; rfl)
          (isGeneral_ne_sp general) abuts.2.2.1
        have first := steps_of_execute abuts (by simp)
          (atStart.trans (Node.lo_of_wrap wrapped))
          (execute_load start loads operands)
        obtain ⟨final, runs, copied, atEnd⟩ :=
          made.runs looped positive abuts (by simp) (by simp)
          (by simp) abuts.2.1 (show (start.load pointer address base.hi).next =
            load.lo from abuts.1)
        refine ⟨final,
          Node.isPerformed_of_runs wrapped (runs.head first) rfl atEnd
            copied.moved
            (stackEffect_of_pushes (.inl ⟨_, _, isOp⟩) small frameSize)
            (registers_sp_of_pushed copied (isGeneral_ne_sp general)) ?_⟩
        have transfers : move.isTransfer = true :=
          made.isTransfer (by rw [isSource]; rfl) (by rw [isTarget]; rfl)
        refine ⟨move, by simp, transfers, loop.count.toNat,
          by rw [made.unit, Nat.add_zero], ?_⟩
        intro intact
        rw [Int.toNat_of_nonneg nonneg, made.unit] at intact ⊢
        exact bytes_pushed_upward copied (isGeneral_ne_sp general) intact
      next => cases recognized
    next => cases recognized
  next => cases recognized

theorem isPerformed_stringLiteral : Recognizer.IsPerformed stringLiteral := by
  intro image window op node frameSize start recognized wrapped atStart
  have abuts := Node.abutting_of_wrap wrapped
  have isOp := Node.op_of_wrap wrapped
  unfold stringLiteral at recognized
  split at recognized
  next base load move step last =>
    simp only [Option.bind_eq_bind, Option.bind_eq_some_iff] at recognized
    obtain ⟨⟨stop, pointer⟩, isBase, loop, found, recognized⟩ := recognized
    have made := CountedLoop.isMadeOf_of_ofInstructions? found
    obtain ⟨loads, operands, general⟩ := Instruction.load?_eq_some isBase
    split at recognized
    next conditions =>
      obtain ⟨-, isSource, isTarget, lastMoves, lastUnit, lastOperands⟩ :=
        conditions
      obtain ⟨width, bytes, recognized⟩ :=
        Option.bind_eq_some_iff.mp recognized
      split at recognized
      next fits =>
        cases recognized
        obtain ⟨positive, rfl, small⟩ := loopBytes?_eq_some bytes
        have looped := made.isLoopedBy
          ⟨loop.unit.bytes, .falling loop.unit.bytes pointer,
            .falling loop.unit.bytes .sp⟩ rfl
          (by rw [isSource]; rfl) (by rw [isTarget]; rfl)
          (isGeneral_ne_sp general) abuts.2.2.1
        have first := steps_of_execute abuts (by simp)
          (atStart.trans (Node.lo_of_wrap wrapped))
          (execute_load start loads operands)
        obtain ⟨between, runs, copied, atLast⟩ :=
          made.runs looped positive abuts (by simp)
          (by simp) (by simp) abuts.2.1
          (show (start.load pointer stop base.hi).next = load.lo from abuts.1)
        -- The last unit is copied by an instruction of its own.
        have lastMade := looped.made.congr lastMoves
          (lastUnit.trans made.unit.symm) lastOperands
        obtain ⟨final, executed, all, atEnd, -⟩ :=
          copied.another lastMade looped.sourceApart looped.targetApart
        have lastStep :=
          steps_of_execute abuts (by simp) (atLast.trans abuts.2.2.2.1)
            executed
        refine ⟨final,
          Node.isPerformed_of_runs wrapped ((runs.head first).tail lastStep)
            rfl atEnd all.moved
            (stackEffect_of_pushes (.inr ⟨_, _, isOp⟩) small frameSize)
            (registers_sp_of_pushed all (isGeneral_ne_sp general)) ?_⟩
        have transfers : move.isTransfer = true :=
          made.isTransfer (by rw [isSource]; rfl) (by rw [isTarget]; rfl)
        have isStop :
            ((stop.toNat - (loop.count.toNat + 1) * loop.unit.bytes :
              Nat) : Int) +
              ((loop.count.toNat + 1) * loop.unit.bytes : Nat) = stop := by
          omega
        refine ⟨move, by simp, transfers, loop.count.toNat + 1,
          by rw [made.unit], ?_⟩
        intro intact
        rw [isStop, made.unit] at intact
        rw [bytes_pushed_downward all (isGeneral_ne_sp general) intact]
        congr 1
        push_cast at isStop ⊢
        omega
      next => cases recognized
    next => cases recognized
  next => cases recognized

/--
The instructions of every loop that is recognized do what the operation says,
from any machine that is about to execute them, and they do nothing else
instead.
-/
theorem loops_do_as_recorded
    {template : Template}
    (member : template ∈ loopingFamily)
    {image : Image} {window : List Instruction} {op : PseudoOp} {node : Node}
    (recognized : template.recognize image window = some op)
    (wrapped : Node.wrap (some op) window = .ok node)
    (frameSize : Nat)
    {start : Machine}
    (atStart : start.next = node.lo) :
    ∃ final, node.IsPerformed op frameSize start final ∧
      ∀ other, EndsIn node.instructions start other → other = final := by
  have performed : ∀ {recognize : Recognizer}, recognize.IsPerformed →
      recognize image window = some op →
      ∃ final, node.IsPerformed op frameSize start final ∧
        ∀ other, EndsIn node.instructions start other → other = final := by
    intro recognize performs isRecognized
    obtain ⟨final, does⟩ :=
      performs image window op node frameSize start isRecognized wrapped
        atStart
    exact ⟨final, does, fun other ended => ended.unique does.ends⟩
  simp only [loopingFamily, List.mem_cons, List.not_mem_nil, or_false]
    at member
  rcases member with rfl | rfl | rfl | rfl | rfl
  · exact performed isPerformed_stringLiteral recognized
  · exact performed isPerformed_blobPushLiteral recognized
  · exact performed isPerformed_blobPushRegister recognized
  · exact performed isPerformed_blobPop recognized
  · exact performed isPerformed_blockMove recognized

/-- The push of a text of two bytes, from its end. -/
def textLoop : List Instruction :=
  [ ⟨0x800e, 0x8012, .mov, .word, [.immediate 0x2002, .register ⟨1⟩],
    by decide⟩,
    ⟨0x8012, 0x8016, .mov, .word, [.immediate 1, .register ⟨2⟩], by decide⟩,
    ⟨0x8016, 0x8018, .mov, .byte, [.autoDecrement ⟨1⟩, .autoDecrement .sp],
      by decide⟩,
    ⟨0x8018, 0x801a, .sob, .word, [.register ⟨2⟩, .target 0x8016], by decide⟩,
    ⟨0x801a, 0x801c, .mov, .byte, [.autoDecrement ⟨1⟩, .autoDecrement .sp],
      by decide⟩ ]

/-- The node of the push. -/
def textNode : Node where
  op := some (.stringLiteral 0x2000 2 .unrecoverable)
  first :=
    ⟨0x800e, 0x8012, .mov, .word, [.immediate 0x2002, .register ⟨1⟩],
      by decide⟩
  rest := textLoop.tail

/-- A machine about to execute it with its stack far above the text. -/
def textMachine (memory : Memory) : Machine where
  registers := fun register => if register = .sp then 0x3000 else 0
  memory := memory
  next := 0x800e
  moved := 0

/-- Whatever is in memory, the text is on top of the stack afterwards. -/
theorem loops_do_as_recorded_textLoop :
    stringLiteral { name := "text" } textLoop =
      some (.stringLiteral 0x2000 2 .unrecoverable) ∧
    Node.wrap (some (.stringLiteral 0x2000 2 .unrecoverable)) textLoop =
      .ok textNode ∧
    ∀ memory, (textMachine memory).next = textNode.lo ∧
      ∃ final, EndsIn textLoop (textMachine memory) final ∧ final.moved = 2 ∧
        final.registers .sp = 0x2ffe ∧
        final.memory.bytes 0x2ffe 2 = memory.bytes 0x2000 2 := by
  have recognized :
      stringLiteral { name := "text" } textLoop =
        some (.stringLiteral 0x2000 2 .unrecoverable) := by
    decide +kernel
  have wrapped :
      Node.wrap (some (.stringLiteral 0x2000 2 .unrecoverable)) textLoop =
      .ok textNode := rfl
  refine ⟨recognized, wrapped, fun memory => ⟨rfl, ?_⟩⟩
  obtain ⟨final, does, -⟩ := loops_do_as_recorded
    (show (⟨"string-literal", 5, stringLiteral, by decide⟩ : Template) ∈
      loopingFamily by
      simp [loopingFamily]) recognized wrapped 0
    (show (textMachine memory).next = textNode.lo from rfl)
  obtain ⟨delta, effect, moves⟩ := does.effect
  have isDelta : delta = -2 := by
    have known : Except.ok (StackEffect.delta (-2)) =
        Except.ok (StackEffect.delta delta) := effect
    cases known
    rfl
  have stack : final.registers .sp = 0x2ffe := by
    rw [moves, isDelta]
    rfl
  refine ⟨final, does.ends, does.moved, stack, ?_⟩
  obtain ⟨copies, isCopy, transfers, count, size, arrives⟩ := does.copy
  have isByte : copies.width = .byte := by
    have bytewise : ∀ instruction ∈ textLoop, instruction.isTransfer = true →
        instruction.width = .byte := by decide
    exact bytewise copies isCopy transfers
  rw [isByte] at size arrives
  have twice : count = 2 := by
    simp only [Width.bytes] at size
    omega
  subst twice
  rw [← stack]
  apply arrives
  have apart : (0x2000 : Int) + (2 : Nat) ≤
      (textMachine memory).registers .sp - (2 : Nat) := by
    show (0x2000 : Int) + (2 : Nat) ≤ 0x3000 - (2 : Nat)
    decide
  apply readsIntact_of_apart 0x2000 2 _ rfl (.inl apart)
  intro index isIndex
  simp only [downward, Width.bytes]
  omega

end Idiom

end ProcRecovery
