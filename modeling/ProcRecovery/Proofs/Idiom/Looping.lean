import ProcRecovery.Idiom.Catalog

/-!
# Loops in the catalog

Five templates recognize a counted loop.  They differ in what stands around the
loop and in the operands of its move, and agree on the rest: a loop stands for
an operation on the bytes it moves, and these fit in the address space.

What is true of a window that one of these templates has recognized is written
down here, once for each template.  Properties of the whole family are then
proved by cases on what has been recognized.
-/

namespace ProcRecovery

theorem loopBytes?_eq_some
    {count : Int} {extra : Nat} {unit : Width} {bytes : Nat}
    (moved : loopBytes? count extra unit = some bytes) :
    0 < count ∧ bytes = (count.toNat + extra) * unit.bytes ∧
      bytes ≤ addressSpace := by
  simp only [loopBytes?] at moved
  split at moved
  next within =>
    cases moved
    exact ⟨within.1, rfl, within.2⟩
  next => cases moved

theorem loopBytes?_le
    {count : Int} {extra : Nat} {unit : Width} {bytes : Nat}
    (moved : loopBytes? count extra unit = some bytes) :
    bytes ≤ addressSpace :=
  (loopBytes?_eq_some moved).2.2

namespace Idiom

/--
A window with a counted loop, and the operation that it is recognized as.
-/
inductive IsLoop (image : Image) : List Instruction → PseudoOp → Prop where
  /-- A text is pushed from its end, the last unit by a move of its own. -/
  | text
      {base load move step last : Instruction} {loop : CountedLoop}
      {stop : Int} {pointer : Register} {width : Nat}
      (isBase : base.load? = some (stop, pointer))
      (isLoop : CountedLoop.ofInstructions? load move step = some loop)
      (apart : pointer ≠ loop.counter)
      (source : loop.source = .autoDecrement pointer)
      (target : loop.destination = .autoDecrement .sp)
      (lastMoves : last.mnemonic = .mov)
      (lastUnit : last.width = loop.unit)
      (lastOperands : last.operands = move.operands)
      (bytes : loopBytes? loop.count 1 loop.unit = some width)
      (within : (width : Int) ≤ stop) :
      IsLoop image [base, load, move, step, last]
        (.stringLiteral (stop.toNat - width) width
          (.ofOption ((image.read (stop.toNat - width) width).toOption.map
            Text.ofBytes)))
  /-- Bytes are pushed upwards from a fixed address. -/
  | literal
      {base load move step : Instruction} {loop : CountedLoop}
      {address : Int} {pointer : Register} {width : Nat}
      (isBase : base.load? = some (address, pointer))
      (isLoop : CountedLoop.ofInstructions? load move step = some loop)
      (source : loop.source = .autoIncrement pointer)
      (target : loop.destination = .autoDecrement .sp)
      (apart : loop.counter ≠ pointer)
      (bytes : loopBytes? loop.count 0 loop.unit = some width)
      (nonneg : 0 ≤ address) :
      IsLoop image [base, load, move, step]
        (.blob width (some address.toNat) .push
          (.ofOption (image.read address.toNat width).toOption))
  /-- Bytes are pushed upwards from where a register points. -/
  | push
      {load move step : Instruction} {loop : CountedLoop}
      {pointer : Register} {width : Nat}
      (isLoop : CountedLoop.ofInstructions? load move step = some loop)
      (source : loop.source = .autoIncrement pointer)
      (target : loop.destination = .autoDecrement .sp)
      (general : pointer.isGeneral = true)
      (bytes : loopBytes? loop.count 0 loop.unit = some width) :
      IsLoop image [load, move, step] (.blob width none .push .unrecoverable)
  /-- Bytes are popped to where a register points. -/
  | pop
      {load move step : Instruction} {loop : CountedLoop}
      {pointer : Register} {width : Nat}
      (isLoop : CountedLoop.ofInstructions? load move step = some loop)
      (source : loop.source = .autoIncrement .sp)
      (target : loop.destination = .autoIncrement pointer)
      (general : pointer.isGeneral = true)
      (bytes : loopBytes? loop.count 0 loop.unit = some width) :
      IsLoop image [load, move, step] (.blob width none .pop .notComputed)
  /-- Bytes are copied between the places where two registers point. -/
  | copy
      {load move step : Instruction} {loop : CountedLoop}
      {origin goal : Register} {width : Nat}
      (isLoop : CountedLoop.ofInstructions? load move step = some loop)
      (source : loop.source = .autoIncrement origin)
      (target : loop.destination = .autoIncrement goal)
      (sourceGeneral : origin.isGeneral = true)
      (targetGeneral : goal.isGeneral = true)
      (apart : origin ≠ goal)
      (bytes : loopBytes? loop.count 0 loop.unit = some width) :
      IsLoop image [load, move, step] (.blockMove origin goal width)

section Recognizers

variable {image : Image} {window : List Instruction} {op : PseudoOp}

/-- An operation on the bytes of a loop, recognized under some condition. -/
theorem guarded_eq_some
    {condition : Prop} [Decidable condition]
    {count : Int} {unit : Width} {operation : Nat → PseudoOp} :
    (if condition then
      (loopBytes? count 0 unit).bind (fun width => some (operation width))
      else none) = some op ↔
      condition ∧
        ∃ width, loopBytes? count 0 unit = some width ∧
          operation width = op := by
  simp only [Option.ite_none_right_eq_some, Option.bind_eq_some_iff,
    Option.some.injEq]

theorem isLoop_of_stringLiteral
    (recognized : stringLiteral image window = some op) :
    IsLoop image window op := by
  unfold stringLiteral at recognized
  split at recognized
  next base load move step last =>
    simp only [Option.bind_eq_bind, Option.bind_eq_some_iff,
      Option.ite_none_right_eq_some, Option.some.injEq] at recognized
    obtain ⟨⟨stop, pointer⟩, isBase, loop, isLoop,
      ⟨apart, source, target, lastMoves, lastUnit, lastOperands⟩,
      width, bytes, within, rfl⟩ := recognized
    exact .text isBase isLoop apart source target lastMoves lastUnit
      lastOperands bytes within
  next => cases recognized

theorem isLoop_of_blobPushLiteral
    (recognized : blobPushLiteral image window = some op) :
    IsLoop image window op := by
  unfold blobPushLiteral at recognized
  split at recognized
  next base load move step =>
    simp only [Option.bind_eq_bind, Option.bind_eq_some_iff,
      Option.ite_none_right_eq_some, Option.some.injEq] at recognized
    obtain ⟨⟨address, pointer⟩, isBase, loop, isLoop, ⟨source, target, apart⟩,
      width, bytes, nonneg, rfl⟩ := recognized
    exact .literal isBase isLoop source target apart bytes nonneg
  next => cases recognized

theorem isLoop_of_blobPushRegister
    (recognized : blobPushRegister image window = some op) :
    IsLoop image window op := by
  unfold blobPushRegister at recognized
  split at recognized
  next load move step =>
    obtain ⟨loop, isLoop, recognized⟩ := Option.bind_eq_some_iff.mp recognized
    split at recognized
    next pointer stack source target =>
      obtain ⟨⟨general, rfl⟩, width, bytes, rfl⟩ :=
        guarded_eq_some.mp recognized
      exact .push isLoop source target general bytes
    next => cases recognized
  next => cases recognized

theorem isLoop_of_blobPop (recognized : blobPop image window = some op) :
    IsLoop image window op := by
  unfold blobPop at recognized
  split at recognized
  next load move step =>
    obtain ⟨loop, isLoop, recognized⟩ := Option.bind_eq_some_iff.mp recognized
    split at recognized
    next stack pointer source target =>
      obtain ⟨⟨rfl, general⟩, width, bytes, rfl⟩ :=
        guarded_eq_some.mp recognized
      exact .pop isLoop source target general bytes
    next => cases recognized
  next => cases recognized

theorem isLoop_of_blockMove (recognized : blockMove image window = some op) :
    IsLoop image window op := by
  unfold blockMove at recognized
  split at recognized
  next load move step =>
    obtain ⟨loop, isLoop, recognized⟩ := Option.bind_eq_some_iff.mp recognized
    split at recognized
    next first second source target =>
      obtain ⟨⟨sourceGeneral, targetGeneral, apart⟩, width, bytes, rfl⟩ :=
        guarded_eq_some.mp recognized
      exact .copy isLoop source target sourceGeneral targetGeneral apart bytes
    next => cases recognized
  next => cases recognized

/-- Whatever the family of loops recognizes is one of its five loops. -/
theorem isLoop_of_recognize
    {template : Template} (member : template ∈ loopingFamily)
    (recognized : template.recognize image window = some op) :
    IsLoop image window op := by
  simp only [loopingFamily, List.mem_cons, List.not_mem_nil, or_false]
    at member
  rcases member with rfl | rfl | rfl | rfl | rfl
  · exact isLoop_of_stringLiteral recognized
  · exact isLoop_of_blobPushLiteral recognized
  · exact isLoop_of_blobPushRegister recognized
  · exact isLoop_of_blobPop recognized
  · exact isLoop_of_blockMove recognized

end Recognizers

end Idiom

end ProcRecovery
