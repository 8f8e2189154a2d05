import Mathlib.Logic.Function.Basic
import Mathlib.Logic.Relation
import Mathlib.Tactic.GCongr
import Mathlib.Tactic.Positivity
import Mathlib.Tactic.Ring
import ProcRecovery.Proofs.Abutting

/-!
# A reference machine

What the instructions of a loop do, as far as it takes to say what the loop
does: registers hold integers, memory holds bytes, a literal can be put into a
register, units can be copied from one place in memory to another, and a loop
instruction counts a register down and goes back while it is not zero.  A
machine that meets anything else stops there.

Copying unit after unit is a fold over memory, and units that are pushed one
after the other lie on the stack in reverse order.
-/

namespace ProcRecovery

/-! ## Memory -/

/-- A byte at every address. -/
abbrev Memory := Int → UInt8

namespace Memory

/-- Some bytes from an address on. -/
def bytes (memory : Memory) (address : Int) (count : Nat) : List UInt8 :=
  (List.range count).map (fun offset : Nat => memory (address + offset))

/--
The memory after some bytes have been copied from one address to another.
-/
def copy
    (memory : Memory)
    (source target : Int)
    (count : Nat) :
    Memory := fun address =>
  if target ≤ address ∧ address < target + count
    then memory (source + (address - target))
  else memory address

/--
The memory after some units have been copied one after the other, each from a
place and to a place of its own.
-/
def copyUnits
    (memory : Memory)
    (unit : Nat)
    (sources targets : Nat → Int) :
    Nat → Memory
  | 0 => memory
  | count + 1 =>
    (memory.copyUnits unit sources targets count).copy (sources count)
      (targets count) unit

/-- The units of some number, starting at given places. -/
def units
    (memory : Memory)
    (unit : Nat)
    (sources : Nat → Int)
    (count : Nat) :
    List (List UInt8) :=
  (List.range count).map (fun index => memory.bytes (sources index) unit)

variable {memory other : Memory}

theorem bytes_congr
    {first second : Int} {count : Nat}
    (same : ∀ offset : Nat, offset < count →
      memory (first + offset) = other (second + offset)) :
    memory.bytes first count = other.bytes second count :=
  List.map_congr_left (fun offset member =>
    same offset (List.mem_range.mp member))

theorem bytes_add (memory : Memory) (address : Int) (first second : Nat) :
    memory.bytes address (first + second) =
      memory.bytes address first ++ memory.bytes (address + first) second := by
  simp only [bytes, List.range_add, List.map_append, List.map_map]
  congr 1
  apply List.map_congr_left
  intro offset _
  simp only [Function.comp_apply, Nat.cast_add, Int.add_assoc]

theorem units_succ
    (memory : Memory)
    (unit : Nat)
    (sources : Nat → Int)
    (count : Nat) :
    memory.units unit sources (count + 1) =
      memory.units unit sources count ++
        [memory.bytes (sources count) unit] := by
  simp [units, List.range_succ]

/-- What has been copied is where it has been copied to. -/
theorem bytes_copy_target
    (memory : Memory)
    (source target : Int)
    (count : Nat) :
    (memory.copy source target count).bytes target count =
      memory.bytes source count := by
  apply bytes_congr
  intro offset within
  rw [copy, if_pos ⟨by omega, by omega⟩]
  congr 1
  omega

/-- Copying changes nothing elsewhere. -/
theorem bytes_copy_of_outside
    (memory : Memory)
    (source : Int)
    {target address : Int} {copied count : Nat}
    (outside : address + count ≤ target ∨ target + copied ≤ address) :
    (memory.copy source target copied).bytes address count =
      memory.bytes address count := by
  apply bytes_congr
  intro offset within
  rw [copy, if_neg]
  omega

/-! ## Pushes -/

/-- The places of units that follow each other downwards, as pushed ones do. -/
def downward (stop : Int) (unit index : Nat) : Int := stop - (index + 1) * unit

/-- The places of units that follow each other upwards. -/
def upward (start : Int) (unit index : Nat) : Int := start + index * unit

/--
Pushes do not change what is above the stack pointer or below the last unit.
-/
theorem copyUnits_push_of_outside
    (memory : Memory)
    {unit : Nat}
    (sources : Nat → Int)
    {stack address : Int} {count : Nat}
    (outside : ¬ (stack - count * unit ≤ address ∧ address < stack)) :
    memory.copyUnits unit sources (downward stack unit) count address =
      memory address := by
  induction count with
  | zero => rfl
  | succ count hypothesis =>
      have span : ((count + 1 : Nat) : Int) * unit = count * unit + unit := by
        push_cast; ring
      have nonneg : (0 : Int) ≤ count * unit := by positivity
      rw [span] at outside
      rw [copyUnits, copy, if_neg, hypothesis (by omega)]
      have place :
        downward stack unit count = stack - (count * unit + unit) := by
        rw [downward, ← span]
        push_cast
        rfl
      omega

/--
No unit has been overwritten by the pushes before it when it is pushed itself.
-/
def ReadsIntact
    (stack : Int)
    (unit : Nat)
    (sources : Nat → Int)
    (count : Nat) :
    Prop :=
  ∀ pushed < count, ∀ address, sources pushed ≤ address →
    address < sources pushed + unit →
    ¬ (stack - pushed * unit ≤ address ∧ address < stack)

/--
If what is read lies apart from what is written, then nothing that is read is
overwritten.
-/
theorem readsIntact_of_apart
    {stack : Int}
    (lo : Int)
    (width : Nat)
    {unit : Nat} {sources : Nat → Int} {count : Nat}
    (within : ∀ index < count, lo ≤ sources index ∧
      sources index + unit ≤ lo + width)
    (size : width = count * unit)
    (apart : lo + width ≤ stack - width ∨ stack ≤ lo) :
    ReadsIntact stack unit sources count := by
  intro pushed isPushed address lower upper
  have bounds := within pushed isPushed
  have fewer : (pushed : Int) * unit ≤ width := by
    rw [size]
    push_cast
    gcongr
  omega

/-- Units that are pushed lie on the stack in reverse order. -/
theorem bytes_copyUnits_push
    (memory : Memory)
    {stack : Int} {unit : Nat} {sources : Nat → Int} {count : Nat}
    (intact : ReadsIntact stack unit sources count) :
    (memory.copyUnits unit sources (downward stack unit) count).bytes
        (stack - count * unit) (count * unit) =
      (memory.units unit sources count).reverse.flatten := by
  induction count with
  | zero => simp [bytes, units]
  | succ count hypothesis =>
      have place : downward stack unit count =
          stack - ((count + 1 : Nat) : Int) * unit := by
        rw [downward]
        push_cast
        rfl
      have rest : stack - ((count + 1 : Nat) : Int) * unit + unit =
          stack - count * unit := by
        push_cast
        ring
      -- The unit pushed last is on top, and what is below it has been there
      -- before.
      have top :
          ((memory.copyUnits unit sources (downward stack unit) count).bytes
          (sources count) unit) = memory.bytes (sources count) unit := by
        apply bytes_congr
        intro offset isOffset
        apply copyUnits_push_of_outside
        exact intact count (Nat.lt_succ_self count) _ (by omega) (by omega)
      rw [Nat.add_mul, Nat.one_mul, Nat.add_comm (count * unit), bytes_add,
        rest, copyUnits, ← place, bytes_copy_target, top,
        bytes_copy_of_outside _ _ (.inr (by rw [place, rest])), units_succ,
        List.reverse_append, List.reverse_singleton, List.singleton_append,
        List.flatten_cons,
        hypothesis (fun pushed isPushed => intact pushed (by omega))]

/--
Units that are taken from the end of some bytes are those bytes when they are
put in reverse order.
-/
theorem flatten_reverse_units_down
    (memory : Memory)
    (stop : Int)
    (unit count : Nat) :
    (memory.units unit (downward stop unit) count).reverse.flatten =
      memory.bytes (stop - count * unit) (count * unit) := by
  induction count with
  | zero => simp [bytes, units]
  | succ count hypothesis =>
      have place : downward stop unit count =
          stop - ((count + 1 : Nat) : Int) * unit := by
        rw [downward]
        push_cast
        rfl
      have rest : stop - ((count + 1 : Nat) : Int) * unit + unit =
          stop - count * unit := by
        push_cast
        ring
      rw [units_succ, List.reverse_append, List.reverse_singleton,
        List.singleton_append, List.flatten_cons, hypothesis, Nat.add_mul,
        Nat.one_mul, Nat.add_comm (count * unit), bytes_add, place, rest]

end Memory

/-! ## Execution -/

/-- Registers, memory, and the instruction that comes next. -/
structure Machine where
  registers : Register → Int
  memory : Memory
  /-- Address of the instruction that is executed next. -/
  next : Nat
  /--
  The number of bytes that have been copied from memory to memory so far.
  -/
  moved : Nat

namespace Machine

/--
The address of a place in memory for a unit, and the registers after it has
been addressed.
-/
def locate
    (unit : Nat)
    (registers : Register → Int) :
    Operand → Option (Int × (Register → Int))
  | .deferred base => some (registers base, registers)
  | .autoIncrement base =>
    some (registers base,
      Function.update registers base (registers base + unit))
  | .autoDecrement base =>
    some (registers base - unit,
      Function.update registers base (registers base - unit))
  | .indexed displacement base =>
      some (registers base + displacement, registers)
  | .absolute address => some (address, registers)
  | _ => none

/-- The machine that goes on elsewhere with a number in a register. -/
def load
    (machine : Machine)
    (base : Register)
    (value : Int)
    (next : Nat) :
    Machine :=
  { machine with
    registers := Function.update machine.registers base value
    next }

/--
The machine after an instruction.  The source is addressed before the
destination, and the unit is read before it is written.
-/
def execute (machine : Machine) (instruction : Instruction) : Option Machine :=
  match instruction.mnemonic, instruction.operands with
  | .mov, [.immediate value, .register base] =>
      some (machine.load base value instruction.hi)
  | .mov, [source, target] => do
    let unit := instruction.width.bytes
    let (read, between) ← locate unit machine.registers source
    let (written, registers) ← locate unit between target
    some
      { registers
        memory := machine.memory.copy read written unit
        next := instruction.hi
        moved := machine.moved + unit }
  | .sob, [.register counter, .target start] =>
    let count := machine.registers counter - 1
    some (machine.load counter count (if count = 0 then instruction.hi
      else start))
  | _, _ => none

/-- The machine after the instruction of some code that comes next. -/
def step? (code : List Instruction) (machine : Machine) : Option Machine :=
  (code.find? (fun instruction => instruction.lo = machine.next)).bind
    machine.execute

/-- One machine comes right after another in the execution of some code. -/
def Steps (code : List Instruction) (before after : Machine) : Prop :=
  step? code before = some after

/-- One machine comes after another in the execution of some code. -/
abbrev Runs (code : List Instruction) : Machine → Machine → Prop :=
  Relation.ReflTransGen (Steps code)

/--
The execution of some code from a machine comes to an end with another one.
-/
def EndsIn (code : List Instruction) (start final : Machine) : Prop :=
  Runs code start final ∧ step? code final = none

section Steps

variable {code : List Instruction} {machine : Machine}

/-- The instruction at the address that comes next is executed. -/
theorem step?_of_mem
    (abuts : Abutting Instruction.lo Instruction.hi code)
    {instruction : Instruction}
    (member : instruction ∈ code)
    (isNext : machine.next = instruction.lo) :
    step? code machine = machine.execute instruction := by
  have ascends := abuts.ascending (fun other _ => other.lo_lt_hi)
  have found : code.find? (fun other => other.lo = machine.next) =
      some instruction := by
    obtain ⟨earlier, later, rfl⟩ := List.append_of_mem member
    rw [List.find?_append, List.find?_eq_none.mpr,
      List.find?_cons_of_pos (by simp [isNext])]
    · rfl
    · intro other isEarlier
      have below :=
        (List.pairwise_append.mp ascends).2.2 other isEarlier instruction
          (by simp)
      simp only [decide_eq_true_eq]
      omega
  rw [step?, found, Option.bind_some]

/-- Nothing is executed past the last instruction. -/
theorem step?_of_end
    (abuts : Abutting Instruction.lo Instruction.hi code)
    {last : Instruction}
    (isLast : code.getLast? = some last)
    (isNext : machine.next = last.hi) :
    step? code machine = none := by
  have none : code.find? (fun other => other.lo = machine.next) = none := by
    rw [List.find?_eq_none]
    intro other member
    obtain ⟨first, isFirst⟩ : ∃ first, code.head? = some first := by
      cases code with
      | nil => cases member
      | cons first later => exact ⟨first, rfl⟩
    have within :=
      (abuts.within (fun other _ => other.lo_lt_hi) isFirst isLast other
        member).2
    have proper := other.lo_lt_hi
    simp only [decide_eq_true_eq]
    omega
  rw [step?, none, Option.bind_none]

theorem steps_of_execute
    (abuts : Abutting Instruction.lo Instruction.hi code)
    {instruction : Instruction}
    (member : instruction ∈ code)
    (isNext : machine.next = instruction.lo)
    {after : Machine}
    (executed : machine.execute instruction = some after) :
    Steps code machine after :=
  (step?_of_mem abuts member isNext).trans executed

/-- An execution that comes to an end does so with one machine only. -/
theorem EndsIn.unique
    {start first second : Machine}
    (one : EndsIn code start first)
    (other : EndsIn code start second) :
    first = second := by
  have settled : ∀ {final after : Machine}, step? code final = none →
      Runs code final after → after = final := by
    intro final after ended run
    rcases Relation.ReflTransGen.cases_head run with same | ⟨next, goesOn, -⟩
    · exact same.symm
    · rw [Steps, ended] at goesOn
      cases goesOn
  have determined : Relator.RightUnique (Steps code) := by
    intro before after another isAfter isAnother
    exact Option.some.inj (isAfter.symm.trans isAnother)
  rcases Relation.ReflTransGen.total_of_right_unique determined one.1
    other.1 with run | run
  · exact (settled one.2 run).symm
  · exact settled other.2 run

theorem execute_load
    (machine : Machine)
    {instruction : Instruction} {value : Int} {base : Register}
    (moves : instruction.mnemonic = .mov)
    (operands : instruction.operands = [.immediate value, .register base]) :
    machine.execute instruction =
      some (machine.load base value instruction.hi) := by
  simp only [execute, moves, operands]

theorem registers_load_of_ne
    (machine : Machine)
    {base register : Register}
    (value : Int)
    (next : Nat)
    (other : register ≠ base) :
    (machine.load base value next).registers register =
      machine.registers register := by
  simp only [load, Function.update_of_ne other]

@[simp]
theorem registers_load_self
    (machine : Machine)
    (base : Register)
    (value : Int)
    (next : Nat) :
    (machine.load base value next).registers base = value := by
  simp only [load, Function.update_self]

end Steps

end Machine

/-! ## Copying loops -/

open Memory

/--
A register that is moved by the same distance for every unit, and where the
unit lies, counted from what the register holds before.
-/
structure Stepping where
  base : Register
  offset : Int
  stride : Int

namespace Stepping

/-- The register moves up after every unit. -/
def rising (unit : Nat) (base : Register) : Stepping := ⟨base, 0, unit⟩

/-- The register moves down before every unit. -/
def falling (unit : Nat) (base : Register) : Stepping := ⟨base, -unit, -unit⟩

/--
The places of the units, from what the registers hold before the first one.
-/
def places
    (stepping : Stepping)
    (registers : Register → Int)
    (index : Nat) :
    Int :=
  registers stepping.base + stepping.offset + index * stepping.stride

@[simp]
theorem places_rising
    (unit : Nat)
    (base : Register)
    (registers : Register → Int) :
    (rising unit base).places registers = upward (registers base) unit := by
  funext index
  simp [places, rising, upward]

@[simp]
theorem places_falling
    (unit : Nat)
    (base : Register)
    (registers : Register → Int) :
    (falling unit base).places registers = downward (registers base) unit := by
  funext index
  simp only [places, falling, downward]
  ring

end Stepping

/-- How an operand that moves a register goes through memory. -/
def Operand.stepping? (unit : Nat) : Operand → Option Stepping
  | autoIncrement base => some (.rising unit base)
  | autoDecrement base => some (.falling unit base)
  | _ => none

theorem Machine.locate_of_stepping?
    {unit : Nat} {operand : Operand} {stepping : Stepping}
    (steps : operand.stepping? unit = some stepping)
    (registers : Register → Int) :
    locate unit registers operand =
      some (registers stepping.base + stepping.offset,
      Function.update registers stepping.base
        (registers stepping.base + stepping.stride)) := by
  unfold Operand.stepping? at steps
  split at steps
  next =>
    cases steps
    simp [locate, Stepping.rising]
  next =>
    cases steps
    simp [locate, Stepping.falling, Int.sub_eq_add_neg]
  next => cases steps

theorem Operand.base?_of_stepping?
    {unit : Nat} {operand : Operand} {stepping : Stepping}
    (steps : operand.stepping? unit = some stepping) :
    operand.base? = some stepping.base := by
  unfold stepping? at steps
  split at steps
  next =>
    cases steps
    rfl
  next =>
    cases steps
    rfl
  next => cases steps

/-- Where units of some size are copied from and to. -/
structure Transfer where
  unit : Nat
  source : Stepping
  target : Stepping

namespace Transfer

/--
A machine has copied some units since a start, and apart from a counter it has
done nothing else.
-/
structure HasCopied
    (transfer : Transfer)
    (counter : Register)
    (start : Machine)
    (count : Nat)
    (machine : Machine) :
    Prop where
  source : machine.registers transfer.source.base =
    start.registers transfer.source.base + count * transfer.source.stride
  target : machine.registers transfer.target.base =
    start.registers transfer.target.base + count * transfer.target.stride
  others : ∀ register, register ≠ transfer.source.base →
    register ≠ transfer.target.base →
    register ≠ counter → machine.registers register = start.registers register
  memory : machine.memory = start.memory.copyUnits transfer.unit
    (transfer.source.places start.registers)
    (transfer.target.places start.registers) count
  moved : machine.moved = start.moved + count * transfer.unit

/-- An instruction copies the next unit. -/
structure IsMadeBy (transfer : Transfer) (move : Instruction) : Prop where
  moves : move.mnemonic = .mov
  unit : move.width.bytes = transfer.unit
  operands : ∃ source target, move.operands = [source, target] ∧
    source.stepping? transfer.unit = some transfer.source ∧
    target.stepping? transfer.unit = some transfer.target
  apart : transfer.source.base ≠ transfer.target.base

section Loops

variable {transfer : Transfer} {counter : Register} {start machine : Machine}
  {count : Nat} {move step : Instruction}

theorem IsMadeBy.execute_eq
    (made : transfer.IsMadeBy move)
    (machine : Machine) :
    machine.execute move = some
      { registers :=
          Function.update
            (Function.update machine.registers transfer.source.base
              (machine.registers transfer.source.base +
                transfer.source.stride))
            transfer.target.base
            (machine.registers transfer.target.base + transfer.target.stride)
        memory := machine.memory.copy
          (machine.registers transfer.source.base + transfer.source.offset)
          (machine.registers transfer.target.base + transfer.target.offset)
            transfer.unit
        next := move.hi
        moved := machine.moved + transfer.unit } := by
  obtain ⟨source, target, operands, sourceSteps, targetSteps⟩ := made.operands
  have noLoad : ∀ value, source ≠ .immediate value := by
    rintro value rfl
    cases sourceSteps
  have read := Machine.locate_of_stepping? sourceSteps machine.registers
  have written := Machine.locate_of_stepping? targetSteps
    (Function.update machine.registers transfer.source.base
      (machine.registers transfer.source.base + transfer.source.stride))
  rw [Function.update_of_ne made.apart.symm] at written
  unfold Machine.execute
  split
  next value base _ isLoad =>
    rw [operands] at isLoad
    cases isLoad
    exact absurd rfl (noLoad value)
  next first second _ _ areOperands =>
    rw [operands] at areOperands
    cases areOperands
    simp only [made.unit, read, written, Option.bind_eq_bind, Option.bind_some]
  next loops _ =>
    rw [made.moves] at loops
    cases loops
  next _ noTransfer _ =>
    exact (noTransfer source target made.moves operands).elim

/-- Another instruction with the same operands copies the next unit as well. -/
theorem IsMadeBy.congr
    {other : Instruction}
    (made : transfer.IsMadeBy move)
    (moves : other.mnemonic = .mov)
    (sameWidth : other.width = move.width)
    (sameOperands : other.operands = move.operands) :
    transfer.IsMadeBy other where
  moves
  unit := by rw [sameWidth, made.unit]
  operands := by rw [sameOperands]; exact made.operands
  apart := made.apart

theorem hasCopied_zero
    (transfer : Transfer)
    (counter : Register)
    (start : Machine) :
    transfer.HasCopied counter start 0 start where
  source := by simp
  target := by simp
  others := fun _ _ _ _ => rfl
  memory := rfl
  moved := by simp

/--
What is done to the counter and to the place in the code does not matter.
-/
theorem HasCopied.load
    (copied : transfer.HasCopied counter start count machine)
    (value : Int)
    (next : Nat)
    (sourceApart : counter ≠ transfer.source.base)
    (targetApart : counter ≠ transfer.target.base) :
    transfer.HasCopied counter start count (machine.load counter value next)
    where
  source :=
    (machine.registers_load_of_ne value next sourceApart.symm).trans
      copied.source
  target :=
    (machine.registers_load_of_ne value next targetApart.symm).trans
      copied.target
  others := fun register noSource noTarget noCounter =>
    (machine.registers_load_of_ne value next noCounter).trans
      (copied.others register noSource noTarget noCounter)
  memory := copied.memory
  moved := copied.moved

/-- A copy makes one unit more. -/
theorem HasCopied.another
    (copied : transfer.HasCopied counter start count machine)
    (made : transfer.IsMadeBy move)
    (sourceApart : counter ≠ transfer.source.base)
    (targetApart : counter ≠ transfer.target.base) :
    ∃ after, machine.execute move = some after ∧
      transfer.HasCopied counter start (count + 1) after ∧
      after.next = move.hi ∧
      after.registers counter = machine.registers counter := by
  refine ⟨_, made.execute_eq machine, ?_, rfl, ?_⟩
  · constructor
    · simp only [Function.update_of_ne made.apart, Function.update_self,
        copied.source]
      push_cast
      ring
    · simp only [Function.update_self, copied.target]
      push_cast
      ring
    · intro register noSource noTarget noCounter
      simp only [Function.update_of_ne noTarget,
        Function.update_of_ne noSource]
      exact copied.others register noSource noTarget noCounter
    · have read : machine.registers transfer.source.base +
          transfer.source.offset =
          transfer.source.places start.registers count := by
        rw [Stepping.places, copied.source]
        ring
      have written : machine.registers transfer.target.base +
          transfer.target.offset =
          transfer.target.places start.registers count := by
        rw [Stepping.places, copied.target]
        ring
      simp only [read, written, copied.memory]
      rfl
    · simp only [copied.moved]
      ring
  · simp only [Function.update_of_ne targetApart,
      Function.update_of_ne sourceApart]

/-- Two instructions copy unit after unit, as often as a counter says. -/
structure IsLoopedBy
    (transfer : Transfer)
    (counter : Register)
    (move step : Instruction) :
    Prop where
  made : transfer.IsMadeBy move
  loops : step.mnemonic = .sob
  operands : step.operands = [.register counter, .target move.lo]
  meets : move.hi = step.lo
  sourceApart : counter ≠ transfer.source.base
  targetApart : counter ≠ transfer.target.base

theorem IsLoopedBy.execute_step
    (loop : transfer.IsLoopedBy counter move step)
    (machine : Machine) :
    machine.execute step =
      some (machine.load counter (machine.registers counter - 1)
      (if machine.registers counter - 1 = 0 then step.hi else move.lo)) := by
  simp only [Machine.execute, loop.loops, loop.operands]

/-- One time around the loop. -/
theorem IsLoopedBy.turn
    (loop : transfer.IsLoopedBy counter move step)
    {code : List Instruction}
    (abuts : Abutting Instruction.lo Instruction.hi code)
    (hasMove : move ∈ code)
    (hasStep : step ∈ code)
    (copied : transfer.HasCopied counter start count machine)
    (atMove : machine.next = move.lo) :
    ∃ after, Machine.Runs code machine after ∧
      transfer.HasCopied counter start (count + 1) after ∧
      after.registers counter = machine.registers counter - 1 ∧
      after.next = if machine.registers counter - 1 = 0 then step.hi
        else move.lo := by
  obtain ⟨between, moves, movedOn, atStep, kept⟩ :=
    copied.another loop.made loop.sourceApart loop.targetApart
  have firstStep := Machine.steps_of_execute abuts hasMove atMove moves
  have secondStep :=
    Machine.steps_of_execute abuts hasStep (atStep.trans loop.meets)
    (loop.execute_step between)
  refine ⟨_, (Relation.ReflTransGen.single firstStep).tail secondStep, ?_, ?_,
    ?_⟩
  · exact movedOn.load _ _ loop.sourceApart loop.targetApart
  · rw [Machine.registers_load_self, kept]
  · simp only [Machine.load, kept]

/--
The loop goes around as often as the counter says, and comes out at its end.
-/
theorem IsLoopedBy.runs
    (loop : transfer.IsLoopedBy counter move step)
    {code : List Instruction}
    (abuts : Abutting Instruction.lo Instruction.hi code)
    (hasMove : move ∈ code)
    (hasStep : step ∈ code)
    (more : Nat)
    (atMove : machine.next = move.lo)
    (copied : transfer.HasCopied counter start count machine)
    (counts : machine.registers counter = more + 1) :
    ∃ after, Machine.Runs code machine after ∧
      transfer.HasCopied counter start (count + (more + 1)) after ∧
        after.next = step.hi := by
  induction more generalizing count machine with
  | zero =>
      obtain ⟨after, run, movedOn, -, atEnd⟩ :=
        loop.turn abuts hasMove hasStep copied atMove
      refine ⟨after, run, movedOn, ?_⟩
      rw [atEnd, if_pos (by omega)]
  | succ more hypothesis =>
      obtain ⟨between, run, movedOn, counted, atStart⟩ :=
        loop.turn abuts hasMove hasStep copied atMove
      rw [if_neg (by omega)] at atStart
      obtain ⟨after, rest, all, atEnd⟩ := hypothesis atStart movedOn (by omega)
      refine ⟨after, run.trans rest, ?_, atEnd⟩
      rwa [Nat.add_assoc, Nat.add_comm 1] at all

/-- Whatever is pushed is taken off the stack pointer. -/
theorem HasCopied.registers_sp
    {unit : Nat} {source : Stepping}
    (copied :
      HasCopied ⟨unit, source, .falling unit .sp⟩ counter start count machine) :
    machine.registers .sp = start.registers .sp - count * unit := by
  have target := copied.target
  simp only [Stepping.falling] at target
  rw [target]
  ring

/--
Units that have been pushed are on the stack in reverse order, unless one of
them has been overwritten before.
-/
theorem HasCopied.bytes_pushed
    {unit : Nat} {source : Stepping}
    (copied :
      HasCopied ⟨unit, source, .falling unit .sp⟩ counter start count machine)
    (intact :
      ReadsIntact (start.registers .sp) unit (source.places start.registers)
        count) :
    machine.memory.bytes (machine.registers .sp) (count * unit) =
      (start.memory.units unit (source.places start.registers)
        count).reverse.flatten := by
  rw [copied.registers_sp, copied.memory, Stepping.places_falling]
  exact bytes_copyUnits_push start.memory intact

end Loops

end Transfer

end ProcRecovery
