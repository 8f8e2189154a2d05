import ProcRecovery.Proofs.Idiom.Absorption
import ProcRecovery.Proofs.Idiom.Conservation

/-!
# What substituted operands denote

Cached values are put in place of registers that hold them.  An operand denotes
a number or a place, given what the registers hold, and it still denotes the
same after the substitution, because the register of a cache is written by one
instruction of the body only: its load.  A jump through a cached register gets
a fixed destination in this way, which is the place that it went to before.
-/

namespace ProcRecovery

/-! ## Meanings -/

/-- What an operand stands for while an instruction is executed. -/
inductive Meaning where
  /-- The number itself. -/
  | value (number : Int)
  /-- The memory at an address. -/
  | memory (address : Int)
  /-- The memory at an address, past which a register is moved. -/
  | rising (base : Register) (address : Int)
  /-- The memory right below an address, to which a register is moved. -/
  | falling (base : Register) (address : Int)
  /-- The memory at the address that is stored at an address. -/
  | indirect (address : Int)
  /-- The code at an address. -/
  | code (address : Nat)
  deriving Repr, DecidableEq

/-- What an operand stands for while the registers hold some numbers. -/
def Operand.meaning (registers : Register → Int) : Operand → Meaning
  | register base => .value (registers base)
  | deferred base => .memory (registers base)
  | autoIncrement base => .rising base (registers base)
  | autoDecrement base => .falling base (registers base)
  | indexed displacement base => .memory (registers base + displacement)
  | indexedDeferred displacement base =>
      .indirect (registers base + displacement)
  | immediate value => .value value
  | absolute address => .memory address
  | target address => .code address

/-! ## Ways out through operands -/

/-- A way out of an instruction, with the operand that says where it leads. -/
inductive Exit where
  /-- Into the next instruction. -/
  | next
  /-- To where an operand points, if there is such an operand. -/
  | through (kind : FlowKind) (operand : Option Operand)
  deriving Repr, DecidableEq

namespace Exit

/-- What is known about a way out of an instruction with some end. -/
def flow (hi : Nat) : Exit → Flow
  | next => ⟨.normal, some hi⟩
  | through kind operand => ⟨kind, operand.bind Operand.staticAddress?⟩

/-- A way out through another operand. -/
def map (change : Operand → Operand) : Exit → Exit
  | next => next
  | through kind operand => through kind (operand.map change)

/--
Some way is the exit as it is known, or it is known for the first time where
the exit leads: to the place in memory that its operand denotes.
-/
structure ResolvesTo
    (registers : Register → Int)
    (hi : Nat)
    (exit : Exit)
    (way : Flow) :
    Prop where
  kind_eq : way.kind = (exit.flow hi).kind
  destination : way.destination = (exit.flow hi).destination ∨
    (exit.flow hi).destination = none ∧
    ∃ (kind : FlowKind) (operand : Operand) (address : Nat),
      exit = through kind (some operand) ∧
      operand.meaning registers = .memory address ∧
        way.destination = some address

theorem ResolvesTo.refl (registers : Register → Int) (hi : Nat) (exit : Exit) :
    exit.ResolvesTo registers hi (exit.flow hi) := ⟨rfl, .inl rfl⟩

end Exit

namespace Instruction

/-- The ways out of an instruction, in the order of its encoding. -/
def exits (instruction : Instruction) : List Exit :=
  match instruction.mnemonic with
  | .branch _ | .sob =>
    [.next,
      .through .conditional
        instruction.operands[instruction.operands.length - 1]?]
  | .br | .jmp => [.through .unconditional instruction.operands[0]?]
  | .jsr => [.through .call instruction.operands[1]?, .next]
  | .rts | .trap => []
  | .case =>
      (instruction.operands.drop 1).map (fun operand =>
        .through .unconditional (some operand))
  | _ => [.next]

/--
What is known about where control goes is what is known about each way out.
-/
theorem flow_eq_exits (instruction : Instruction) :
    instruction.flow = instruction.exits.map (Exit.flow instruction.hi) := by
  cases shape :
    instruction.mnemonic <;> simp [flow, exits, shape, Exit.flow,
      Function.comp_def]

theorem exits_withOperands_map
    (instruction : Instruction)
    (change : Operand → Operand) :
    (instruction.withOperands (instruction.operands.map change)).exits =
      instruction.exits.map (Exit.map change) := by
  have same :
      (instruction.withOperands (instruction.operands.map change)).mnemonic =
      instruction.mnemonic := rfl
  cases shape :
    instruction.mnemonic <;> simp [exits, same, shape, Exit.map,
      Function.comp_def]

/-- An instruction that stores into an operand goes on to the next one. -/
theorem exits_of_destinationIndex?
    {instruction : Instruction} {position : Nat}
    (stores : instruction.destinationIndex? = some position) :
    instruction.exits = [.next] := by
  cases shape : instruction.mnemonic <;> simp_all [destinationIndex?, exits]

/--
Two instructions are the same up to operands that denote the same while the
registers hold some numbers, and destinations of jumps that have become known.
-/
structure SameMeaning
    (registers : Register → Int)
    (before after : Instruction) :
    Prop where
  resembles : before.Resembles after
  operands : ∀ (position : Nat) (original : Operand),
    before.operands[position]? = some original →
    ∃ rewritten, after.operands[position]? = some rewritten ∧
      rewritten.meaning registers = original.meaning registers ∧
      (before.destinationIndex? = some position →
        ∀ base, original = .register base → rewritten = .register base)
  flow :
    List.Forall₂ (Exit.ResolvesTo registers before.hi) before.exits after.flow

theorem SameMeaning.refl
    (registers : Register → Int)
    (instruction : Instruction) :
    instruction.SameMeaning registers instruction where
  resembles := .refl instruction
  operands :=
    fun _ original isOperand =>
      ⟨original, isOperand, rfl, fun _ _ same => same⟩
  flow := by
    rw [flow_eq_exits, List.forall₂_map_right_iff, List.forall₂_same]
    exact fun exit _ => .refl registers instruction.hi exit

end Instruction

theorem Operand.general?_eq_some
    {operand : Operand} {base : Register}
    (isGeneral : operand.general? = some base) :
    operand = .register base ∧ base.isGeneral = true := by
  unfold general? at isGeneral
  split at isGeneral
  next other =>
    split at isGeneral
    next passes =>
      cases isGeneral
      exact ⟨rfl, passes⟩
    next => cases isGeneral
  next => cases isGeneral

/-- A run of instructions can be wrapped unless two of them do not abut. -/
theorem Node.delivers_wrap_of_ne_nil
    (op : Option PseudoOp)
    {run : List Instruction}
    (nonempty : run ≠ []) :
    Delivers (Node.wrap op run) (fun node => node.op = op ∧
      node.instructions = run)
      (fun _ => ¬ Abutting Instruction.lo Instruction.hi run) := by
  obtain ⟨first, rest, rfl⟩ := List.exists_cons_of_ne_nil nonempty
  rw [wrap]
  split
  next => exact ⟨rfl, rfl⟩
  next broken => exact broken

namespace Idiom

/-! ## Substituted operands -/

/-- The registers hold the values of a cache. -/
def HoldsCached
    (registers : Register → Int)
    (cached : List (Register × Int)) :
    Prop :=
  ∀ entry ∈ cached, registers entry.1 = entry.2

section Substitution

variable {cached : List (Register × Int)} {registers : Register → Int}

theorem HoldsCached.eq_of_cachedValue?
    (holds : HoldsCached registers cached)
    {base : Register} {value : Int}
    (isCached : cachedValue? cached base = some value) :
    registers base = value := by
  obtain ⟨entry, found, rfl⟩ := Option.map_eq_some_iff.mp isCached
  have isBase : entry.1 = base := by simpa using List.find?_some found
  rw [← isBase]
  exact holds entry (List.mem_of_find?_eq_some found)

theorem eq_absolute_of_absoluteAt?
    {address : Int} {operand : Operand}
    (found : absoluteAt? address = some operand) :
    ∃ place : Nat, (place : Int) = address ∧ operand = .absolute place := by
  unfold absoluteAt? at found
  split at found
  next within =>
    cases found
    exact ⟨address.toNat, Int.toNat_of_nonneg within.1, rfl⟩
  next => cases found

/-- The ways in which an operand is substituted. -/
theorem substituteOperand_cases
    (cached : List (Register × Int))
    (isDestination : Bool)
    (operand : Operand) :
    substituteOperand cached isDestination operand = operand ∨
    (∃ base value, operand = .register base ∧ isDestination = false ∧
      cachedValue? cached base = some value ∧
      substituteOperand cached isDestination operand = .immediate value) ∨
    ∃ (base : Register) (value displacement : Int) (place : Nat),
      (operand = .deferred base ∧ displacement = 0 ∨
        operand = .indexed displacement base) ∧
      cachedValue? cached base = some value ∧
      (place : Int) = value + displacement ∧
      substituteOperand cached isDestination operand = .absolute place := by
  cases operand with
  | register base =>
      cases isDestination with
      | true => exact .inl rfl
      | false =>
          cases isCached : cachedValue? cached base with
          | none => simp [substituteOperand, isCached]
          | some value => simp [substituteOperand, isCached]
  | deferred base =>
      cases isCached : cachedValue? cached base with
      | none => simp [substituteOperand, isCached]
      | some value =>
          cases found : absoluteAt? value with
          | none => simp [substituteOperand, isCached, found]
          | some operand =>
              obtain ⟨place, isPlace, rfl⟩ := eq_absolute_of_absoluteAt? found
              refine .inr
                (.inr ⟨base, value, 0, place, .inl ⟨rfl, rfl⟩, isCached,
                  by omega, ?_⟩)
              simp [substituteOperand, isCached, found]
  | indexed displacement base =>
      cases isCached : cachedValue? cached base with
      | none => simp [substituteOperand, isCached]
      | some value =>
          cases found : absoluteAt? (value + displacement) with
          | none => simp [substituteOperand, isCached, found]
          | some operand =>
              obtain ⟨place, isPlace, rfl⟩ := eq_absolute_of_absoluteAt? found
              refine .inr
                (.inr ⟨base, value, displacement, place, .inr rfl, isCached,
                  isPlace, ?_⟩)
              simp [substituteOperand, isCached, found]
  | autoIncrement base => exact .inl rfl
  | autoDecrement base => exact .inl rfl
  | indexedDeferred displacement base => exact .inl rfl
  | immediate value => exact .inl rfl
  | absolute address => exact .inl rfl
  | target address => exact .inl rfl

/-- A substituted operand denotes what it denoted before. -/
theorem meaning_substituteOperand
    (holds : HoldsCached registers cached)
    (isDestination : Bool)
    (operand : Operand) :
    (substituteOperand cached isDestination operand).meaning registers =
      operand.meaning registers := by
  rcases substituteOperand_cases cached isDestination operand with
    same | ⟨base, value, rfl, -, isCached, becomes⟩ |
    ⟨base, value, displacement, place, shape, isCached, isPlace, becomes⟩
  · rw [same]
  · rw [becomes, Operand.meaning, Operand.meaning,
      holds.eq_of_cachedValue? isCached]
  · have held := holds.eq_of_cachedValue? isCached
    rw [becomes]
    rcases shape with ⟨rfl, rfl⟩ | rfl
    · rw [Operand.meaning, Operand.meaning, held, isPlace, Int.add_zero]
    · rw [Operand.meaning, Operand.meaning, held, isPlace]

/--
A jump through a substituted operand goes where it went, or it is known for the
first time where it goes.
-/
theorem staticAddress?_substituteOperand
    (holds : HoldsCached registers cached)
    (isDestination : Bool)
    (operand : Operand) :
    (substituteOperand cached isDestination operand).staticAddress? =
      operand.staticAddress? ∨
    operand.staticAddress? = none ∧ ∃ address : Nat,
      operand.meaning registers = .memory address ∧
      (substituteOperand cached isDestination operand).staticAddress? =
        some address := by
  have kept := meaning_substituteOperand holds isDestination operand
  rcases substituteOperand_cases cached isDestination operand with
    same | ⟨base, value, rfl, -, -, becomes⟩ |
    ⟨base, value, displacement, place, shape, -, -, becomes⟩
  · exact .inl (by rw [same])
  · exact .inl (by rw [becomes]; rfl)
  · right
    rw [becomes] at kept ⊢
    refine ⟨?_, place, kept.symm, rfl⟩
    rcases shape with ⟨rfl, -⟩ | rfl <;> rfl

theorem resolvesTo_map_substituteOperand
    (holds : HoldsCached registers cached)
    (isDestination : Bool)
    (hi : Nat)
    (exit : Exit) :
    exit.ResolvesTo registers hi
      ((exit.map (substituteOperand cached isDestination)).flow hi) := by
  rcases exit with - | ⟨kind, - | operand⟩
  · exact .refl registers hi _
  · exact .refl registers hi _
  · refine ⟨rfl, ?_⟩
    rcases staticAddress?_substituteOperand holds isDestination operand with
      same | ⟨isUnknown, address, denotes, becomes⟩
    · exact .inl same
    · exact .inr ⟨isUnknown, kind, operand, address, rfl, denotes, becomes⟩

theorem getElem?_operands_substituteCached
    (cached : List (Register × Int))
    (instruction : Instruction)
    (position : Nat) :
    (substituteCached cached instruction).operands[position]? =
      instruction.operands[position]?.map
        (substituteOperand cached
          (instruction.destinationIndex? = some position)) := by
  simp only [substituteCached, Instruction.operands_withOperands,
    List.getElem?_map, List.getElem?_zipIdx, Option.map_map, Nat.zero_add]
  rfl

/--
Without an operand that is stored into, all operands are substituted alike.
-/
theorem substituteCached_of_destinationIndex?_eq_none
    {instruction : Instruction}
    (stores : instruction.destinationIndex? = none) :
    substituteCached cached instruction =
      instruction.withOperands
        (instruction.operands.map (substituteOperand cached false)) := by
  have same : (substituteCached cached instruction).operands =
      instruction.operands.map (substituteOperand cached false) := by
    apply List.ext_getElem?
    intro position
    rw [getElem?_operands_substituteCached, stores, List.getElem?_map]
    rfl
  exact congrArg instruction.withOperands same

/-- A substituted instruction means what it meant. -/
theorem sameMeaning_substituteCached
    (holds : HoldsCached registers cached)
    (instruction : Instruction) :
    instruction.SameMeaning registers (substituteCached cached instruction)
    where
  resembles := resembles_substituteCached cached instruction
  operands := by
    intro position original isOriginal
    rw [getElem?_operands_substituteCached, isOriginal]
    refine ⟨_, rfl, meaning_substituteOperand holds _ original, ?_⟩
    rintro isDestination base rfl
    rw [decide_eq_true isDestination]
    rfl
  flow := by
    rw [Instruction.flow_eq_exits]
    cases stores : instruction.destinationIndex? with
    | none =>
        rw [substituteCached_of_destinationIndex?_eq_none stores,
          Instruction.exits_withOperands_map, List.map_map,
          List.forall₂_map_right_iff,
          List.forall₂_same]
        exact fun exit _ =>
          resolvesTo_map_substituteOperand holds false instruction.hi exit
    | some position =>
        have storesLater :
            (substituteCached cached instruction).destinationIndex? =
            some position := by
          simpa [substituteCached, Instruction.destinationIndex?,
            Instruction.withOperands]
            using stores
        rw [Instruction.exits_of_destinationIndex? stores,
          Instruction.exits_of_destinationIndex? storesLater]
        exact List.Forall₂.cons (.refl registers instruction.hi .next)
          List.Forall₂.nil

end Substitution

/-! ## Loads of cached registers -/

/--
A load of a cached register puts a literal or an address into a general
register.
-/
theorem shape_of_cacheLoad?
    {load : Instruction} {register : Register} {value : Int}
    (loads : cacheLoad? load = some (register, value)) :
    register.isGeneral = true ∧
      (load.mnemonic = .mov ∧ load.operands =
        [.immediate value, .register register] ∨
        ∃ address : Nat, (address : Int) = value ∧
          load.mnemonic = .lea ∧ load.operands =
            [.absolute address, .register register]) := by
  unfold cacheLoad? at loads
  split at loads
  next number destination moves operands =>
    split at loads
    next =>
      obtain ⟨base, isGeneral, same⟩ := Option.map_eq_some_iff.mp loads
      cases same
      obtain ⟨rfl, passes⟩ := Operand.general?_eq_some isGeneral
      exact ⟨passes, .inl ⟨moves, operands⟩⟩
    next => cases loads
  next address destination addresses operands =>
    split at loads
    next =>
      obtain ⟨base, isGeneral, same⟩ := Option.map_eq_some_iff.mp loads
      cases same
      obtain ⟨rfl, passes⟩ := Operand.general?_eq_some isGeneral
      exact ⟨passes, .inr ⟨address, rfl, addresses, operands⟩⟩
    next => cases loads
  next => cases loads

theorem registerWrites_pos_of_cacheLoad?
    {load : Instruction} {register : Register} {value : Int}
    (loads : cacheLoad? load = some (register, value)) :
    0 < load.registerWrites register := by
  have stores : load.destination? = some (.register register) := by
    obtain ⟨-, ⟨moves, operands⟩ | ⟨address, -, addresses, operands⟩⟩ :=
      shape_of_cacheLoad? loads
    · exact Instruction.destination?_of_pair (by simp [moves]) operands
    · exact Instruction.destination?_of_pair (by simp [addresses]) operands
  simp only [Instruction.registerWrites, stores, ↓reduceIte]
  omega

theorem totalWrites_eq_zero_iff
    (register : Register)
    (run : List Instruction) :
    totalWrites register run = 0 ↔
      ∀ instruction ∈ run, instruction.registerWrites register = 0 := by
  induction run with
  | nil => simp [totalWrites]
  | cons first later hypothesis => simp [totalWrites, hypothesis]

/--
If a register is written once by a run of instructions, then by one of them
only.
-/
theorem filter_of_totalWrites_eq_one
    {register : Register} {run : List Instruction}
    (once : totalWrites register run = 1)
    {load : Instruction}
    (member : load ∈ run)
    (writes : 0 < load.registerWrites register) :
    run.filter (fun instruction => 0 < instruction.registerWrites register) =
      [load] := by
  induction run with
  | nil => cases member
  | cons first later hypothesis =>
      rw [totalWrites] at once
      by_cases isFirst : first.registerWrites register = 0
      · rw [List.filter_cons_of_neg (by simp [isFirst])]
        rcases List.mem_cons.mp member with rfl | isLater
        · omega
        · exact hypothesis (by omega) isLater
      · have unwritten :=
          (totalWrites_eq_zero_iff register later).mp (by omega)
        rw [List.filter_cons_of_pos (by simp; omega),
          List.filter_eq_nil_iff.mpr
            (fun other isOther => by simp [unwritten other isOther])]
        rcases List.mem_cons.mp member with rfl | isLater
        · rfl
        · have := unwritten load isLater
          omega

/-- What is cached is written once. -/
theorem bodyWrites_of_mem_cacheLoads
    {body nodes : List Node} {found : List (Register × Int)}
    (once : ∀ load ∈ found, bodyWrites body load.1 = 1) :
    ∀ load ∈ cacheLoads body found nodes, bodyWrites body load.1 = 1 := by
  fun_induction cacheLoads body found nodes with
  | case1 => exact once
  | case2 found node later register value isLoad fresh hypothesis =>
      apply hypothesis
      intro load member
      rcases List.mem_append.mp member with isOld | isNew
      · exact once load isOld
      · rw [List.mem_singleton.mp isNew]
        exact fresh.1
  | case3 => exact once
  | case4 => exact once

/-- No register is cached twice. -/
theorem nodup_cacheLoads
    {body nodes : List Node} {found : List (Register × Int)}
    (distinct : (found.map Prod.fst).Nodup) :
    ((cacheLoads body found nodes).map Prod.fst).Nodup := by
  fun_induction cacheLoads body found nodes with
  | case1 => exact distinct
  | case2 found node later register value isLoad fresh hypothesis =>
      apply hypothesis
      rw [List.map_append, List.nodup_append]
      refine ⟨distinct, by simp, ?_⟩
      rintro one isOne other isOther rfl
      have same : one = register := by simpa using isOther
      exact fresh.2 (same ▸ isOne)
  | case3 => exact distinct
  | case4 => exact distinct

/--
Loads are cached as far as they follow each other: the next node does not load
a register that is written once and not cached yet.
-/
theorem not_load_after_cacheLoads
    {body nodes : List Node} {found loads : List (Register × Int)}
    (same : cacheLoads body found nodes = found ++ loads)
    {node : Node}
    (isNext : nodes[loads.length]? = some node)
    {register : Register} {value : Int}
    (isLoad : node.raw?.bind cacheLoad? = some (register, value))
    (once : bodyWrites body register = 1) :
    register ∈ (found ++ loads).map Prod.fst := by
  fun_induction cacheLoads body found nodes generalizing loads with
  | case1 => cases isNext
  | case2 found first later firstRegister firstValue isFirst fresh
    hypothesis =>
      obtain ⟨rest, more, -⟩ :=
        exists_of_cacheLoads body (found ++ [(firstRegister, firstValue)])
        later
      have whole : loads = (firstRegister, firstValue) :: rest := by
        rw [more, List.append_assoc] at same
        exact (List.append_cancel_left same).symm
      subst whole
      have inner := hypothesis more (by simpa using isNext)
      simpa using inner
  | case3 found first later firstRegister firstValue isFirst stale =>
      have isNil : loads = [] := by simpa using same
      subst isNil
      cases isNext
      rw [isFirst] at isLoad
      cases isLoad
      simpa [once] using stale
  | case4 found first later noLoad =>
      have isNil : loads = [] := by simpa using same
      subst isNil
      cases isNext
      rw [noLoad] at isLoad
      cases isLoad

/--
Some instructions are the loads of a cache of a body: they follow the first
node, one node each, and go on as long as they can.  Every cached register is
general and is written by its load only, and no two are the same.
-/
structure Caches
    (body : List Node)
    (cached : List (Register × Int))
    (loads : List Instruction) :
    Prop where
  follow : ((body.drop 1).take cached.length).map Node.raw? = loads.map some
  load :
    List.Forall₂ (fun load entry => cacheLoad? load = some entry) loads cached
  alone : List.Forall₂ (fun load entry => (instructionsOf body).filter
    (fun instruction => 0 < instruction.registerWrites entry.1) =
      [load]) loads cached
  general : ∀ entry ∈ cached, entry.1.isGeneral = true
  distinct : (cached.map Prod.fst).Nodup
  longest : ∀ node, (body.drop 1)[cached.length]? = some node →
    ∀ instruction register value,
    node.raw? = some instruction →
    cacheLoad? instruction = some (register, value) →
    bodyWrites body register = 1 → register ∈ cached.map Prod.fst

/--
A machine instruction is rewritten to one of the same meaning, as long as the
registers hold what is cached, and everything else is kept.
-/
structure Rewrites
    (cached : List (Register × Int))
    (before after : Node) :
    Prop where
  kept : before.raw? = none → after = before
  rewritten : ∀ instruction, before.raw? = some instruction → ∃ other,
    after.raw? = some other ∧ after.instructions = [other] ∧
      ∀ registers, HoldsCached registers cached →
      instruction.SameMeaning registers other

theorem exists_of_loads
    {nodes : List Node} {cached : List (Register × Int)}
    (paired :
      List.Forall₂ (fun node load => node.raw?.bind cacheLoad? = some load)
        nodes cached) :
    ∃ loads, nodes.map Node.raw? = loads.map some ∧
      List.Forall₂ (fun load entry => cacheLoad? load = some entry) loads
        cached := by
  induction paired with
  | nil => exact ⟨[], rfl, List.Forall₂.nil⟩
  | @cons node entry later entries isLoad _ hypothesis =>
      obtain ⟨load, isRaw, loads⟩ := Option.bind_eq_some_iff.mp isLoad
      obtain ⟨others, areRaw, areLoads⟩ := hypothesis
      exact ⟨load :: others,
        by simp [isRaw, areRaw], List.Forall₂.cons loads areLoads⟩

theorem instructionsOf_of_map_raw?
    {nodes : List Node} {run : List Instruction}
    (plain : ∀ node ∈ nodes, node.op = none → node.rest = [])
    (areRaw : nodes.map Node.raw? = run.map some) :
    instructionsOf nodes = run := by
  induction nodes generalizing run with
  | nil => simpa [instructionsOf] using areRaw
  | cons node later hypothesis =>
      cases run with
      | nil => cases areRaw
      | cons instruction rest =>
          obtain ⟨isRaw, others⟩ := List.cons.inj areRaw
          rw [instructionsOf_cons,
            Node.instructions_of_raw? (plain node (by simp)) isRaw,
            hypothesis (fun other member => plain other (by simp [member]))
              others]
          rfl

theorem Caches.instructionsOf_eq
    {body : List Node} {cached : List (Register × Int)}
    {loads : List Instruction}
    (caches : Caches body cached loads)
    (plain : ∀ node ∈ body, node.op = none → node.rest = []) :
    instructionsOf ((body.drop 1).take cached.length) = loads :=
  instructionsOf_of_map_raw? (fun node member => plain node
    (List.mem_of_mem_drop (List.mem_of_mem_take member))) caches.follow

/-- The cache that is found is one. -/
theorem exists_caches
    {body : List Node}
    (plain : ∀ node ∈ body, node.op = none → node.rest = []) :
    ∃ loads, Caches body (cacheLoads body [] (body.drop 1)) loads := by
  obtain ⟨cached, found, paired⟩ := exists_of_cacheLoads body [] (body.drop 1)
  have isCached : cacheLoads body [] (body.drop 1) = cached := by
    simpa using found
  obtain ⟨loads, follow, isLoad⟩ := exists_of_loads paired
  have once : ∀ entry ∈ cached, bodyWrites body entry.1 = 1 := by
    rw [← isCached]
    exact bodyWrites_of_mem_cacheLoads (by simp)
  have owned : ∀ load ∈ loads, load ∈ instructionsOf body := by
    intro load member
    rw [← instructionsOf_of_map_raw? (fun node isNode => plain node
      (List.mem_of_mem_drop (List.mem_of_mem_take isNode))) follow] at member
    obtain ⟨node, isNode, isOwned⟩ := List.mem_flatMap.mp member
    exact List.mem_flatMap.mpr
      ⟨node, List.mem_of_mem_drop (List.mem_of_mem_take isNode), isOwned⟩
  rw [isCached]
  refine ⟨loads, follow, isLoad, ?_, ?_, ?_, ?_⟩
  · rw [List.forall₂_iff_zip] at isLoad ⊢
    refine ⟨isLoad.1, fun {load entry} member => ?_⟩
    obtain ⟨isFirst, isSecond⟩ := List.of_mem_zip member
    exact filter_of_totalWrites_eq_one (once entry isSecond)
      (owned load isFirst)
      (registerWrites_pos_of_cacheLoad? (isLoad.2 member))
  · intro entry member
    obtain ⟨load, -, loads⟩ := exists_of_mem_right isLoad member
    exact (shape_of_cacheLoad? loads).1
  · rw [← isCached]
    exact nodup_cacheLoads List.nodup_nil
  · intro node isNext instruction register value isRaw loads onlyOnce
    have isNextLoad : node.raw?.bind cacheLoad? = some (register, value) := by
      rw [isRaw]
      exact loads
    simpa using not_load_after_cacheLoads found isNext isNextLoad onlyOnce

theorem rewrites_substituteNode
    (options : Options)
    (cached : List (Register × Int))
    {node : Node}
    (plain : node.op = none → node.rest = []) :
    Rewrites cached node (substituteNode options cached node) := by
  constructor
  · intro isNone
    simp [substituteNode, isNone]
  · intro instruction isRaw
    simp only [substituteNode, isRaw]
    split
    · exact ⟨_, rfl, rfl, fun registers holds =>
        sameMeaning_substituteCached holds instruction⟩
    · exact ⟨instruction, isRaw, Node.instructions_of_raw? plain isRaw,
        fun registers _ => .refl registers instruction⟩

/--
A body without a cache stays as it is.  Otherwise one node takes the place of
the loads after the first node, and all nodes after it are substituted.  The
only thing that could go wrong is that the loads cannot be gathered because
they do not lie next to each other.
-/
theorem registerCache_spec
    (options : Options)
    {body : List Node}
    (plain : ∀ node ∈ body, node.op = none → node.rest = []) :
    Delivers (registerCache options body).outcome
      (fun after => ∃ cached loads, Caches body cached loads ∧
        ((cached = [] ∧ after = body) ∨ ∃ gathered,
          gathered.op = some (.registerCache cached) ∧
          gathered.instructions = loads ∧
          after = body.take 1 ++ gathered ::
          (body.drop (1 + cached.length)).map (substituteNode options cached)))
      (fun _ =>
        ¬ Abutting Instruction.lo Instruction.hi (instructionsOf body)) := by
  obtain ⟨loads, caches⟩ := exists_caches plain
  have gathers := caches.instructionsOf_eq plain
  simp only [registerCache]
  split
  next noneCached =>
    rw [noneCached] at caches
    exact ⟨[], loads, caches, .inl ⟨rfl, rfl⟩⟩
  next cached someCached =>
    simp only [Traced.outcome_bind, Traced.outcome_note,
      Traced.outcome_ofExcept, Traced.outcome_pure, ok_bind]
    have nonempty : loads ≠ [] := by
      rintro rfl
      exact someCached (List.forall₂_nil_left_iff.mp caches.load)
    have wrapped := Node.delivers_wrap_of_ne_nil
      (some (.registerCache (cacheLoads body [] (body.drop 1)))) nonempty
    rw [← gathers] at wrapped
    apply (wrapped.mono (fun _ holds => holds)
      (fun _ broken abuts => broken ?_)).bind
    · rintro gathered ⟨isOp, owns⟩
      exact ⟨_, loads, caches, .inr ⟨gathered, isOp, owns.trans gathers, rfl⟩⟩
    · rw [← instructionsOf_split body 1] at abuts
      have laterAbuts := abuts.right
      rw [← instructionsOf_split (body.drop 1)
        (cacheLoads body [] (body.drop 1)).length]
        at laterAbuts
      exact laterAbuts.left

/--
A body without a cache stays as it is.  Otherwise one node takes the place of
the loads after the first node, and the nodes after them are rewritten.
-/
def IsCachedAs
    (cached : List (Register × Int))
    (loads : List Instruction)
    (body after : List Node) :
    Prop :=
  (cached = [] ∧ after = body) ∨
    ∃ gathered later, after = body.take 1 ++ gathered :: later ∧
      gathered.op = some (.registerCache cached) ∧
      gathered.instructions = loads ∧
      List.Forall₂ (Rewrites cached) (body.drop (1 + cached.length)) later

/--
Gathering the loads of a cache and putting the cached values in place of the
registers keeps the meaning of a body.
-/
theorem keepsMeaning_registerCache
    (options : Options)
    {body : List Node}
    (plain : ∀ node ∈ body, node.op = none → node.rest = []) :
    Delivers (registerCache options body).outcome
      (fun after => ∃ cached loads, Caches body cached loads ∧
        IsCachedAs cached loads body after)
      (fun _ =>
        ¬ Abutting Instruction.lo Instruction.hi (instructionsOf body)) := by
  apply (registerCache_spec options plain).weaken
  rintro after
    ⟨cached, loads, caches, ⟨isNil, same⟩ | ⟨gathered, isOp, owns, rfl⟩⟩
  · exact ⟨cached, loads, caches, .inl ⟨isNil, same⟩⟩
  · refine ⟨cached, loads, caches, .inr ⟨gathered, _, rfl, isOp, owns, ?_⟩⟩
    rw [List.forall₂_map_right_iff, List.forall₂_same]
    exact fun node member => rewrites_substituteNode options cached
      (plain node (List.mem_of_mem_drop member))

/-- A prologue without locals. -/
def plainPrologue (start : Nat) : Node where
  op := some (.prologue 0)
  first :=
    ⟨start, start + 2, .mov, .word, [.register .fp, .autoDecrement .sp],
      by omega⟩
  rest :=
    [ ⟨start + 2, start + 4, .mov, .word, [.register .sp, .register .fp],
      by omega⟩,
      ⟨start + 4, start + 8, .cmp, .word, [.register .sp, .absolute 0x2100],
        by omega⟩,
      ⟨start + 8, start + 10, .branch .higher, .word, [.target (start + 14)],
        by omega⟩,
      ⟨start + 10, start + 12, .sev, .word, [], by omega⟩,
      ⟨start + 12, start + 14, .trap, .word, [], by omega⟩ ]

/-- A call through a register that is loaded with an address once. -/
def cachedCallBody : List Node :=
  [ plainPrologue 0x5000,
    .raw ⟨0x500e, 0x5012, .lea, .word, [.absolute 0x3000, .register ⟨3⟩],
      by decide⟩,
    .raw ⟨0x5012, 0x5014, .jsr, .word, [.register .pc, .deferred ⟨3⟩],
      by decide⟩,
    .raw ⟨0x5014, 0x5016, .rts, .word, [.register .pc], by decide⟩ ]

/-- The destination of the call becomes known. -/
theorem keepsMeaning_registerCache_cachedCall :
    (∀ node ∈ cachedCallBody, node.op = none → node.rest = []) ∧
    ∃ after cached loads, (registerCache {} cachedCallBody).outcome =
      .ok after ∧
      after[2]?.map Node.flow = some [⟨.call, some 0x3000⟩,
        ⟨.normal, some 0x5014⟩] ∧
      Caches cachedCallBody cached loads ∧
        IsCachedAs cached loads cachedCallBody after := by
  have plain : ∀ node ∈ cachedCallBody, node.op = none → node.rest = [] := by
    decide
  have finished : ∃ after, (registerCache {} cachedCallBody).outcome =
      .ok after ∧
      after[2]?.map Node.flow = some [⟨.call, some 0x3000⟩,
        ⟨.normal, some 0x5014⟩] :=
    ⟨_, rfl, rfl⟩
  obtain ⟨after, finished, known⟩ := finished
  obtain ⟨cached, loads, caches, same⟩ :=
    (keepsMeaning_registerCache {} plain).of_ok finished
  exact ⟨plain, after, cached, loads, finished, known, caches, same⟩

end Idiom

end ProcRecovery
