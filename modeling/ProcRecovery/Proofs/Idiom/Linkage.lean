import ProcRecovery.Proofs.Idiom.Substitution

/-!
# Validity of substituted instructions

A value in place of a register is data, so a valid instruction stays valid
wherever it asks for data or a place in memory.  Operands that are stored into
stay registers, and a loop counter is never cached because the loop writes it.
Calls and returns are what is left: their linkage register is neither data nor
written, so it is replaced like any other use of the register, and the
instruction is no longer one that can be encoded.
-/

namespace ProcRecovery

/--
The register in which a call leaves its return address or a return finds it.
-/
def Instruction.linkage? (instruction : Instruction) : Option Register :=
  match instruction.mnemonic, instruction.operands with
  | .jsr, .register base :: _ | .rts, .register base :: _ => some base
  | _, _ => none

namespace Idiom

section Operands

variable (cached : List (Register × Int)) (isDestination : Bool)

/--
The substitution does not change what does not tell a register from a literal,
or the memory that a register points at from the memory at a fixed address.  A
register that is stored into is kept.
-/
theorem view_substituteOperand
    {γ : Type}
    (view : Operand → γ)
    (data : isDestination = false →
      ∀ base value, view (.immediate value) = view (.register base))
    (pointed : ∀ base place, view (.absolute place) = view (.deferred base))
    (displaced : ∀ displacement base place,
      view (.absolute place) = view (.indexed displacement base))
    (operand : Operand) :
    view (substituteOperand cached isDestination operand) = view operand := by
  rcases substituteOperand_cases cached isDestination operand with
    same | ⟨base, value, rfl, isSource, -, becomes⟩ |
    ⟨base, value, displacement, place, shape, -, -, becomes⟩
  · rw [same]
  · rw [becomes, data isSource base]
  · rw [becomes]
    rcases shape with ⟨rfl, -⟩ | rfl
    · exact pointed base place
    · exact displaced displacement base place

@[simp]
theorem isTarget_substituteOperand
    (operand : Operand) :
    (substituteOperand cached isDestination operand).isTarget =
      operand.isTarget :=
  view_substituteOperand cached isDestination Operand.isTarget (fun _ _ _ =>
    rfl) (fun _ _ => rfl)
    (fun _ _ _ => rfl) operand

@[simp]
theorem isMemory_substituteOperand
    (operand : Operand) :
    (substituteOperand cached isDestination operand).isMemory =
      operand.isMemory :=
  view_substituteOperand cached isDestination Operand.isMemory (fun _ _ _ =>
    rfl) (fun _ _ => rfl)
    (fun _ _ _ => rfl) operand

@[simp]
theorem isCallable_substituteOperand
    (operand : Operand) :
    (substituteOperand cached isDestination operand).isCallable =
      operand.isCallable :=
  view_substituteOperand cached isDestination Operand.isCallable (fun _ _ _ =>
    rfl)
    (fun _ _ => rfl) (fun _ _ _ => rfl) operand

/-- What is stored into can be stored into afterwards. -/
@[simp]
theorem isWritable_substituteOperand (operand : Operand) :
    (substituteOperand cached true operand).isWritable = operand.isWritable :=
  view_substituteOperand cached true Operand.isWritable (fun isSource =>
    by cases isSource)
    (fun _ _ => rfl) (fun _ _ _ => rfl) operand

@[simp]
theorem substituteOperand_target (address : Nat) :
    substituteOperand cached isDestination (.target address) =
      .target address := rfl

@[simp]
theorem substituteOperand_immediate
    (value : Int) :
    substituteOperand cached isDestination (.immediate value) =
      .immediate value := rfl

end Operands

theorem cachedValue?_eq_none_iff
    {cached : List (Register × Int)} {register : Register} :
    cachedValue? cached register = none ↔ register ∉ cached.map Prod.fst := by
  rw [cachedValue?, Option.map_eq_none_iff, List.find?_eq_none, List.mem_map]
  constructor
  · rintro none ⟨entry, member, isRegister⟩
    exact none entry member (by simpa using isRegister)
  · intro absent entry member isRegister
    exact absent ⟨entry, member, by simpa using isRegister⟩

theorem substituteOperand_register_cases
    (cached : List (Register × Int))
    (base : Register) :
    (base ∉ cached.map Prod.fst ∧
      substituteOperand cached false (.register base) = .register base) ∨
    (base ∈ cached.map Prod.fst ∧
      ∃ value, substituteOperand cached false (.register base) =
        .immediate value) := by
  cases isCached : cachedValue? cached base with
  | none =>
      exact .inl ⟨cachedValue?_eq_none_iff.mp isCached,
        by simp [substituteOperand, isCached]⟩
  | some value =>
      refine .inr ⟨?_, value, by simp [substituteOperand, isCached]⟩
      by_contra absent
      rw [cachedValue?_eq_none_iff.mpr absent] at isCached
      cases isCached

section Validity

variable {cached : List (Register × Int)} {instruction : Instruction}

theorem defect?_substituteCached
    (cached : List (Register × Int))
    (instruction : Instruction) :
    (substituteCached cached instruction).defect? =
      Instruction.operandDefect? instruction.mnemonic
        (instruction.operands.zipIdx.map
        (fun operand => substituteOperand cached
          (instruction.destinationIndex? = some operand.2) operand.1)) := rfl

/--
A dispatch needs a selector, which a literal can be, and its destinations are
kept.
-/
theorem defect?_substituteCached_of_dispatch
    (valid : instruction.defect? = none)
    (dispatches : instruction.mnemonic = .case) :
    (substituteCached cached instruction).defect? = none := by
  have noStore : instruction.destinationIndex? = none := by
    simp [Instruction.destinationIndex?, dispatches]
  have same : (substituteCached cached instruction).defect? =
      Instruction.operandDefect? .case
      (instruction.operands.map (substituteOperand cached false)) := by
    rw [substituteCached_of_destinationIndex?_eq_none noStore, ← dispatches]
    rfl
  rw [same]
  rw [Instruction.defect?, dispatches] at valid
  cases operands : instruction.operands with
  | nil => simp [operands, Instruction.operandDefect?] at valid
  | cons selector destinations =>
      rw [operands] at valid
      cases destinations with
      | nil => simp [Instruction.operandDefect?] at valid
      | cons first rest => simpa [Instruction.operandDefect?] using valid

/--
Operations that name no register by its number ask for data and places in
memory only, which they are given.
-/
theorem defect?_substituteCached_of_data
    (cached : List (Register × Int))
    (valid : instruction.defect? = none)
    (noLoop : instruction.mnemonic ≠ .sob)
    (noCall : instruction.mnemonic ≠ .jsr)
    (noReturn : instruction.mnemonic ≠ .rts) :
    (substituteCached cached instruction).defect? = none := by
  by_cases dispatches : instruction.mnemonic = .case
  · exact defect?_substituteCached_of_dispatch valid dispatches
  · rw [defect?_substituteCached]
    unfold Instruction.defect? Instruction.operandDefect? at valid
    split at valid
    all_goals first
      | cases valid
        done
      | simp_all [Instruction.operandDefect?, Instruction.destinationIndex?,
        List.zipIdx]

theorem operands_of_loop
    (valid : instruction.defect? = none)
    (loops : instruction.mnemonic = .sob) :
    ∃ counter start, instruction.operands =
      [.register counter, .target start] := by
  rw [Instruction.defect?, loops] at valid
  unfold Instruction.operandDefect? at valid
  split at valid <;> simp_all

theorem operands_of_call
    (valid : instruction.defect? = none)
    (calls : instruction.mnemonic = .jsr) :
    ∃ linkage destination, instruction.operands =
      [.register linkage, destination] ∧
      destination.isCallable = true := by
  rw [Instruction.defect?, calls] at valid
  unfold Instruction.operandDefect? at valid
  split at valid <;> simp_all

theorem operands_of_return
    (valid : instruction.defect? = none)
    (returns : instruction.mnemonic = .rts) :
    ∃ linkage, instruction.operands = [.register linkage] := by
  rw [Instruction.defect?, returns] at valid
  unfold Instruction.operandDefect? at valid
  split at valid <;> simp_all

/--
What substitution does to a linkage register decides about the validity of its
instruction.
-/
theorem iff_linkage_uncached
    {valid : Prop} {linkage : Register}
    (isLinkage : instruction.linkage? = some linkage)
    (kept : substituteOperand cached false (.register linkage) =
      .register linkage → valid)
    (replaced : ∀ value, substituteOperand cached false (.register linkage) =
      .immediate value → ¬ valid) :
    valid ↔ ∀ register, instruction.linkage? = some register →
      register ∉ cached.map Prod.fst := by
  rw [isLinkage]
  rcases substituteOperand_register_cases cached linkage with
    ⟨absent, same⟩ | ⟨isCached, value, becomes⟩
  · apply iff_of_true (kept same)
    rintro register ⟨⟩
    exact absent
  · exact iff_of_false (replaced value becomes) (fun none =>
      none linkage rfl isCached)

/--
A valid instruction that does not write a cached register stays valid exactly
if its linkage register, should it have one, is not cached.
-/
theorem defect?_substituteCached_iff
    (valid : instruction.defect? = none)
    (unwritten : ∀ register ∈ cached.map Prod.fst,
      instruction.registerWrites register = 0) :
    (substituteCached cached instruction).defect? = none ↔
      ∀ register, instruction.linkage? = some register →
        register ∉ cached.map Prod.fst := by
  cases kind : instruction.mnemonic with
  | sob =>
      obtain ⟨counter, start, operands⟩ := operands_of_loop valid kind
      have isWritten : instruction.registerWrites counter ≠ 0 := by
        simp [Instruction.registerWrites, Instruction.destination?,
          Instruction.destinationIndex?, kind, operands]
      have absent : counter ∉ cached.map Prod.fst :=
        fun member => isWritten (unwritten counter member)
      rcases substituteOperand_register_cases cached counter with
        ⟨-, kept⟩ | ⟨isCached, -⟩
      · simp [defect?_substituteCached, kind, operands,
          Instruction.destinationIndex?, kept, Instruction.operandDefect?,
          Instruction.linkage?]
      · exact absurd isCached absent
  | jsr =>
      obtain ⟨linkage, destination, operands, isCallable⟩ :=
        operands_of_call valid kind
      have isLinkage : instruction.linkage? = some linkage := by
        simp [Instruction.linkage?, kind, operands]
      rw [defect?_substituteCached]
      apply iff_linkage_uncached isLinkage
      · intro kept
        simp [kind, operands, Instruction.destinationIndex?, kept,
          Instruction.operandDefect?, isCallable]
      · intro value becomes
        simp [kind, operands, Instruction.destinationIndex?, becomes,
          Instruction.operandDefect?]
  | rts =>
      obtain ⟨linkage, operands⟩ := operands_of_return valid kind
      have isLinkage : instruction.linkage? = some linkage := by
        simp [Instruction.linkage?, kind, operands]
      rw [defect?_substituteCached]
      apply iff_linkage_uncached isLinkage
      · intro kept
        simp [kind, operands, Instruction.destinationIndex?, kept,
          Instruction.operandDefect?]
      · intro value becomes
        simp [kind, operands, Instruction.destinationIndex?, becomes,
          Instruction.operandDefect?]
  | _ =>
      have stays :=
        defect?_substituteCached_of_data cached valid (by simp [kind])
          (by simp [kind])
        (by simp [kind])
      simp [stays, Instruction.linkage?, kind]

end Validity

/-! ## Bodies -/

/--
A body with a cache is made of its first node, the loads and the nodes after
them.
-/
theorem Caches.instructionsOf_divided
    {body : List Node} {cached : List (Register × Int)}
    {loads : List Instruction}
    (caches : Caches body cached loads)
    (plain : ∀ node ∈ body, node.op = none → node.rest = []) :
    instructionsOf body = instructionsOf (body.take 1) ++
      (loads ++ instructionsOf (body.drop (1 + cached.length))) := by
  have later := instructionsOf_split (body.drop 1) cached.length
  rw [List.drop_drop, caches.instructionsOf_eq plain] at later
  rw [later, instructionsOf_split]

/-- The instructions after the loads of a cache do not write what is cached. -/
theorem Caches.unwritten
    {body : List Node} {cached : List (Register × Int)}
    {loads : List Instruction}
    (caches : Caches body cached loads)
    (plain : ∀ node ∈ body, node.op = none → node.rest = [])
    {register : Register}
    (isCached : register ∈ cached.map Prod.fst) :
    ∀ instruction ∈ instructionsOf (body.drop (1 + cached.length)),
      instruction.registerWrites register = 0 := by
  obtain ⟨entry, member, rfl⟩ := List.mem_map.mp isCached
  obtain ⟨load, isLoad, alone⟩ := exists_of_mem_right caches.alone member
  have writes : 0 < load.registerWrites entry.1 := by
    have inFilter : load ∈ (instructionsOf body).filter
        (fun instruction => 0 < instruction.registerWrites entry.1) := by
          simp [alone]
    simpa using (List.mem_filter.mp inFilter).2
  -- The load is the only instruction that the filter leaves, and it is one of
  -- the loads.
  rw [caches.instructionsOf_divided plain, List.filter_append,
    List.filter_append] at alone
  have inLoads : load ∈ loads.filter
      (fun instruction => 0 < instruction.registerWrites entry.1) := by
    rw [List.mem_filter]
    exact ⟨isLoad, by simpa using writes⟩
  have counts := congrArg List.length alone
  have positive := List.length_pos_of_mem inLoads
  simp only [List.length_append, List.length_singleton] at counts
  have empty : (instructionsOf (body.drop (1 + cached.length))).filter
      (fun instruction => 0 < instruction.registerWrites entry.1) = [] :=
    List.eq_nil_of_length_eq_zero (by omega)
  intro instruction isLater
  simpa using List.filter_eq_nil_iff.mp empty instruction isLater

theorem forall_mem_instructionsOf_map
    {view : Node → Node} {holds : Instruction → Prop} {body : List Node} :
    (∀ instruction ∈ instructionsOf (body.map view), holds instruction) ↔
      ∀ node ∈ body, ∀ instruction ∈ (view node).instructions,
        holds instruction := by
  simp only [instructionsOf, List.forall_mem_flatMap, List.forall_mem_map]

/-- No call or return of a node of its own has a cached linkage register. -/
def KeepsLinkage (cached : List (Register × Int)) (node : Node) : Prop :=
  ∀ instruction, node.raw? = some instruction →
    ∀ register, instruction.linkage? = some register →
    register ∉ cached.map Prod.fst

theorem valid_substituteNode_iff
    (options : Options)
    {cached : List (Register × Int)} {node : Node}
    (plain : node.op = none → node.rest = [])
    (valid : ∀ instruction ∈ node.instructions, instruction.defect? = none)
    (unwritten : ∀ register ∈ cached.map Prod.fst,
      ∀ instruction ∈ node.instructions, instruction.registerWrites register =
        0) :
    (∀ instruction ∈ (substituteNode options cached node).instructions,
        instruction.defect? = none) ↔
      (options.substitutesCachedRegisters = true →
        KeepsLinkage cached node) := by
  cases isRaw : node.raw? with
  | none =>
      have kept : substituteNode options cached node = node := by
        simp [substituteNode, isRaw]
      rw [kept]
      exact iff_of_true valid (fun _ instruction isSome =>
        by simp [isRaw] at isSome)
  | some instruction =>
      have alone := Node.instructions_of_raw? plain isRaw
      have member : instruction ∈ node.instructions := by simp [alone]
      cases enabled : options.substitutesCachedRegisters with
      | false =>
          have kept : substituteNode options cached node = node := by
            simp [substituteNode, isRaw, enabled]
          rw [kept]
          exact iff_of_true valid (fun impossible => by cases impossible)
      | true =>
          have becomes : substituteNode options cached node =
              .raw (substituteCached cached instruction) := by
            simp [substituteNode, isRaw, enabled]
          have stays := defect?_substituteCached_iff (valid instruction member)
            (fun register isCached =>
              unwritten register isCached instruction member)
          simp [becomes, stays, KeepsLinkage, isRaw]

/--
Instructions that were valid stay valid, unless a call or return after the
loads has a cached linkage register: substitution puts the value in its place,
which no encoding has.
-/
theorem valid_registerCache_iff
    (options : Options)
    {body : List Node}
    (plain : ∀ node ∈ body, node.op = none → node.rest = [])
    (valid : ∀ instruction ∈ instructionsOf body, instruction.defect? = none) :
    Delivers (registerCache options body).outcome
      (fun after => ∃ cached loads, Caches body cached loads ∧
        ((∀ instruction ∈ instructionsOf after, instruction.defect? = none) ↔
          (options.substitutesCachedRegisters = true →
            ∀ node ∈ body.drop (1 + cached.length), KeepsLinkage cached node)))
      (fun _ =>
        ¬ Abutting Instruction.lo Instruction.hi (instructionsOf body)) := by
  apply (registerCache_spec options plain).weaken
  rintro after ⟨cached, loads, caches, ⟨rfl, rfl⟩ | ⟨gathered, -, owns, rfl⟩⟩
  · refine ⟨[], loads, caches, iff_of_true valid ?_⟩
    rintro - node - instruction - register -
    simp
  · refine ⟨cached, loads, caches, ?_⟩
    rw [caches.instructionsOf_divided plain] at valid
    rw [instructionsOf_append, instructionsOf_cons, owns]
    simp only [List.forall_mem_append, forall_mem_instructionsOf_map]
      at valid ⊢
    obtain ⟨first, gatheredValid, later⟩ := valid
    have each : ∀ node ∈ body.drop (1 + cached.length),
        ((∀ instruction ∈ (substituteNode options cached node).instructions,
            instruction.defect? = none) ↔
          (options.substitutesCachedRegisters = true →
            KeepsLinkage cached node)) := by
      intro node member
      apply valid_substituteNode_iff options
        (plain node (List.mem_of_mem_drop member))
      · exact fun instruction isOwned =>
          later instruction (List.mem_flatMap.mpr ⟨node, member, isOwned⟩)
      · exact fun register isCached instruction isOwned =>
          caches.unwritten plain isCached
          instruction (List.mem_flatMap.mpr ⟨node, member, isOwned⟩)
    constructor
    · rintro ⟨-, -, all⟩ enabled node member
      exact (each node member).mp (all node member) enabled
    · exact fun keeps => ⟨first, gatheredValid,
        fun node member =>
          (each node member).mpr (fun enabled => keeps enabled node member)⟩

/-- A return through a register that is loaded with a literal once. -/
def cachedLinkageBody : List Node :=
  [ plainPrologue 0x6000,
    .raw ⟨0x600e, 0x6012, .mov, .word, [.immediate 5, .register ⟨3⟩],
      by decide⟩,
    .raw ⟨0x6012, 0x6014, .rts, .word, [.register ⟨3⟩], by decide⟩ ]

/--
All instructions stay valid if the return goes through the program counter.
-/
theorem valid_registerCache_iff_cachedCall :
    (∀ node ∈ cachedCallBody, node.op = none → node.rest = []) ∧
    (∀ instruction ∈ instructionsOf cachedCallBody,
      instruction.defect? = none) ∧
    ∃ after, (registerCache {} cachedCallBody).outcome = .ok after ∧
      ∀ instruction ∈ instructionsOf after, instruction.defect? = none := by
  have plain : ∀ node ∈ cachedCallBody, node.op = none → node.rest = [] := by
    decide
  have valid : ∀ instruction ∈ instructionsOf cachedCallBody,
      instruction.defect? = none := by
    decide
  have finished : ∃ after, (registerCache {} cachedCallBody).outcome =
      .ok after := ⟨_, rfl⟩
  obtain ⟨after, finished⟩ := finished
  obtain ⟨cached, loads, caches, stays⟩ :=
    (valid_registerCache_iff {} plain valid).of_ok finished
  refine ⟨plain, valid, after, finished, stays.mpr ?_⟩
  have fixed : ∀ node ∈ cachedCallBody, ∀ instruction ∈ node.raw?,
      instruction.linkage? = none ∨ instruction.linkage? = some .pc := by
        decide
  rintro - node member instruction isRaw register isLinkage isCached
  obtain ⟨entry, isEntry, rfl⟩ := List.mem_map.mp isCached
  rcases fixed node (List.mem_of_mem_drop member) instruction isRaw with
    isNone | isFixed
  · rw [isNone] at isLinkage
    cases isLinkage
  · have isGeneral := caches.general entry isEntry
    rw [isFixed, Option.some.injEq] at isLinkage
    rw [← isLinkage] at isGeneral
    cases isGeneral

/-- The return has a literal in place of its linkage register. -/
theorem not_valid_registerCache_cachedLinkage :
    (∀ instruction ∈ instructionsOf cachedLinkageBody,
      instruction.defect? = none) ∧
    cachedLinkageBody.head?.bind Node.op = some (.prologue 0) ∧
    ∃ after, (registerCache {} cachedLinkageBody).outcome = .ok after ∧
      ¬ ∀ instruction ∈ instructionsOf after, instruction.defect? = none :=
  ⟨by decide, rfl, _, rfl, by decide⟩

end Idiom

end ProcRecovery
