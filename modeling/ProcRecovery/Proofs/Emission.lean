import ProcRecovery.Proofs.Outcome

/-!
# Events of traced computations

Three kinds of statements about what a traced computation leaves behind.
`Finishes` names the events and the value of a computation that ends well, and
opens along binds.  `EmitsOnly` bounds the kinds of events of any computation,
however it ends, and composes the way contracts do.  `AgreeBy` compares two
computations: they leave the same events behind, and what they end with looks
the same.
-/

namespace ProcRecovery

namespace Traced

variable {α β : Type}

/-- The computation ends with a value after some events. -/
structure Finishes
    (traced : Traced α)
    (events : List Event)
    (value : α) :
    Prop where
  events_eq : traced.events = events
  outcome_eq : traced.outcome = .ok value

theorem finishes_bind_iff
    {first : Traced α} {next : α → Traced β} {events : List Event}
    {result : β} :
    (first >>= next).Finishes events result ↔
      ∃ earlier value later, first.Finishes earlier value ∧
      (next value).Finishes later result ∧
        events = earlier ++ later := by
  rw [bind_eq, Traced.bind]
  constructor
  · intro finished
    split at finished
    next value ended =>
      exact ⟨first.events, value, (next value).events, ⟨rfl, ended⟩,
        ⟨rfl, finished.outcome_eq⟩, finished.events_eq.symm⟩
    next => cases finished.outcome_eq
  · rintro ⟨earlier, value, later, isFirst, isNext, rfl⟩
    rw [isFirst.outcome_eq, isFirst.events_eq]
    exact ⟨congrArg (earlier ++ ·) isNext.events_eq, isNext.outcome_eq⟩

theorem finishes_ofExcept_iff
    {outcome : Except Fault α} {events : List Event} {value : α} :
    (ofExcept outcome).Finishes events value ↔
      events = [] ∧ outcome = .ok value := by
  constructor
  · rintro ⟨rfl, ended⟩
    exact ⟨rfl, ended⟩
  · rintro ⟨rfl, ended⟩
    exact ⟨rfl, ended⟩

theorem finishes_pure_iff
    {result value : α} {events : List Event} :
    (pure result : Traced α).Finishes events value ↔
      events = [] ∧ result = value := by
  constructor
  · rintro ⟨rfl, ended⟩
    cases ended
    exact ⟨rfl, rfl⟩
  · rintro ⟨rfl, rfl⟩
    exact ⟨rfl, rfl⟩

theorem ofExcept_ok_bind (value : α) (next : α → Traced β) :
    (ofExcept (.ok value) >>= next) = next value := rfl

/--
A fold whose steps add to what has been gathered, each after events of its own.
-/
theorem foldlM_gathering
    (log : α → List Event)
    (gain : α → List β)
    {step : List β → α → Traced (List β)}
    (each : ∀ gathered item, step gathered item =
      ⟨log item, .ok (gathered ++ gain item)⟩)
    (items : List α)
    (gathered : List β) :
    items.foldlM step gathered =
      ⟨items.flatMap log, .ok (gathered ++ items.flatMap gain)⟩ := by
  induction items generalizing gathered with
  | nil => simp [pure_eq]
  | cons first later hypothesis =>
      rw [List.foldlM_cons, bind_eq, Traced.bind, each]
      simp [hypothesis]

/-- A traversal whose steps all end well. -/
theorem mapM_of_forall
    (log : α → List Event)
    (result : α → β)
    {step : α → Traced β} {items : List α}
    (each : ∀ item ∈ items, step item = ⟨log item, .ok (result item)⟩) :
    items.mapM step = ⟨items.flatMap log, .ok (items.map result)⟩ := by
  induction items with
  | nil => simp [pure_eq]
  | cons first later hypothesis =>
      rw [List.mapM_cons, each first (by simp),
        hypothesis (fun item member =>
          each item (List.mem_cons_of_mem first member))]
      simp [bind_eq, Traced.bind, pure_eq]

/-! ## Kinds of events -/

/-- All events of the computation are of a kind. -/
structure EmitsOnly (allowed : Event → Prop) (traced : Traced α) : Prop where
  each : ∀ event ∈ traced.events, allowed event

variable {allowed : Event → Prop}

theorem EmitsOnly.of_finishes
    {traced : Traced α} {events : List Event} {value : α}
    (emits : EmitsOnly allowed traced)
    (finished : traced.Finishes events value) :
    ∀ event ∈ events, allowed event := by
  rw [← finished.events_eq]
  exact emits.each

theorem emitsOnly_pure
    (value : α) :
    EmitsOnly allowed (pure value : Traced α) where
  each := by
    intro event member
    cases member

theorem emitsOnly_ofExcept
    (outcome : Except Fault α) :
    EmitsOnly allowed (ofExcept outcome) where
  each := by
    intro event member
    cases member

theorem emitsOnly_stop
    (fault : Fault) :
    EmitsOnly allowed (stop fault : Traced α) where
  each := by
    intro event member
    cases member

theorem emitsOnly_emit
    {events : List Event}
    (isAllowed : ∀ event ∈ events, allowed event) :
    EmitsOnly allowed (emit events) :=
  ⟨isAllowed⟩

theorem emitsOnly_note
    {milestone : Note}
    (isAllowed : allowed (.noted milestone)) :
    EmitsOnly allowed (note milestone) := by
  apply emitsOnly_emit
  simpa using isAllowed

theorem emitsOnly_report
    {procedure : Nat} {diagnostic : Diagnostic}
    (isAllowed : allowed (.diagnosed procedure diagnostic)) :
    EmitsOnly allowed (report procedure diagnostic) := by
  apply emitsOnly_emit
  simpa using isAllowed

theorem EmitsOnly.mono
    {traced : Traced α} {broader : Event → Prop}
    (emits : EmitsOnly allowed traced)
    (weaker : ∀ event, allowed event → broader event) :
    EmitsOnly broader traced where
  each := fun event member => weaker event (emits.each event member)

/--
What comes next matters only for the value that the computation before it ends
with.
-/
theorem EmitsOnly.bind_of_outcome
    {first : Traced α} {next : α → Traced β}
    (firstEmits : EmitsOnly allowed first)
    (nextEmits : ∀ value, first.outcome = .ok value →
      EmitsOnly allowed (next value)) :
    EmitsOnly allowed (first >>= next) := by
  rw [bind_eq, Traced.bind]
  split
  next value ended =>
    constructor
    intro event member
    rcases List.mem_append.mp member with isFirst | isNext
    · exact firstEmits.each event isFirst
    · exact (nextEmits value ended).each event isNext
  next => exact ⟨firstEmits.each⟩

theorem EmitsOnly.bind
    {first : Traced α} {next : α → Traced β}
    (firstEmits : EmitsOnly allowed first)
    (nextEmits : ∀ value, EmitsOnly allowed (next value)) :
    EmitsOnly allowed (first >>= next) :=
  firstEmits.bind_of_outcome (fun value _ => nextEmits value)

/--
A fold whose steps keep an invariant has to be looked at in states with the
invariant only.
-/
theorem EmitsOnly.foldlM_of_invariant
    {step : β → α → Traced β} {items : List α}
    (invariant : β → Prop)
    (emits : ∀ state, invariant state →
      ∀ item ∈ items, EmitsOnly allowed (step state item))
    (keeps : ∀ state, invariant state →
      ∀ item ∈ items, ∀ next, (step state item).outcome = .ok next →
      invariant next)
    {start : β}
    (initial : invariant start) :
    EmitsOnly allowed (items.foldlM step start) := by
  induction items generalizing start with
  | nil => exact emitsOnly_pure start
  | cons first later hypothesis =>
      rw [List.foldlM_cons]
      apply (emits start initial first (by simp)).bind_of_outcome
      intro state stepped
      apply hypothesis
      · intro other holds item member
        exact emits other holds item (List.mem_cons_of_mem first member)
      · intro other holds item member
        exact keeps other holds item (List.mem_cons_of_mem first member)
      · exact keeps start initial first (by simp) state stepped

theorem EmitsOnly.foldlM
    {step : β → α → Traced β}
    (emits : ∀ state item, EmitsOnly allowed (step state item))
    (items : List α)
    (start : β) :
    EmitsOnly allowed (items.foldlM step start) :=
  foldlM_of_invariant (fun _ => True) (fun state _ item _ => emits state item)
    (fun _ _ _ _ _ _ => trivial) trivial

theorem EmitsOnly.mapM
    {step : α → Traced β}
    (emits : ∀ item, EmitsOnly allowed (step item))
    (items : List α) :
    EmitsOnly allowed (items.mapM step) := by
  induction items with
  | nil => exact emitsOnly_pure []
  | cons first later hypothesis =>
      rw [List.mapM_cons]
      apply (emits first).bind
      intro result
      apply hypothesis.bind
      intro results
      exact emitsOnly_pure (result :: results)

/-! ## Agreement -/

/--
Two computations leave the same events behind and end with the same fault or
with values that look the same.
-/
structure AgreeBy (view : α → β) (first second : Traced α) : Prop where
  events_eq : first.events = second.events
  outcome_eq : first.outcome.map view = second.outcome.map view

section Agreement

variable {γ δ : Type} {view : α → γ} {result : β → δ} {first second : Traced α}

theorem AgreeBy.of_eq (same : first = second) : AgreeBy view first second := by
  subst same
  exact ⟨rfl, rfl⟩

theorem agreeBy_pure {value other : α} (same : view value = view other) :
    AgreeBy view (pure value : Traced α) (pure other) :=
  ⟨rfl, congrArg Except.ok same⟩

theorem agreeBy_ofExcept
    {outcome other : Except Fault α}
    (same : outcome.map view = other.map view) :
    AgreeBy view (ofExcept outcome) (ofExcept other) :=
  ⟨rfl, same⟩

/--
What comes next may differ between the two computations, as long as it agrees
on values that look the same.
-/
theorem AgreeBy.bind
    {next after : α → Traced β}
    (agree : AgreeBy view first second)
    (continues : ∀ value other, view value = view other →
      AgreeBy result (next value) (after other)) :
    AgreeBy result (first >>= next) (second >>= after) := by
  have events := agree.events_eq
  have outcomes := agree.outcome_eq
  rw [bind_eq, bind_eq, Traced.bind, Traced.bind]
  cases isFirst : first.outcome with
  | ok value =>
      cases isSecond : second.outcome with
      | ok other =>
          rw [isFirst, isSecond] at outcomes
          have later := continues value other (Except.ok.inj outcomes)
          exact ⟨congrArg₂ (· ++ ·) events later.events_eq, later.outcome_eq⟩
      | error fault =>
          rw [isFirst, isSecond] at outcomes
          cases outcomes
  | error raised =>
      cases isSecond : second.outcome with
      | ok other =>
          rw [isFirst, isSecond] at outcomes
          cases outcomes
      | error fault =>
          rw [isFirst, isSecond] at outcomes
          cases outcomes
          exact ⟨events, rfl⟩

theorem agreeBy_bind_of_eq
    {next after : α → Traced β}
    (same : first = second)
    (continues : ∀ value, AgreeBy result (next value) (after value)) :
    AgreeBy result (first >>= next) (second >>= after) := by
  have agree : AgreeBy id first second := .of_eq same
  apply agree.bind
  rintro value other rfl
  exact continues value

theorem AgreeBy.foldlM
    {step after : α → β → Traced α} {items : List β}
    (each : ∀ item ∈ items, ∀ state other, view state = view other →
      AgreeBy view (step state item) (after other item))
    {start other : α}
    (same : view start = view other) :
    AgreeBy view (items.foldlM step start) (items.foldlM after other) := by
  induction items generalizing start other with
  | nil => exact agreeBy_pure same
  | cons item later hypothesis =>
      rw [List.forall_mem_cons] at each
      rw [List.foldlM_cons, List.foldlM_cons]
      exact (each.1 start other same).bind (fun state another alike =>
        hypothesis each.2 alike)

theorem AgreeBy.mapM
    {step after : α → Traced β}
    (each : ∀ item other, view item = view other →
      AgreeBy result (step item) (after other))
    {items others : List α}
    (same : items.map view = others.map view) :
    AgreeBy (List.map result) (items.mapM step) (others.mapM after) := by
  induction items generalizing others with
  | nil =>
      have empty := List.map_eq_nil_iff.mp same.symm
      subst empty
      exact agreeBy_pure rfl
  | cons item later hypothesis =>
      rcases List.map_eq_cons_iff.mp same.symm with
        ⟨other, rest, rfl, sameItem, sameRest⟩
      rw [List.mapM_cons, List.mapM_cons]
      apply (each item other sameItem.symm).bind
      intro value another alike
      apply (hypothesis sameRest.symm).bind
      intro values anothers alikeLater
      exact agreeBy_pure (congrArg₂ List.cons alike alikeLater)

/-- Where one of two computations that agree ends well, so does the other. -/
theorem AgreeBy.exists_finishes
    {events : List Event} {value : α}
    (agree : AgreeBy view first second)
    (finished : first.Finishes events value) :
    ∃ other, second.Finishes events other ∧ view value = view other := by
  have outcomes := agree.outcome_eq
  rw [finished.outcome_eq] at outcomes
  cases isSecond : second.outcome with
  | ok other =>
      rw [isSecond] at outcomes
      exact ⟨other, ⟨agree.events_eq.symm.trans finished.events_eq, isSecond⟩,
        Except.ok.inj outcomes⟩
  | error fault =>
      rw [isSecond] at outcomes
      cases outcomes

end Agreement

end Traced

end ProcRecovery
