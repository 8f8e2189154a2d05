import ProcRecovery.Proofs.Emission

/-!
# Computations in step

Two computations that do nearly the same need not end the same way: one of them
may stop with a fault that the other never comes to.  They are in step if their
values are related wherever both come to an end, and if the events that matter
are then the same.  Computations that are in step stay so along binds and
folds.
-/

namespace ProcRecovery

/-! ## Outcomes -/

/-- Where both outcomes are values, the values are related. -/
structure InStep
    {ε α β : Type}
    (relates : α → β → Prop)
    (first : Except ε α)
    (second : Except ε β) :
    Prop where
  related : ∀ value other, first = .ok value → second = .ok other →
    relates value other

section Outcomes

variable {ε α β γ δ : Type} {relates : α → β → Prop} {first : Except ε α}
  {second : Except ε β}

theorem inStep_ok {value : α} {other : β} (alike : relates value other) :
    InStep relates (.ok value : Except ε α) (.ok other) where
  related := by
    intro result another isResult isAnother
    cases isResult
    cases isAnother
    exact alike

theorem InStep.bind
    {result : γ → δ → Prop} {next : α → Except ε γ} {after : β → Except ε δ}
    (inStep : InStep relates first second)
    (continues : ∀ value other, first = .ok value → second = .ok other →
      relates value other → InStep result (next value) (after other)) :
    InStep result (first >>= next) (second >>= after) where
  related := by
    intro final another isFinal isAnother
    rcases bind_eq_ok_iff.mp isFinal with ⟨value, isValue, finished⟩
    rcases bind_eq_ok_iff.mp isAnother with ⟨other, isOther, finishedToo⟩
    have alike := inStep.related value other isValue isOther
    exact (continues value other isValue isOther alike).related final another
      finished finishedToo

/-- Folds over paired items are in step if their steps are. -/
theorem InStep.foldlM
    {pairs : γ → δ → Prop} {step : α → γ → Except ε α}
    {after : β → δ → Except ε β} {items : List γ} {others : List δ}
    (paired : List.Forall₂ pairs items others)
    (each :
      ∀ item ∈ items, ∀ other ∈ others, pairs item other →
        ∀ state another, relates state another →
        InStep relates (step state item) (after another other))
    {start : α} {another : β}
    (alike : relates start another) :
    InStep relates (items.foldlM step start)
      (others.foldlM after another) := by
  induction paired generalizing start another with
  | nil => exact inStep_ok alike
  | cons pair later hypothesis =>
      rw [List.foldlM_cons, List.foldlM_cons]
      apply (each _ (by simp) _ (by simp) pair start another alike).bind
      intro state counterpart _ _ alikeNext
      apply hypothesis _ alikeNext
      intro item member other otherMember
      exact each item (List.mem_cons_of_mem _ member) other
        (List.mem_cons_of_mem _ otherMember)

/-- Two outcomes in step, each with the faults that it is excused for. -/
theorem InStep.delivers
    {post : α → Prop} {postToo : β → Prop} {excuse excuseToo : ε → Prop}
    (inStep : InStep relates first second)
    (contract : Delivers first post excuse)
    (contractToo : Delivers second postToo excuseToo) :
    Delivers first (fun value => Delivers second (relates value) excuseToo)
      excuse := by
  apply delivers_of_outcome
  · intro value isValue
    apply delivers_of_outcome
    · intro other isOther
      exact inStep.related value other isValue isOther
    · intro fault stopped
      exact contractToo.of_error stopped
  · intro fault stopped
    exact contract.of_error stopped

end Outcomes

/-! ## Traced computations -/

namespace Traced

variable {α β γ δ : Type}

/--
Where both computations come to an end, their values are related, and they have
left the same events that matter behind.
-/
structure InStep
    (matters : Event → Bool)
    (relates : α → β → Prop)
    (first : Traced α)
    (second : Traced β) :
    Prop where
  related : ∀ value other, first.outcome = .ok value →
    second.outcome = .ok other →
    relates value other ∧ first.events.filter matters =
      second.events.filter matters

variable {matters : Event → Bool} {relates : α → β → Prop} {first : Traced α}
  {second : Traced β}

theorem AgreeBy.inStep
    {view : α → γ} {first second : Traced α}
    (agree : AgreeBy view first second) :
    InStep matters (fun value other => view value = view other) first second
    where
  related := by
    intro value other isValue isOther
    have outcomes := agree.outcome_eq
    rw [isValue, isOther] at outcomes
    exact ⟨Except.ok.inj outcomes, by rw [agree.events_eq]⟩

theorem inStep_pure {value : α} {other : β} (alike : relates value other) :
    InStep matters relates (pure value : Traced α) (pure other) where
  related := by
    intro result another isResult isAnother
    cases isResult
    cases isAnother
    exact ⟨alike, rfl⟩

theorem EmitsOnly.filter_events
    {traced : Traced α}
    (silent : EmitsOnly (fun event => matters event = false) traced) :
    traced.events.filter matters = [] := by
  rw [List.filter_eq_nil_iff]
  intro event member
  rw [silent.each event member]
  exact Bool.false_ne_true

/--
Computations without events that matter are in step if their values are
related.
-/
theorem inStep_of_silent
    (silent : EmitsOnly (fun event => matters event = false) first)
    (silentToo : EmitsOnly (fun event => matters event = false) second)
    (inStep : ProcRecovery.InStep relates first.outcome second.outcome) :
    InStep matters relates first second where
  related := by
    intro value other isValue isOther
    refine ⟨inStep.related value other isValue isOther, ?_⟩
    rw [silent.filter_events, silentToo.filter_events]

theorem inStep_emit
    {events another : List Event}
    (silent : ∀ event ∈ events, matters event = false)
    (silentToo : ∀ event ∈ another, matters event = false) :
    InStep matters (fun _ _ => True) (emit events) (emit another) :=
  inStep_of_silent ⟨silent⟩ ⟨silentToo⟩ (inStep_ok trivial)

theorem inStep_stop_left
    (fault : Fault) :
    InStep matters relates (stop fault) second where
  related := by
    intro value other isValue
    cases isValue

theorem inStep_stop_right
    (fault : Fault) :
    InStep matters relates first (stop fault) where
  related := by
    intro value other _ isOther
    cases isOther

theorem events_bind_of_outcome
    {next : α → Traced γ} {value : α}
    (finished : first.outcome = .ok value) :
    (first >>= next).events = first.events ++ (next value).events := by
  rw [bind_eq, Traced.bind, finished]

theorem InStep.bind
    {result : γ → δ → Prop} {next : α → Traced γ} {after : β → Traced δ}
    (inStep : InStep matters relates first second)
    (continues : ∀ value other, first.outcome = .ok value →
      second.outcome = .ok other → relates value other →
      InStep matters result (next value) (after other)) :
    InStep matters result (first >>= next) (second >>= after) where
  related := by
    intro final another isFinal isAnother
    rw [outcome_bind] at isFinal isAnother
    rcases bind_eq_ok_iff.mp isFinal with ⟨value, isValue, finished⟩
    rcases bind_eq_ok_iff.mp isAnother with ⟨other, isOther, finishedToo⟩
    rcases inStep.related value other isValue isOther with ⟨alike, earlier⟩
    rcases (continues value other isValue isOther alike).related final another
      finished
      finishedToo with ⟨results, later⟩
    refine ⟨results, ?_⟩
    rw [events_bind_of_outcome isValue, events_bind_of_outcome isOther,
      List.filter_append, List.filter_append, earlier, later]

theorem inStep_bind_of_eq
    {result : γ → δ → Prop} {first second : Traced α} {next : α → Traced γ}
    {after : α → Traced δ}
    (same : first = second)
    (continues : ∀ value, InStep matters result (next value) (after value)) :
    InStep matters result (first >>= next) (second >>= after) := by
  have agree : AgreeBy id first second := .of_eq same
  apply agree.inStep.bind
  rintro value other - - rfl
  exact continues value

end Traced

end ProcRecovery
