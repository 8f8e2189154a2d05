import Mathlib.Data.List.Forall2
import ProcRecovery.Journal.Event

/-!
# Outcomes

Nearly every function of the analysis can end with a fault, so its contract has
two sides: what holds of the value that it gives, and which faults are excused.
`Delivers` states both at once.  Contracts compose along binds, folds and
traversals, and because the outcome of a traced computation is computed by the
same binds, one set of rules serves traced and plain computations alike.
-/

namespace ProcRecovery

/--
The outcome is a value that meets the contract, or a fault that is excused.
-/
def Delivers
    {ε α : Type}
    (outcome : Except ε α)
    (post : α → Prop)
    (excuse : ε → Prop) :
    Prop :=
  match outcome with
  | .ok value => post value
  | .error fault => excuse fault

section Contracts

variable {ε α β : Type} {post : α → Prop} {after : β → Prop} {excuse : ε →
  Prop}

@[simp]
theorem delivers_ok {value : α} :
    Delivers (.ok value : Except ε α) post excuse ↔ post value := Iff.rfl

@[simp]
theorem delivers_error {fault : ε} :
    Delivers (.error fault : Except ε α) post excuse ↔ excuse fault := Iff.rfl

@[simp]
theorem delivers_pure {value : α} :
    Delivers (pure value : Except ε α) post excuse ↔ post value := Iff.rfl

theorem Delivers.of_ok
    {outcome : Except ε α} {value : α}
    (contract : Delivers outcome post excuse)
    (finished : outcome = .ok value) :
    post value := by
  subst finished
  exact contract

theorem Delivers.of_error
    {outcome : Except ε α} {fault : ε}
    (contract : Delivers outcome post excuse)
    (stopped : outcome = .error fault) :
    excuse fault := by
  subst stopped
  exact contract

theorem Delivers.mono
    {outcome : Except ε α} {weaker : α → Prop} {broader : ε → Prop}
    (contract : Delivers outcome post excuse)
    (onValue : ∀ value, post value → weaker value)
    (onFault : ∀ fault, excuse fault → broader fault) :
    Delivers outcome weaker broader := by
  cases outcome with
  | ok value => exact onValue value contract
  | error fault => exact onFault fault contract

/-- Only the value side of a contract changes. -/
theorem Delivers.weaken
    {outcome : Except ε α} {weaker : α → Prop}
    (contract : Delivers outcome post excuse)
    (onValue : ∀ value, post value → weaker value) :
    Delivers outcome weaker excuse :=
  contract.mono onValue (fun _ excused => excused)

/-- A contract that excuses no fault gives a value. -/
theorem Delivers.exists_ok
    {outcome : Except ε α}
    (contract : Delivers outcome post (fun _ => False)) :
    ∃ value, outcome = .ok value ∧ post value := by
  cases outcome with
  | ok value => exact ⟨value, rfl, contract⟩
  | error fault => exact contract.elim

/-- A contract excuses no fault of an outcome that is a value. -/
theorem Delivers.without_excuse
    {outcome : Except ε α}
    (contract : Delivers outcome post excuse)
    (finishes : ∃ value, outcome = .ok value) :
    Delivers outcome post (fun _ => False) := by
  rcases finishes with ⟨value, finished⟩
  rw [finished, delivers_ok]
  exact contract.of_ok finished

/-- Any outcome gives what is known of it by name. -/
theorem delivers_of_outcome
    {outcome : Except ε α}
    (onValue : ∀ value, outcome = .ok value → post value)
    (onFault : ∀ fault, outcome = .error fault → excuse fault) :
    Delivers outcome post excuse := by
  cases outcome with
  | ok value => exact onValue value rfl
  | error fault => exact onFault fault rfl

/-- Any outcome meets the contract that asks for nothing. -/
theorem delivers_trivially (outcome : Except ε α) :
    Delivers outcome (fun _ => True) (fun _ => True) :=
  delivers_of_outcome (fun _ _ => trivial) (fun _ _ => trivial)

theorem Delivers.bind
    {outcome : Except ε α} {next : α → Except ε β}
    (contract : Delivers outcome post excuse)
    (continues : ∀ value, post value → Delivers (next value) after excuse) :
    Delivers (outcome >>= next) after excuse := by
  cases outcome with
  | ok value => exact continues value contract
  | error fault => exact contract

/-- A fold keeps an invariant that every one of its steps keeps. -/
theorem Delivers.foldlM
    {invariant : β → Prop} {step : β → α → Except ε β} {items : List α}
    {start : β}
    (initial : invariant start)
    (keeps : ∀ state, invariant state →
      ∀ item ∈ items, Delivers (step state item) invariant excuse) :
    Delivers (items.foldlM step start) invariant excuse := by
  induction items generalizing start with
  | nil => exact initial
  | cons first later hypothesis =>
      rw [List.foldlM_cons]
      apply Delivers.bind (keeps start initial first (by simp))
      intro state kept
      apply hypothesis kept
      intro other otherKept item member
      exact keeps other otherKept item (List.mem_cons_of_mem first member)

/-- A traversal relates every item to its result. -/
theorem Delivers.mapM
    {relates : α → β → Prop} {step : α → Except ε β} {items : List α}
    (each : ∀ item ∈ items, Delivers (step item) (relates item) excuse) :
    Delivers (items.mapM step) (List.Forall₂ relates items) excuse := by
  induction items with
  | nil => exact List.Forall₂.nil
  | cons first later hypothesis =>
      rw [List.mapM_cons]
      apply Delivers.bind (each first (by simp))
      intro result related
      apply Delivers.bind
        (hypothesis
          (fun item member => each item (List.mem_cons_of_mem first member)))
      intro results relatedLater
      exact List.Forall₂.cons related relatedLater

end Contracts

/-! ## Lists that correspond item by item -/

section Correspondence

variable {α β : Type} {relates : α → β → Prop} {left : List α} {right : List β}

theorem exists_of_mem_left
    (paired : List.Forall₂ relates left right)
    {item : α}
    (member : item ∈ left) :
    ∃ other ∈ right, relates item other := by
  induction paired with
  | nil => cases member
  | @cons first second _ _ related _ hypothesis =>
      rcases List.mem_cons.mp member with rfl | later
      · exact ⟨second, by simp, related⟩
      · obtain ⟨other, otherMember, otherRelated⟩ := hypothesis later
        exact ⟨other, List.mem_cons_of_mem second otherMember, otherRelated⟩

theorem exists_of_mem_right
    (paired : List.Forall₂ relates left right)
    {item : β}
    (member : item ∈ right) :
    ∃ other ∈ left, relates other item := by
  obtain ⟨other, otherMember, related⟩ := exists_of_mem_left paired.flip member
  exact ⟨other, otherMember, related⟩

end Correspondence

/-! ## Sums that fit in a word -/

theorem delivers_signedOr
    (fault : Fault)
    (value : Int) :
    Delivers (signedOr fault value) (fun result => result = value ∧
      FitsSigned value)
      (fun raised => raised = fault ∧ ¬ FitsSigned value) := by
  unfold signedOr
  split
  next fits => exact ⟨rfl, fits⟩
  next overflows => exact ⟨rfl, overflows⟩

theorem delivers_unsignedOr
    (fault : Fault)
    (value : Nat) :
    Delivers (unsignedOr fault value) (fun result => result = value ∧
      FitsUnsigned value)
      (fun raised => raised = fault ∧ ¬ FitsUnsigned value) := by
  unfold unsignedOr
  split
  next fits => exact ⟨rfl, fits⟩
  next overflows => exact ⟨rfl, overflows⟩

/-- Words hold every integer that stays away from the sign bit. -/
theorem signedOr_of_natAbs_lt
    (fault : Fault)
    {value : Int}
    (small : value.natAbs < 0x8000000000000000) :
    signedOr fault value = .ok value := by
  rw [signedOr_eq_ok_iff]
  refine ⟨?_, rfl⟩
  unfold FitsSigned
  omega

/-! ## Inversion -/

section Inversion

variable {ε α β : Type}

@[simp]
theorem ok_bind (value : α) (next : α → Except ε β) :
    ((.ok value : Except ε α) >>= next) = next value := rfl

theorem bind_eq_ok_iff
    {outcome : Except ε α} {next : α → Except ε β} {result : β} :
    (outcome >>= next) = .ok result ↔
      ∃ value, outcome = .ok value ∧ next value = .ok result := by
  cases outcome with
  | ok value => simp [bind, Except.bind]
  | error fault => simp [bind, Except.bind]

theorem bind_eq_error_iff
    {outcome : Except ε α} {next : α → Except ε β} {fault : ε} :
    (outcome >>= next) = .error fault ↔
      outcome = .error fault ∨ ∃ value, outcome = .ok value ∧
        next value = .error fault := by
  cases outcome with
  | ok value => simp [bind, Except.bind]
  | error raised => simp [bind, Except.bind]

/-- A traversal stops at its first item that gives no result. -/
theorem mapM_eq_error_iff
    {step : α → Except ε β} {items : List α} {fault : ε} :
    items.mapM step = .error fault ↔
      ∃ earlier item later results, items = earlier ++ item :: later ∧
        earlier.mapM step = .ok results ∧ step item = .error fault := by
  induction items with
  | nil => simp [pure, Except.pure]
  | cons first rest hypothesis =>
      rw [List.mapM_cons, bind_eq_error_iff]
      constructor
      · rintro (stopped | ⟨value, finished, stopped⟩)
        · exact ⟨[], first, rest, [], rfl, rfl, stopped⟩
        · rcases bind_eq_error_iff.mp stopped with stopped | ⟨_, _, impossible⟩
          · obtain ⟨earlier, item, later, results, rfl, before, atItem⟩ :=
              hypothesis.mp stopped
            refine ⟨first :: earlier, item, later, value :: results, rfl, ?_,
              atItem⟩
            simp only [List.mapM_cons, finished, before, ok_bind]
            rfl
          · cases impossible
      · rintro ⟨earlier, item, later, results, split, before, atItem⟩
        cases earlier with
        | nil =>
            cases split
            exact .inl atItem
        | cons second earlier =>
            cases split
            rw [List.mapM_cons] at before
            obtain ⟨value, finished, before⟩ := bind_eq_ok_iff.mp before
            obtain ⟨values, beforeLater, _⟩ := bind_eq_ok_iff.mp before
            refine .inr ⟨value, finished, bind_eq_error_iff.mpr (.inl ?_)⟩
            exact hypothesis.mpr ⟨earlier, item, later, values, rfl,
              beforeLater, atItem⟩

/-- A fold stops at the first item whose step fails. -/
theorem foldlM_eq_error_iff
    {step : β → α → Except ε β} {items : List α} {start : β} {fault : ε} :
    items.foldlM step start = .error fault ↔
      ∃ earlier item later state, items = earlier ++ item :: later ∧
        earlier.foldlM step start = .ok state ∧
        step state item = .error fault := by
  induction items generalizing start with
  | nil => simp [pure, Except.pure]
  | cons first rest hypothesis =>
      rw [List.foldlM_cons, bind_eq_error_iff]
      constructor
      · rintro (stopped | ⟨next, finished, stopped⟩)
        · exact ⟨[], first, rest, start, rfl, rfl, stopped⟩
        · obtain ⟨earlier, item, later, state, rfl, before, atItem⟩ :=
            hypothesis.mp stopped
          refine ⟨first :: earlier, item, later, state, rfl, ?_, atItem⟩
          rw [List.foldlM_cons, finished]
          exact before
      · rintro ⟨earlier, item, later, state, split, before, atItem⟩
        cases earlier with
        | nil =>
            cases split
            cases before
            exact .inl atItem
        | cons second earlier =>
            cases split
            rw [List.foldlM_cons] at before
            obtain ⟨next, finished, before⟩ := bind_eq_ok_iff.mp before
            exact .inr ⟨next, finished,
              hypothesis.mpr ⟨earlier, item, later, state, rfl, before,
                atItem⟩⟩

/--
Outcomes that look the same go on to outcomes that look the same, if what comes
next makes no difference between values that do.
-/
theorem map_bind_congr
    {γ δ : Type}
    (view : α → γ)
    {result : β → δ} {first second : Except ε α} {next after : α → Except ε β}
    (same : first.map view = second.map view)
    (continues : ∀ value other, view value = view other →
      (next value).map result = (after other).map result) :
    (first >>= next).map result = (second >>= after).map result := by
  cases first with
  | ok value =>
      cases second with
      | ok other => exact continues value other (Except.ok.inj same)
      | error fault => cases same
  | error raised =>
      cases second with
      | ok other => cases same
      | error fault =>
          cases same
          rfl

theorem map_foldlM_congr
    {γ : Type} {view : β → γ} {step after : β → α → Except ε β}
    (each :
      ∀ state other item, view state = view other →
        (step state item).map view = (after other item).map view)
    (items : List α)
    {start other : β}
    (same : view start = view other) :
    (items.foldlM step start).map view =
      (items.foldlM after other).map view := by
  induction items generalizing start other with
  | nil => exact congrArg Except.ok same
  | cons first later hypothesis =>
      rw [List.foldlM_cons, List.foldlM_cons]
      exact map_bind_congr view (each start other first same)
        (fun state another alike => hypothesis alike)

theorem eq_ok_of_toOption
    {outcome : Except ε α} {value : α}
    (given : outcome.toOption = some value) :
    outcome = .ok value := by
  cases outcome with
  | ok result => exact congrArg Except.ok (Option.some.inj given)
  | error fault => cases given

theorem toOption_bind
    (outcome : Except ε α)
    (next : α → Except ε β) :
    (outcome >>= next).toOption =
      outcome.toOption.bind (fun value => (next value).toOption) := by
  cases outcome <;> rfl

theorem toOption_eq_some_iff {outcome : Except ε α} {value : α} :
    outcome.toOption = some value ↔ outcome = .ok value := by
  constructor
  · exact eq_ok_of_toOption
  · rintro rfl
    rfl

theorem toOption_mapM_congr
    {step after : α → Except ε β}
    (same : ∀ item, (step item).toOption = (after item).toOption)
    (items : List α) :
    (items.mapM step).toOption = (items.mapM after).toOption := by
  induction items with
  | nil => rfl
  | cons first later hypothesis =>
      rw [List.mapM_cons, List.mapM_cons, toOption_bind, toOption_bind, same]
      apply congrArg
      funext value
      rw [toOption_bind, toOption_bind, hypothesis]

theorem mapM_eq_ok_iff
    {step : α → Except ε β} {items : List α} {results : List β} :
    items.mapM step = .ok results ↔
      List.Forall₂ (fun item result =>
        step item = .ok result) items results := by
  induction items generalizing results with
  | nil =>
      rw [List.forall₂_nil_left_iff]
      constructor
      · intro same
        cases same
        rfl
      · rintro rfl
        rfl
  | cons first later hypothesis =>
      rw [List.mapM_cons, bind_eq_ok_iff, List.forall₂_cons_left_iff]
      constructor
      · rintro ⟨result, stepped, rest⟩
        rcases bind_eq_ok_iff.mp rest with ⟨others, mapped, same⟩
        cases same
        exact ⟨result, others, stepped, hypothesis.mp mapped, rfl⟩
      · rintro ⟨result, others, stepped, mapped, rfl⟩
        exact ⟨result, stepped,
          bind_eq_ok_iff.mpr ⟨others, hypothesis.mpr mapped, rfl⟩⟩

end Inversion

/-! ## Outcomes of traced computations -/

namespace Traced

variable {α β : Type}

@[simp]
theorem outcome_pure
    (value : α) :
    (pure value : Traced α).outcome = .ok value := rfl

@[simp]
theorem outcome_ofExcept
    (outcome : Except Fault α) :
    (ofExcept outcome).outcome = outcome := rfl

@[simp]
theorem outcome_emit
    (events : List Event) :
    (emit events).outcome = .ok () := rfl

@[simp]
theorem outcome_note
    (milestone : Note) :
    (note milestone).outcome = .ok () := rfl

@[simp]
theorem outcome_report (procedure : Nat) (diagnostic : Diagnostic) :
    (report procedure diagnostic).outcome = .ok () := rfl

@[simp]
theorem outcome_stop
    (fault : Fault) :
    (stop fault : Traced α).outcome = .error fault := rfl

/-- The outcome of a bind is the bind of the outcomes. -/
@[simp]
theorem outcome_bind
    (first : Traced α)
    (next : α → Traced β) :
    (first >>= next).outcome = first.outcome >>= fun value =>
      (next value).outcome := by
  rw [bind_eq, Traced.bind]
  cases first.outcome <;> rfl

@[simp]
theorem outcome_foldlM (step : β → α → Traced β) (items : List α) (start : β) :
    (items.foldlM step start).outcome =
      items.foldlM (fun state item => (step state item).outcome) start := by
  induction items generalizing start with
  | nil => rfl
  | cons first later hypothesis =>
      simp only [List.foldlM_cons, outcome_bind, hypothesis]

@[simp]
theorem outcome_mapM (step : α → Traced β) (items : List α) :
    (items.mapM step).outcome =
      items.mapM (fun item => (step item).outcome) := by
  induction items with
  | nil => rfl
  | cons first later hypothesis =>
      simp only [List.mapM_cons, outcome_bind, hypothesis, outcome_pure]
      rfl

end Traced

end ProcRecovery
