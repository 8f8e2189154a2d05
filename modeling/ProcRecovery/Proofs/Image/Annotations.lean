import ProcRecovery.Image.Decoding
import ProcRecovery.Proofs.Table

/-!
# Annotations of images

Labels and comments are what an analysis leaves behind in an image, and the two
behave differently.  A text constant is labeled only where there is no label,
so the first label of an address stays.  A comment takes the place of the one
before it, so of all comments on an address the last one is left.
-/

namespace ProcRecovery

/-! ## What events say about an address -/

namespace Event

/-- The label that an event gives to an address. -/
def label? (address : Nat) : Event → Option String
  | stringFound found =>
      if address = found then some (Image.stringLabel address) else none
  | _ => none

/-- What an event has to say about the code at an address. -/
def comment? (address : Nat) : Event → Option String
  | commented site content => if address = site then some content else none
  | _ => none

theorem label?_eq_some_iff {address : Nat} {event : Event} {label : String} :
    event.label? address = some label ↔
      event = stringFound address ∧ label = Image.stringLabel address := by
  cases event with
  | stringFound found =>
      simp only [label?, Option.ite_none_right_eq_some, Option.some.injEq,
        stringFound.injEq]
      grind
  | _ => simp [label?]

theorem comment?_eq_some_iff
    {address : Nat} {event : Event} {content : String} :
    event.comment? address = some content ↔
    event = commented address content := by
  cases event with
  | commented site text =>
      grind [comment?]
  | _ => simp [comment?]

end Event

/-- The labels that some events give to an address, in order. -/
def labelsOf (address : Nat) (events : List Event) : List String :=
  events.filterMap (Event.label? address)

/-- What some events have to say about the code at an address, in order. -/
def commentsOf (address : Nat) (events : List Event) : List String :=
  events.filterMap (Event.comment? address)

theorem labelsOf_append
    (address : Nat)
    (earlier later : List Event) :
    labelsOf address (earlier ++ later) =
      labelsOf address earlier ++ labelsOf address later :=
  List.filterMap_append

theorem commentsOf_append (address : Nat) (earlier later : List Event) :
    commentsOf address (earlier ++ later) =
      commentsOf address earlier ++ commentsOf address later :=
  List.filterMap_append

theorem mem_labelsOf_iff
    {address : Nat} {label : String} {events : List Event} :
    label ∈ labelsOf address events ↔
      Event.stringFound address ∈ events ∧
        label = Image.stringLabel address := by
  simp only [labelsOf, List.mem_filterMap, Event.label?_eq_some_iff]
  exact ⟨fun ⟨_, member, same, labeled⟩ => ⟨same ▸ member, labeled⟩,
    fun ⟨member, labeled⟩ => ⟨_, member, rfl, labeled⟩⟩

theorem mem_commentsOf_iff
    {address : Nat} {content : String} {events : List Event} :
    content ∈ commentsOf address events ↔
      Event.commented address content ∈ events := by
  simp only [commentsOf, List.mem_filterMap, Event.comment?_eq_some_iff,
    exists_eq_right]

/-! ## Annotation -/

namespace Image

/--
An image has the annotations of another one and those of some events: the first
label of an address stays, and the last comment on it.
-/
structure IsAnnotatedBy
    (events : List Event)
    (before after : Image) :
    Prop where
  labels : ∀ address, after.labels.get? address =
    (before.labels.get? address).or (labelsOf address events).head?
  comments : ∀ address, after.comments.get? address =
    (commentsOf address events).getLast?.or (before.comments.get? address)

/-- Events that say nothing about the image leave its annotations alone. -/
theorem isAnnotatedBy_of_silent
    {before after : Image} {events : List Event}
    (labels : after.labels = before.labels)
    (comments : after.comments = before.comments)
    (silent : ∀ event ∈ events, ∀ address, event.label? address = none ∧
      event.comment? address = none) :
    before.IsAnnotatedBy events after where
  labels := by
    intro address
    have none : labelsOf address events = [] :=
      List.filterMap_eq_nil_iff.mpr (fun event member =>
        (silent event member address).1)
    rw [labels, none, List.head?_nil, Option.or_none]
  comments := by
    intro address
    have none : commentsOf address events = [] :=
      List.filterMap_eq_nil_iff.mpr (fun event member =>
        (silent event member address).2)
    rw [comments, none, List.getLast?_nil, Option.none_or]

theorem IsAnnotatedBy.trans
    {first second third : Image} {earlier later : List Event}
    (early : first.IsAnnotatedBy earlier second)
    (late : second.IsAnnotatedBy later third) :
    first.IsAnnotatedBy (earlier ++ later) third where
  labels := by
    intro address
    rw [late.labels, early.labels, Option.or_assoc, ← List.head?_append,
      labelsOf_append]
  comments := by
    intro address
    rw [late.comments, early.comments, ← Option.or_assoc,
      ← List.getLast?_append, commentsOf_append]

theorem isAnnotatedBy_absorb (image : Image) (event : Event) :
    image.IsAnnotatedBy [event] (image.absorb event) := by
  cases event with
  | stringFound found =>
      refine ⟨?_, fun _ => rfl⟩
      intro address
      rw [absorb, Table.get?_insertNew]
      by_cases same : address = found
      · simp [labelsOf, Event.label?, same]
      · simp [labelsOf, Event.label?, same]
  | commented site content =>
      refine ⟨fun address => (Option.or_none).symm, ?_⟩
      intro address
      rw [absorb, setComment, Table.get?_insert]
      by_cases same : address = site
      · simp [commentsOf, Event.comment?, same]
      · simp [commentsOf, Event.comment?, same]
  | diagnosed procedure diagnostic =>
      exact isAnnotatedBy_of_silent rfl rfl
        (by simp [Event.label?, Event.comment?])
  | noted note =>
      exact isAnnotatedBy_of_silent rfl rfl
        (by simp [Event.label?, Event.comment?])

theorem isAnnotatedBy_requestDecode (image : Image) (address : Nat) :
    image.IsAnnotatedBy [.noted (image.requestDecode address).note]
      (image.requestDecode address).image := by
  apply isAnnotatedBy_of_silent (image.labels_requestDecode address) _
    (by simp [Event.label?, Event.comment?])
  unfold requestDecode
  split <;> rfl

/-- Events annotate an image the way they say. -/
theorem isAnnotatedBy_absorbAll (image : Image) (events : List Event) :
    image.IsAnnotatedBy events (image.absorbAll events) := by
  induction events generalizing image with
  | nil => exact isAnnotatedBy_of_silent rfl rfl (by simp)
  | cons event later hypothesis =>
      exact (image.isAnnotatedBy_absorb event).trans
        (hypothesis (image.absorb event))

end Image

end ProcRecovery
