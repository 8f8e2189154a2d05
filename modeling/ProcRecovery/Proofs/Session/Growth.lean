import ProcRecovery.Proofs.Image.Sweep
import ProcRecovery.Proofs.Session.Moves

/-!
# Growth of sessions

The image of a session keeps its code, its memory and its routines, and what is
decoded grows in sweeps.
-/

namespace ProcRecovery.Session

variable {options : Options}

/--
An image comes from another one by what a session does to images: it keeps the
program, and it decodes nothing or sweeps from one address.
-/
structure Grows (before after : Image) : Prop where
  shares : before.SharesProgram after
  decoded : after.decoded = before.decoded ∨
    ∃ address, after.decoded = (before.requestDecode address).image.decoded

theorem grows_requestDecode (image : Image) (address : Nat) :
    Grows image (image.requestDecode address).image where
  shares := image.sharesProgram_requestDecode address
  decoded := .inr ⟨address, rfl⟩

theorem grows_absorbAll (image : Image) (events : List Event) :
    Grows image (image.absorbAll events) where
  shares := (image.sharesProgram_absorbAll events).1
  decoded := .inl (image.sharesProgram_absorbAll events).2

theorem grows_decodeDestination
    (session : Session)
    (site : CallSite)
    (destination : Nat) :
    Grows session.image
      (session.decodeDestination site destination).image := by
  rcases decodeDestination_cases session site destination with
    ⟨-, same⟩ | ⟨-, -, same⟩ | ⟨-, -, same⟩
  · rw [same]
    exact ⟨.refl _, .inl rfl⟩
  · rw [same]
    exact grows_requestDecode session.image destination
  · rw [same]
    exact grows_requestDecode session.image destination

theorem Move.grows {work next : Work} (moves : Move options work next) :
    Grows work.session.image next.session.image := by
  cases moves with
  | decode session waiting address =>
      exact grows_requestDecode session.image address
  | label session waiting address label => exact ⟨⟨rfl, rfl, rfl⟩, .inl rfl⟩
  | mention session waiting other => exact grows_absorbAll session.image _
  | count session waiting => exact ⟨.refl _, .inl rfl⟩
  | find session waiting unclaimed coded found_eq =>
      exact grows_absorbAll session.image _
  | @analyze session waiting entry procedure analyzed events known pending
    finished =>
      exact grows_absorbAll session.image events
  | register session site waiting count =>
      rcases registerCall_cases session count site with
        ⟨destination, earlier, -, -, same⟩ | ⟨destination, -, -, same⟩ | ⟨-,
          same⟩
      · dsimp only
        rw [same]
        exact ⟨.refl _, .inl rfl⟩
      · dsimp only
        rw [same]
        exact grows_decodeDestination { session with
          called := session.called.insert destination
            { destination, label := site.label,
              sites := [site] } } site destination
      · dsimp only
        rw [same]
        exact grows_absorbAll session.image _

theorem Grows.extends {before after : Image} (grows : Grows before after) :
    before.Extends after := by
  refine ⟨grows.shares.code_eq, grows.shares.runtime_eq, ?_⟩
  rcases grows.decoded with same | ⟨address, swept⟩
  · rw [same]
    exact fun _ held => held
  · rw [swept]
    exact (before.extends_requestDecode address).decoded

theorem Grows.isSwept
    {before after : Image}
    (grows : Grows before after)
    (keyed : IsKeyed before.code)
    (swept : before.IsSwept) :
    after.IsSwept := by
  rcases grows.decoded with same | ⟨address, sweeps⟩
  · exact swept.congr grows.shares.code_eq same
  · apply (swept.requestDecode keyed address).congr _ sweeps
    rw [grows.shares.code_eq, Image.code_requestDecode]

/-! ## Runs of moves -/

theorem Reaches.extends
    {work next : Work}
    (reached : Reaches options work next) :
    work.session.image.Extends next.session.image := by
  induction reached with
  | refl => exact .refl _
  | tail _ moves hypothesis => exact hypothesis.trans moves.grows.extends

theorem Reaches.isSwept
    {work next : Work}
    (reached : Reaches options work next)
    (keyed : IsKeyed work.session.image.code)
    (swept : work.session.image.IsSwept) :
    next.session.image.IsSwept := by
  induction reached with
  | refl => exact swept
  | tail before moves hypothesis =>
      apply moves.grows.isSwept _ hypothesis
      rw [(Reaches.extends before).code_eq]
      exact keyed

end ProcRecovery.Session
