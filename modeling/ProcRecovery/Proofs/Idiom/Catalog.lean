import ProcRecovery.Proofs.Idiom.Looping
import ProcRecovery.Proofs.Replay.Movement

/-!
# Pushes of recognized idioms

A loop that pushes bytes is recognized only if the bytes fit in the address
space.  So no operation in the catalog pushes a piece too wide for a word,
whatever the instructions say.
-/

namespace ProcRecovery

/-- An operation pushes no piece wider than the address space. -/
def PseudoOp.PushesWithin (op : PseudoOp) : Prop :=
  op.pushedBytes ≤ addressSpace

/--
Operations that do not push a piece of variable width push no more than the
address space.
-/
theorem PseudoOp.pushesWithin_of_eq_zero
    {op : PseudoOp}
    (none : op.pushedBytes = 0) :
    op.PushesWithin := by
  unfold PushesWithin
  rw [none]
  exact Nat.zero_le _

namespace Idiom

/-- A loop pushes no more than the bytes that it moves. -/
theorem IsLoop.pushesWithin
    {image : Image} {window : List Instruction} {op : PseudoOp}
    (isLoop : IsLoop image window op) : op.PushesWithin := by
  cases isLoop with
  | text _ _ _ _ _ _ _ _ bytes _ => exact loopBytes?_le bytes
  | literal _ _ _ _ _ bytes _ => exact loopBytes?_le bytes
  | push _ _ _ _ bytes => exact loopBytes?_le bytes
  | pop => exact PseudoOp.pushesWithin_of_eq_zero rfl
  | copy => exact PseudoOp.pushesWithin_of_eq_zero rfl

theorem pushedBytes_stackAdjust
    {image : Image} {window : List Instruction} {op : PseudoOp}
    (recognized : stackAdjust image window = some op) :
    op.pushedBytes = 0 := by
  unfold stackAdjust at recognized
  split at recognized
  next =>
    obtain ⟨bytes, -, recognized⟩ := Option.bind_eq_some_iff.mp recognized
    split at recognized
    next =>
      cases recognized
      rfl
    next => cases recognized
  next => cases recognized

/--
Every template of some templates recognizes only operations whose pushes fit in
the address space.
-/
def PushWithin (templates : List Template) : Prop :=
  ∀ template ∈ templates, ∀ image window op,
    template.recognize image window = some op → op.PushesWithin

theorem pushWithin_prologues : PushWithin prologues := by
  intro template member image window op recognized
  apply PseudoOp.pushesWithin_of_eq_zero
  simp only [prologues, List.mem_cons, List.not_mem_nil, or_false] at member
  rcases member with rfl | rfl
  · simp only [prologueWithLocals] at recognized
    grind [PseudoOp.pushedBytes]
  · simp only [prologue] at recognized
    grind [PseudoOp.pushedBytes]

theorem pushWithin_leavingFamily : PushWithin leavingFamily := by
  intro template member image window op recognized
  apply PseudoOp.pushesWithin_of_eq_zero
  simp only [leavingFamily, List.mem_cons, List.not_mem_nil, or_false]
    at member
  rcases member with rfl | rfl
  · simp only [epilogue] at recognized
    grind [PseudoOp.pushedBytes]
  · simp only [bailout] at recognized
    grind [PseudoOp.pushedBytes]

theorem pushWithin_checkingFamily : PushWithin checkingFamily := by
  intro template member image window op recognized
  apply PseudoOp.pushesWithin_of_eq_zero
  simp only [checkingFamily, List.mem_cons, List.not_mem_nil, or_false]
    at member
  rcases member with rfl | rfl | rfl
  · simp only [stackCheck] at recognized
    grind [PseudoOp.pushedBytes]
  · simp only [checkedBranch] at recognized
    grind [PseudoOp.pushedBytes]
  · simp only [checkedStep] at recognized
    grind [PseudoOp.pushedBytes]

theorem pushWithin_loopingFamily : PushWithin loopingFamily :=
  fun _ member _ _ _ recognized =>
    (isLoop_of_recognize member recognized).pushesWithin

theorem pushWithin_stackFamily : PushWithin stackFamily := by
  intro template member image window op recognized
  apply PseudoOp.pushesWithin_of_eq_zero
  simp only [stackFamily, List.mem_cons, List.not_mem_nil, or_false] at member
  rcases member with rfl | rfl | rfl | rfl | rfl | rfl | rfl
  · obtain ⟨distance, -, rfl⟩ := Option.map_eq_some_iff.mp recognized
    rfl
  · obtain ⟨distance, -, rfl⟩ := Option.map_eq_some_iff.mp recognized
    rfl
  · obtain ⟨distance, -, rfl⟩ := Option.map_eq_some_iff.mp recognized
    rfl
  · obtain ⟨distance, -, rfl⟩ := Option.map_eq_some_iff.mp recognized
    rfl
  · simp only [constantPush] at recognized
    grind [PseudoOp.pushedBytes]
  · exact pushedBytes_stackAdjust recognized
  · simp only [call] at recognized
    grind [PseudoOp.pushedBytes]

theorem pushWithin_families : ∀ family ∈ families, PushWithin family := by
  intro family member
  simp only [families, List.mem_cons, List.not_mem_nil, or_false] at member
  rcases member with rfl | rfl | rfl | rfl
  · exact pushWithin_leavingFamily
  · exact pushWithin_checkingFamily
  · exact pushWithin_loopingFamily
  · exact pushWithin_stackFamily

end Idiom

end ProcRecovery
