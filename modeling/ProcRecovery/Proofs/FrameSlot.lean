import Mathlib.Data.List.Basic
import ProcRecovery.FrameSlot
import ProcRecovery.Proofs.Table

/-!
# Collected frame slots

The slots of a body are collected one use after the other, and a use changes
nothing but the slot at its offset.  So every slot is what the uses at its
offset make of an unused one, in their order.  The sites that take its address
and the sites that access it do not mix: further references to slots add
addresses and leave all accesses as they are.
-/

namespace ProcRecovery

/-- The values at an offset, in order. -/
def valuesAt {α : Type} (offset : Int) (entries : List (Int × α)) : List α :=
  (entries.filter (fun entry => entry.1 = offset)).map Prod.snd

section Values

variable {α β : Type} {offset : Int} {before after : List (Int × α)}

theorem valuesAt_cons
    (entry : Int × α)
    (later : List (Int × α)) :
    valuesAt offset (entry :: later) =
      if entry.1 = offset then entry.2 :: valuesAt offset later
        else valuesAt offset later := by
  simp only [valuesAt, List.filter_cons, decide_eq_true_eq]
  split
  next => rfl
  next => rfl

theorem valuesAt_append
    (earlier later : List (Int × α)) :
    valuesAt offset (earlier ++ later) =
      valuesAt offset earlier ++ valuesAt offset later := by
  simp [valuesAt]

theorem valuesAt_map (change : α → β) (entries : List (Int × α)) :
    valuesAt offset (entries.map (fun entry => (entry.1, change entry.2))) =
      (valuesAt offset entries).map change := by
  simp [valuesAt, List.filter_map, Function.comp_def]

theorem valuesAt_sublist (sublist : before.Sublist after) :
    (valuesAt offset before).Sublist (valuesAt offset after) :=
  (sublist.filter _).map _

theorem valuesAt_perm (perm : before.Perm after) :
    (valuesAt offset before).Perm (valuesAt offset after) :=
  (perm.filter _).map _

end Values

/-! ## Uses of a single slot -/

namespace SlotUse

/-- The site of a use that takes the address of the slot. -/
def addressSite? : SlotUse → Option Nat
  | addressTaken site => some site
  | read _ _ | write _ _ => none

/-- Whether a use reads or writes the slot. -/
def isAccess : SlotUse → Bool
  | addressTaken _ => false
  | read _ _ | write _ _ => true

end SlotUse

namespace FrameSlot

/-- Sites that take the address are listed apart from the accesses. -/
theorem foldl_record
    (uses : List SlotUse)
    (slot : FrameSlot) :
    uses.foldl record slot =
      { (uses.filter SlotUse.isAccess).foldl record slot with
        addressTaken :=
          slot.addressTaken ++ uses.filterMap SlotUse.addressSite? } := by
  induction uses using List.reverseRecOn with
  | nil => simp
  | append_singleton earlier use hypothesis =>
      rw [List.foldl_concat, hypothesis, List.filter_append,
        List.filterMap_append, ← List.append_assoc, List.foldl_append]
      cases use with
      | addressTaken site => rfl
      | read width site =>
          simp [List.filter_cons, SlotUse.isAccess, SlotUse.addressSite?,
            record]
      | write width site =>
          simp [List.filter_cons, SlotUse.isAccess, SlotUse.addressSite?,
            record]

/-- No use moves a slot. -/
theorem offset_foldl_record (uses : List SlotUse) (slot : FrameSlot) :
    (uses.foldl record slot).offset = slot.offset := by
  induction uses generalizing slot with
  | nil => rfl
  | cons use later hypothesis =>
      rw [List.foldl_cons, hypothesis]
      cases use with
      | addressTaken | read | write => rfl

end FrameSlot

/-! ## Uses of all slots -/

namespace FrameSlots

/-- The slot at an offset, an unused one if there is none. -/
def slotAt (slots : FrameSlots) (offset : Int) : FrameSlot :=
  (slots.get? offset).getD { offset }

theorem slotAt_record
    (slots : FrameSlots)
    (use : Int × SlotUse)
    (offset : Int) :
    (slots.record use).slotAt offset =
      if use.1 = offset then (slots.slotAt offset).record use.2
        else slots.slotAt offset := by
  simp only [slotAt, record, update, Table.get?_insert]
  split
  next same =>
    subst same
    rw [if_pos rfl]
    rfl
  next other => rw [if_neg (Ne.symm other)]

theorem contains_record
    (slots : FrameSlots)
    (use : Int × SlotUse)
    (offset : Int) :
    (slots.record use).contains offset ↔
    slots.contains offset ∨ use.1 = offset := by
  simp only [Table.contains, record, update, Table.get?_insert]
  split
  next same => simp [same]
  next other => simp [Ne.symm other]

/-- A slot is what the uses at its offset make of it. -/
theorem slotAt_foldl_record
    (uses : List (Int × SlotUse))
    (slots : FrameSlots)
    (offset : Int) :
    (uses.foldl record slots).slotAt offset =
      (valuesAt offset uses).foldl FrameSlot.record (slots.slotAt offset) := by
  induction uses generalizing slots with
  | nil => rfl
  | cons use later hypothesis =>
      rw [List.foldl_cons, hypothesis, slotAt_record, valuesAt_cons]
      split
      next => rfl
      next => rfl

theorem contains_foldl_record
    (uses : List (Int × SlotUse))
    (slots : FrameSlots)
    (offset : Int) :
    (uses.foldl record slots).contains offset ↔
      slots.contains offset ∨ offset ∈ uses.map Prod.fst := by
  induction uses generalizing slots with
  | nil => simp
  | cons use later hypothesis =>
      rw [List.foldl_cons, hypothesis, contains_record, List.map_cons,
        List.mem_cons, or_assoc, eq_comm (a := use.1)]

/-- Every slot stands at its own offset. -/
def IsKeyed (slots : FrameSlots) : Prop :=
  ∀ offset slot, slots.get? offset = some slot → slot.offset = offset

theorem isKeyed_collect (body : List Node) : (collect body).IsKeyed := by
  intro offset slot found
  have isSlot : (collect body).slotAt offset = slot := by
    rw [slotAt, found, Option.getD_some]
  rw [← isSlot, collect, slotAt_foldl_record, FrameSlot.offset_foldl_record]
  rfl

/-! ## Further references -/

/--
The address of some slots is taken at further sites, and nothing else about any
slot changes.
-/
structure Gains
    (before after : FrameSlots)
    (references : List (Int × Nat)) :
    Prop where
  contains_iff : ∀ offset,
    after.contains offset ↔ before.contains offset ∨
    offset ∈ references.map Prod.fst
  reads_eq : ∀ offset, (after.slotAt offset).reads =
    (before.slotAt offset).reads
  writes_eq : ∀ offset, (after.slotAt offset).writes =
    (before.slotAt offset).writes
  text_eq : ∀ offset, (after.slotAt offset).text = (before.slotAt offset).text
  /-- The sites that were listed before keep their order. -/
  sublist : ∀ offset,
    (before.slotAt offset).addressTaken.Sublist
    (after.slotAt offset).addressTaken
  /-- The further sites are those of the references to the slot. -/
  perm : ∀ offset, (after.slotAt offset).addressTaken.Perm
    ((before.slotAt offset).addressTaken ++ valuesAt offset references)

/-- The use that a reference to a slot makes of it. -/
def referenceUse (reference : Int × Nat) : Int × SlotUse :=
  (reference.1, .addressTaken reference.2)

/-- Further references among the uses leave the accesses as they are. -/
theorem filter_isAccess_eq
    {before after : List SlotUse} {sites : List Nat}
    (sublist : before.Sublist after)
    (perm : after.Perm (before ++ sites.map .addressTaken)) :
    after.filter SlotUse.isAccess = before.filter SlotUse.isAccess := by
  have none :
    (sites.map SlotUse.addressTaken).filter SlotUse.isAccess = [] := by
    simp [List.filter_eq_nil_iff, SlotUse.isAccess]
  have same :
      (after.filter SlotUse.isAccess).Perm
        (before.filter SlotUse.isAccess) := by
    simpa [List.filter_append, none] using perm.filter SlotUse.isAccess
  exact ((sublist.filter _).eq_of_length same.length_eq.symm).symm

theorem addressTaken_foldl_record
    (uses : List (Int × SlotUse))
    (offset : Int) :
    ((uses.foldl record ∅).slotAt offset).addressTaken =
      (valuesAt offset uses).filterMap SlotUse.addressSite? := by
  rw [slotAt_foldl_record, FrameSlot.foldl_record]
  rfl

/--
Uses with the same accesses to a slot make the same of it up to the addresses.
-/
theorem slotAt_foldl_record_of_accesses
    {before after : List (Int × SlotUse)} {offset : Int}
    (accesses :
      (valuesAt offset after).filter SlotUse.isAccess =
        (valuesAt offset before).filter SlotUse.isAccess) :
    (after.foldl record ∅).slotAt offset =
      { (before.foldl record ∅).slotAt offset with
        addressTaken :=
          ((after.foldl record ∅).slotAt offset).addressTaken } := by
  rw [addressTaken_foldl_record, slotAt_foldl_record, slotAt_foldl_record,
    FrameSlot.foldl_record, FrameSlot.foldl_record (valuesAt offset before),
    accesses]
  rfl

/-- Uses that differ in further references make slots that differ in them. -/
theorem gains_of_perm
    {before after : List (Int × SlotUse)} {references : List (Int × Nat)}
    (sublist : before.Sublist after)
    (perm : after.Perm (before ++ references.map referenceUse)) :
    Gains (before.foldl record ∅) (after.foldl record ∅) references := by
  have permAt : ∀ offset, (valuesAt offset after).Perm
      (valuesAt offset before ++
        (valuesAt offset references).map .addressTaken) := by
    intro offset
    rw [← valuesAt_map, ← valuesAt_append]
    exact valuesAt_perm perm
  have agree := fun offset => slotAt_foldl_record_of_accesses
    (filter_isAccess_eq (valuesAt_sublist sublist) (permAt offset))
  refine ⟨?_, ?_, ?_, ?_, ?_, ?_⟩
  · intro offset
    have offsets := (perm.map Prod.fst).mem_iff (a := offset)
    rw [List.map_append, List.map_map, List.mem_append] at offsets
    rw [contains_foldl_record, contains_foldl_record, offsets, ← or_assoc]
    rfl
  · intro offset
    rw [agree offset]
  · intro offset
    rw [agree offset]
  · intro offset
    rw [agree offset]
  · intro offset
    rw [addressTaken_foldl_record, addressTaken_foldl_record]
    exact (valuesAt_sublist sublist).filterMap _
  · intro offset
    have sites :
        ((valuesAt offset references).map SlotUse.addressTaken).filterMap
        SlotUse.addressSite? = valuesAt offset references := by
      rw [List.filterMap_map]
      exact List.filterMap_some
    have reached := (permAt offset).filterMap SlotUse.addressSite?
    rw [List.filterMap_append, sites] at reached
    rw [addressTaken_foldl_record, addressTaken_foldl_record]
    exact reached

end FrameSlots

end ProcRecovery
