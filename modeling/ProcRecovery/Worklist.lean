/-!
# Worklists

A queue in which every pending item stands once.  Adding an item that is still
pending leaves it where it is.
-/

namespace ProcRecovery

/-- Pending items, oldest first. -/
structure Worklist (α : Type) where
  pending : List α
  nodup : pending.Nodup

namespace Worklist

variable {α : Type}

/-- The worklist without items. -/
def empty : Worklist α := ⟨[], List.nodup_nil⟩

instance : Inhabited (Worklist α) := ⟨empty⟩

/-- Take the oldest item. -/
def pop? (worklist : Worklist α) : Option (α × Worklist α) :=
  match worklist with
  | ⟨[], _⟩ => none
  | ⟨oldest :: rest, nodup⟩ =>
      some (oldest, ⟨rest, (List.nodup_cons.1 nodup).2⟩)

/-- Whether nothing is pending. -/
def isEmpty (worklist : Worklist α) : Bool := worklist.pending.isEmpty

theorem pending_of_pop?
    {worklist rest : Worklist α} {oldest : α}
    (popped : worklist.pop? = some (oldest, rest)) :
    worklist.pending = oldest :: rest.pending := by
  obtain ⟨pending, nodup⟩ := worklist
  cases pending with
  | nil => simp [pop?] at popped
  | cons first later =>
    simp only [pop?, Option.some.injEq, Prod.mk.injEq] at popped
    obtain ⟨rfl, rfl⟩ := popped
    rfl

variable [DecidableEq α]

/-- Add an item after all others, unless it is pending. -/
def push (worklist : Worklist α) (item : α) : Worklist α :=
  if held : item ∈ worklist.pending then worklist
  else
    { pending := worklist.pending ++ [item]
      nodup := by
        refine List.nodup_append.2 ⟨worklist.nodup, by simp, ?_⟩
        intro earlier member later single
        rw [List.mem_singleton.1 single]
        rintro rfl
        exact held member }

/-- Whether an item could be added. -/
def accepts
    (worklist : Worklist α)
    (item : α) :
    Bool :=
  item ∉ worklist.pending

/-- The worklist of some items, added in order. -/
def ofList (items : List α) : Worklist α := items.foldl push empty

theorem pending_push
    (worklist : Worklist α)
    (item : α) :
    (worklist.push item).pending =
      if item ∈ worklist.pending then worklist.pending
        else worklist.pending ++ [item] := by
  unfold push
  split <;> simp_all

theorem length_push_le (worklist : Worklist α) (item : α) :
    (worklist.push item).pending.length ≤ worklist.pending.length + 1 := by
  rw [pending_push]
  split <;> simp

end Worklist

end ProcRecovery
