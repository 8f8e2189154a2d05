/-!
# Ordered tables

A table keeps its entries sorted by key, so that walking it visits the keys in
ascending order.  Looking a key up after an insertion gives the inserted value
at that key and the earlier value everywhere else.
-/

namespace ProcRecovery

/--
Keys that can be sorted: a strict order in which any two distinct keys are
comparable.
-/
class SortKey (κ : Type) [LT κ] : Prop where
  trans : ∀ {a b c : κ}, a < b → b < c → a < c
  irrefl : ∀ a : κ, ¬ a < a
  eq_of_not_lt : ∀ {a b : κ}, ¬ a < b → ¬ b < a → a = b

instance : SortKey Nat where
  trans := Nat.lt_trans
  irrefl := Nat.lt_irrefl
  eq_of_not_lt := by omega

instance : SortKey Int where
  trans := Int.lt_trans
  irrefl := Int.lt_irrefl
  eq_of_not_lt := by omega

/-- Entries sorted by key, every key at most once. -/
structure Table (κ : Type) [LT κ] (α : Type) where
  entries : List (κ × α)
  sorted : entries.Pairwise (fun earlier later => earlier.1 < later.1)

namespace Table

/--
Changing the values under a key to ones that fail a test keeps none that failed
it from failing.
-/
theorem countP_modifyEntries_le
    {κ α : Type} [DecidableEq κ] {test : α → Bool} {change : α → α}
    (key : κ)
    (fails : ∀ value, test (change value) = false)
    (entries : List (κ × α)) :
    (entries.map (fun entry => if entry.1 = key then change entry.2
      else entry.2)).countP test ≤
      (entries.map Prod.snd).countP test := by
  induction entries with
  | nil => simp
  | cons head rest hypothesis =>
    by_cases same : head.1 = key <;>
      simp only [List.map_cons, List.countP_cons, same, ↓reduceIte, fails,
        Bool.false_eq_true] <;>
      omega

variable {κ : Type} [LT κ] {α β : Type}

/-- The table without entries. -/
def empty : Table κ α where
  entries := []
  sorted := List.Pairwise.nil

instance : EmptyCollection (Table κ α) := ⟨empty⟩

instance : Inhabited (Table κ α) := ⟨empty⟩

/-- The keys in ascending order. -/
def keys (table : Table κ α) : List κ := table.entries.map Prod.fst

/-- The values in ascending order of their keys. -/
def values (table : Table κ α) : List α := table.entries.map Prod.snd

/-- The number of entries. -/
def size (table : Table κ α) : Nat := table.entries.length

/-- The value stored under a key. -/
def get? [DecidableEq κ] (table : Table κ α) (key : κ) : Option α :=
  (table.entries.find? (fun entry => entry.1 = key)).map Prod.snd

/-- Whether a key has an entry. -/
def contains
    [DecidableEq κ]
    (table : Table κ α)
    (key : κ) :
    Bool :=
  (table.get? key).isSome

/-- Apply a function to every value. -/
def map (change : κ → α → β) (table : Table κ α) : Table κ β where
  entries := table.entries.map (fun entry => (entry.1, change entry.1 entry.2))
  sorted := List.pairwise_map.2 table.sorted

/-- Apply a function to the value under one key, if it has one. -/
def modify
    [DecidableEq κ]
    (table : Table κ α)
    (key : κ)
    (change : α → α) :
    Table κ α :=
  table.map (fun other value => if other = key then change value else value)

@[simp]
theorem get?_empty
    [DecidableEq κ]
    (key : κ) :
    (empty : Table κ α).get? key = none := rfl

theorem get?_map
    [DecidableEq κ]
    (change : κ → α → β)
    (table : Table κ α)
    (key : κ) :
    (table.map change).get? key = (table.get? key).map (change key) := by
  obtain ⟨entries, sorted⟩ := table
  simp only [get?, map]
  clear sorted
  induction entries with
  | nil => rfl
  | cons head rest hypothesis =>
    by_cases same : head.1 = key
    · simp [same]
    · simpa [List.find?_cons, same] using hypothesis

theorem get?_modify
    [DecidableEq κ]
    (table : Table κ α)
    (key other : κ)
    (change : α → α) :
    (table.modify key change).get? other =
      if other = key then (table.get? other).map change else
      table.get? other := by
  rw [modify, get?_map]
  split <;> simp

/--
Changing the value under a key from one that passes a test to one that fails it
lowers the number of values that pass.
-/
theorem countP_values_modify
    [DecidableEq κ]
    (test : α → Bool)
    (change : α → α)
    {key : κ} {value : α} {table : Table κ α}
    (found : table.get? key = some value)
    (passes : test value = true)
    (fails : ∀ other, test (change other) = false) :
    (table.modify key change).values.countP test + 1 ≤
      table.values.countP test := by
  obtain ⟨entries, sorted⟩ := table
  simp only [get?, modify, map, values, List.map_map, Function.comp_def] at *
  clear sorted
  induction entries with
  | nil => simp at found
  | cons head rest hypothesis =>
    by_cases same : head.1 = key
    · have lower := countP_modifyEntries_le key fails rest
      simp only [List.find?_cons, same, decide_true, Option.map_some,
        Option.some.injEq] at found
      simp only [List.map_cons, List.countP_cons, same, ↓reduceIte, fails,
        Bool.false_eq_true, found, passes]
      omega
    · simp only [List.find?_cons, same, decide_false] at found
      have lower := hypothesis found
      simp only [List.map_cons, List.countP_cons, same, ↓reduceIte]
      omega

/-- Two tables with the same entries are equal. -/
theorem eq_of_entries_eq
    {first second : Table κ α}
    (same : first.entries = second.entries) :
    first = second := by
  cases first
  cases second
  simp_all

instance
    [DecidableEq κ] [DecidableEq α] :
    DecidableEq (Table κ α) := fun first second =>
  if same : first.entries = second.entries then
    isTrue (eq_of_entries_eq same)
  else
    isFalse (fun equal => same (congrArg Table.entries equal))

variable [DecidableLT κ]

/-- The entry with the greatest key that is not above the given one. -/
def floor? (table : Table κ α) (key : κ) : Option (κ × α) :=
  (table.entries.filter (fun entry => ¬ key < entry.1)).getLast?

/-- The entry with the least key that is not below the given one. -/
def ceiling? (table : Table κ α) (key : κ) : Option (κ × α) :=
  table.entries.find? (fun entry => ¬ entry.1 < key)

/--
Put an entry into a sorted list, in place of an entry with the same key if
there is one.
-/
def insertEntry (key : κ) (value : α) : List (κ × α) → List (κ × α)
  | [] => [(key, value)]
  | (first, held) :: rest =>
    if key < first then (key, value) :: (first, held) :: rest
    else if first < key then (first, held) :: insertEntry key value rest
    else (first, value) :: rest

/-- Insertion brings in no other key than the inserted one. -/
theorem mem_insertEntry
    {key : κ} {value : α} {entries : List (κ × α)} {entry : κ × α}
    (member : entry ∈ insertEntry key value entries) :
    entry.1 = key ∨ ∃ held ∈ entries, held.1 = entry.1 := by
  induction entries with
  | nil => simp_all [insertEntry]
  | cons head rest hypothesis =>
    obtain ⟨first, held⟩ := head
    simp only [insertEntry] at member
    split at member
    · rcases List.mem_cons.1 member with rfl | inside
      · exact .inl rfl
      · exact .inr ⟨entry, inside, rfl⟩
    · split at member
      · rcases List.mem_cons.1 member with rfl | inside
        · exact .inr ⟨(first, held), by simp, rfl⟩
        · rcases hypothesis inside with same | ⟨other, otherMember, otherKey⟩
          · exact .inl same
          · exact .inr ⟨other, List.mem_cons_of_mem _ otherMember, otherKey⟩
      · rcases List.mem_cons.1 member with rfl | inside
        · exact .inr ⟨(first, held), by simp, rfl⟩
        · exact .inr ⟨entry, List.mem_cons_of_mem _ inside, rfl⟩

/-- Insertion keeps a list sorted. -/
theorem sorted_insertEntry
    [SortKey κ] {key : κ} {value : α} {entries : List (κ × α)}
    (sorted : entries.Pairwise (fun earlier later => earlier.1 < later.1)) :
    (insertEntry key value entries).Pairwise (fun earlier later =>
      earlier.1 < later.1) := by
  induction entries with
  | nil => simp [insertEntry]
  | cons head rest hypothesis =>
    obtain ⟨first, held⟩ := head
    rw [List.pairwise_cons] at sorted
    simp only [insertEntry]
    split
    next below =>
      refine List.pairwise_cons.2 ⟨fun entry member => ?_,
        List.pairwise_cons.2 sorted⟩
      rcases List.mem_cons.1 member with rfl | inside
      · exact below
      · exact SortKey.trans below (sorted.1 entry inside)
    next =>
      split
      next above =>
        refine List.pairwise_cons.2 ⟨fun entry member => ?_,
          hypothesis sorted.2⟩
        rcases mem_insertEntry member with
          same | ⟨other, otherMember, otherKey⟩
        · simpa [same] using above
        · simpa [← otherKey] using sorted.1 other otherMember
      next => exact List.pairwise_cons.2 ⟨sorted.1, sorted.2⟩

/--
Store a value under a key, in place of the earlier value if there is one.
-/
def insert
    [SortKey κ]
    (table : Table κ α)
    (key : κ)
    (value : α) :
    Table κ α where
  entries := insertEntry key value table.entries
  sorted := sorted_insertEntry table.sorted

/--
Store a value under a key that has none yet, and leave any other table alone.
-/
def insertNew
    [SortKey κ] [DecidableEq κ]
    (table : Table κ α)
    (key : κ)
    (value : α) :
    Table κ α :=
  if table.contains key then table else table.insert key value

/--
The table of a list of entries; a later entry replaces an earlier one with the
same key.
-/
def ofList [SortKey κ] (entries : List (κ × α)) : Table κ α :=
  entries.foldl (fun table entry => table.insert entry.1 entry.2) empty

/-- Looking a key up in a list after an insertion. -/
theorem find?_insertEntry
    [SortKey κ] [DecidableEq κ] {key other : κ} {value : α}
    {entries : List (κ × α)}
    (sorted : entries.Pairwise (fun earlier later => earlier.1 < later.1)) :
    ((insertEntry key value entries).find? (fun entry => entry.1 = other)).map
      Prod.snd =
      if other = key then some value
      else (entries.find? (fun entry => entry.1 = other)).map Prod.snd := by
  induction entries with
  | nil =>
    by_cases same : key = other
    · simp [insertEntry, same]
    · simp [insertEntry, same, Ne.symm same]
  | cons head rest hypothesis =>
    obtain ⟨first, held⟩ := head
    rw [List.pairwise_cons] at sorted
    simp only [insertEntry]
    split
    next below =>
      by_cases same : key = other
      · simp [same]
      · simp [List.find?_cons, same, Ne.symm same]
    next notBelow =>
      split
      next above =>
        by_cases same : first = other
        · subst same
          have distinct : first ≠ key := by
            rintro rfl
            exact SortKey.irrefl _ above
          simp [distinct]
        · simpa [List.find?_cons, same] using hypothesis sorted.2
      next notAbove =>
        have equal : key = first := SortKey.eq_of_not_lt notBelow notAbove
        subst equal
        by_cases same : key = other
        · simp [same]
        · simp [same, Ne.symm same]

theorem get?_insert
    [SortKey κ] [DecidableEq κ]
    (table : Table κ α)
    (key other : κ)
    (value : α) :
    (table.insert key value).get? other =
      if other = key then some value else table.get? other :=
  find?_insertEntry table.sorted

end Table

end ProcRecovery
