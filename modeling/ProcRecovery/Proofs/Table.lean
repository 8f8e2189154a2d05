import Mathlib.Data.List.Induction
import ProcRecovery.Table

/-!
# Lookup in tables

A table is determined by its lookups, because its entries are sorted and every
key occurs once.
-/

namespace ProcRecovery.Table

variable {κ α β : Type} [LT κ] [SortKey κ]

theorem get?_eq_some_iff
    [DecidableEq κ] {table : Table κ α} {key : κ} {value : α} :
    table.get? key = some value ↔ (key, value) ∈ table.entries := by
  obtain ⟨entries, sorted⟩ := table
  simp only [get?]
  induction entries with
  | nil => simp
  | cons head rest hypothesis =>
      rw [List.pairwise_cons] at sorted
      obtain ⟨first, held⟩ := head
      by_cases same : first = key
      · subst same
        simp only [List.find?_cons, decide_true, Option.map_some,
          Option.some.injEq, List.mem_cons, Prod.mk.injEq, true_and]
        constructor
        · rintro rfl
          exact .inl rfl
        · rintro (equal | later)
          · exact equal.symm
          · have below := sorted.1 _ later
            exact (SortKey.irrefl _ below).elim
      · simp only [List.find?_cons, same, decide_false, List.mem_cons,
          Prod.mk.injEq]
        rw [hypothesis sorted.2]
        constructor
        · exact .inr
        · rintro (⟨rfl, -⟩ | later)
          · exact (same rfl).elim
          · exact later

theorem get?_eq_none_of_forall_ne
    [DecidableEq κ] {table : Table κ α} {key : κ}
    (absent : ∀ entry ∈ table.entries, entry.1 ≠ key) :
    table.get? key = none := by
  rw [Option.eq_none_iff_forall_ne_some]
  intro value found
  exact absent (key, value) (get?_eq_some_iff.mp found) rfl

theorem mem_values_iff [DecidableEq κ] {table : Table κ α} {value : α} :
    value ∈ table.values ↔ ∃ key, table.get? key = some value := by
  simp only [values, List.mem_map, get?_eq_some_iff]
  constructor
  · rintro ⟨⟨key, held⟩, member, rfl⟩
    exact ⟨key, member⟩
  · rintro ⟨key, member⟩
    exact ⟨(key, value), member, rfl⟩

theorem mem_keys_iff [DecidableEq κ] {table : Table κ α} {key : κ} :
    key ∈ table.keys ↔ table.contains key = true := by
  rw [keys, contains, Option.isSome_iff_exists]
  simp only [get?_eq_some_iff, List.mem_map]
  constructor
  · rintro ⟨⟨key, held⟩, member, rfl⟩
    exact ⟨held, member⟩
  · rintro ⟨held, member⟩
    exact ⟨(key, held), member, rfl⟩

theorem nodup_of_sorted
    {entries : List (κ × α)}
    (sorted : entries.Pairwise (fun earlier later => earlier.1 < later.1)) :
    entries.Nodup := by
  apply sorted.imp
  rintro earlier later below rfl
  exact SortKey.irrefl _ below

/-- Two sorted lists with the same entries are the same list. -/
theorem entries_ext
    {first second : List (κ × α)}
    (firstSorted : first.Pairwise (fun earlier later => earlier.1 < later.1))
    (secondSorted : second.Pairwise (fun earlier later => earlier.1 < later.1))
    (same : ∀ entry, entry ∈ first ↔ entry ∈ second) :
    first = second := by
  have permuted : first.Perm second :=
    (List.perm_ext_iff_of_nodup (nodup_of_sorted firstSorted)
      (nodup_of_sorted secondSorted)).mpr same
  apply permuted.eq_of_pairwise _ firstSorted secondSorted
  intro earlier later _ _ below above
  exact (SortKey.irrefl _ (SortKey.trans below above)).elim

/-- Tables with the same lookups are equal. -/
theorem ext_get?
    [DecidableEq κ] {first second : Table κ α}
    (same : ∀ key, first.get? key = second.get? key) :
    first = second := by
  apply eq_of_entries_eq
  apply entries_ext first.sorted second.sorted
  rintro ⟨key, value⟩
  rw [← get?_eq_some_iff, ← get?_eq_some_iff, same]

/-- Sets with the same members are equal. -/
theorem ext_contains
    [DecidableEq κ] {first second : Table κ Unit}
    (same : ∀ key, first.contains key = second.contains key) :
    first = second := by
  apply ext_get?
  intro key
  have sameHere := same key
  rw [contains, contains] at sameHere
  cases inFirst : first.get? key <;> cases inSecond :
    second.get? key <;> simp_all

/-- The entries whose values pass a test. -/
def filter (keeps : α → Bool) (table : Table κ α) : Table κ α where
  entries := table.entries.filter (fun entry => keeps entry.2)
  sorted := table.sorted.filter _

theorem get?_filter
    [DecidableEq κ]
    (keeps : α → Bool)
    (table : Table κ α)
    (key : κ) :
    (table.filter keeps).get? key = (table.get? key).filter keeps := by
  apply Option.ext
  intro value
  rw [get?_eq_some_iff, Option.filter_eq_some_iff, get?_eq_some_iff, filter,
    List.mem_filter]

section Insertion

variable [DecidableLT κ]

theorem map_insert
    [DecidableEq κ]
    (change : κ → α → β)
    (table : Table κ α)
    (key : κ)
    (value : α) :
    (table.insert key value).map change =
      (table.map change).insert key (change key value) := by
  apply ext_get?
  intro other
  rw [get?_map, get?_insert, get?_insert, get?_map]
  split
  next same =>
    subst same
    rfl
  next => rfl

omit [SortKey κ] in
theorem floor?_map (change : κ → α → β) (table : Table κ α) (key : κ) :
    (table.map change).floor? key =
      (table.floor? key).map (fun entry =>
        (entry.1, change entry.1 entry.2)) := by
  simp only [floor?, map, List.filter_map, List.getLast?_map]
  rfl

/-- An entry with a key above all others goes to the end. -/
theorem insertEntry_of_forall_lt
    {key : κ} {value : α} {entries : List (κ × α)}
    (above : ∀ entry ∈ entries, entry.1 < key) :
    insertEntry key value entries = entries ++ [(key, value)] := by
  induction entries with
  | nil => rfl
  | cons head rest hypothesis =>
      have below := above head (by simp)
      have notBelow : ¬ key < head.1 := fun reversed =>
        SortKey.irrefl _ (SortKey.trans reversed below)
      rw [insertEntry, if_neg notBelow, if_pos below,
        hypothesis (fun entry member =>
          above entry (List.mem_cons_of_mem head member))]
      rfl

/-- A sorted list of entries becomes a table as it is. -/
theorem entries_ofList
    {entries : List (κ × α)}
    (sorted : entries.Pairwise (fun earlier later => earlier.1 < later.1)) :
    (ofList entries).entries = entries := by
  have extend : ∀ (later : List (κ × α)) (table : Table κ α),
      (table.entries ++ later).Pairwise (fun earlier later =>
        earlier.1 < later.1) →
      (later.foldl (fun table entry => table.insert entry.1 entry.2)
        table).entries =
        table.entries ++ later := by
    intro later
    induction later with
    | nil =>
        intro table _
        simp
    | cons entry rest hypothesis =>
        intro table ascending
        have inserted : (table.insert entry.1 entry.2).entries =
            table.entries ++ [entry] := by
          apply insertEntry_of_forall_lt
          intro earlier member
          exact (List.pairwise_append.mp ascending).2.2 earlier member entry
            (by simp)
        rw [List.foldl_cons, hypothesis, inserted]
        · simp
        · rw [inserted]
          simpa using ascending
  have whole := extend entries empty (by simpa [empty] using sorted)
  simpa [ofList, empty] using whole

theorem ofList_concat (entries : List (κ × α)) (entry : κ × α) :
    ofList (entries ++ [entry]) = (ofList entries).insert entry.1 entry.2 := by
  rw [ofList, List.foldl_append]
  rfl

/--
Where no key is given twice, the table of a list holds exactly the entries of
the list.
-/
theorem get?_ofList_eq_some_iff
    [DecidableEq κ] {entries : List (κ × α)}
    (distinct : (entries.map Prod.fst).Nodup)
    {key : κ} {value : α} :
    (ofList entries).get? key = some value ↔ (key, value) ∈ entries := by
  induction entries using List.reverseRecOn with
  | nil =>
      constructor
      · intro absurdity
        cases absurdity
      · intro absurdity
        cases absurdity
  | append_singleton earlier entry hypothesis =>
      rw [List.map_append, List.map_singleton, List.nodup_append] at distinct
      rcases distinct with ⟨earlierDistinct, -, apart⟩
      rw [ofList_concat, get?_insert, List.mem_append, List.mem_singleton]
      split
      next isLast =>
        have absent : (key, value) ∉ earlier := by
          intro member
          exact apart key (List.mem_map.mpr ⟨_, member, rfl⟩) entry.1 (by simp)
            isLast
        rw [or_iff_right absent, Prod.ext_iff]
        simp [isLast, eq_comm]
      next notLast =>
        rw [hypothesis earlierDistinct]
        simp [Prod.ext_iff, notLast]

theorem perm_entries_ofList
    [DecidableEq κ] {entries : List (κ × α)}
    (distinct : (entries.map Prod.fst).Nodup) :
    (ofList entries).entries.Perm entries := by
  have nodup : entries.Nodup := by
    apply (List.pairwise_map.mp distinct).imp
    rintro earlier later differ rfl
    exact differ rfl
  rw [List.perm_ext_iff_of_nodup (nodup_of_sorted (ofList entries).sorted)
    nodup]
  rintro ⟨key, value⟩
  rw [← get?_eq_some_iff, get?_ofList_eq_some_iff distinct]

/--
The order of entries with distinct keys makes no difference to their table.
-/
theorem ofList_eq_of_perm
    [DecidableEq κ] {first second : List (κ × α)}
    (distinct : (first.map Prod.fst).Nodup)
    (permuted : first.Perm second) :
    ofList first = ofList second := by
  apply ext_get?
  intro key
  apply Option.ext
  intro value
  rw [get?_ofList_eq_some_iff distinct,
    get?_ofList_eq_some_iff ((permuted.map Prod.fst).nodup_iff.mp distinct),
    permuted.mem_iff]

/-- A key that is there is its own floor. -/
theorem floor?_of_get?
    [DecidableEq κ] {table : Table κ α} {key : κ} {value : α}
    (found : table.get? key = some value) :
    table.floor? key = some (key, value) := by
  obtain ⟨earlier, later, shape⟩ :=
    List.append_of_mem (get?_eq_some_iff.mp found)
  have sorted := table.sorted
  rw [shape] at sorted
  obtain ⟨-, fromHere, across⟩ := List.pairwise_append.mp sorted
  have none : later.filter (fun entry => ¬ key < entry.1) = [] := by
    rw [List.filter_eq_nil_iff]
    intro entry member
    simpa using (List.pairwise_cons.mp fromHere).1 entry member
  have here : ¬ key < key := SortKey.irrefl key
  simp only [floor?, shape, List.filter_append, List.filter_cons, here,
    not_false_eq_true, decide_true, ↓reduceIte, none]
  rw [List.getLast?_append, List.getLast?_singleton, Option.some_or]

/--
The floor of a key is the entry with the greatest key that is not above it.
-/
theorem floor?_eq_some
    [DecidableEq κ] {table : Table κ α} {key : κ} {entry : κ × α}
    (isFloor : table.floor? key = some entry) :
    table.get? entry.1 = some entry.2 ∧ ¬ key < entry.1 ∧
      ∀ other value, table.get? other = some value → ¬ key < other →
        other = entry.1 ∨ other < entry.1 := by
  have isLast :
      (table.entries.filter (fun entry => ¬ key < entry.1)).getLast? =
        some entry := isFloor
  have member := List.mem_filter.mp (List.mem_of_getLast? isLast)
  refine ⟨get?_eq_some_iff.mpr member.1, by simpa using member.2, ?_⟩
  intro other value found notAbove
  have isOther : (other, value) ∈
      table.entries.filter (fun entry => ¬ key < entry.1) :=
    List.mem_filter.mpr ⟨get?_eq_some_iff.mp found, by simpa using notAbove⟩
  rcases List.getLast?_eq_some_iff.mp isLast with ⟨front, shape⟩
  have sorted :=
    List.Pairwise.filter (fun entry => decide (¬ key < entry.1)) table.sorted
  rw [shape] at isOther sorted
  rcases List.mem_append.mp isOther with earlier | same
  · exact .inr ((List.pairwise_append.mp sorted).2.2 _ earlier entry (by simp))
  · exact .inl (congrArg Prod.fst (List.mem_singleton.mp same))

theorem floor?_eq_none
    [DecidableEq κ] {table : Table κ α} {key : κ}
    (isNone : table.floor? key = none)
    {other : κ} {value : α}
    (found : table.get? other = some value) :
    key < other := by
  have empty := List.getLast?_eq_none_iff.mp isNone
  rw [List.filter_eq_nil_iff] at empty
  simpa using empty _ (get?_eq_some_iff.mp found)

/--
The ceiling of a key is the entry with the least key that is not below it.
-/
theorem ceiling?_eq_some
    [DecidableEq κ] {table : Table κ α} {key : κ} {entry : κ × α}
    (isCeiling : table.ceiling? key = some entry) :
    table.get? entry.1 = some entry.2 ∧
      ∀ other value, table.get? other = some value → ¬ other < key →
        other = entry.1 ∨ entry.1 < other := by
  rcases List.find?_eq_some_iff_append.mp isCeiling with
    ⟨-, front, later, shape, below⟩
  have sorted := table.sorted
  rw [shape] at sorted
  rcases List.pairwise_append.mp sorted with ⟨-, fromHere, -⟩
  constructor
  · rw [get?_eq_some_iff, shape]
    simp
  · intro other value found notBelow
    have member := get?_eq_some_iff.mp found
    rw [shape] at member
    rcases List.mem_append.mp member with isEarlier | isLater
    · have passed := below _ isEarlier
      simp only [decide_not, Bool.not_not, decide_eq_true_eq] at passed
      exact absurd passed notBelow
    · rcases List.mem_cons.mp isLater with rfl | isBeyond
      · exact .inl rfl
      · exact .inr ((List.pairwise_cons.mp fromHere).1 _ isBeyond)

theorem ceiling?_eq_none
    [DecidableEq κ] {table : Table κ α} {key : κ}
    (isNone : table.ceiling? key = none)
    {other : κ} {value : α}
    (found : table.get? other = some value) :
    other < key := by
  have passed := List.find?_eq_none.mp isNone _ (get?_eq_some_iff.mp found)
  simpa using passed

/--
The values apart from the one under a key stay the same when another one is
stored there.
-/
theorem exists_other_values
    [DecidableEq κ]
    (table : Table κ α)
    (key : κ) :
    ∃ others : List α, table.values.Perm ((table.get? key).toList ++ others) ∧
      (∀ value ∈ others, ∃ other, other ≠ key ∧
        table.get? other = some value) ∧
      ∀ value, (table.insert key value).values.Perm (value :: others) := by
  have nodup := nodup_of_sorted table.sorted
  have remaining : ∀ entry : κ × α,
      entry ∈ table.entries.filter (fun entry => entry.1 ≠ key) ↔
      table.get? entry.1 = some entry.2 ∧ entry.1 ≠ key := by
    intro entry
    rw [List.mem_filter, get?_eq_some_iff, decide_eq_true_eq]
  have apart : ∀ value, (key, value) ∉
      table.entries.filter (fun entry => entry.1 ≠ key) := by
    intro value member
    exact ((remaining _).mp member).2 rfl
  refine ⟨(table.entries.filter (fun entry => entry.1 ≠ key)).map Prod.snd, ?_,
    ?_, ?_⟩
  · have permuted :
        table.entries.Perm
          ((table.get? key).toList.map (fun value => (key, value)) ++
        table.entries.filter (fun entry => entry.1 ≠ key)) := by
      rw [List.perm_ext_iff_of_nodup nodup]
      · rintro ⟨other, value⟩
        rw [List.mem_append, remaining, ← get?_eq_some_iff]
        by_cases same : other = key
        · subst same
          simp
        · have differs : key ≠ other := fun equal => same equal.symm
          simp [same, differs]
      · cases table.get? key with
        | none => exact nodup.filter _
        | some value =>
            rw [Option.toList_some, List.map_singleton, List.singleton_append,
              List.nodup_cons]
            exact ⟨apart value, nodup.filter _⟩
    have mapped := permuted.map Prod.snd
    rw [List.map_append, List.map_map] at mapped
    simpa [values, Function.comp_def] using mapped
  · intro value member
    rcases List.mem_map.mp member with ⟨⟨other, held⟩, isOther, rfl⟩
    exact ⟨other, ((remaining _).mp isOther).2, ((remaining _).mp isOther).1⟩
  · intro value
    have permuted : (table.insert key value).entries.Perm ((key, value) ::
        table.entries.filter (fun entry => entry.1 ≠ key)) := by
      rw [List.perm_ext_iff_of_nodup
        (nodup_of_sorted (table.insert key value).sorted)]
      · rintro ⟨other, held⟩
        rw [List.mem_cons, remaining, ← get?_eq_some_iff, get?_insert,
          Prod.mk.injEq]
        by_cases same : other = key
        · simp [same, eq_comm]
        · simp [same]
      · rw [List.nodup_cons]
        exact ⟨apart value, nodup.filter _⟩
    exact permuted.map Prod.snd

/-- Storing a value adds an entry exactly if the key is new. -/
theorem size_insert
    [DecidableEq κ]
    (table : Table κ α)
    (key : κ)
    (value : α) :
    (table.insert key value).size = if table.contains key then table.size
      else table.size + 1 := by
  obtain ⟨others, before, -, after⟩ := table.exists_other_values key
  have sizeBefore := before.length_eq
  have sizeAfter := (after value).length_eq
  simp only [values, List.length_map, List.length_append, List.length_cons]
    at sizeBefore sizeAfter
  rw [size, sizeAfter, size, sizeBefore, contains]
  cases table.get? key <;> simp
  omega

/-- A value that is stored where there is none does not replace anything. -/
theorem get?_insertNew
    [DecidableEq κ]
    (table : Table κ α)
    (key other : κ)
    (value : α) :
    (table.insertNew key value).get? other =
      (table.get? other).or (if other = key then some value else none) := by
  rw [insertNew, contains]
  by_cases same : other = key
  · subst same
    cases held : table.get? other with
    | some earlier => simp [held]
    | none => simp [get?_insert]
  · cases table.get? key <;> simp [get?_insert, same]

/--
Storing a value under a key that is there already leaves the keys as they are.
-/
theorem contains_insert_of_contains
    [DecidableEq κ] {table : Table κ α} {key : κ}
    (value : α)
    (held : table.contains key = true)
    (other : κ) :
    (table.insert key value).contains other = table.contains other := by
  rw [contains, get?_insert]
  split
  next same =>
    rw [same, held]
    rfl
  next => rfl

end Insertion

end ProcRecovery.Table
