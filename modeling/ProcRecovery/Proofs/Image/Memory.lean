import Mathlib.Data.List.Pairwise
import ProcRecovery.Image.Basic
import ProcRecovery.Proofs.Table

/-!
# Reading mapped memory

Segments of memory may overlap, and the byte at an address is that of the
segment mapped last among those that reach it.  A read looks at one segment
only: the one with the nearest start, whatever has been mapped over it or next
to it.  So it finds the bytes at its addresses exactly if that segment holds
the last of them all, or if some address has no byte at all.  It always does
where segments keep a gap between each other.
-/

namespace ProcRecovery

/-- A segment of memory reaches an address. -/
def Covers (segment : Nat × List UInt8) (place : Nat) : Prop :=
  segment.1 ≤ place ∧ place < segment.1 + segment.2.length

/-- The byte that a segment has for an address. -/
def segmentByte? (place : Nat) (segment : Nat × List UInt8) : Option UInt8 :=
  if segment.1 ≤ place then segment.2[place - segment.1]? else none

/--
The byte at an address after some segments have been mapped one after the
other: that of the last one that reaches it.
-/
def byteAt?
    (segments : List (Nat × List UInt8))
    (place : Nat) :
    Option UInt8 :=
  segments.reverse.findSome? (segmentByte? place)

theorem segmentByte?_eq_none_iff {place : Nat} {segment : Nat × List UInt8} :
    segmentByte? place segment = none ↔ ¬ Covers segment place := by
  rw [segmentByte?, Covers]
  split
  next starts =>
    rw [List.getElem?_eq_none_iff]
    omega
  next before => simp [before]

theorem byteAt?_eq_none_iff
    {segments : List (Nat × List UInt8)} {place : Nat} :
    byteAt? segments place = none ↔
      ∀ segment ∈ segments, ¬ Covers segment place := by
  simp only [byteAt?, List.findSome?_eq_none_iff, List.mem_reverse,
    segmentByte?_eq_none_iff]

/-- Where only one segment reaches an address, it has the byte there. -/
theorem byteAt?_of_unique
    {segments : List (Nat × List UInt8)} {place : Nat}
    {segment : Nat × List UInt8}
    (member : segment ∈ segments)
    (covers : Covers segment place)
    (unique : ∀ other ∈ segments, Covers other place → other = segment) :
    byteAt? segments place = segment.2[place - segment.1]? := by
  have own : segmentByte? place segment = segment.2[place - segment.1]? :=
    if_pos covers.1
  cases found : byteAt? segments place with
  | none => exact (byteAt?_eq_none_iff.mp found segment member covers).elim
  | some byte =>
      rcases List.exists_of_findSome?_eq_some found with
        ⟨other, isOther, gives⟩
      have reaches : Covers other place := by
        by_contra outside
        rw [segmentByte?_eq_none_iff.mpr outside] at gives
        cases gives
      rw [← own, ← unique other (List.mem_reverse.mp isOther) reaches, gives]

/--
The answer to a read is the bytes at its addresses, or that it is unavailable
if one of them has no byte.
-/
def IsBytewise (segments : List (Nat × List UInt8)) (address length : Nat) :
    Except UnavailableRead (List UInt8) → Prop
  | .ok bytes =>
      (List.range' address length).map (byteAt? segments) = bytes.map some
  | .error unavailable => unavailable = ⟨address, length⟩ ∧
      ∃ place ∈ List.range' address length, byteAt? segments place = none

instance decidableIsBytewise
    (segments : List (Nat × List UInt8))
    (address length : Nat) :
    (outcome : Except UnavailableRead (List UInt8)) →
      Decidable (IsBytewise segments address length outcome)
  | .ok bytes => inferInstanceAs (Decidable
      ((List.range' address length).map (byteAt? segments) = bytes.map some))
  | .error unavailable =>
      inferInstanceAs
        (Decidable (unavailable = ⟨address, length⟩ ∧
          ∃ place ∈ List.range' address length, byteAt? segments place = none))

/-! ## The segment with the nearest start -/

/--
Of all segments that start at or below an address, one starts closest to it,
and it is the last one that was mapped there.
-/
structure IsNearest
    (segments : List (Nat × List UInt8))
    (address base : Nat)
    (held : List UInt8) :
    Prop where
  latest : segments.reverse.find? (fun segment => segment.1 = base) =
    some (base, held)
  starts : base ≤ address
  greatest : ∀ segment ∈ segments, segment.1 ≤ address → segment.1 ≤ base

theorem IsNearest.mem
    {segments : List (Nat × List UInt8)} {address base : Nat}
    {held : List UInt8}
    (nearest : IsNearest segments address base held) :
    (base, held) ∈ segments :=
  List.mem_reverse.mp (List.mem_of_find?_eq_some nearest.latest)

theorem IsNearest.unique
    {segments : List (Nat × List UInt8)} {address base other : Nat}
    {held kept : List UInt8}
    (nearest : IsNearest segments address base held)
    (isNearest : IsNearest segments address other kept) :
    other = base ∧ kept = held := by
  have below := nearest.greatest _ isNearest.mem isNearest.starts
  have above := isNearest.greatest _ nearest.mem nearest.starts
  have same : other = base := Nat.le_antisymm below above
  subst same
  have latest := isNearest.latest
  rw [nearest.latest] at latest
  cases latest
  exact ⟨rfl, rfl⟩

/--
What a table of segments has at an address is what was stored there last.
-/
theorem get?_ofList_segments
    (segments : List (Nat × List UInt8))
    (base : Nat) :
    (Table.ofList segments).get? base =
      (segments.reverse.find? (fun segment => segment.1 = base)).map
      Prod.snd := by
  induction segments using List.reverseRecOn with
  | nil => rfl
  | append_singleton earlier segment hypothesis =>
      rw [Table.ofList_concat, Table.get?_insert, List.reverse_append,
        List.reverse_singleton, List.singleton_append, List.find?_cons,
        hypothesis]
      by_cases same : segment.1 = base
      · simp [same]
      · have differs : base ≠ segment.1 := fun equal => same equal.symm
        simp [same, differs]

theorem find?_eq_some_of_get?
    {segments : List (Nat × List UInt8)} {base : Nat} {held : List UInt8}
    (found : (Table.ofList segments).get? base = some held) :
    segments.reverse.find? (fun segment => segment.1 = base) =
      some (base, held) := by
  rw [get?_ofList_segments] at found
  rcases Option.map_eq_some_iff.mp found with ⟨⟨start, bytes⟩, isLatest, same⟩
  have starts : start = base := by simpa using List.find?_some isLatest
  rw [isLatest, starts, ← same]

theorem floor?_eq_some_iff_isNearest
    {segments : List (Nat × List UInt8)} {address base : Nat}
    {held : List UInt8} :
    (Table.ofList segments).floor? address = some (base, held) ↔
      IsNearest segments address base held := by
  have isNearest_of_floor {start : Nat} {bytes : List UInt8}
      (isFloor : (Table.ofList segments).floor? address =
        some (start, bytes)) :
      IsNearest segments address start bytes := by
    rcases Table.floor?_eq_some isFloor with ⟨found, notAbove, greatest⟩
    refine ⟨find?_eq_some_of_get? found, Nat.le_of_not_lt notAbove, ?_⟩
    intro segment member below
    have isThere : ((Table.ofList segments).get? segment.1).isSome := by
      rw [get?_ofList_segments, Option.isSome_map, List.find?_isSome]
      exact ⟨segment, List.mem_reverse.mpr member, by simp⟩
    rcases Option.isSome_iff_exists.mp isThere with ⟨other, isOther⟩
    rcases greatest segment.1 other isOther (Nat.not_lt.mpr below) with
      same | under
    · exact Nat.le_of_eq same
    · exact Nat.le_of_lt under
  constructor
  · exact isNearest_of_floor
  · intro nearest
    have found : (Table.ofList segments).get? base = some held := by
      rw [get?_ofList_segments, nearest.latest]
      rfl
    cases isFloor : (Table.ofList segments).floor? address with
    | none =>
        exact (Nat.not_lt.mpr nearest.starts
          (Table.floor?_eq_none isFloor found)).elim
    | some entry =>
        rcases nearest.unique (isNearest_of_floor isFloor) with
          ⟨sameBase, sameHeld⟩
        rw [← sameBase, ← sameHeld]

namespace Image

/-- Map segments one after the other. -/
def mapSegments (image : Image) (segments : List (Nat × List UInt8)) : Image :=
  segments.foldl (fun image segment => image.addMemory segment.1 segment.2)
    image

section Read

variable {image : Image} {segments : List (Nat × List UInt8)}
  {address length base : Nat} {held : List UInt8}

theorem memory_mapSegments
    (bare : image.memory = ∅)
    (segments : List (Nat × List UInt8)) :
    (image.mapSegments segments).memory = Table.ofList segments := by
  induction segments using List.reverseRecOn with
  | nil => exact bare
  | append_singleton earlier segment hypothesis =>
      rw [mapSegments, List.foldl_append, ← mapSegments, Table.ofList_concat,
        ← hypothesis]
      rfl

/--
A read takes its bytes from the nearest segment if they all lie in there.
-/
theorem read_of_isNearest
    (bare : image.memory = ∅)
    (nearest : IsNearest segments address base held)
    (within : address + length ≤ base + held.length) :
    (image.mapSegments segments).read address length =
      .ok ((held.drop (address - base)).take length) := by
  have starts := nearest.starts
  rw [read, memory_mapSegments bare, floor?_eq_some_iff_isNearest.mpr nearest]
  exact if_pos (by omega)

/-- Otherwise it fails. -/
theorem read_eq_error
    (bare : image.memory = ∅)
    (outside :
      ∀ base held, IsNearest segments address base held →
        base + held.length < address + length) :
    (image.mapSegments segments).read address length =
      .error ⟨address, length⟩ := by
  rw [read, memory_mapSegments bare]
  cases isFloor : (Table.ofList segments).floor? address with
  | none => rfl
  | some entry =>
      have nearest := floor?_eq_some_iff_isNearest.mp isFloor
      have starts := nearest.starts
      have beyond := outside entry.1 entry.2 nearest
      exact if_neg (by omega)

/-- The bytes of a range within a segment, one address after the other. -/
theorem map_some_window
    (starts : base ≤ address)
    (within : address + length ≤ base + held.length) :
    ((held.drop (address - base)).take length).map some =
      (List.range' address length).map (fun place => held[place - base]?) := by
  apply List.ext_getElem
  · rw [List.length_map, List.length_take, List.length_drop, List.length_map,
      List.length_range']
    omega
  · intro index isBefore isInRange
    rw [List.length_map, List.length_range'] at isInRange
    have inside : address - base + index < held.length := by omega
    have same : address + index - base = address - base + index := by omega
    simp [same, inside]

/--
If the nearest segment reaches over all addresses of a read, it has to have the
last byte for each.
-/
theorem read_isBytewise_iff_of_within
    (bare : image.memory = ∅)
    (nearest : IsNearest segments address base held)
    (within : address + length ≤ base + held.length) :
    IsBytewise segments address length
      ((image.mapSegments segments).read address length) ↔
      ∀ place ∈ List.range' address length,
        byteAt? segments place = held[place - base]? := by
  rw [read_of_isNearest bare nearest within, IsBytewise,
    map_some_window nearest.starts within, List.map_inj_left]

/--
If the nearest segment ends before a read does, one of the addresses must have
no byte.
-/
theorem read_isBytewise_iff_of_beyond
    (bare : image.memory = ∅)
    (beyond : ∀ base held, IsNearest segments address base held →
      base + held.length < address + length) :
    IsBytewise segments address length
      ((image.mapSegments segments).read address length) ↔
      ∃ place ∈ List.range' address length, ∀ segment ∈ segments,
        ¬ Covers segment place := by
  simp only [read_eq_error bare beyond, IsBytewise, true_and,
    byteAt?_eq_none_iff]

/--
A read finds the bytes at its addresses exactly if the nearest segment reaches
over all of them and has the last byte for each, or if one of the addresses has
no byte.
-/
theorem read_isBytewise_iff
    (bare : image.memory = ∅)
    (segments : List (Nat × List UInt8))
    (address length : Nat) :
    IsBytewise segments address length
      ((image.mapSegments segments).read address length) ↔
      (∃ base held, IsNearest segments address base held ∧
        address + length ≤ base + held.length ∧
        ∀ place ∈ List.range' address length,
          byteAt? segments place = held[place - base]?) ∨
      ∃ place ∈ List.range' address length, ∀ segment ∈ segments,
        ¬ Covers segment place := by
  by_cases served : ∃ base held, IsNearest segments address base held ∧
      address + length ≤ base + held.length
  · rcases served with ⟨base, held, nearest, within⟩
    rw [read_isBytewise_iff_of_within bare nearest within]
    constructor
    · intro latest
      exact .inl ⟨base, held, nearest, within, latest⟩
    · rintro (⟨other, kept, isNearest, -, latest⟩ | ⟨place, inRange, unmapped⟩)
      · rcases nearest.unique isNearest with ⟨rfl, rfl⟩
        exact latest
      · -- the nearest segment reaches every address of the range
        have bounds := List.mem_range'_1.mp inRange
        have covers : Covers (base, held) place := by
          constructor
          · exact Nat.le_trans nearest.starts bounds.1
          · exact Nat.lt_of_lt_of_le bounds.2 within
        exact (unmapped _ nearest.mem covers).elim
  · have beyond : ∀ base held, IsNearest segments address base held →
        base + held.length < address + length := by
      intro base held nearest
      by_contra reaches
      exact served ⟨base, held, nearest, Nat.le_of_not_lt reaches⟩
    rw [read_isBytewise_iff_of_beyond bare beyond]
    constructor
    · exact .inr
    · rintro (⟨base, held, nearest, within, -⟩ | unmapped)
      · exact (served ⟨base, held, nearest, within⟩).elim
      · exact unmapped

/--
Two segments that follow one another, and a third one mapped over the start of
the first.
-/
def overlaidDump : List (Nat × List UInt8) :=
  [(0x2000, [0x48, 0x49]), (0x2002, [0x4a, 0x4b]),
    (0x1ffe, [0x20, 0x20, 0x20])]

theorem read_isBytewise_iff_overlaidDump :
    (mapSegments { name := "dump" } overlaidDump).read 0x2002 2 =
      .ok [0x4a, 0x4b] ∧
      (IsBytewise overlaidDump 0x2002 2
          ((mapSegments { name := "dump" } overlaidDump).read 0x2002 2) ↔
        (∃ base held, IsNearest overlaidDump 0x2002 base held ∧
          0x2002 + 2 ≤ base + held.length ∧
          ∀ place ∈ List.range' 0x2002 2,
            byteAt? overlaidDump place = held[place - base]?) ∨
        ∃ place ∈ List.range' 0x2002 2, ∀ segment ∈ overlaidDump,
          ¬ Covers segment place) :=
  ⟨by decide, read_isBytewise_iff rfl overlaidDump 0x2002 2⟩

/--
The byte mapped last is not the one that is read, and nothing is read across
two segments.
-/
theorem not_isBytewise_overlaidDump :
    ¬ IsBytewise overlaidDump 0x2000 1
        ((mapSegments { name := "dump" } overlaidDump).read 0x2000 1) ∧
      ¬ IsBytewise overlaidDump 0x2001 2
        ((mapSegments { name := "dump" } overlaidDump).read 0x2001 2) := by
  decide

end Read

/-! ## Segments with gaps -/

/--
One of two segments ends before the other starts, and at least one address lies
between them.
-/
def KeepsGap (first second : Nat × List UInt8) : Prop :=
  first.1 + first.2.length < second.1 ∨ second.1 + second.2.length < first.1

section Gaps

variable {image : Image} {segments : List (Nat × List UInt8)}

/-- Segments with gaps do not meet. -/
theorem eq_of_near
    (gaps : segments.Pairwise KeepsGap)
    {first second : Nat × List UInt8}
    (isFirst : first ∈ segments)
    (isSecond : second ∈ segments)
    (before : first.1 ≤ second.1 + second.2.length)
    (after : second.1 ≤ first.1 + first.2.length) :
    second = first := by
  have symmetric : Std.Symm KeepsGap := ⟨fun _ _ gap => gap.symm⟩
  by_contra differ
  rcases gaps.forall isFirst isSecond (fun same => differ same.symm) with
    gap | gap <;> omega

/-- A segment that reaches an address is the nearest one there. -/
theorem isNearest_of_covers
    (gaps : segments.Pairwise KeepsGap)
    {segment : Nat × List UInt8}
    (member : segment ∈ segments)
    {address : Nat}
    (covers : Covers segment address) :
    IsNearest segments address segment.1 segment.2 where
  latest := by
    cases found :
      segments.reverse.find? (fun other => other.1 = segment.1) with
    | none =>
        have absent :=
          List.find?_eq_none.mp found segment (List.mem_reverse.mpr member)
        simp at absent
    | some other =>
        have isOther := List.mem_reverse.mp (List.mem_of_find?_eq_some found)
        have starts : other.1 = segment.1 := by
          simpa using List.find?_some found
        rw [eq_of_near gaps member isOther (by omega) (by omega)]
  starts := covers.1
  greatest := by
    intro other isOther below
    by_contra above
    have reaches := covers.2
    have same := eq_of_near gaps member isOther (by omega) (by omega)
    rw [same] at above
    exact above (Nat.le_refl _)

/-- Where segments keep gaps, every read finds the bytes at its addresses. -/
theorem read_isBytewise_of_gaps
    (bare : image.memory = ∅)
    (gaps : segments.Pairwise KeepsGap)
    {address length : Nat}
    (positive : 0 < length) :
    IsBytewise segments address length
      ((image.mapSegments segments).read address length) := by
  by_cases mapped : ∃ segment ∈ segments, Covers segment address
  · rcases mapped with ⟨segment, member, covers⟩
    have nearest := isNearest_of_covers gaps member covers
    have starts := covers.1
    have reaches := covers.2
    by_cases within : address + length ≤ segment.1 + segment.2.length
    · rw [read_isBytewise_iff_of_within bare nearest within]
      intro place inRange
      have bounds := List.mem_range'_1.mp inRange
      have covered : Covers segment place := ⟨by omega, by omega⟩
      apply byteAt?_of_unique member covered
      intro other isOther otherCovers
      have otherStarts := otherCovers.1
      have otherReaches := otherCovers.2
      exact eq_of_near gaps member isOther (by omega) (by omega)
    · have beyond : ∀ base held, IsNearest segments address base held →
          base + held.length < address + length := by
        intro base held isNearest
        rcases nearest.unique isNearest with ⟨rfl, rfl⟩
        exact Nat.lt_of_not_le within
      -- nothing is mapped right behind the segment
      rw [read_isBytewise_iff_of_beyond bare beyond]
      refine ⟨segment.1 + segment.2.length, List.mem_range'_1.mpr (by omega),
        ?_⟩
      intro other isOther otherCovers
      have otherStarts := otherCovers.1
      have otherReaches := otherCovers.2
      have same := eq_of_near gaps member isOther (by omega) (by omega)
      rw [same] at otherReaches
      exact Nat.lt_irrefl _ otherReaches
  · have unmapped : ∀ segment ∈ segments, ¬ Covers segment address := by
      intro segment member covers
      exact mapped ⟨segment, member, covers⟩
    have beyond : ∀ base held, IsNearest segments address base held →
        base + held.length < address + length := by
      intro base held nearest
      by_contra reaches
      have above : address < base + held.length := by omega
      exact unmapped _ nearest.mem ⟨nearest.starts, above⟩
    rw [read_isBytewise_iff_of_beyond bare beyond]
    exact ⟨address, List.mem_range'_1.mpr (by omega), unmapped⟩

end Gaps

end Image

end ProcRecovery
