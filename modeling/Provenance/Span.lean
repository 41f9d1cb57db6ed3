import Provenance.Location

/-!
# Spans

A span attributes a closed range of output offsets to one source location. Offsets count bytes and
are 32-bit words. A span whose last offset lies below its first covers nothing; it is kept all the
same.

## Moving a span

`Span.shift?` moves a span towards higher offsets. It has no answer when an end of the moved range
would not fit into a word: nothing wraps around.
-/

namespace Provenance

/-- A byte offset into output text. -/
abbrev Offset := UInt32

namespace Offset

/-- The number of offsets. -/
def count : Nat := UInt32.size

/-- The offset of a number, if it is small enough for one. -/
def ofNat? (n : Nat) : Option Offset := if n < count then some (UInt32.ofNat n) else none

/-- The sum, if it is an offset. -/
def add? (a b : Offset) : Option Offset := ofNat? (a.toNat + b.toNat)

end Offset

/-- A source location and the closed range of output offsets attributed to it. -/
structure Span where
  /-- Where the output comes from. -/
  location : Location
  /-- The first offset of the range. -/
  first : Offset
  /-- The last offset of the range, which belongs to it. -/
  last : Offset
deriving DecidableEq, Inhabited

namespace Span

/-- The offset belongs to the range. -/
def Covers (s : Span) (o : Offset) : Prop := s.first ≤ o ∧ o ≤ s.last

instance (s : Span) (o : Offset) : Decidable (s.Covers o) :=
  inferInstanceAs (Decidable (s.first ≤ o ∧ o ≤ s.last))

/-- The range holds no offset. -/
def isEmpty (s : Span) : Bool := s.last < s.first

/-- The number of offsets in the range. -/
def size (s : Span) : Nat := if s.isEmpty then 0 else s.last.toNat - s.first.toNat + 1

/-- The first `n` offsets of the range, or all if it has fewer. -/
def leading (s : Span) (n : Nat) : List Offset :=
  (List.range (min n s.size)).map fun i ↦ UInt32.ofNat (s.first.toNat + i)

/-- The offsets of the range, ascending. -/
def offsets (s : Span) : List Offset := s.leading s.size

theorem isEmpty_iff {s : Span} : s.isEmpty = true ↔ s.last < s.first := decide_eq_true_iff

/-- A number stays below the size exactly if counting so far from the first offset does not pass the
last one. -/
theorem lt_size_iff {s : Span} {i : Nat} :
    i < s.size ↔ s.first.toNat + i ≤ s.last.toNat := by
  simp only [size, isEmpty_iff, UInt32.lt_iff_toNat_lt]
  split <;> omega

/-- Counting on from the first offset of a range stays among the offsets. -/
theorem toNat_ofNat_first_add {s : Span} {i : Nat} (hi : i < s.size) :
    (UInt32.ofNat (s.first.toNat + i)).toNat = s.first.toNat + i := by
  have hlast := s.last.toNat_lt
  have hle := lt_size_iff.1 hi
  rw [UInt32.toNat_ofNat']
  exact Nat.mod_eq_of_lt (by omega)

/-- The offset at a position of the list, told by its distance from the first one. -/
theorem getElem?_offsets {s : Span} {i : Nat} {o : Offset} :
    s.offsets[i]? = some o ↔ o.toNat = s.first.toNat + i ∧ o.toNat ≤ s.last.toNat := by
  rw [offsets, leading, Nat.min_self, List.getElem?_map, Option.map_eq_some_iff]
  simp only [List.getElem?_eq_some_iff, List.getElem_range, List.length_range]
  constructor
  · rintro ⟨_, ⟨hi, rfl⟩, rfl⟩
    rw [toNat_ofNat_first_add hi]
    exact ⟨rfl, lt_size_iff.1 hi⟩
  · rintro ⟨ho, hle⟩
    have hi : i < s.size := lt_size_iff.2 (ho ▸ hle)
    refine ⟨i, ⟨hi, rfl⟩, UInt32.toNat_inj.1 ?_⟩
    rw [toNat_ofNat_first_add hi, ho]

/-- The listed offsets are those that belong to the range. -/
@[simp] theorem mem_offsets {s : Span} {o : Offset} : o ∈ s.offsets ↔ s.Covers o := by
  rw [List.mem_iff_getElem?]
  simp only [getElem?_offsets, Covers, UInt32.le_iff_toNat_le]
  constructor
  · rintro ⟨i, ho, hle⟩
    omega
  · rintro ⟨hfirst, hle⟩
    exact ⟨o.toNat - s.first.toNat, by omega, hle⟩

/-- There are as many listed offsets as the range holds. -/
@[simp] theorem length_offsets (s : Span) : s.offsets.length = s.size := by
  rw [offsets, leading, List.length_map, List.length_range, Nat.min_self]

/-- The listed offsets ascend. -/
theorem pairwise_offsets (s : Span) : s.offsets.Pairwise (· < ·) := by
  rw [List.pairwise_iff_getElem]
  intro i j hi hj hlt
  have hfirst := (getElem?_offsets.1 (List.getElem?_eq_getElem hi)).1
  have hsecond := (getElem?_offsets.1 (List.getElem?_eq_getElem hj)).1
  rw [UInt32.lt_iff_toNat_lt]
  omega

/-- The span moved up by a distance, if it stays among the offsets. -/
def shift? (s : Span) (distance : Offset) : Option Span := do
  let first ← s.first.add? distance
  let last ← s.last.add? distance
  return { s with first, last }

/-- Spans in the order of their locations. -/
def isLE (s t : Span) : Bool := s.location.isLE t.location

/-- Sorts spans by location; spans of one location stay in order. -/
def sort (spans : List Span) : List Span := spans.mergeSort isLE

end Span

end Provenance
