import Mathlib.Data.List.Basic
import Provenance.Span

/-!
# The views of a closed range

A span says of an offset whether its range holds it (`Span.Covers`), how many offsets the range
holds (`Span.size`), whether there are none (`Span.isEmpty`) and which ones there are
(`Span.offsets`). The list is counted out from the size. This module adds the view that knows of no
size: a **walk** goes from an offset of the range to the next one until it has passed the last.
`Span.views_agree` says that all of them are views of one range.

* `Span.next?_of_getElem?`: a step leads from a listed offset to the one that is listed behind it,
  and from the last one nowhere. It compares with the end of the range before it adds, so a range
  that ends with the greatest offset is walked to its end, and nothing wraps around.
* `Span.walk_eq_take`: so a walk passes the offsets in the order of the list, whenever it is
  stopped. This rests on the step alone.
* `Span.listsLeast_take`: where the list is cut off, it has the **least** offsets of the range. This
  rests on the ascending order and knows of no steps.
-/

namespace Provenance

namespace Span

variable {s : Span} {o : Offset} {i : ℕ}

/-! ### Size -/

/-- No range holds more offsets than there are. -/
theorem size_le_count (s : Span) : s.size ≤ Offset.count := by
  have hlast : s.last.toNat < Offset.count := s.last.toNat_lt
  rw [← Nat.not_lt, lt_size_iff]
  omega

theorem isEmpty_iff_size_eq_zero : s.isEmpty = true ↔ s.size = 0 := by
  have hpos : 0 < s.size ↔ s.first.toNat ≤ s.last.toNat := lt_size_iff
  rw [isEmpty_iff, UInt32.lt_iff_toNat_lt]
  omega

/-- A range is empty exactly if it holds no offset. -/
theorem isEmpty_iff_forall_not_covers : s.isEmpty = true ↔ ∀ o, ¬ s.Covers o := by
  rw [isEmpty_iff_size_eq_zero, ← length_offsets, List.length_eq_zero_iff,
    List.eq_nil_iff_forall_not_mem]
  simp only [mem_offsets]

/-! ### Walking through a range -/

/-- The offset with which a walk through the range begins. -/
def begin? (s : Span) : Option Offset := if s.first ≤ s.last then some s.first else none

/-- The offset behind another one of the range. There is none behind the last. -/
def next? (s : Span) (o : Offset) : Option Offset := if o < s.last then some (o + 1) else none

/-- The offsets that a walk passes in so many steps, if the given one is due. -/
def walkFrom (s : Span) : ℕ → Option Offset → List Offset
  | n + 1, some o => o :: s.walkFrom n (s.next? o)
  | _, _ => []

/-- The offsets that a walk through the range passes in its first `n` steps. -/
def walk (s : Span) (n : ℕ) : List Offset := s.walkFrom n s.begin?

@[simp] theorem walkFrom_zero (due : Option Offset) : s.walkFrom 0 due = [] := by
  cases due <;> rfl

@[simp] theorem walkFrom_none (n : ℕ) : s.walkFrom n none = [] := by cases n <;> rfl

/-- A walk begins with the offset that is listed first. -/
theorem begin?_eq : s.begin? = s.offsets[0]? := by
  refine Option.ext fun o ↦ ?_
  rw [begin?, getElem?_offsets, Nat.add_zero, UInt32.toNat_inj, ← UInt32.le_iff_toNat_le]
  split
  · next hle =>
    rw [Option.some_inj]
    constructor
    · rintro rfl
      exact ⟨rfl, hle⟩
    · rintro ⟨rfl, -⟩
      rfl
  · next hgt =>
    refine ⟨nofun, ?_⟩
    rintro ⟨rfl, hle⟩
    exact absurd hle hgt

/-- **A step leads from a listed offset to the one behind it.** -/
theorem next?_of_getElem? (h : s.offsets[i]? = some o) : s.next? o = s.offsets[i + 1]? := by
  obtain ⟨ho, -⟩ := getElem?_offsets.1 h
  rw [next?]
  split
  · next hlt =>
    -- Below the last offset there is room for one more, so the sum does not wrap around.
    have hlast := s.last.toNat_lt
    rw [UInt32.lt_iff_toNat_lt] at hlt
    have hsucc : (o + 1).toNat = o.toNat + 1 := by
      rw [UInt32.toNat_add, UInt32.toNat_one]
      omega
    have hnext : s.offsets[i + 1]? = some (o + 1) := getElem?_offsets.2 (by omega)
    exact hnext.symm
  · next hend =>
    rw [UInt32.lt_iff_toNat_lt] at hend
    have hsize : s.size ≤ i + 1 := by
      rw [← Nat.not_lt, lt_size_iff]
      omega
    exact (List.getElem?_eq_none_iff.2 (length_offsets s ▸ hsize)).symm

/-- A walk for which a listed offset is due passes that one and those behind it. -/
theorem walkFrom_getElem? (n i : ℕ) :
    s.walkFrom n s.offsets[i]? = (s.offsets.drop i).take n := by
  induction n generalizing i with
  | zero => simp
  | succ n ih =>
    cases h : s.offsets[i]? with
    | none => simp [List.drop_eq_nil_iff.2 (List.getElem?_eq_none_iff.1 h)]
    | some o =>
      obtain ⟨hi, rfl⟩ := List.getElem?_eq_some_iff.1 h
      rw [walkFrom, next?_of_getElem? h, ih, List.drop_eq_getElem_cons hi, List.take_succ_cons]

/-- **A walk passes the offsets in the order of the list.** -/
theorem walk_eq_take (s : Span) (n : ℕ) : s.walk n = s.offsets.take n := by
  rw [walk, begin?_eq, walkFrom_getElem?, List.drop_zero]

/-! ### The least offsets -/

/-- The offsets are the `n` least ones of the range, in ascending order, or all of them if the range
has fewer. -/
structure ListsLeast (s : Span) (n : ℕ) (os : List Offset) : Prop where
  /-- They ascend. -/
  ascending : os.Pairwise (· < ·)
  /-- The range holds them. -/
  covered : ∀ o ∈ os, s.Covers o
  /-- There are `n` of them, or as many as the range holds. -/
  length_eq : os.length = min n s.size
  /-- What else the range holds is greater than each of them. -/
  below : ∀ o ∈ os, ∀ p, s.Covers p → p ∉ os → o < p

/-- **The first listed offsets are the least ones.** -/
theorem listsLeast_take (s : Span) (n : ℕ) : s.ListsLeast n (s.offsets.take n) where
  ascending := s.pairwise_offsets.take
  covered o ho := mem_offsets.1 (List.mem_of_mem_take ho)
  length_eq := by rw [List.length_take, length_offsets]
  below o ho p hp hnot := by
    -- An offset of the range that is not among the first ones is listed behind them.
    have hsplit : (s.offsets.take n ++ s.offsets.drop n).Pairwise (· < ·) := by
      rw [List.take_append_drop]
      exact s.pairwise_offsets
    have hdrop : p ∈ s.offsets.drop n := by
      have hmem : p ∈ s.offsets.take n ++ s.offsets.drop n := by
        rw [List.take_append_drop]
        exact mem_offsets.2 hp
      exact (List.mem_append.1 hmem).resolve_left hnot
    exact (List.pairwise_append.1 hsplit).2.2 o ho p hdrop

/-- The first offsets that are counted out are the first listed ones. -/
theorem leading_eq_take (s : Span) (n : ℕ) : s.leading n = s.offsets.take n := by
  rw [offsets, leading, leading, Nat.min_self, ← List.map_take, List.take_range]

/-- **The views of a range agree.** The listed offsets ascend, there are as many of them as the size
says, and they are those that the range holds. A range is empty exactly if its size is zero, and
exactly if it holds no offset. A walk through the range, wherever it is stopped, has passed the
first listed offsets, and these are the least ones of the range. -/
theorem views_agree (s : Span) :
    s.offsets.Pairwise (· < ·) ∧
    s.offsets.length = s.size ∧
    s.size ≤ Offset.count ∧
    (∀ o, o ∈ s.offsets ↔ s.Covers o) ∧
    (s.isEmpty = true ↔ s.size = 0) ∧
    (s.isEmpty = true ↔ ∀ o, ¬ s.Covers o) ∧
    ∀ n, s.walk n = s.offsets.take n ∧ s.leading n = s.offsets.take n ∧
      s.ListsLeast n (s.offsets.take n) := by
  refine ⟨s.pairwise_offsets, length_offsets s, size_le_count s, fun o ↦ mem_offsets,
    isEmpty_iff_size_eq_zero, isEmpty_iff_forall_not_covers, ?_⟩
  intro n
  exact ⟨walk_eq_take s n, leading_eq_take s n, listsLeast_take s n⟩

-- A walk ends behind the greatest offset, and it does not begin where the range is turned around.
example : (⟨⟨"a", 1, 0⟩, 0xFFFFFFFE, 0xFFFFFFFF⟩ : Span).walk 9 = [0xFFFFFFFE, 0xFFFFFFFF] := by
  decide

example : (⟨⟨"a", 1, 0⟩, 9, 4⟩ : Span).walk 9 = [] := by decide

end Span

end Provenance
