import Mathlib.Algebra.Order.BigOperators.Group.List
import Mathlib.Algebra.Order.Ring.Nat
import Mathlib.Data.List.Dedup
import Mathlib.Data.List.Nodup
import Provenance.Proofs.ReverseIndex

/-!
# How many offsets are mapped

The spans of a list write one pair for each offset that they cover, so they write as many pairs as
their sizes add up to. The index of the built map keeps one of the pairs of each offset. It is
smaller than the sum exactly if some offset is written twice, and that is so exactly if two spans
**overlap**.

* `Table.size_ofList`: a table has as many keys as there are different ones among the written pairs.
* `SourceMap.size_index_ofSpans`: so the index has as many keys as the spans have different offsets.
* `Span.nodup_flatMap_offsets_iff`: offsets of a list of spans are all different exactly if no two
  spans of it overlap. The offsets of one span never repeat, so only pairs of spans count.
-/

namespace Provenance

/-! ### Keys of a table -/

namespace Table

section

variable {κ ν : Type} [Ord κ] [Std.TransOrd κ] [Std.LawfulEqOrd κ] [DecidableEq κ]

/-- The keys of a table that is filled in one go are those of the written pairs. -/
theorem mem_keys_ofList {ps : List (κ × ν)} {k : κ} :
    k ∈ (ofList ps).keys ↔ k ∈ ps.map Prod.fst := by
  rw [mem_keys_iff, find?_ofList, Option.isSome_map, List.getLast?_isSome, List.mem_map]
  simp [List.filter_eq_nil_iff]

/-- **A table has one entry for each of the different keys that are written.** -/
theorem size_ofList (ps : List (κ × ν)) : (ofList ps).size = (ps.map Prod.fst).dedup.length := by
  have hperm : (ofList ps).keys.Perm (ps.map Prod.fst).dedup := by
    refine (List.perm_ext_iff_of_nodup (nodup_keys _) (List.nodup_dedup _)).2 fun k ↦ ?_
    rw [mem_keys_ofList, List.mem_dedup]
  rw [← hperm.length_eq, keys, List.length_map, size]

end

end Table

/-! ### Overlapping spans -/

namespace Span

variable {s t : Span} {spans : List Span}

/-- Some offset belongs to both ranges. -/
def Overlaps (s t : Span) : Prop := ∃ o, s.Covers o ∧ t.Covers o

theorem Overlaps.symm (h : s.Overlaps t) : t.Overlaps s := by
  obtain ⟨o, hs, ht⟩ := h
  exact ⟨o, ht, hs⟩

/-- Ranges overlap exactly if neither is empty and neither ends before the other begins. -/
theorem overlaps_iff :
    s.Overlaps t ↔
      (s.first ≤ s.last ∧ t.first ≤ t.last) ∧ s.first ≤ t.last ∧ t.first ≤ s.last := by
  constructor
  · rintro ⟨o, ⟨hs, hs'⟩, ht, ht'⟩
    exact ⟨⟨UInt32.le_trans hs hs', UInt32.le_trans ht ht'⟩, UInt32.le_trans hs ht',
      UInt32.le_trans ht hs'⟩
  · rintro ⟨⟨hs, ht⟩, hst, hts⟩
    -- The greater one of the two first offsets belongs to both ranges.
    rcases UInt32.le_total s.first t.first with hle | hle
    · exact ⟨t.first, ⟨hle, hts⟩, UInt32.le_refl _, ht⟩
    · exact ⟨s.first, ⟨UInt32.le_refl _, hs⟩, hle, hst⟩

instance (s t : Span) : Decidable (s.Overlaps t) := decidable_of_iff _ overlaps_iff.symm

-- Ranges that touch do not overlap, and a range that is empty overlaps nothing, itself included.
example : ¬ (⟨⟨"a", 1, 0⟩, 0, 4⟩ : Span).Overlaps ⟨⟨"a", 2, 0⟩, 5, 9⟩ := by decide

example : ¬ (⟨⟨"a", 1, 0⟩, 5, 2⟩ : Span).Overlaps ⟨⟨"a", 1, 0⟩, 5, 2⟩ := by decide

/-- A span lists its offsets once. -/
theorem nodup_offsets (s : Span) : s.offsets.Nodup := by
  refine s.pairwise_offsets.imp fun {a b} hlt heq ↦ ?_
  exact UInt32.lt_irrefl b (heq ▸ hlt)

/-- The offsets of spans are as many as their sizes add up to. -/
theorem length_flatMap_offsets (spans : List Span) :
    (spans.flatMap offsets).length = (spans.map size).sum := by
  rw [List.length_flatMap]
  simp only [length_offsets]

/-- **The offsets of spans are all different exactly if no two of the spans overlap.** -/
theorem nodup_flatMap_offsets_iff :
    (spans.flatMap offsets).Nodup ↔ spans.Pairwise fun s t ↦ ¬ s.Overlaps t := by
  rw [List.nodup_flatMap, and_iff_right fun s _ ↦ nodup_offsets s]
  refine List.Pairwise.iff fun s t ↦ ?_
  constructor
  · rintro hdisjoint ⟨o, hs, ht⟩
    exact hdisjoint (mem_offsets.2 hs) (mem_offsets.2 ht)
  · intro hnot o hs ht
    exact hnot ⟨o, mem_offsets.1 hs, mem_offsets.1 ht⟩

/-- Overlapping goes both ways, so no two spans overlap if none overlaps one at another position. -/
theorem pairwise_not_overlaps_iff :
    (spans.Pairwise fun s t ↦ ¬ s.Overlaps t) ↔
      ∀ (i j : ℕ) (s t : Span), spans[i]? = some s → spans[j]? = some t → i ≠ j →
        ¬ s.Overlaps t := by
  rw [List.pairwise_iff_getElem]
  constructor
  · intro h i j s t hs ht hne
    obtain ⟨hi, rfl⟩ := List.getElem?_eq_some_iff.1 hs
    obtain ⟨hj, rfl⟩ := List.getElem?_eq_some_iff.1 ht
    rcases Nat.lt_or_gt_of_ne hne with hlt | hgt
    · exact h i j hi hj hlt
    · exact fun hoverlap ↦ h j i hj hi hgt hoverlap.symm
  · intro h i j hi hj hlt
    exact h i j _ _ (List.getElem?_eq_getElem hi) (List.getElem?_eq_getElem hj) (Nat.ne_of_lt hlt)

end Span

/-! ### Counting -/

namespace SourceMap

/-- The written keys are the offsets of the spans. -/
theorem map_fst_assignments (spans : List Span) :
    (assignments spans).map Prod.fst = spans.flatMap Span.offsets := by
  rw [assignments, List.map_flatMap]
  conv_rhs => rw [← List.zipIdx_map_fst 0 spans]
  rw [List.flatMap_map]
  simp only [List.map_map, Function.comp_def, List.map_id']

/-- **The index has as many keys as the spans have different offsets.** -/
theorem size_index_ofSpans (spans : List Span) :
    (ofSpans spans).index.size = (spans.flatMap Span.offsets).dedup.length := by
  have hperm : ((Span.sort spans).flatMap Span.offsets).Perm (spans.flatMap Span.offsets) :=
    (List.mergeSort_perm spans Span.isLE).flatMap_right Span.offsets
  show (Table.ofList (assignments (Span.sort spans))).size = _
  rw [Table.size_ofList, map_fst_assignments, hperm.dedup.length_eq]

/-- **Mapped offsets.** A built map has no more mapped offsets than the sizes of the spans add up
to, and it has as many exactly if no two spans at different positions of the list cover one
offset. -/
theorem size_index_ofSpans_le_sum (spans : List Span) :
    (ofSpans spans).index.size ≤ (spans.map Span.size).sum ∧
    ((ofSpans spans).index.size = (spans.map Span.size).sum ↔
      ∀ (i j : ℕ) (s t : Span), spans[i]? = some s → spans[j]? = some t → i ≠ j →
        ¬ ∃ o, s.Covers o ∧ t.Covers o) := by
  have hsub : (spans.flatMap Span.offsets).dedup.Sublist (spans.flatMap Span.offsets) :=
    List.dedup_sublist _
  have hnodup : (spans.flatMap Span.offsets).dedup.length = (spans.flatMap Span.offsets).length ↔
      (spans.flatMap Span.offsets).Nodup := by
    rw [← List.dedup_eq_self]
    exact ⟨hsub.eq_of_length, congrArg List.length⟩
  rw [size_index_ofSpans, ← Span.length_flatMap_offsets]
  refine ⟨hsub.length_le, hnodup.trans ?_⟩
  exact Span.nodup_flatMap_offsets_iff.trans Span.pairwise_not_overlaps_iff

end SourceMap

end Provenance
