import Mathlib.Data.List.Basic
import Provenance.Proofs.LastWrite
import Provenance.SourceMap

/-!
# The reverse index of a built map

`SourceMap.ofSpans` lets the sorted spans take their offsets one span after another. What comes out
does not depend on how the spans overlap: an offset belongs to the **last** sorted span that covers
it.

The assignments of all spans, in the order in which they are written, name span numbers that never
descend (`pairwise_assignments`). The last assignment of an offset is therefore the greatest one,
and the rest is `Table.find?_ofList_eq_some_iff_of_pairwise`.
-/

namespace Provenance

@[simp] theorem Span.mem_sort {spans : List Span} {s : Span} : s ∈ sort spans ↔ s ∈ spans :=
  List.mem_mergeSort

namespace SourceMap

/-! ### The assignments -/

/-- An offset is assigned to the numbers of the spans that cover it. -/
theorem mem_assignments {spans : List Span} {o : Offset} {i : ℕ} :
    (o, i) ∈ assignments spans ↔ ∃ s, spans[i]? = some s ∧ s.Covers o := by
  simp only [assignments, List.mem_flatMap, List.mem_map, Prod.mk.injEq, Prod.exists,
    List.mem_zipIdx_iff_getElem?]
  constructor
  · rintro ⟨s, j, hs, o', ho', rfl, rfl⟩
    exact ⟨s, hs, Span.mem_offsets.1 ho'⟩
  · rintro ⟨s, hs, ho⟩
    exact ⟨s, i, hs, o, Span.mem_offsets.2 ho, rfl, rfl⟩

/-- Span numbers never descend along the assignments. -/
theorem pairwise_assignments (spans : List Span) :
    (assignments spans).Pairwise fun p q ↦ p.2 ≤ q.2 := by
  have hnumbers : spans.zipIdx.Pairwise fun a b ↦ a.2 < b.2 := by
    rw [← List.pairwise_map (f := Prod.snd) (R := (· < ·)), List.zipIdx_map_snd]
    exact List.pairwise_lt_range'
  rw [assignments, List.pairwise_flatMap]
  refine ⟨fun ⟨s, i⟩ _ ↦ ?_, hnumbers.imp fun {a b} hlt p hp q hq ↦ ?_⟩
  · exact List.pairwise_map.2 (List.pairwise_of_forall fun _ _ ↦ le_refl i)
  · obtain ⟨_, -, rfl⟩ := List.mem_map.1 hp
    obtain ⟨_, -, rfl⟩ := List.mem_map.1 hq
    exact hlt.le

/-- The index is what the sorted spans write, each of them at all of its offsets. -/
theorem index_ofSpans (spans : List Span) :
    (ofSpans spans).index = (Span.sort spans).zipIdx.foldl
      (fun t p ↦ p.1.offsets.foldl (fun t o ↦ t.insert o p.2) t) .empty := by
  show Table.ofList (assignments (Span.sort spans)) = _
  rw [Table.ofList_eq_foldl, assignments, List.foldl_flatMap]
  simp only [List.foldl_map]

/-! ### Looking up -/

/-- **The last sorted span that covers an offset speaks for it.** -/
theorem indexAt?_ofSpans_eq_some_iff {spans : List Span} {o : Offset} {i : ℕ} :
    (ofSpans spans).indexAt? o = some i ↔
      (∃ s, (Span.sort spans)[i]? = some s ∧ s.Covers o) ∧
        ∀ j s, (Span.sort spans)[j]? = some s → s.Covers o → j ≤ i := by
  have h := Table.find?_ofList_eq_some_iff_of_pairwise (pairwise_assignments (Span.sort spans))
    (k := o) (n := i)
  simp only [mem_assignments] at h
  refine h.trans (and_congr_right fun _ ↦ ⟨fun hmax j s hs ho ↦ hmax j ⟨s, hs, ho⟩, ?_⟩)
  rintro hmax j ⟨s, hs, ho⟩
  exact hmax j s hs ho

/-- An offset without a number is one that no span covers. -/
theorem indexAt?_ofSpans_eq_none_iff {spans : List Span} {o : Offset} :
    (ofSpans spans).indexAt? o = none ↔ ∀ s ∈ spans, ¬ s.Covers o := by
  show (Table.ofList (assignments (Span.sort spans))).find? o = none ↔ _
  rw [Table.find?_ofList, Option.map_eq_none_iff, List.getLast?_eq_none_iff,
    List.filter_eq_nil_iff]
  constructor
  · intro h s hs ho
    obtain ⟨i, hi⟩ := List.mem_iff_getElem?.1 (Span.mem_sort.2 hs)
    exact h (o, i) (mem_assignments.2 ⟨s, hi, ho⟩) (decide_eq_true rfl)
  · rintro h ⟨o', i⟩ hmem hkey
    obtain rfl : o' = o := of_decide_eq_true hkey
    obtain ⟨s, hs, ho⟩ := mem_assignments.1 hmem
    exact h s (Span.mem_sort.1 (List.mem_of_getElem? hs)) ho

/-- The numbers in a built index are numbers of spans. -/
theorem lt_size_of_mem_entries {spans : List Span} {p : Offset × ℕ}
    (h : p ∈ (ofSpans spans).index.entries) : p.2 < (ofSpans spans).size := by
  obtain ⟨o, i⟩ := p
  have hindex : (ofSpans spans).indexAt? o = some i := Table.find?_eq_some_iff.2 h
  obtain ⟨⟨s, hs, -⟩, -⟩ := indexAt?_ofSpans_eq_some_iff.1 hindex
  exact (List.getElem?_eq_some_iff.1 hs).1

/-- An offset with a number has a span. -/
theorem isSome_spanAt?_ofSpans (spans : List Span) (o : Offset) :
    ((ofSpans spans).spanAt? o).isSome = ((ofSpans spans).indexAt? o).isSome := by
  rw [spanAt?]
  cases h : (ofSpans spans).indexAt? o with
  | none => rfl
  | some i =>
    obtain ⟨⟨s, hs, -⟩, -⟩ := indexAt?_ofSpans_eq_some_iff.1 h
    show ((Span.sort spans)[i]?).isSome = true
    rw [hs]
    rfl

/-- **Reverse index.** The number of an offset is the greatest number of a sorted span that covers
it. So the index has exactly the covered offsets as keys and only numbers of spans as values, and an
offset has a span and a location exactly when it has a number. -/
theorem indexAt?_ofSpans_greatest (spans : List Span) (o : Offset) :
    (∀ i, (ofSpans spans).indexAt? o = some i ↔
      (∃ s, (ofSpans spans).spans[i]? = some s ∧ s.Covers o) ∧
        ∀ j s, i < j → (ofSpans spans).spans[j]? = some s → ¬ s.Covers o) ∧
    ((ofSpans spans).indexAt? o = none ↔ ∀ s ∈ spans, ¬ s.Covers o) ∧
    (o ∈ (ofSpans spans).index.keys ↔ ∃ s ∈ spans, s.Covers o) ∧
    (∀ p ∈ (ofSpans spans).index.entries, p.2 < (ofSpans spans).size) ∧
    ((ofSpans spans).spanAt? o).isSome = ((ofSpans spans).indexAt? o).isSome ∧
    ((ofSpans spans).locationAt? o).isSome = ((ofSpans spans).indexAt? o).isSome := by
  have hspan := isSome_spanAt?_ofSpans spans o
  refine ⟨fun i ↦ ?_, indexAt?_ofSpans_eq_none_iff, ?_, fun _ ↦ lt_size_of_mem_entries, hspan, ?_⟩
  · rw [indexAt?_ofSpans_eq_some_iff]
    refine and_congr_right fun _ ↦ ⟨fun hmax j s hlt hs ho ↦ ?_, fun hmax j s hs ho ↦ ?_⟩
    · exact absurd (hmax j s hs ho) (by omega)
    · by_contra hlt
      exact hmax j s (by omega) hs ho
  · have hnone : (ofSpans spans).indexAt? o ≠ none ↔ ¬ ∀ s ∈ spans, ¬ s.Covers o :=
      not_congr indexAt?_ofSpans_eq_none_iff
    rw [Table.mem_keys_iff, Option.isSome_iff_ne_none]
    refine hnone.trans ?_
    push Not
    rfl
  · rw [locationAt?, Option.isSome_map, hspan]

end SourceMap

end Provenance
