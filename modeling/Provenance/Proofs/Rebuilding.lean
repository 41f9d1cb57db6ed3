import Provenance.Proofs.CanonicalForm

/-!
# Rebuilding a map

A map that is read from a text may list its spans in any order and hold any index. **Rebuilding** it
drops the index and makes the map of the listed spans. A map is *built* if that gives it back
(`SourceMap.IsBuilt`).

* Rebuilding is idempotent (`SourceMap.isBuilt_ofSpans`): the spans of a built map stand in order,
  and sorting leaves such a list alone (`Span.sort_eq_self_iff`).
* So the built maps are exactly the ones that some list of spans builds
  (`SourceMap.isBuilt_iff_exists`).
* They can be told without building anything (`SourceMap.isBuilt_iff_of_order`): the listed spans
  are in order, and the index answers every offset with the greatest number of a span that covers
  it.
-/

namespace Provenance

namespace Span

/-- **Sorting leaves exactly the lists alone that are in order.** -/
theorem sort_eq_self_iff {spans : List Span} :
    sort spans = spans ↔ spans.Pairwise fun s t ↦ s.isLE t = true := by
  constructor
  · intro h
    rw [← h]
    exact pairwise_sort spans
  · intro h
    exact List.mergeSort_of_pairwise h

/-- Sorting twice is sorting once. -/
theorem sort_sort (spans : List Span) : sort (sort spans) = sort spans :=
  sort_eq_self_iff.2 (pairwise_sort spans)

/-- The order of spans is that of their files by bytes, then of lines and columns. -/
theorem pairwise_isLE_iff {spans : List Span} :
    (spans.Pairwise fun s t ↦ s.isLE t = true) ↔
      spans.Pairwise fun s t ↦ s.location.NotAfter t.location :=
  List.Pairwise.iff fun _ _ ↦ Location.isLE_iff

end Span

namespace SourceMap

variable {m n : SourceMap}

/-- **A map is what it lists and what it answers.** -/
theorem ext_indexAt? (hspans : m.spans = n.spans) (hindex : ∀ o, m.indexAt? o = n.indexAt? o) :
    m = n := by
  obtain ⟨spans, index⟩ := m
  obtain ⟨spans', index'⟩ := n
  obtain rfl : spans = spans' := hspans
  obtain rfl : index = index' := Table.ext_find? hindex
  rfl

/-- **A map that is built is its own rebuilding.** -/
theorem isBuilt_ofSpans (spans : List Span) : (ofSpans spans).IsBuilt :=
  ofSpans_eq_ofSpans_iff_sort.2 (Span.sort_sort spans)

/-- The maps that rebuilding gives back are those that some list builds. -/
theorem isBuilt_iff_exists : m.IsBuilt ↔ ∃ spans, m = ofSpans spans := by
  constructor
  · intro h
    exact ⟨m.spans, h.symm⟩
  · rintro ⟨spans, rfl⟩
    exact isBuilt_ofSpans spans

/-- The span of a number speaks for an offset: it covers the offset, and no covering span has a
greater number. -/
def Speaks (m : SourceMap) (o : Offset) (i : ℕ) : Prop :=
  (∃ s, m.spans[i]? = some s ∧ s.Covers o) ∧
    ∀ (j : ℕ) (s : Span), m.spans[j]? = some s → s.Covers o → j ≤ i

/-- The index of the map of a list in order follows from the list. -/
theorem indexAt?_ofSpans_iff_speaks (hsort : Span.sort m.spans = m.spans) {o : Offset} {i : ℕ} :
    (ofSpans m.spans).indexAt? o = some i ↔ m.Speaks o i := by
  rw [indexAt?_ofSpans_eq_some_iff, hsort]
  rfl

/-- **Built maps can be told from their spans and their answers.** -/
theorem isBuilt_iff_of_order :
    m.IsBuilt ↔ (m.spans.Pairwise fun s t ↦ s.location.NotAfter t.location) ∧
      ∀ o i, m.indexAt? o = some i ↔ m.Speaks o i := by
  rw [← Span.pairwise_isLE_iff, ← Span.sort_eq_self_iff]
  constructor
  · intro h
    have hsort : Span.sort m.spans = m.spans := congrArg SourceMap.spans h
    refine ⟨hsort, fun o i ↦ ?_⟩
    rw [← indexAt?_ofSpans_iff_speaks hsort, show ofSpans m.spans = m from h]
  · rintro ⟨hsort, hindex⟩
    refine ext_indexAt? hsort fun o ↦ Option.ext fun i ↦ ?_
    rw [indexAt?_ofSpans_iff_speaks hsort, hindex]

/-- **Rebuilding recognises built maps.** A map, whatever it lists and whatever its index holds, is
given back by rebuilding exactly if some list of spans builds it. That is so exactly if its spans do
not descend in files by their bytes, lines and columns, and its index has under each offset the
greatest number of a listed span that covers it, and nothing where none does. Rebuilding twice is
rebuilding once. -/
theorem ofSpans_spans_eq_self_iff (m : SourceMap) :
    (ofSpans m.spans = m ↔ ∃ spans, m = ofSpans spans) ∧
    (ofSpans m.spans = m ↔ (m.spans.Pairwise fun s t ↦ s.location.NotAfter t.location) ∧
      ∀ o i, m.indexAt? o = some i ↔ m.Speaks o i) ∧
    ofSpans (ofSpans m.spans).spans = ofSpans m.spans :=
  ⟨isBuilt_iff_exists, isBuilt_iff_of_order, isBuilt_ofSpans m.spans⟩

end SourceMap

end Provenance
