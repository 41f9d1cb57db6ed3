import Mathlib.Data.List.Basic
import Provenance.Proofs.LocationOrder
import Provenance.Proofs.Merge

/-!
# The canonical form of a list of spans

A built map lists its spans by location and leaves the spans of one location in the order in which
they came. These two properties determine the list (`Span.eq_of_pairwise_of_filter_eq`): its first
span has the smallest location, and among the spans of that location it is the first one.

So there is one way only to sort stably (`SourceMap.spans_ofSpans_stable`), and a built map is a
**canonical form**: two lists of spans build the same map exactly if they agree location by location
(`SourceMap.ofSpans_eq_ofSpans_iff`). How spans of different locations are mixed is forgotten, and
nothing else is.
-/

namespace Provenance

namespace Span

variable {xs ys : List Span} {s t : Span}

/-- Lists that agree location by location have the same members. -/
theorem mem_of_filter_eq
    (h : ∀ l, (xs.filter fun s ↦ s.location = l) = ys.filter fun s ↦ s.location = l)
    (hs : s ∈ xs) : s ∈ ys := by
  have hmem : s ∈ xs.filter fun t ↦ t.location = s.location :=
    List.mem_filter.2 ⟨hs, decide_eq_true rfl⟩
  rw [h] at hmem
  exact (List.mem_filter.1 hmem).1

/-- Selections that agree still agree without a common first span. -/
theorem filter_eq_of_filter_cons_eq {p : Span → Bool}
    (h : (s :: xs).filter p = (s :: ys).filter p) : xs.filter p = ys.filter p := by
  rw [List.filter_cons, List.filter_cons] at h
  split_ifs at h
  · exact (List.cons.inj h).2
  · exact h

/-- In a list in order no span stands before the first one. -/
theorem isLE_of_pairwise_cons (h : (s :: xs).Pairwise fun s t ↦ s.isLE t = true)
    (ht : t ∈ s :: xs) : s.isLE t = true := by
  rcases List.mem_cons.1 ht with rfl | ht
  · exact isLE_of_location_eq rfl
  · exact (List.pairwise_cons.1 h).1 t ht

/-- **A list in order is determined by the spans of each location.** -/
theorem eq_of_pairwise_of_filter_eq (hxs : xs.Pairwise fun s t ↦ s.isLE t = true)
    (hys : ys.Pairwise fun s t ↦ s.isLE t = true)
    (h : ∀ l, (xs.filter fun s ↦ s.location = l) = ys.filter fun s ↦ s.location = l) :
    xs = ys := by
  induction xs generalizing ys with
  | nil =>
    rcases ys with - | ⟨t, ys⟩
    · rfl
    · exact absurd (mem_of_filter_eq (fun l ↦ (h l).symm) List.mem_cons_self) List.not_mem_nil
  | cons s xs ih =>
    rcases ys with - | ⟨t, ys⟩
    · exact absurd (mem_of_filter_eq h List.mem_cons_self) List.not_mem_nil
    · -- Each of the two first spans stands in the other list, so none is before the other one.
      have hts : t.isLE s = true :=
        isLE_of_pairwise_cons hys (mem_of_filter_eq h List.mem_cons_self)
      have hst : s.isLE t = true :=
        isLE_of_pairwise_cons hxs (mem_of_filter_eq (fun l ↦ (h l).symm) List.mem_cons_self)
      have hlocation : s.location = t.location := Location.eq_of_isLE_of_isLE hst hts
      have hfirst := h t.location
      rw [List.filter_cons_of_pos (by simpa using hlocation),
        List.filter_cons_of_pos (by simp)] at hfirst
      obtain rfl : s = t := (List.cons.inj hfirst).1
      exact congrArg (s :: ·) (ih hxs.tail hys.tail fun l ↦ filter_eq_of_filter_cons_eq (h l))

/-- Sorting leaves the spans of each location as they are. -/
theorem filter_location_sort (spans : List Span) (l : Location) :
    ((sort spans).filter fun s ↦ s.location = l) = spans.filter fun s ↦ s.location = l :=
  filter_sort (fun _ _ hs ht ↦ (of_decide_eq_true hs).trans (of_decide_eq_true ht).symm) spans

/-- Lists are sorted alike exactly if they agree location by location. -/
theorem sort_eq_sort_iff :
    sort xs = sort ys ↔
      ∀ l, (xs.filter fun s ↦ s.location = l) = ys.filter fun s ↦ s.location = l := by
  constructor
  · intro h l
    rw [← filter_location_sort, h, filter_location_sort]
  · intro h
    refine eq_of_pairwise_of_filter_eq (pairwise_sort xs) (pairwise_sort ys) fun l ↦ ?_
    rw [filter_location_sort, filter_location_sort, h]

end Span

namespace SourceMap

/-- **Stable ordering.** A built map has the spans of the list, each as often as the list has it and
unchanged, even if it covers nothing. They do not descend in files by their bytes, lines and
columns, and spans of one location stand as they stood in the list, whatever their ranges are. It is
the only list of spans of which this is true. -/
theorem spans_ofSpans_stable (spans : List Span) :
    (ofSpans spans).spans.Perm spans ∧
    ((ofSpans spans).spans.Pairwise fun s t ↦ s.location.NotAfter t.location) ∧
    (∀ l, ((ofSpans spans).spans.filter fun s ↦ s.location = l) =
      spans.filter fun s ↦ s.location = l) ∧
    ∀ sorted : List Span, (sorted.Pairwise fun s t ↦ s.location.NotAfter t.location) →
      (∀ l, (sorted.filter fun s ↦ s.location = l) = spans.filter fun s ↦ s.location = l) →
        sorted = (ofSpans spans).spans := by
  have horder : ∀ s t : Span, s.isLE t = true ↔ s.location.NotAfter t.location :=
    fun _ _ ↦ Location.isLE_iff
  have hsorted := Span.pairwise_sort spans
  have hstable := Span.filter_location_sort spans
  refine ⟨List.mergeSort_perm spans Span.isLE, ?_, hstable, fun sorted hpairwise h ↦ ?_⟩
  · exact hsorted.imp fun {s t} ↦ (horder s t).1
  · refine Span.eq_of_pairwise_of_filter_eq (hpairwise.imp fun {s t} ↦ (horder s t).2) hsorted ?_
    exact fun l ↦ (h l).trans (hstable l).symm

/-- Maps that list the same spans are built alike: the index follows from the list. -/
theorem ofSpans_eq_ofSpans_iff_sort {xs ys : List Span} :
    ofSpans xs = ofSpans ys ↔ Span.sort xs = Span.sort ys := by
  constructor
  · exact congrArg SourceMap.spans
  · intro h
    rw [ofSpans, ofSpans, h]

/-- **Canonical form.** Two lists build the same map exactly if they have the same spans in the same
order at each location. So two neighbours of a list can change their places exactly if they have
different locations or are the same span. -/
theorem ofSpans_eq_ofSpans_iff :
    (∀ xs ys : List Span, ofSpans xs = ofSpans ys ↔
      ∀ l, (xs.filter fun s ↦ s.location = l) = ys.filter fun s ↦ s.location = l) ∧
    ∀ (before after : List Span) (s t : Span),
      ofSpans (before ++ s :: t :: after) = ofSpans (before ++ t :: s :: after) ↔
        (s.location = t.location → s = t) := by
  have hiff : ∀ xs ys : List Span, ofSpans xs = ofSpans ys ↔
      ∀ l, (xs.filter fun s ↦ s.location = l) = ys.filter fun s ↦ s.location = l :=
    fun _ _ ↦ ofSpans_eq_ofSpans_iff_sort.trans Span.sort_eq_sort_iff
  refine ⟨hiff, fun before after s t ↦ ?_⟩
  simp only [hiff, List.filter_append, List.append_cancel_left_eq]
  constructor
  · intro h hlocation
    have hboth := h t.location
    simp only [List.filter_cons_of_pos, hlocation, decide_true, List.cons.injEq] at hboth
    exact hboth.1
  · intro h l
    by_cases hs : s.location = l
    · by_cases ht : t.location = l
      · rw [h (hs.trans ht.symm)]
      · simp [hs, ht]
    · simp [List.filter_cons, hs]

end SourceMap

end Provenance
