import Mathlib.Data.List.Basic
import Provenance.Proofs.ReverseIndex

/-!
# Looking up in joined lists of spans

Which span speaks for an offset is decided by two things only: by location, and among spans of one
location by their order in the list (`SourceMap.spanAt?_ofSpans_eq_some_iff`). Sorting is not
visible any more in this description, so it can be used for a list that is put together from
parts.

**Merging.** The answer for two lists joined is one of the two answers: the later location wins, and
on a tie the second list (`SourceMap.spanAt?_ofSpans_append`). `SourceMap.prevail` is that choice. A
list that is repeated answers as if it stood there once (`SourceMap.spanAt?_ofSpans_replicate`).
-/

namespace Provenance

namespace Span

theorem isLE_trans (s t u : Span) (hst : s.isLE t = true) (htu : t.isLE u = true) :
    s.isLE u = true :=
  Location.isLE_trans hst htu

theorem isLE_total (s t : Span) : (s.isLE t || t.isLE s) = true :=
  Location.isLE_total s.location t.location

theorem isLE_of_location_eq {s t : Span} (h : s.location = t.location) : s.isLE t = true := by
  rw [isLE, h]
  exact Location.isLE_refl t.location

/-- A span is not in order with one whose location is strictly below its own. -/
theorem isLE_eq_false_iff {s t : Span} :
    s.isLE t = false ↔ compare t.location s.location = .lt := by
  have hswap : compare t.location s.location = (compare s.location t.location).swap :=
    Std.OrientedCmp.eq_swap
  show (compare s.location t.location).isLE = false ↔ _
  rw [hswap]
  cases compare s.location t.location <;> decide

/-- Sorted spans stand in the order of their locations. -/
theorem pairwise_sort (spans : List Span) : (sort spans).Pairwise fun s t ↦ s.isLE t = true :=
  List.pairwise_mergeSort isLE_trans isLE_total spans

/-- Sorting does not reorder spans of one location. -/
theorem filter_sort {p : Span → Bool}
    (hp : ∀ s t, p s = true → p t = true → s.location = t.location) (spans : List Span) :
    (sort spans).filter p = spans.filter p :=
  filter_mergeSort isLE_trans isLE_total
    (fun s t hs ht ↦ isLE_of_location_eq (hp s t hs ht)) spans

end Span

namespace SourceMap

variable {spans xs ys : List Span} {o : Offset} {s t : Span}

/-- The span that speaks for an offset is the last sorted one that covers it. -/
theorem spanAt?_ofSpans (spans : List Span) (o : Offset) :
    (ofSpans spans).spanAt? o = ((Span.sort spans).filter fun s ↦ s.Covers o).getLast? := by
  rw [spanAt?]
  cases h : (ofSpans spans).indexAt? o with
  | none =>
    have hnil : (Span.sort spans).filter (fun s ↦ decide (s.Covers o)) = [] := by
      refine List.filter_eq_nil_iff.2 fun s hs hcovers ↦ ?_
      exact indexAt?_ofSpans_eq_none_iff.1 h s (Span.mem_sort.1 hs) (of_decide_eq_true hcovers)
    rw [hnil]
    rfl
  | some i =>
    obtain ⟨⟨s, hs, ho⟩, hmax⟩ := indexAt?_ofSpans_eq_some_iff.1 h
    obtain ⟨hi, hget⟩ := List.getElem?_eq_some_iff.1 hs
    -- Behind the greatest covering span there is no other one.
    have hafter : ((Span.sort spans).drop (i + 1)).filter (fun s ↦ decide (s.Covers o)) = [] := by
      refine List.filter_eq_nil_iff.2 fun t ht hcovers ↦ ?_
      obtain ⟨j, hj⟩ := List.mem_iff_getElem?.1 ht
      rw [List.getElem?_drop] at hj
      have hle := hmax _ t hj (of_decide_eq_true hcovers)
      omega
    have hsplit : Span.sort spans =
        (Span.sort spans).take i ++ s :: (Span.sort spans).drop (i + 1) := by
      rw [← hget, ← List.drop_eq_getElem_cons hi, List.take_append_drop]
    show (Span.sort spans)[i]? = _
    rw [hs, hsplit, List.filter_append, List.filter_cons_of_pos (by simpa using ho), hafter]
    simp

/-- An offset without a span is one that no span covers. -/
theorem spanAt?_ofSpans_eq_none_iff :
    (ofSpans spans).spanAt? o = none ↔ ∀ s ∈ spans, ¬ s.Covers o := by
  rw [← indexAt?_ofSpans_eq_none_iff, ← Option.not_isSome_iff_eq_none,
    ← Option.not_isSome_iff_eq_none, isSome_spanAt?_ofSpans]

/-- Among the covering spans of one location sorting is not visible. -/
theorem filter_covers_sort (spans : List Span) (o : Offset) (l : Location) :
    ((Span.sort spans).filter fun t ↦ t.Covers o).filter (fun t ↦ t.location = l) =
      spans.filter fun t ↦ t.Covers o ∧ t.location = l := by
  rw [List.filter_filter, ← Span.filter_sort (p := fun t ↦ t.Covers o ∧ t.location = l)]
  · exact List.filter_congr fun t _ ↦ by simp [and_comm]
  · intro t u ht hu
    exact (of_decide_eq_true ht).2.trans (of_decide_eq_true hu).2.symm

/-- No covering span has a greater location than the span that speaks for an offset. -/
theorem isLE_of_spanAt?_ofSpans (h : (ofSpans spans).spanAt? o = some s) (ht : t ∈ spans)
    (ho : t.Covers o) : t.isLE s = true := by
  rw [spanAt?_ofSpans] at h
  exact rel_of_getLast?_filter (r := fun s t ↦ s.isLE t = true) (Span.pairwise_sort spans) h
    (Span.isLE_of_location_eq rfl) (Span.mem_sort.2 ht) (decide_eq_true ho)

/-- The span that speaks for an offset is the last covering one of its location. -/
theorem getLast?_filter_of_spanAt?_ofSpans (h : (ofSpans spans).spanAt? o = some s) :
    (spans.filter fun t ↦ t.Covers o ∧ t.location = s.location).getLast? = some s := by
  rw [spanAt?_ofSpans] at h
  obtain ⟨before, hbefore⟩ := List.getLast?_eq_some_iff.1 h
  rw [← filter_covers_sort, hbefore, List.filter_append]
  simp

/-- **Among the covering spans the greatest location counts, and for one location the last span in
the list.** -/
theorem spanAt?_ofSpans_eq_some_iff :
    (ofSpans spans).spanAt? o = some s ↔
      (∀ t ∈ spans, t.Covers o → t.isLE s = true) ∧
        (spans.filter fun t ↦ t.Covers o ∧ t.location = s.location).getLast? = some s := by
  constructor
  · intro h
    exact ⟨fun t ht ho ↦ isLE_of_spanAt?_ofSpans h ht ho, getLast?_filter_of_spanAt?_ofSpans h⟩
  · rintro ⟨hmax, hlast⟩
    obtain ⟨hs, hcovers⟩ := List.mem_filter.1 (List.mem_of_getLast? hlast)
    have ho : s.Covers o := (of_decide_eq_true hcovers).1
    cases h : (ofSpans spans).spanAt? o with
    | none => exact absurd ho (spanAt?_ofSpans_eq_none_iff.1 h s hs)
    | some t =>
      -- Both are greatest, so they have one location, and there only one span is the last.
      have htlast := getLast?_filter_of_spanAt?_ofSpans h
      obtain ⟨ht, htcovers⟩ := List.mem_filter.1 (List.mem_of_getLast? htlast)
      have hlocation : t.location = s.location :=
        Location.eq_of_isLE_of_isLE (hmax t ht (of_decide_eq_true htcovers).1)
          (isLE_of_spanAt?_ofSpans h hs ho)
      rw [hlocation] at htlast
      exact htlast.symm.trans hlast

/-! ### Merging -/

/-- Of two answers the one that counts: the second, unless its location is below that of the
first. -/
def prevail : Option Span → Option Span → Option Span
  | none, b => b
  | some s, none => some s
  | some s, some t => if s.isLE t then some t else some s

@[simp] theorem prevail_none_left (a : Option Span) : prevail none a = a := rfl

@[simp] theorem prevail_none_right (a : Option Span) : prevail a none = a := by cases a <;> rfl

@[simp] theorem prevail_self (a : Option Span) : prevail a a = a := by
  cases a with
  | none => rfl
  | some s => exact if_pos (Span.isLE_of_location_eq rfl)

/-- The second list answers if no covering span of the first has a greater location. -/
theorem spanAt?_ofSpans_append_right (ht : (ofSpans ys).spanAt? o = some t)
    (hxs : ∀ s ∈ xs, s.Covers o → s.isLE t = true) :
    (ofSpans (xs ++ ys)).spanAt? o = some t := by
  obtain ⟨hmax, hlast⟩ := spanAt?_ofSpans_eq_some_iff.1 ht
  refine spanAt?_ofSpans_eq_some_iff.2 ⟨fun s hs ho ↦ ?_, ?_⟩
  · rcases List.mem_append.1 hs with hs | hs
    · exact hxs s hs ho
    · exact hmax s hs ho
  · rw [List.filter_append, List.getLast?_append, hlast, Option.some_or]

/-- The first list answers if every covering span of the second has a smaller location. -/
theorem spanAt?_ofSpans_append_left (hs : (ofSpans xs).spanAt? o = some s)
    (hys : ∀ t ∈ ys, t.Covers o → ¬ s.isLE t = true) :
    (ofSpans (xs ++ ys)).spanAt? o = some s := by
  obtain ⟨hmax, hlast⟩ := spanAt?_ofSpans_eq_some_iff.1 hs
  have hnil : ys.filter (fun t ↦ t.Covers o ∧ t.location = s.location) = [] := by
    refine List.filter_eq_nil_iff.2 fun t ht hcovers ↦ ?_
    obtain ⟨ho, hlocation⟩ := of_decide_eq_true hcovers
    exact hys t ht ho (Span.isLE_of_location_eq hlocation.symm)
  refine spanAt?_ofSpans_eq_some_iff.2 ⟨fun t ht ho ↦ ?_, ?_⟩
  · rcases List.mem_append.1 ht with ht | ht
    · exact hmax t ht ho
    · have htotal := Span.isLE_total s t
      rwa [Bool.eq_false_iff.2 (hys t ht ho), Bool.false_or] at htotal
  · rw [List.filter_append, hnil, List.append_nil, hlast]

/-- **Joined lists answer with one of their answers.** -/
theorem spanAt?_ofSpans_append (xs ys : List Span) (o : Offset) :
    (ofSpans (xs ++ ys)).spanAt? o =
      prevail ((ofSpans xs).spanAt? o) ((ofSpans ys).spanAt? o) := by
  cases hx : (ofSpans xs).spanAt? o with
  | none =>
    have hxs := spanAt?_ofSpans_eq_none_iff.1 hx
    cases hy : (ofSpans ys).spanAt? o with
    | none =>
      have hys := spanAt?_ofSpans_eq_none_iff.1 hy
      exact spanAt?_ofSpans_eq_none_iff.2 fun s hs ↦ (List.mem_append.1 hs).elim (hxs s) (hys s)
    | some t => exact spanAt?_ofSpans_append_right hy fun s hs ho ↦ absurd ho (hxs s hs)
  | some s =>
    cases hy : (ofSpans ys).spanAt? o with
    | none =>
      have hys := spanAt?_ofSpans_eq_none_iff.1 hy
      exact spanAt?_ofSpans_append_left hx fun t ht ho ↦ absurd ho (hys t ht)
    | some t =>
      rw [prevail]
      split
      · next hle =>
        refine spanAt?_ofSpans_append_right hy fun s' hs' ho ↦ ?_
        exact Span.isLE_trans s' s t (isLE_of_spanAt?_ofSpans hx hs' ho) hle
      · next hnot =>
        refine spanAt?_ofSpans_append_left hx fun t' ht' ho hle ↦ hnot ?_
        exact Span.isLE_trans s t' t hle (isLE_of_spanAt?_ofSpans hy ht' ho)

/-- **Lookups merge.** Where neither of two lists answers, neither does the joined list; where one
of them answers, so does the joined list; and of two answers the joined list gives the first one if
the location of the second is strictly below, and else the second. -/
theorem spanAt?_ofSpans_joined (xs ys : List Span) (o : Offset) :
    (ofSpans (xs ++ ys)).spanAt? o =
      match (ofSpans xs).spanAt? o, (ofSpans ys).spanAt? o with
      | none, none => none
      | some s, none => some s
      | none, some t => some t
      | some s, some t => if compare t.location s.location = .lt then some s else some t := by
  rw [spanAt?_ofSpans_append]
  rcases (ofSpans xs).spanAt? o with - | s <;> rcases (ofSpans ys).spanAt? o with - | t
  · rfl
  · rfl
  · rfl
  · show (if s.isLE t then some t else some s) =
      if compare t.location s.location = .lt then some s else some t
    rcases hle : s.isLE t with - | -
    · rw [if_pos (Span.isLE_eq_false_iff.1 hle)]
      rfl
    · rw [if_neg (mt Span.isLE_eq_false_iff.2 (by simp [hle]))]
      rfl

/-- Repeating a list does not change its answers. -/
theorem spanAt?_ofSpans_replicate (xs : List Span) (n : ℕ) (o : Offset) :
    (ofSpans (List.replicate (n + 1) xs).flatten).spanAt? o = (ofSpans xs).spanAt? o := by
  induction n with
  | zero => simp
  | succ n ih =>
    rw [List.replicate_succ, List.flatten_cons, spanAt?_ofSpans_append, ih, prevail_self]

end SourceMap

end Provenance
