import Mathlib.Data.List.Basic
import Mathlib.Data.List.Pairwise
import Mathlib.Data.List.Sublists
import Provenance.Table

/-!
# The last write counts

`Table.ofList` fills a table in one go: it sorts the pairs by key and keeps the last pair of each
run. This module ties it to the writes that it stands for.

## The three descriptions of a filled table

* `Table.find?_ofList`: under a key the table holds the value of the last pair with that key.
* `Table.ofList_eq_foldl`: the table is the one that the writes make, one after another.
* `Table.find?_ofList_eq_some_iff_of_pairwise`: if the written values never descend, the value
  under a key is the greatest one written there.

All three rest on **stability** (`filter_mergeSort`): sorting does not touch the order of pairs with
one key. The second needs in addition that a table is determined by what it answers
(`Table.ext_find?`), which is where the strict order of the keys is used.
-/

namespace Provenance

/-- **Stability.** Sorting does not reorder elements that are pairwise no greater than each
other. -/
theorem filter_mergeSort {α : Type} {le : α → α → Bool}
    (htrans : ∀ a b c, le a b = true → le b c = true → le a c = true)
    (htotal : ∀ a b, (le a b || le b a) = true) {p : α → Bool}
    (hp : ∀ a b, p a = true → p b = true → le a b = true) (l : List α) :
    (l.mergeSort le).filter p = l.filter p := by
  have hpairwise : (l.filter p).Pairwise fun a b ↦ le a b = true := by
    refine List.pairwise_of_forall_mem_list fun a ha b hb ↦ ?_
    exact hp a b (List.mem_filter.1 ha).2 (List.mem_filter.1 hb).2
  have hsub : (l.filter p).Sublist (l.mergeSort le) :=
    List.sublist_mergeSort htrans htotal hpairwise List.filter_sublist
  have hfilter : (l.filter p).Sublist ((l.mergeSort le).filter p) := by
    simpa using hsub.filter p
  have hlength : ((l.mergeSort le).filter p).length = (l.filter p).length :=
    ((List.mergeSort_perm l le).filter p).length_eq
  exact (hfilter.eq_of_length hlength.symm).symm

/-- The last selected element of a list has every selected one below it. -/
theorem rel_of_getLast?_filter {α : Type} {r : α → α → Prop} {l : List α} {p : α → Bool}
    {a b : α} (hl : l.Pairwise r) (hlast : (l.filter p).getLast? = some a) (ha : r a a)
    (hb : b ∈ l) (hp : p b = true) : r b a := by
  have hmem : b ∈ l.filter p := List.mem_filter.2 ⟨hb, hp⟩
  have hget := List.getLast_of_getLast?_eq_some hlast
  rw [← hget] at ha ⊢
  exact (hl.filter p).rel_getLast_of_rel_getLast_getLast hmem ha

namespace Table

variable {κ ν : Type} [Ord κ]

/-! ### What a table answers -/

section Answers

variable [BEq κ] [LawfulBEq κ] [Std.TransOrd κ] [Std.LawfulEqOrd κ]

omit [BEq κ] [LawfulBEq κ] [Std.TransOrd κ] in
/-- Keys that stand strictly in order differ. -/
theorem ne_of_compare_eq_lt {k k' : κ} (h : compare k k' = .lt) : k ≠ k' := by
  rintro rfl
  rw [Std.compare_self] at h
  exact absurd h (by decide)

omit [BEq κ] [LawfulBEq κ] [Std.TransOrd κ] in
/-- A table lists every key once. -/
theorem nodup_keys (t : Table κ ν) : t.keys.Nodup := by
  rw [keys, List.Nodup, List.pairwise_map]
  exact t.ascending.imp fun hlt ↦ ne_of_compare_eq_lt hlt

omit [Ord κ] [Std.TransOrd κ] [Std.LawfulEqOrd κ] in
/-- In a list of different keys, looking up a key finds exactly the pairs of the list. -/
theorem lookup_eq_some_iff {l : List (κ × ν)} (hl : (l.map Prod.fst).Nodup) {k : κ} {v : ν} :
    l.lookup k = some v ↔ (k, v) ∈ l := by
  induction l with
  | nil => simp
  | cons p rest ih =>
    obtain ⟨hp, hrest⟩ := List.nodup_cons.1 hl
    obtain ⟨key, value⟩ := p
    rw [List.lookup_cons]
    by_cases hk : k = key
    · subst hk
      have hnot : (k, v) ∉ rest := fun hmem ↦ hp (List.mem_map.2 ⟨_, hmem, rfl⟩)
      simp [hnot, eq_comm]
    · rw [beq_false_of_ne hk, List.mem_cons]
      simp [hk, ih hrest]

omit [Std.TransOrd κ] in
/-- A table answers a key with the value of its pair. -/
theorem find?_eq_some_iff {t : Table κ ν} {k : κ} {v : ν} :
    t.find? k = some v ↔ (k, v) ∈ t.entries :=
  lookup_eq_some_iff t.nodup_keys

omit [Std.TransOrd κ] in
/-- A key of a table is one that it answers. -/
theorem mem_keys_iff {t : Table κ ν} {k : κ} : k ∈ t.keys ↔ (t.find? k).isSome = true := by
  rw [keys, Option.isSome_iff_exists, List.mem_map]
  constructor
  · rintro ⟨⟨key, v⟩, hmem, rfl⟩
    exact ⟨v, find?_eq_some_iff.2 hmem⟩
  · rintro ⟨v, hv⟩
    exact ⟨(k, v), find?_eq_some_iff.1 hv, rfl⟩

/-- **A table is what it answers.** -/
theorem ext_find? {t u : Table κ ν} (h : ∀ k, t.find? k = u.find? k) : t = u := by
  have hmem : ∀ p, p ∈ t.entries ↔ p ∈ u.entries := fun ⟨k, v⟩ ↦ by
    rw [← find?_eq_some_iff, ← find?_eq_some_iff, h]
  have hnodup : ∀ w : Table κ ν, w.entries.Nodup := fun w ↦ List.Nodup.of_map _ w.nodup_keys
  have hperm : t.entries.Perm u.entries :=
    (List.perm_ext_iff_of_nodup (hnodup t) (hnodup u)).2 hmem
  have hentries : t.entries = u.entries := by
    refine hperm.eq_of_pairwise (fun p q _ _ hpq hqp ↦ ?_) t.ascending u.ascending
    have hswap : compare p.1 q.1 = (compare q.1 p.1).swap := Std.OrientedCmp.eq_swap
    rw [hswap, hqp] at hpq
    exact absurd hpq (by decide)
  obtain ⟨entries, ascending⟩ := t
  obtain ⟨entries', ascending'⟩ := u
  obtain rfl : entries = entries' := hentries
  rfl

end Answers

/-! ### A table that is filled in one go -/

section Filling

variable [Std.TransOrd κ] [Std.LawfulEqOrd κ]

/-- Where a run of equal keys ends, its key does not come back: every later key is above the next
one, hence above that of the run. -/
theorem ne_of_mem_of_ne {p q r : κ × ν} {rest : List (κ × ν)}
    (h : (p :: q :: rest).Pairwise fun p q ↦ (compare p.1 q.1).isLE = true) (hne : p.1 ≠ q.1)
    (hr : r ∈ q :: rest) : r.1 ≠ p.1 := by
  obtain ⟨hp, hrest⟩ := List.pairwise_cons.1 h
  have hlt : compare p.1 q.1 = .lt := compare_eq_lt_of_isLE_of_ne (hp q List.mem_cons_self) hne
  have hpr : compare p.1 r.1 = .lt := by
    rcases List.mem_cons.1 hr with rfl | hr
    · exact hlt
    · exact Std.TransCmp.lt_of_lt_of_isLE hlt ((List.pairwise_cons.1 hrest).1 r hr)
  exact (ne_of_compare_eq_lt hpr).symm

variable [DecidableEq κ]

/-- If no key comes back after a greater one, what is kept under a key is the last pair with it. -/
theorem lookup_keepLast [BEq κ] [LawfulBEq κ] (k : κ) :
    ∀ {l : List (κ × ν)}, (l.Pairwise fun p q ↦ (compare p.1 q.1).isLE = true) →
      (keepLast l).lookup k = (l.filter fun p ↦ p.1 = k).getLast?.map Prod.snd
  | [], _ => rfl
  | [p], _ => by
    rw [keepLast, List.lookup_cons]
    by_cases hk : p.1 = k
    · simp [hk]
    · simp [hk, beq_false_of_ne (Ne.symm hk)]
  | p :: q :: rest, h => by
    have ih := lookup_keepLast k (List.pairwise_cons.1 h).2
    rw [keepLast]
    split
    · next heq =>
      rw [ih]
      by_cases hk : p.1 = k
      · have hq : q.1 = k := heq ▸ hk
        simp [hk, hq]
      · simp [hk]
    · next hne =>
      rw [List.lookup_cons]
      by_cases hk : p.1 = k
      · -- The run of `p` ends here.
        have hnil : (q :: rest).filter (fun r ↦ decide (r.1 = k)) = [] := by
          refine List.filter_eq_nil_iff.2 fun r hr ↦ ?_
          simpa [← hk] using ne_of_mem_of_ne h hne hr
        rw [List.filter_cons_of_pos (by simpa using hk), hnil, hk, beq_self_eq_true]
        rfl
      · rw [beq_false_of_ne (Ne.symm hk), List.filter_cons_of_neg (by simpa using hk)]
        exact ih

/-- **The last pair counts.** Under a key stands the value of the last pair with that key. -/
theorem find?_ofList [BEq κ] [LawfulBEq κ] (ps : List (κ × ν)) (k : κ) :
    (ofList ps).find? k = (ps.filter fun p ↦ p.1 = k).getLast?.map Prod.snd := by
  have hstable : (sortByKey ps).filter (fun p ↦ decide (p.1 = k)) = ps.filter fun p ↦ p.1 = k := by
    refine filter_mergeSort (fun _ _ _ ↦ Std.TransCmp.isLE_trans) (fun p q ↦ isLE_or_isLE p.1 q.1)
      (fun p q hp hq ↦ ?_) ps
    rw [of_decide_eq_true hp, of_decide_eq_true hq, Std.compare_self]
    rfl
  rw [← hstable]
  exact lookup_keepLast k (pairwise_sortByKey ps)

/-- A pair at the end of the list is one more write. -/
theorem ofList_concat (ps : List (κ × ν)) (k : κ) (v : ν) :
    ofList (ps ++ [(k, v)]) = (ofList ps).insert k v := by
  refine ext_find? fun x ↦ ?_
  rw [find?_insert, find?_ofList, find?_ofList, List.filter_append]
  by_cases hx : x = k
  · subst hx
    simp
  · rw [beq_false_of_ne hx, List.filter_cons_of_neg (by simpa using Ne.symm hx)]
    simp

/-- **Filling is writing.** The table of a list is made by its writes, one after another. -/
theorem ofList_eq_foldl (ps : List (κ × ν)) :
    ofList ps = ps.foldl (fun t p ↦ t.insert p.1 p.2) empty := by
  induction ps using List.reverseRecOn with
  | nil => exact ext_find? fun k ↦ by rw [find?_ofList]; rfl
  | append_singleton ps p ih =>
    rw [List.foldl_append, ← ih]
    exact ofList_concat ps p.1 p.2

/-- If the values never descend, the last one under a key is the greatest one under it. -/
theorem find?_ofList_eq_some_iff_of_pairwise [BEq κ] [LawfulBEq κ] {ps : List (κ × ℕ)}
    (hps : ps.Pairwise fun p q ↦ p.2 ≤ q.2) {k : κ} {n : ℕ} :
    (ofList ps).find? k = some n ↔ (k, n) ∈ ps ∧ ∀ m, (k, m) ∈ ps → m ≤ n := by
  have hforward : ∀ {n}, (ofList ps).find? k = some n →
      (k, n) ∈ ps ∧ ∀ m, (k, m) ∈ ps → m ≤ n := by
    intro n h
    rw [find?_ofList, Option.map_eq_some_iff] at h
    obtain ⟨⟨key, value⟩, hlast, rfl⟩ := h
    obtain ⟨hmem, hkey⟩ := List.mem_filter.1 (List.mem_of_getLast? hlast)
    obtain rfl : key = k := by simpa using hkey
    refine ⟨hmem, fun m hm ↦ ?_⟩
    exact rel_of_getLast?_filter (r := fun p q ↦ p.2 ≤ q.2) hps hlast le_rfl hm (by simp)
  refine ⟨hforward, fun ⟨hmem, hmax⟩ ↦ ?_⟩
  cases hfind : (ofList ps).find? k with
  | none =>
    rw [find?_ofList, Option.map_eq_none_iff, List.getLast?_eq_none_iff,
      List.filter_eq_nil_iff] at hfind
    exact absurd (decide_eq_true rfl) (hfind _ hmem)
  | some v =>
    obtain ⟨hv, hle⟩ := hforward hfind
    rw [Nat.le_antisymm (hmax v hv) (hle n hmem)]

end Filling

end Table

end Provenance
