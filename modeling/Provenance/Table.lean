/-!
# Tables in ascending key order

A table holds at most one value for each key and lists its keys in strictly ascending order. The
order is part of the type, so a table has one form only: which writes led to it, and in which order,
is forgotten.

## Two ways to fill a table

* `Table.insert` writes one value; a value already held under the key is replaced.
* `Table.ofList` writes many at once. It sorts the pairs by key without disturbing pairs of equal
  key and keeps the last pair of each key, so it agrees with writing them one after another.
-/

namespace Provenance

/-- A finite map whose keys strictly ascend. -/
structure Table (κ ν : Type) [Ord κ] where
  /-- The pairs, one for each key. -/
  entries : List (κ × ν)
  /-- Each key is below all keys after it. -/
  ascending : entries.Pairwise fun p q ↦ compare p.1 q.1 = .lt
deriving DecidableEq

namespace Table

variable {κ ν : Type} [Ord κ]

/-- The table without keys. -/
def empty : Table κ ν := ⟨[], .nil⟩

instance : Inhabited (Table κ ν) := ⟨empty⟩

/-- The keys, ascending. -/
def keys (t : Table κ ν) : List κ := t.entries.map Prod.fst

/-- The number of keys. -/
def size (t : Table κ ν) : Nat := t.entries.length

/-- The value held under a key. -/
def find? [BEq κ] (t : Table κ ν) (k : κ) : Option ν := t.entries.lookup k

/-! ### Writing one value -/

/-- Writes into an ascending list of pairs, at the place of the key. -/
def insertEntry (k : κ) (v : ν) : List (κ × ν) → List (κ × ν)
  | [] => [(k, v)]
  | p :: rest =>
    match compare k p.1 with
    | .lt => (k, v) :: p :: rest
    | .eq => (k, v) :: rest
    | .gt => p :: insertEntry k v rest

theorem mem_insertEntry {k : κ} {v : ν} {q : κ × ν} {l : List (κ × ν)} (h : q ∈ insertEntry k v l) :
    q = (k, v) ∨ q ∈ l := by
  induction l with
  | nil => simpa [insertEntry] using h
  | cons p rest ih =>
    rw [insertEntry] at h
    split at h
    · simpa using h
    · rcases List.mem_cons.1 h with h | h
      · exact .inl h
      · exact .inr (List.mem_cons_of_mem _ h)
    · rcases List.mem_cons.1 h with h | h
      · exact .inr (h ▸ List.mem_cons_self)
      · exact (ih h).imp_right (List.mem_cons_of_mem _)

theorem pairwise_insertEntry [Std.TransOrd κ] (k : κ) (v : ν) {l : List (κ × ν)}
    (hl : l.Pairwise fun p q ↦ compare p.1 q.1 = .lt) :
    (insertEntry k v l).Pairwise fun p q ↦ compare p.1 q.1 = .lt := by
  induction l with
  | nil => simp [insertEntry]
  | cons p rest ih =>
    obtain ⟨hp, hrest⟩ := List.pairwise_cons.1 hl
    rw [insertEntry]
    split
    · next hk =>
      refine List.pairwise_cons.2 ⟨fun q hq ↦ ?_, hl⟩
      rcases List.mem_cons.1 hq with rfl | hq
      · exact hk
      · exact Std.TransCmp.lt_trans hk (hp q hq)
    · next hk =>
      exact List.pairwise_cons.2
        ⟨fun q hq ↦ (Std.TransCmp.congr_left hk).trans (hp q hq), hrest⟩
    · next hk =>
      refine List.pairwise_cons.2 ⟨fun q hq ↦ ?_, ih hrest⟩
      rcases mem_insertEntry hq with rfl | hq
      · exact Std.OrientedCmp.lt_of_gt hk
      · exact hp q hq

/-- Writes a value under a key. -/
def insert [Std.TransOrd κ] (t : Table κ ν) (k : κ) (v : ν) : Table κ ν :=
  ⟨insertEntry k v t.entries, pairwise_insertEntry k v t.ascending⟩

theorem lookup_insertEntry [Std.OrientedOrd κ] [BEq κ] [LawfulBEq κ] [Std.LawfulEqOrd κ]
    (k : κ) (v : ν) (l : List (κ × ν)) (x : κ) :
    (insertEntry k v l).lookup x = if x == k then some v else l.lookup x := by
  induction l with
  | nil => rw [insertEntry, List.lookup_cons]; cases x == k <;> rfl
  | cons p rest ih =>
    rw [insertEntry]
    split
    · rw [List.lookup_cons]; cases x == k <;> rfl
    · next hk =>
      have hp : k = p.1 := Std.LawfulEqCmp.eq_of_compare hk
      rw [List.lookup_cons, List.lookup_cons, ← hp]
      cases x == k <;> rfl
    · next hk =>
      have hp : k ≠ p.1 := fun h ↦ by
        rw [h, Std.compare_self] at hk
        exact absurd hk (by decide)
      rw [List.lookup_cons, List.lookup_cons, ih]
      by_cases hx : x = k
      · rw [hx, beq_false_of_ne hp, beq_self_eq_true]
      · rw [beq_false_of_ne hx]; cases x == p.1 <;> rfl

/-- A written value is found under its key, and other keys keep theirs. -/
@[simp] theorem find?_insert [Std.TransOrd κ] [BEq κ] [LawfulBEq κ] [Std.LawfulEqOrd κ]
    (t : Table κ ν) (k : κ) (v : ν) (x : κ) :
    (t.insert k v).find? x = if x == k then some v else t.find? x :=
  lookup_insertEntry k v t.entries x

/-! ### Writing many values -/

/-- Keeps the last pair of every run of pairs with the same key. -/
def keepLast [DecidableEq κ] : List (κ × ν) → List (κ × ν)
  | [] => []
  | [p] => [p]
  | p :: q :: rest => if p.1 = q.1 then keepLast (q :: rest) else p :: keepLast (q :: rest)

omit [Ord κ] in
theorem keepLast_sublist [DecidableEq κ] : ∀ l : List (κ × ν), (keepLast l).Sublist l
  | [] => .slnil
  | [_] => List.Sublist.refl _
  | p :: q :: rest => by
    rw [keepLast]
    split
    · exact (keepLast_sublist (q :: rest)).cons p
    · exact (keepLast_sublist (q :: rest)).cons_cons p

/-- Of two keys one stands no later than the other. -/
theorem isLE_or_isLE [Std.OrientedOrd κ] (k k' : κ) :
    ((compare k k').isLE || (compare k' k).isLE) = true := by
  have hswap : compare k' k = (compare k k').swap := Std.OrientedCmp.eq_swap
  rw [hswap]
  cases compare k k' <;> rfl

/-- Sorts pairs by key; pairs of equal key stay in order. -/
def sortByKey (ps : List (κ × ν)) : List (κ × ν) :=
  ps.mergeSort fun p q ↦ (compare p.1 q.1).isLE

theorem pairwise_sortByKey [Std.TransOrd κ] (ps : List (κ × ν)) :
    (sortByKey ps).Pairwise fun p q ↦ (compare p.1 q.1).isLE = true :=
  List.pairwise_mergeSort (fun _ _ _ ↦ Std.TransCmp.isLE_trans) (fun p q ↦ isLE_or_isLE p.1 q.1) ps

/-- Of two different keys in order the first is strictly below the second. -/
theorem compare_eq_lt_of_isLE_of_ne [Std.LawfulEqOrd κ] {k k' : κ}
    (hle : (compare k k').isLE = true) (hne : k ≠ k') : compare k k' = .lt := by
  cases hc : compare k k' with
  | lt => rfl
  | eq => exact absurd (Std.LawfulEqCmp.eq_of_compare hc) hne
  | gt => simp [hc] at hle

theorem pairwise_keepLast [DecidableEq κ] [Std.TransOrd κ] [Std.LawfulEqOrd κ] :
    ∀ {l : List (κ × ν)}, (l.Pairwise fun p q ↦ (compare p.1 q.1).isLE = true) →
      (keepLast l).Pairwise fun p q ↦ compare p.1 q.1 = .lt
  | [], _ => .nil
  | [_], _ => List.pairwise_singleton _ _
  | p :: q :: rest, h => by
    obtain ⟨hp, hrest⟩ := List.pairwise_cons.1 h
    have ih := pairwise_keepLast hrest
    rw [keepLast]
    split
    · exact ih
    · next hne =>
      have hpq : compare p.1 q.1 = .lt :=
        compare_eq_lt_of_isLE_of_ne (hp q List.mem_cons_self) hne
      refine List.pairwise_cons.2 ⟨fun r hr ↦ ?_, ih⟩
      rcases List.mem_cons.1 ((keepLast_sublist _).subset hr) with rfl | hr
      · exact hpq
      · exact Std.TransCmp.lt_of_lt_of_isLE hpq ((List.pairwise_cons.1 hrest).1 r hr)

/-- The table of a list of pairs; of two pairs with the same key the later one counts. -/
def ofList [DecidableEq κ] [Std.TransOrd κ] [Std.LawfulEqOrd κ] (ps : List (κ × ν)) : Table κ ν :=
  ⟨keepLast (sortByKey ps), pairwise_keepLast (pairwise_sortByKey ps)⟩

end Table

end Provenance
