import Mathlib.Algebra.Order.BigOperators.Group.List
import Mathlib.Algebra.Order.Ring.Nat
import Mathlib.Data.List.Duplicate
import Provenance.Proofs.LocalLookup

/-!
# How often a span is listed

An interface may name a fragment several times. Each time its spans are recorded once more, and each
time everything recorded so far is placed (`Recorder.copies`). So the first occurrence lists every
span once, the second twice, and so on; that is the **multiplicity** of an occurrence.

`Catalogue.emit_multiplicity` says this of a whole program, and says when the multiplicities do not
show: exactly if no fragment with spans is named more than once. A compiled interface is of this
kind, an interface that is written by hand need not be.
-/

namespace Provenance

/-- How often the name at a position has come up to there, the position included. -/
def multiplicity (names : List String) (k : ℕ) (name : String) : ℕ :=
  (names.take (k + 1)).count name

/-- The spans that a placed fragment lists if each of them is placed a number of times. -/
def Placed.repeated (q : Placed) (n : ℕ) : List Span := (List.replicate n q.spans).flatten

theorem Placed.length_repeated (q : Placed) (n : ℕ) :
    (q.repeated n).length = n * q.fragment.spans.length := by
  simp [repeated, spans]

/-- A built map has a span for each of the given ones. -/
@[simp] theorem SourceMap.size_ofSpans (spans : List Span) :
    (ofSpans spans).size = spans.length :=
  List.length_mergeSort _

/-! ### Counting up to a position -/

section Multiplicity

variable {names : List String} {k : ℕ} {name : String}

theorem multiplicity_le_count (names : List String) (k : ℕ) (name : String) :
    multiplicity names k name ≤ names.count name :=
  (List.take_sublist _ _).count_le name

/-- Later names do not count. -/
theorem multiplicity_append (hk : k < names.length) (more : List String) :
    multiplicity (names ++ more) k name = multiplicity names k name := by
  rw [multiplicity, multiplicity, List.take_append_of_le_length (by omega)]

/-- A name that comes twice has a position at which it has come up twice: its last. -/
theorem exists_two_le_multiplicity (h : 2 ≤ names.count name) :
    ∃ k, names[k]? = some name ∧ 2 ≤ multiplicity names k name := by
  induction names using List.reverseRecOn with
  | nil => exact absurd h (by simp)
  | append_singleton names last ih =>
    by_cases hlast : last = name
    · refine ⟨names.length, by simp [hlast], ?_⟩
      rwa [multiplicity, List.take_of_length_le (by simp)]
    · have hinit : 2 ≤ names.count name := by simpa [hlast] using h
      obtain ⟨k, hk, hmany⟩ := ih hinit
      have hlt := (List.getElem?_eq_some_iff.1 hk).1
      exact ⟨k, by rw [List.getElem?_append_left hlt, hk], by rwa [multiplicity_append hlt]⟩

end Multiplicity

/-- An occurrence counts itself. -/
theorem one_le_multiplicity {placed : List Placed} {q : Placed} {k : ℕ}
    (hq : (q, k) ∈ placed.zipIdx) :
    1 ≤ multiplicity (placed.map fun a ↦ a.fragment.name) k q.fragment.name := by
  have hk : (placed.map fun a ↦ a.fragment.name)[k]? = some q.fragment.name := by
    rw [List.getElem?_map, List.mem_zipIdx_iff_getElem?.1 hq]
    rfl
  have hmem : q.fragment.name ∈ (placed.map fun a ↦ a.fragment.name).take (k + 1) :=
    List.mem_of_getElem? (by rw [List.getElem?_take_of_lt (Nat.lt_succ_self k), hk])
  exact List.count_pos_iff.2 hmem

/-! ### One occurrence after another -/

variable {c : Catalogue} {placed : List Placed}

/-- **Every occurrence lists its spans as often as its name has come up.** -/
theorem copies_steps (hplaced : ∀ a ∈ placed, a.Valid c) :
    Recorder.copies (placed.flatMap Placed.steps) =
      placed.zipIdx.flatMap fun (q, k) ↦
        q.repeated (multiplicity (placed.map fun a ↦ a.fragment.name) k q.fragment.name) := by
  induction placed using List.reverseRecOn with
  | nil => rfl
  | append_singleton placed q ih =>
    obtain ⟨hinit, hq⟩ := List.forall_mem_append.1 hplaced
    have hlast := recordsOf_steps_eq_replicate hinit (hq q List.mem_cons_self)
    rw [copies_steps_concat, ih hinit, hlast, List.zipIdx_append, List.flatMap_append]
    congr 1
    · refine List.flatMap_congr fun ⟨a, k⟩ ha ↦ ?_
      have hk : k < (placed.map fun a ↦ a.fragment.name).length := by
        rw [List.length_map]
        exact (List.mem_zipIdx' ha).1
      exact congrArg a.repeated (by rw [List.map_append, multiplicity_append hk])
    · have hall : multiplicity ((placed ++ [q]).map fun a ↦ a.fragment.name) placed.length
          q.fragment.name = (placed.map fun a ↦ a.fragment.name).count q.fragment.name + 1 := by
        rw [multiplicity, List.take_of_length_le (by simp), List.map_append, List.count_append]
        simp
      simp only [List.zipIdx_singleton, List.flatMap_singleton, Nat.zero_add, hall,
        Placed.repeated, Placed.spans]
      rw [List.map_append, List.map_flatten, List.map_replicate, List.replicate_succ',
        List.flatten_append, List.flatten_singleton]

/-! ### When multiplicities do not show -/

/-- The number of listed spans, occurrence by occurrence. -/
theorem length_copies_steps (hplaced : ∀ a ∈ placed, a.Valid c) :
    (Recorder.copies (placed.flatMap Placed.steps)).length =
      (placed.zipIdx.map fun (q, k) ↦
        multiplicity (placed.map fun a ↦ a.fragment.name) k q.fragment.name *
          q.fragment.spans.length).sum := by
  rw [copies_steps hplaced, List.length_flatMap]
  simp only [Placed.length_repeated]

/-- If no fragment with spans comes twice, every span is listed once. -/
theorem copies_steps_of_count_le_one (hplaced : ∀ a ∈ placed, a.Valid c)
    (hcount : ∀ q ∈ placed, q.fragment.spans ≠ [] →
      (placed.map fun a ↦ a.fragment.name).count q.fragment.name ≤ 1) :
    Recorder.copies (placed.flatMap Placed.steps) = placed.flatMap Placed.spans := by
  have hzip : placed.flatMap Placed.spans = placed.zipIdx.flatMap fun (q, _) ↦ q.spans := by
    conv_lhs => rw [← List.zipIdx_map_fst 0 placed]
    rw [List.flatMap_map]
  rw [copies_steps hplaced, hzip]
  refine List.flatMap_congr fun ⟨q, k⟩ hq ↦ ?_
  by_cases hspans : q.fragment.spans = []
  · simp [Placed.repeated, Placed.spans, hspans]
  · have hmem : q ∈ placed := List.mem_of_getElem? (List.mem_zipIdx_iff_getElem?.1 hq)
    have hle := multiplicity_le_count (placed.map fun a ↦ a.fragment.name) k q.fragment.name
    have hpos := one_le_multiplicity hq
    have hone : multiplicity (placed.map fun a ↦ a.fragment.name) k q.fragment.name = 1 := by
      have := hcount q hmem hspans
      omega
    simp only [hone, Placed.repeated, List.replicate_one, List.flatten_singleton]

/-- If the number of listed spans is that of the spans of the occurrences, no fragment with spans
comes twice. -/
theorem count_le_one_of_length_copies_steps (hplaced : ∀ a ∈ placed, a.Valid c)
    (hlength : (Recorder.copies (placed.flatMap Placed.steps)).length =
      (placed.map fun q ↦ q.fragment.spans.length).sum) :
    ∀ q ∈ placed, q.fragment.spans ≠ [] →
      (placed.map fun a ↦ a.fragment.name).count q.fragment.name ≤ 1 := by
  intro q hq hspans
  by_contra hcount
  obtain ⟨k, hk, hmany⟩ := exists_two_le_multiplicity
    (show 2 ≤ (placed.map fun a ↦ a.fragment.name).count q.fragment.name by omega)
  rw [List.getElem?_map, Option.map_eq_some_iff] at hk
  obtain ⟨a, ha, hname⟩ := hk
  -- The occurrence there is one of the same fragment, and it counts more than once.
  have hsame : a.fragment = q.fragment := by
    have hknown := (hplaced a (List.mem_of_getElem? ha)).known
    rw [hname, (hplaced q hq).known] at hknown
    exact (Option.some.inj hknown).symm
  have hzip : (placed.map fun q ↦ q.fragment.spans.length) =
      placed.zipIdx.map fun (q, _) ↦ q.fragment.spans.length := by
    conv_lhs => rw [← List.zipIdx_map_fst 0 placed]
    rw [List.map_map]
    rfl
  have hlt : (placed.zipIdx.map fun (q, _) ↦ q.fragment.spans.length).sum <
      (placed.zipIdx.map fun (q, k) ↦
        multiplicity (placed.map fun a ↦ a.fragment.name) k q.fragment.name *
          q.fragment.spans.length).sum := by
    refine List.sum_lt_sum _ _ (fun ⟨b, j⟩ hb ↦ ?_)
      ⟨(a, k), List.mem_zipIdx_iff_getElem?.2 ha, ?_⟩
    · exact Nat.le_mul_of_pos_left _ (one_le_multiplicity hb)
    · have hpos : 0 < a.fragment.spans.length := by
        rw [hsame]
        exact List.length_pos_iff.2 hspans
      rw [← hname] at hmany
      calc a.fragment.spans.length
          < 2 * a.fragment.spans.length := by omega
        _ ≤ _ := Nat.mul_le_mul_right _ hmany
  rw [← hzip, ← length_copies_steps hplaced, hlength] at hlt
  exact lt_irrefl _ hlt

/-! ### Programs -/

namespace Catalogue

variable {flags : Flags}

/-- **Multiplicities.** An emitted interface has its fragments at places in the text. The map lists
the spans of each occurrence, moved to its place, as often as the name has come up by then.

That is the same as listing the spans of each occurrence once, and already the same number of spans,
exactly if no fragment with spans is named more than once. -/
theorem emit_multiplicity {i : Interface} {basename : String} {p : Program}
    (h : (c.emit flags i basename).result = .ok p) :
    ∃ placed : List Placed,
      placed.map (fun q ↦ some q.fragment) = i.functions.map c.find? ∧
      IsLayout placed p.text ∧
      p.map.spans.Perm (placed.zipIdx.flatMap fun (q, k) ↦
        q.repeated (multiplicity i.functions k q.fragment.name)) ∧
      (p.map.spans.Perm (placed.flatMap Placed.spans) ↔
        ∀ f ∈ c.fragments, f.spans ≠ [] → i.functions.count f.name ≤ 1) ∧
      (p.map.size = (placed.map fun q ↦ q.fragment.spans.length).sum ↔
        ∀ f ∈ c.fragments, f.spans ≠ [] → i.functions.count f.name ≤ 1) := by
  obtain ⟨placed, -, hnames, hvalid, -, -, hlayout, hmap⟩ := exists_placed_of_emit h
  have hfound : placed.map (fun q ↦ some q.fragment) = i.functions.map c.find? := by
    rw [← hnames, List.map_map]
    exact List.map_congr_left fun q hq ↦ (hvalid q hq).known.symm
  have hperm : p.map.spans.Perm (Recorder.copies (placed.flatMap Placed.steps)) := by
    rw [hmap]
    exact List.mergeSort_perm _ _
  -- A fragment of the catalogue is named as often as it is placed.
  have hcount : (∀ f ∈ c.fragments, f.spans ≠ [] → i.functions.count f.name ≤ 1) ↔
      ∀ q ∈ placed, q.fragment.spans ≠ [] →
        (placed.map fun a ↦ a.fragment.name).count q.fragment.name ≤ 1 := by
    rw [hnames]
    constructor
    · intro hall q hq
      exact hall q.fragment (mem_of_find? (hvalid q hq).known)
    · intro hall f hf hspans
      by_contra hmany
      have hmem : f.name ∈ placed.map fun a ↦ a.fragment.name := by
        rw [hnames]
        exact List.count_pos_iff.1 (by omega)
      obtain ⟨q, hq, hname⟩ := List.mem_map.1 hmem
      have hknown := (hvalid q hq).known
      rw [hname, find?_name hf, Option.some_inj] at hknown
      exact hmany (by simpa [hknown] using hall q hq (hknown ▸ hspans))
  have honce : (∀ f ∈ c.fragments, f.spans ≠ [] → i.functions.count f.name ≤ 1) →
      p.map.spans.Perm (placed.flatMap Placed.spans) := by
    intro hall
    rwa [copies_steps_of_count_le_one hvalid (hcount.1 hall)] at hperm
  have hsize : p.map.spans.Perm (placed.flatMap Placed.spans) →
      p.map.size = (placed.map fun q ↦ q.fragment.spans.length).sum := by
    intro hall
    rw [SourceMap.size, hall.length_eq, List.length_flatMap]
    simp [Placed.spans]
  have hback : p.map.size = (placed.map fun q ↦ q.fragment.spans.length).sum →
      ∀ f ∈ c.fragments, f.spans ≠ [] → i.functions.count f.name ≤ 1 := by
    intro hall
    rw [SourceMap.size, hperm.length_eq] at hall
    exact hcount.2 (count_le_one_of_length_copies_steps hvalid hall)
  refine ⟨placed, hfound, hlayout, ?_, ⟨hback ∘ hsize, honce⟩, ⟨hback, hsize ∘ honce⟩⟩
  rwa [copies_steps hvalid, hnames] at hperm

/-- A fragment that is named twice is listed once at the first place and twice at the second. -/
theorem emit_multiplicity_repeated :
    ∃ p, (counter.emit .empty ⟨"Counter", ["add", "recv", "add"], []⟩ "out").result = .ok p ∧
      ∃ placed : List Placed,
        placed.map (fun q ↦ q.fragment.name) = ["add", "recv", "add"] ∧
        p.map.spans.Perm (placed.zipIdx.flatMap fun (q, k) ↦
          q.repeated (multiplicity ["add", "recv", "add"] k q.fragment.name)) := by
  obtain ⟨p, hp⟩ := Logged.exists_result_eq_ok
    (x := counter.emit .empty ⟨"Counter", ["add", "recv", "add"], []⟩ "out") (by decide +kernel)
  obtain ⟨placed, hfragments, -, hperm, -⟩ := emit_multiplicity hp
  have hnames := congrArg
    (List.map fun f : Option Fragment ↦ (f.map Fragment.name).getD "") hfragments
  rw [List.map_map] at hnames
  exact ⟨p, hp, placed, hnames.trans (by decide +kernel), hperm⟩

/-- So the listed spans are not those of the occurrences, each of them once: `add` has one span, and
named twice it is listed three times. -/
theorem not_forall_size_eq_sum :
    ¬ ∀ (c : Catalogue) (flags : Flags) (i : Interface) (basename : String) (p : Program),
      (c.emit flags i basename).result = .ok p →
        p.map.size =
          (i.functions.map fun name ↦ ((c.find? name).map fun f ↦ f.spans.length).getD 0).sum := by
  intro h
  obtain ⟨d, hd⟩ := Logged.exists_result_eq_ok
    (x := counter.emitFragments .empty ["add", "add"]) (by decide +kernel)
  have hplaced : d.recorder.placed.length = 3 := by
    have hlength : (counter.emitFragments .empty ["add", "add"]).result.toOption.map
        (fun d ↦ d.recorder.placed.length) = some 3 := by decide +kernel
    rw [hd] at hlength
    exact Option.some.inj hlength
  have hp := result_emit counter .empty ⟨"Counter", ["add", "add"], []⟩ "out"
  rw [hd] at hp
  have htwo := h _ _ _ _ _ hp
  change (SourceMap.ofSpans d.recorder.placed).size = _ at htwo
  rw [SourceMap.size_ofSpans, hplaced] at htwo
  exact absurd htwo (by decide +kernel)

end Catalogue

end Provenance
