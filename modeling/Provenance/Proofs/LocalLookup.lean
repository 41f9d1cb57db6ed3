import Mathlib.Data.List.Basic
import Provenance.Proofs.Assembly
import Provenance.Proofs.Faithfulness
import Provenance.Proofs.Merge

/-!
# Looking up in a program is looking up in a fragment

The map of a program mixes the spans of all its fragments. Still an offset inside the code of a
fragment is answered as the fragment's own spans answer it, and an offset outside all code is not
answered (`Catalogue.emit_spanAt?`). This holds for every interface, repeated names included.

The proof goes along the placed fragments. Each of them adds one batch of spans to what is placed,
and batches merge (`SourceMap.spanAt?_ofSpans_append`), so two facts about a batch are enough:

* a batch answers as one copy of the spans would (`spanAt?_ofSpans_batch`): an occurrence of a
  repeated name places several copies, but copies of one list answer like the list;
* a batch answers only inside the code of its fragment, because its spans have passed their check.
  No offset lies in the code of two placed fragments (`not_holds_of_ordered`), so of all batches one
  at most has an answer.
-/

namespace Provenance

namespace Placed

variable {c : Catalogue} {q : Placed} {o : Offset}

/-- What a placed fragment says of an offset: inside its code what its own spans say of the offset
there, moved to its place; otherwise nothing. -/
def answer? (q : Placed) (o : Offset) : Option Span :=
  if q.Holds o then
    ((SourceMap.ofSpans q.fragment.spans).spanAt? (o - q.place)).map (·.shift q.place)
  else none

/-- A valid fragment has no span at or behind the end of its code. -/
theorem Valid.spanAt?_eq_none (h : q.Valid c) {o : Offset} (ho : q.fragment.size ≤ o.toNat) :
    (SourceMap.ofSpans q.fragment.spans).spanAt? o = none := by
  refine SourceMap.spanAt?_ofSpans_eq_none_iff.2 fun s hs hcovers ↦ ?_
  have hlast := ((Fragment.fault?_eq_none_iff.1 h.sound).2 s hs).2
  have hle := UInt32.le_iff_toNat_le.1 hcovers.2
  omega

end Placed

/-- Some copies of the spans of a placed fragment, moved to its place, answer as the fragment. -/
theorem spanAt?_ofSpans_batch {c : Catalogue} {q : Placed} (h : q.Valid c) (n : ℕ) (o : Offset) :
    (SourceMap.ofSpans
      ((List.replicate (n + 1) q.fragment.spans).flatten.map (·.shift q.place))).spanAt? o =
        q.answer? o := by
  have hfits : ∀ s ∈ (List.replicate (n + 1) q.fragment.spans).flatten, s.Fits q.place := by
    intro s hs
    obtain ⟨spans, hspans, hs⟩ := List.mem_flatten.1 hs
    rw [List.eq_of_mem_replicate hspans] at hs
    exact h.fits s hs
  rw [SourceMap.spanAt?_ofSpans_map_shift hfits, SourceMap.spanAt?_ofSpans_replicate,
    Placed.answer?]
  by_cases hle : q.place ≤ o
  · by_cases hlt : o.toNat < q.stop
    · rw [if_pos hle, if_pos ⟨hle, hlt⟩]
    · have hsize : q.fragment.size ≤ (o - q.place).toNat := by
        have hsub := UInt32.toNat_sub_of_le o q.place hle
        rw [Placed.stop] at hlt
        omega
      rw [if_pos hle, if_neg fun hholds ↦ hlt hholds.2, h.spanAt?_eq_none hsize]
      rfl
  · rw [if_neg hle, if_neg fun hholds ↦ hle hholds.1]

/-- What is recorded under the name of a valid fragment is one copy of its spans for each
occurrence. -/
theorem recordsOf_steps_eq_replicate {c : Catalogue} {placed : List Placed}
    (hplaced : ∀ a ∈ placed, a.Valid c) {q : Placed} (hq : q.Valid c) :
    Recorder.recordsOf q.fragment.name (placed.flatMap Placed.steps) =
      (List.replicate ((placed.map fun a ↦ a.fragment.name).count q.fragment.name)
        q.fragment.spans).flatten := by
  rw [recordsOf_steps]
  induction placed with
  | nil => rfl
  | cons a rest ih =>
    obtain ⟨ha, hrest⟩ := List.forall_mem_cons.1 hplaced
    rw [List.flatMap_cons, ih hrest, List.map_cons]
    by_cases hname : a.fragment.name = q.fragment.name
    · have hknown := ha.known
      rw [hname, hq.known, Option.some_inj] at hknown
      rw [if_pos hname, hname, List.count_cons_self, List.replicate_succ, List.flatten_cons,
        ← hknown]
    · rw [if_neg hname, List.nil_append, List.count_cons_of_ne hname]

/-- One more placed fragment merges its answer into what was answered before. -/
theorem spanAt?_steps_concat {c : Catalogue} {placed : List Placed}
    (hplaced : ∀ a ∈ placed, a.Valid c) {q : Placed} (hq : q.Valid c) (o : Offset) :
    (SourceMap.ofSpans (Recorder.copies ((placed ++ [q]).flatMap Placed.steps))).spanAt? o =
      SourceMap.prevail
        ((SourceMap.ofSpans (Recorder.copies (placed.flatMap Placed.steps))).spanAt? o)
        (q.answer? o) := by
  have hcopies : ∀ n, (List.replicate n q.fragment.spans).flatten ++ q.fragment.spans =
      (List.replicate (n + 1) q.fragment.spans).flatten := by
    intro n
    rw [List.replicate_succ', List.flatten_append, List.flatten_singleton]
  rw [copies_steps_concat, SourceMap.spanAt?_ofSpans_append,
    recordsOf_steps_eq_replicate hplaced hq, hcopies, spanAt?_ofSpans_batch hq]

/-- **Lookup along a layout.** Where a placed fragment has its code, its answer is the answer; where
none has, there is no answer. -/
theorem spanAt?_steps {c : Catalogue} {placed : List Placed} (hvalid : ∀ q ∈ placed, q.Valid c)
    (hordered : placed.Pairwise fun a b ↦ a.stop ≤ b.place.toNat) (o : Offset) :
    (∀ q ∈ placed, q.Holds o →
      (SourceMap.ofSpans (Recorder.copies (placed.flatMap Placed.steps))).spanAt? o =
        q.answer? o) ∧
    ((∀ q ∈ placed, ¬ q.Holds o) →
      (SourceMap.ofSpans (Recorder.copies (placed.flatMap Placed.steps))).spanAt? o = none) := by
  induction placed using List.reverseRecOn with
  | nil =>
    refine ⟨by simp, fun _ ↦ SourceMap.spanAt?_ofSpans_eq_none_iff.2 ?_⟩
    exact fun s hs ↦ absurd hs List.not_mem_nil
  | append_singleton placed q ih =>
    obtain ⟨hplaced, hq⟩ := List.forall_mem_append.1 hvalid
    have hq := hq q List.mem_cons_self
    obtain ⟨ihholds, ihnone⟩ := ih hplaced (List.pairwise_append.1 hordered).1
    rw [spanAt?_steps_concat hplaced hq]
    by_cases hholds : q.Holds o
    · -- The offset is in the last code, so it is in no earlier one.
      have hearlier := not_holds_of_ordered hordered hholds
      rw [ihnone hearlier, SourceMap.prevail_none_left]
      refine ⟨fun a ha hao ↦ ?_, fun hnone ↦ absurd hholds (hnone q (by simp))⟩
      rcases List.mem_append.1 ha with ha | ha
      · exact absurd hao (hearlier a ha)
      · rw [List.mem_singleton.1 ha]
    · have hanswer : q.answer? o = none := if_neg hholds
      rw [hanswer, SourceMap.prevail_none_right]
      refine ⟨fun a ha hao ↦ ?_, fun hnone ↦ ihnone fun a ha ↦ hnone a (by simp [ha])⟩
      rcases List.mem_append.1 ha with ha | ha
      · exact ihholds a ha hao
      · rw [List.mem_singleton.1 ha] at hao
        exact absurd hao hholds

namespace Catalogue

/-- **Global lookup is local lookup.** The names of an emitted interface stand for fragments, and
the text is what these fragments leave at their places, with the getters behind. An offset in the
code of a placed fragment is answered as the spans of this fragment answer it at its distance from
the place, with the answer moved there; so either both have an answer or none. An offset outside all
code is not answered. -/
theorem emit_spanAt? {c : Catalogue} {flags : Flags} {i : Interface} {basename : String}
    {p : Program} (h : (c.emit flags i basename).result = .ok p) :
    ∃ (placed : List Placed) (code : String),
      placed.map (fun q ↦ some q.fragment) = i.functions.map c.find? ∧
      Laid flags placed code ∧ p.text = i.getters.foldl appendGetter code ∧
      IsLayout placed p.text ∧
      (∀ q ∈ placed, ∀ s ∈ q.fragment.spans, s.Fits q.place) ∧
      ∀ o : Offset,
        (∀ q ∈ placed, q.Holds o →
          p.map.spanAt? o =
            ((SourceMap.ofSpans q.fragment.spans).spanAt? (o - q.place)).map
              (·.shift q.place)) ∧
        ((∀ q ∈ placed, ¬ q.Holds o) → p.map.spanAt? o = none) := by
  obtain ⟨placed, code, hnames, hvalid, hlaid, htext, hlayout, hmap⟩ := exists_placed_of_emit h
  refine ⟨placed, code, ?_, hlaid, htext, hlayout, fun q hq ↦ (hvalid q hq).fits, fun o ↦ ?_⟩
  · rw [← hnames, List.map_map]
    exact List.map_congr_left fun q hq ↦ ((hvalid q hq).known).symm
  · obtain ⟨hholds, hnone⟩ := spanAt?_steps hvalid hlayout.ordered o
    rw [hmap]
    refine ⟨fun q hq hqo ↦ ?_, hnone⟩
    rw [hholds q hq hqo]
    exact if_pos hqo

/-- A fragment may be asked for twice, and a getter may have the name of a fragment. The second copy
of the code stands behind 30 bytes, and an offset there is answered by a span that has moved with
it. -/
theorem emit_spanAt?_repeated :
    ∃ p, (counter.emit .empty ⟨"Counter", ["recv", "add", "recv"], ["recv"]⟩ "out").result = .ok p ∧
      ∃ placed : List Placed,
        placed.map (fun q ↦ q.fragment.name) = ["recv", "add", "recv"] ∧
        (∃ q ∈ placed, q.fragment.name = "recv" ∧ q.place = 30 ∧ q.Holds 34 ∧
          p.map.spanAt? 34 = some ⟨⟨"counter.tact", 2, 12⟩, 33, 36⟩) ∧
        ∀ o : Offset, (∀ q ∈ placed, ¬ q.Holds o) → p.map.spanAt? o = none := by
  obtain ⟨p, hp⟩ := Logged.exists_result_eq_ok
    (x := counter.emit .empty ⟨"Counter", ["recv", "add", "recv"], ["recv"]⟩ "out")
    (by decide +kernel)
  obtain ⟨placed, code, hfragments, hlaid, -, -, -, hlookup⟩ := emit_spanAt? hp
  have hrecv : counter.find? "recv" = some ⟨"recv", "() recv() { }", .normal, false,
      [⟨⟨"counter.tact", 2, 12⟩, 3, 6⟩, ⟨⟨"counter.tact", 2, 0⟩, 0, 12⟩]⟩ := by
    decide +kernel
  have hadd : counter.find? "add" = some ⟨"add", "int add() { }", .normal, true,
      [⟨⟨"counter.tact", 4, 4⟩, 0, 12⟩]⟩ := by
    decide +kernel
  obtain ⟨a, b, c, rfl⟩ : ∃ a b c, placed = [a, b, c] :=
    List.length_eq_three.1 (by simpa using congrArg List.length hfragments)
  simp only [List.map_cons, List.map_nil, hrecv, hadd, List.cons.injEq, Option.some.injEq, and_true]
    at hfragments
  obtain ⟨ha, hb, hc⟩ := hfragments
  have hplace : c.place = 30 := by
    have hlast : Laid .empty ([a, b] ++ [c]) code := hlaid
    obtain ⟨before, hbefore, hplace, -⟩ := hlast.exists_of_concat
    rw [hbefore.code_eq, List.map_cons, List.map_singleton, ha, hb, hc] at hplace
    exact UInt32.toNat_inj.1 (hplace.symm.trans (by decide +kernel))
  have hholds : c.Holds 34 := by
    rw [Placed.Holds, Placed.stop, hplace, hc]
    decide +kernel
  have hlocal : (SourceMap.ofSpans c.fragment.spans).spanAt? 4 =
      some ⟨⟨"counter.tact", 2, 12⟩, 3, 6⟩ := by
    rw [SourceMap.spanAt?_ofSpans_eq_some_iff, hc]
    decide +kernel
  refine ⟨p, hp, [a, b, c], ?_, ⟨c, by simp, ?_, hplace, hholds, ?_⟩, fun o ↦ (hlookup o).2⟩
  · simp [ha, hb, hc]
  · rw [hc]
  · have hanswer := (hlookup 34).1 c (by simp) hholds
    have hdistance : (34 : Offset) - 30 = 4 := by decide
    rw [hplace, hdistance, hlocal] at hanswer
    exact hanswer

end Catalogue

end Provenance
