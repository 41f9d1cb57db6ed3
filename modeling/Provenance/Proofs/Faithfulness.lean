import Mathlib.Data.List.Basic
import Provenance.Proofs.Emission

/-!
# The map of a compiled program is faithful

A program is compiled from the fragments that the flags let through. `Catalogue.compile_faithful`
says how its map and its text belong together: the code of each fragment stands in the text where
the fragment was placed, the map lists the spans of all fragments, moved to their places and sorted
stably, and a moved span covers the bytes that it covered in the code.

**Where distinct names come in.** A placement places everything recorded under a name
(`Recorder.copies`). In a compiled program no name comes twice, so each placement finds the records
of its own fragment only (`copies_steps_of_nodup`). For interfaces with repetitions that is not so,
and what is placed then is described by `copies_steps_concat` alone.
-/

namespace Provenance

namespace Catalogue

variable {c : Catalogue} {flags : Flags}

/-- The names of a compiled interface are distinct. -/
theorem nodup_functions (c : Catalogue) (flags : Flags) (name : String) :
    (c.interface flags name).functions.Nodup :=
  c.nodup.sublist (List.filter_sublist.map Fragment.name)

/-- The fragments that the flags let through are found by their names. -/
theorem map_find?_emitted (c : Catalogue) (flags : Flags) :
    (c.emitted flags).map (fun f ↦ c.find? f.name) = (c.emitted flags).map some :=
  List.map_congr_left fun _ hf ↦ find?_name (List.mem_filter.1 hf).1

/-- The fragments placed for a compiled interface are those that the flags let through. -/
theorem map_fragment_eq_emitted {placed : List Placed} (hvalid : ∀ q ∈ placed, q.Valid c)
    (hnames : placed.map (fun q ↦ q.fragment.name) = (c.emitted flags).map Fragment.name) :
    placed.map Placed.fragment = c.emitted flags := by
  have hplaced : placed.map (fun q ↦ c.find? q.fragment.name) =
      placed.map fun q ↦ some q.fragment :=
    List.map_congr_left fun q hq ↦ (hvalid q hq).known
  have hfound := congrArg (List.map c.find?) hnames
  rw [List.map_map, List.map_map] at hfound
  refine List.map_injective_iff.2 (fun _ _ ↦ Option.some.inj) ?_
  rw [List.map_map]
  exact hplaced.symm.trans (hfound.trans (c.map_find?_emitted flags))

/-- **Faithfulness.** The fragments that the flags let through have places in the text of a compiled
program: they lie there in order and not over each other, each as its bytes. The map lists exactly
the spans of these fragments, each of them once, moved to the place of its fragment and sorted
stably by location. A moved span covers in the text the bytes that it covers in the code. -/
theorem compile_faithful {name basename : String} {p : Program}
    (h : (c.compile flags name basename).result = .ok p) :
    ∃ placed : List Placed,
      placed.map Placed.fragment = c.emitted flags ∧
      IsLayout placed p.text ∧
      p.map.spans = Span.sort (placed.flatMap Placed.spans) ∧
      p.map.spans.Perm (placed.flatMap Placed.spans) ∧
      ∀ q ∈ placed, ∀ s ∈ q.fragment.spans, s.Fits q.place ∧
        p.text.toByteArray.extract (s.shift q.place).first.toNat
            ((s.shift q.place).last.toNat + 1) =
          q.fragment.code.toByteArray.extract s.first.toNat (s.last.toNat + 1) := by
  rw [result_compile] at h
  obtain ⟨placed, -, hnames, hvalid, -, -, hlayout, hmap⟩ := exists_placed_of_emit h
  have hnodup : (placed.map fun q ↦ q.fragment.name).Nodup := by
    rw [hnames]
    exact c.nodup_functions flags name
  have hspans : p.map.spans = Span.sort (placed.flatMap Placed.spans) := by
    rw [hmap, copies_steps_of_nodup hnodup]
    rfl
  refine ⟨placed, map_fragment_eq_emitted hvalid hnames, hlayout, hspans, ?_, fun q hq s hs ↦ ?_⟩
  · rw [hspans]
    exact List.mergeSort_perm _ _
  · have hfits := (hvalid q hq).fits s hs
    have hlast := ((Fragment.fault?_eq_none_iff.1 (hvalid q hq).sound).2 s hs).2
    exact ⟨hfits, hlayout.extract_shift hq hfits hlast⟩

/-- A catalogue of three fragments: one that may be marked for inlining, one for debugging, and one
whose spans stand in another order than their locations. -/
def counter : Catalogue where
  manifest :=
    { name := "Counter"
      fragments := [
        ⟨"add", "int add() { }", .normal, true, [⟨⟨"counter.tact", 4, 4⟩, 0, 12⟩]⟩,
        ⟨"dump", "~dump(0);", .debug, false, [⟨⟨"counter.tact", 9, 8⟩, 1, 4⟩]⟩,
        ⟨"recv", "() recv() { }", .normal, false,
          [⟨⟨"counter.tact", 2, 12⟩, 3, 6⟩, ⟨⟨"counter.tact", 2, 0⟩, 0, 12⟩]⟩] }
  nodup := by decide
  unreserved := by decide

/-- With inlining on, the catalogue compiles, and its map is faithful. -/
theorem compile_faithful_counter :
    ∃ p, (counter.compile (Flags.empty.enable .inline) "Counter" "out").result = .ok p ∧
      ∃ placed : List Placed,
        placed.map (fun q ↦ q.fragment.name) = ["add", "recv"] ∧
        IsLayout placed p.text ∧
        p.map.spans = Span.sort (placed.flatMap Placed.spans) := by
  obtain ⟨p, hp⟩ := Logged.exists_result_eq_ok
    (x := counter.compile (Flags.empty.enable .inline) "Counter" "out") (by decide +kernel)
  obtain ⟨placed, hfragments, hlayout, hspans, -⟩ := compile_faithful hp
  have hnames := congrArg (List.map Fragment.name) hfragments
  rw [List.map_map] at hnames
  exact ⟨p, hp, placed, hnames.trans (by decide +kernel), hlayout, hspans⟩

end Catalogue

end Provenance
