import Provenance.Proofs.Json.Results
import Provenance.Proofs.Json.Writing
import Provenance.Proofs.ReverseIndex
import Provenance.Job

/-!
# Source maps survive their text

A source map that is written is read back, in either layout and whatever its spans and its index are
(`SourceMap.ofText_toJson`). The one limit is the size of a number: the index of a map holds numbers
of 64 bits. Built maps and maps that are read keep it, so neither building nor reading makes a map
whose text is refused.
-/

namespace Provenance

/-! ### Tables -/

namespace Table

variable {κ ν : Type} [Ord κ] [Std.TransOrd κ] [Std.LawfulEqOrd κ] [DecidableEq κ]

omit [Std.TransOrd κ] in
/-- Pairs whose keys strictly ascend are all kept. -/
theorem keepLast_eq_self {ps : List (κ × ν)} (h : ps.Pairwise fun p q ↦ compare p.1 q.1 = .lt) :
    keepLast ps = ps := by
  induction ps with
  | nil => rfl
  | cons p ps ih =>
    obtain ⟨hp, hps⟩ := List.pairwise_cons.1 h
    cases ps with
    | nil => rfl
    | cons q ps =>
      have hne : p.1 ≠ q.1 := by
        intro heq
        have hlt := hp q List.mem_cons_self
        rw [heq, Std.compare_self] at hlt
        exact absurd hlt (by decide)
      rw [keepLast, if_neg hne, ih hps]

/-- The pairs of a table make the table. -/
theorem ofList_entries (t : Table κ ν) : ofList t.entries = t := by
  have hsorted : sortByKey t.entries = t.entries :=
    List.mergeSort_of_pairwise (t.ascending.imp fun h ↦ by rw [h]; rfl)
  obtain ⟨entries, ascending⟩ := t
  simp only [ofList, hsorted, keepLast_eq_self ascending]

end Table

open Json Json.Reader

variable {l : Layout} {level : ℕ}

/-! ### Reading what is written -/

/-- A written location is read. -/
theorem Location.reads_write (hl : l.IsBlank) (level : ℕ) (a : Location) :
    Location.reader.Reads (a.toJson.write l level) a := by
  refine (reads_write_record hl (b := (a.file, a.line, a.col, ())) "Location" (by decide)
    (by simp [Fields.keys]) ?_).map _
  exact ⟨reads_quote a.file, reads_word a.line, reads_word a.col, trivial⟩

/-- A written span is read. -/
theorem Span.reads_write (hl : l.IsBlank) (level : ℕ) (s : Span) :
    Span.reader.Reads (s.toJson.write l level) s := by
  refine (reads_write_record hl (b := (s.location, s.first, s.last, ())) "Entry" (by decide)
    (by simp [Fields.keys]) ?_).map _
  exact ⟨Location.reads_write hl (level + 1) s.location, reads_word s.first, reads_word s.last,
    trivial⟩

namespace SourceMap

/-- The numbers in the index are numbers of 64 bits. -/
def IsBounded (m : SourceMap) : Prop := ∀ p ∈ m.index.entries, p.2 < UInt64.size

instance (m : SourceMap) : Decidable m.IsBounded :=
  inferInstanceAs (Decidable (∀ p ∈ m.index.entries, p.2 < UInt64.size))

/-- The written spans are read. -/
theorem reads_write_spans (hl : l.IsBlank) (level : ℕ) (m : SourceMap) :
    (Reader.list Span.reader).Reads (m.spansJson.write l level) m.spans :=
  reads_write_list hl (List.forall₂_map_left_iff.2 (List.forall₂_same.2 fun s _ ↦
    Span.reads_write hl (level + 1) s))

/-- The written index is read. -/
theorem reads_write_index (hl : l.IsBlank) (level : ℕ) {m : SourceMap} (hm : m.IsBounded) :
    (table Reader.size).Reads (m.indexJson.write l level) m.index := by
  have hmembers : List.Forall₂ (WritesMember l (level + 1) wordKey.ReadsKey Reader.size.Reads)
      (m.index.entries.map fun p ↦ (decimal p.1.toNat, .natural p.2)) m.index.entries := by
    refine List.forall₂_map_left_iff.2 (List.forall₂_same.2 fun p hp ↦ ?_)
    exact ⟨readsKey_word p.1, reads_size (hm p hp)⟩
  have hread := reads_write_table hl hmembers
  rwa [Table.ofList_entries] at hread

/-- A written map is read. -/
theorem reads_write (hl : l.IsBlank) (level : ℕ) {m : SourceMap} (hm : m.IsBounded) :
    SourceMap.reader.Reads (m.toJson.write l level) m := by
  refine (reads_write_record hl (b := (m.spans, m.index, ())) "SourceMap" (by decide)
    (by simp [Fields.keys]) ?_).map _
  exact ⟨reads_write_spans hl (level + 1) m, reads_write_index hl (level + 1) hm, trivial⟩

/-- A text in a layout of blanks holds the map that was written. -/
theorem ofText_write (hl : l.IsBlank) {m : SourceMap} (hm : m.IsBounded) :
    ofText (String.ofList (m.toJson.write l 0)) = .ok m := by
  have h := (reads_write hl 0 hm).parse blank_nil blank_nil
  rwa [List.nil_append, List.append_nil] at h

/-! ### Bounds -/

/-- A built map has no more numbers than spans. -/
theorem isBounded_ofSpans {spans : List Span} (h : spans.length ≤ UInt64.size) :
    (ofSpans spans).IsBounded := by
  intro p hp
  have hlt := lt_size_of_mem_entries hp
  have hsize : (ofSpans spans).size = spans.length := List.length_mergeSort _
  omega

/-- A map that is read holds numbers of 64 bits only. -/
theorem isBounded_of_ofText {text : String} {m : SourceMap} (h : ofText text = .ok m) :
    m.IsBounded := by
  obtain ⟨⟨spans, index, _⟩, hreturns, rfl⟩ := returns_of_map (returns_of_parse h)
  obtain ⟨-, hindex, -⟩ := Fields.originates_of_returns hreturns
  intro p hp
  rcases hindex with hindex | hdefault
  · exact lt_of_returns_below (returns_of_mem_table hindex hp)
  · exact absurd hdefault (by simp)

/-! ### Round trip -/

/-- **Round trip.** A map whose index holds numbers of 64 bits is read back from its text in both
layouts, and so from the file that a job writes for its program. Maps that are built and maps that
are read are of this kind; the latter may list their spans in any order and have numbers without
span. -/
theorem ofText_toJson :
    (∀ m : SourceMap, m.IsBounded →
      ofText m.toJson.compact = .ok m ∧ ofText m.toJson.pretty = .ok m) ∧
    (∀ spans : List Span, spans.length ≤ UInt64.size → (ofSpans spans).IsBounded) ∧
    (∀ (text : String) (m : SourceMap), ofText text = .ok m → m.IsBounded) ∧
    (∀ (directory basename : String) (p : Program), p.map.IsBounded → ∃ content,
      .writeFile (Path.join directory (basename ++ ".srcmap.json")) content ∈
          Job.actions directory basename p ∧ ofText content = .ok p.map) := by
  have hpretty : ∀ m : SourceMap, m.IsBounded → ofText m.toJson.pretty = .ok m := fun m hm ↦
    ofText_write Layout.isBlank_pretty hm
  refine ⟨fun m hm ↦ ⟨ofText_write Layout.isBlank_compact hm, hpretty m hm⟩,
    fun _ ↦ isBounded_ofSpans, fun _ _ ↦ isBounded_of_ofText, fun directory basename p hp ↦ ?_⟩
  refine ⟨p.map.toJson.pretty, ?_, hpretty p.map hp⟩
  simp [Job.actions]

-- The keys of the index are numbers in quotes.
example :
    (⟨[⟨⟨"m.tact", 3, 0⟩, 50, 51⟩], ⟨[(50, 0), (51, 0)], by decide⟩⟩ : SourceMap).toJson.compact =
    "\x7b\"locations\":[\x7b\"loc\":\x7b\"file\":\"m.tact\",\"line\":3,\"col\":0\x7d," ++
      "\"start\":50,\"end\":51\x7d],\"correspondence\":\x7b\"50\":0,\"51\":0\x7d\x7d" := by
  decide +kernel

/-- A map that no spans build: they do not stand in order, and the numbers in the index are numbers
of no span. The name of its file has a quote, a backslash, a control character and characters beyond
the basic plane. -/
def scrambled : SourceMap where
  spans := [⟨⟨"s\"\\\x01\né😀.tact", 7, 0⟩, 4, 4294967295⟩, ⟨⟨"a.tact", 0, 3⟩, 9, 2⟩]
  index := ⟨[(9, 18446744073709551615), (4294967295, 2)], by decide⟩

/-- Such a map survives its text and the file of a job, and so do the map that its spans build and a
map that is read. -/
theorem ofText_toJson_scrambled :
    ¬ scrambled.IsBuilt ∧
    (ofText scrambled.toJson.compact = .ok scrambled ∧
      ofText scrambled.toJson.pretty = .ok scrambled) ∧
    (ofText (ofSpans scrambled.spans).toJson.compact = .ok (ofSpans scrambled.spans) ∧
      ofText (ofSpans scrambled.spans).toJson.pretty = .ok (ofSpans scrambled.spans)) ∧
    (∃ m, ofText "[[], \x7b\"7\": 3\x7d]" = .ok m ∧
      ofText m.toJson.compact = .ok m ∧ ofText m.toJson.pretty = .ok m) ∧
    ∃ content, .writeFile (Path.join "build" ("out" ++ ".srcmap.json")) content ∈
        Job.actions "build" "out" ⟨"out.code.fc", [], "", scrambled⟩ ∧
      ofText content = .ok scrambled := by
  obtain ⟨hround, hbuilt, hread, hjob⟩ := ofText_toJson
  have hbounded : scrambled.IsBounded := by decide
  refine ⟨fun h ↦ ?_, hround scrambled hbounded, hround _ (hbuilt scrambled.spans (by decide)), ?_,
    hjob "build" "out" _ hbounded⟩
  · have hmem : ((9, 18446744073709551615) : Offset × ℕ) ∈
        (ofSpans scrambled.spans).index.entries := by
      rw [h]
      exact List.mem_cons_self
    have hlt := lt_size_of_mem_entries hmem
    rw [h] at hlt
    exact absurd hlt (by decide)
  · have hok : (ofText "[[], \x7b\"7\": 3\x7d]").isOk = true := by
      decide +kernel
    cases hm : ofText "[[], \x7b\"7\": 3\x7d]" with
    | error fault =>
      rw [hm] at hok
      exact absurd hok Bool.false_ne_true
    | ok m => exact ⟨m, rfl, hround m (hread _ m hm)⟩

end SourceMap

end Provenance
