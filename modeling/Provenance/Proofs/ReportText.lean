import Provenance.Proofs.Json.Skipping
import Provenance.Proofs.SourceMapText
import Provenance.Report

/-!
# A report is a readable source map

The JSON form of a report has the members of a source map and two more. Since a reader of records
passes over members that it does not know, the map of a report is read from the report itself
(`Report.ofText_text_json`), whatever the names and the lookups in it are.

What this rests on is that lookups are passed over (`Lookup.passes_write`); what is read is read as
from the text of the map alone.
-/

namespace Provenance

open Json Json.Reader

variable {l : Layout}

/-! ### Lookups are passed over -/

/-- A written location is passed over. -/
theorem Location.passes_write (hl : l.IsBlank) (level : ℕ) (a : Location) :
    Passes (a.toJson.write l level) := by
  refine passes_write_object hl (List.forall_mem_cons.2 ⟨passes_quote a.file, ?_⟩)
  exact List.forall_mem_cons.2 ⟨passes_decimal _, List.forall_mem_singleton.2 (passes_decimal _)⟩

/-- A written value that may be missing is passed over if it is when it is there. -/
theorem Json.passes_write_option {α : Type} {f : α → Json} {level : ℕ}
    (h : ∀ a, Passes ((f a).write l level)) (value : Option α) :
    Passes ((Json.option f value).write l level) := by
  cases value with
  | none =>
    rw [Json.option, write]
    exact passes_null
  | some a => exact h a

/-- A written lookup is passed over, with or without an answer. -/
theorem Lookup.passes_write (hl : l.IsBlank) (level : ℕ) (a : Lookup) :
    Passes (a.toJson.write l level) := by
  refine passes_write_object hl (List.forall_mem_cons.2 ⟨passes_decimal _, ?_⟩)
  refine List.forall_mem_cons.2 ⟨passes_write_option (f := .natural) (fun i ↦ passes_decimal i)
    a.index, List.forall_mem_singleton.2 ?_⟩
  exact passes_write_option (Location.passes_write hl (level + 1)) a.location

/-! ### Reports -/

namespace Report

/-- The map of a written report is read. -/
theorem reads_write (hl : l.IsBlank) (level : ℕ) {r : Report} (hr : r.map.IsBounded) :
    SourceMap.reader.Reads (r.toJson.write l level) r.map := by
  have hentrypoint : Skips ((Json.text r.entrypoint).write l (level + 1)) :=
    (passes_quote r.entrypoint).skips
  have hlookups : Skips ((Json.list (r.lookups.map Lookup.toJson)).write l (level + 1)) :=
    (passes_write_list hl (List.forall_mem_map.2 fun a _ ↦
      Lookup.passes_write hl (level + 1 + 1) a)).skips
  refine (reads_write_record hl (b := (r.map.spans, r.map.index, ())) "SourceMap" (by decide)
    ?_ ?_).map _
  · simp [Fields.keys, hentrypoint, hlookups]
  · exact ⟨SourceMap.reads_write_spans hl (level + 1) r.map,
      SourceMap.reads_write_index hl (level + 1) hr, trivial⟩

/-- **A report is a readable source map.** The JSON form of a report is read as a source map, and it
is the map of the report: whatever the name of its entrypoint is, whichever spans and index the map
has, and whichever lookups there are, answered or not. Like every map that can be read, the map has
numbers of 64 bits in its index, as built maps have. -/
theorem ofText_text_json :
    (∀ r : Report, r.map.IsBounded → SourceMap.ofText (r.text .json) = .ok r.map) ∧
    ∀ (entrypoint : String) (spans : List Span) (lookups : List Lookup) (written : List String),
      spans.length ≤ UInt64.size →
        SourceMap.ofText ((⟨entrypoint, .ofSpans spans, lookups, written⟩ : Report).text .json) =
          .ok (.ofSpans spans) := by
  have hread : ∀ r : Report, r.map.IsBounded → SourceMap.ofText (r.text .json) = .ok r.map := by
    intro r hr
    have h := (reads_write Layout.isBlank_pretty 0 hr).parse blank_nil blank_nil
    rwa [List.nil_append, List.append_nil] at h
  exact ⟨hread, fun _ spans _ _ hspans ↦ hread _ (SourceMap.isBounded_ofSpans hspans)⟩

/-- A report whose texts look like members of a source map. Its map is not built from its spans, and
of its lookups one has all of its answer, one a part and one nothing. -/
def decoy : Report where
  entrypoint := "\", \"locations\": [], \"\\u0000\n"
  map := .scrambled
  lookups := [⟨9, some 18446744073709551615, some ⟨"\x7b\"correspondence\": \x7b\x7d\x7d", 0, 1⟩⟩,
    ⟨4294967295, some 2, none⟩, ⟨0, none, none⟩]
  written := ["out/locations"]

/-- Its map is read from it all the same, and so is the map that the spans build. -/
theorem ofText_text_json_decoy :
    SourceMap.ofText (decoy.text .json) = .ok decoy.map ∧
    SourceMap.ofText
        ((⟨decoy.entrypoint, .ofSpans decoy.map.spans, decoy.lookups, []⟩ : Report).text .json) =
      .ok (.ofSpans decoy.map.spans) :=
  ⟨ofText_text_json.1 decoy (by decide), ofText_text_json.2 _ _ _ _ (by decide)⟩

end Report

end Provenance
