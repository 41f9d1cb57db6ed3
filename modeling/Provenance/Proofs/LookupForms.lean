import Mathlib.Data.List.TFAE
import Provenance.Proofs.MachineText
import Provenance.Proofs.Merge
import Provenance.Proofs.Planning

/-!
# Three forms of one answer

A report shows the answer to a lookup in three forms: as a line for people, as a record and as a
JSON value (`Lookup.Forms`). Each form is made from its own part of the answer. The line needs the
number and the location of a span, the record needs the number, and the value shows both apart. So
they could contradict each other: an answer with a number and no location would be unmapped for
people and mapped in the record.

**Answers of built maps are whole** (`Lookup.resolve_cases`): there is a number exactly if there is
a location, and then they are those of the last listed span that covers the offset. A job only
reports on built maps (`Job.Decided.exists_map_eq`), and so the three forms of its report agree
(`Job.runIn_answersAlike`).
-/

namespace Provenance

/-! ### Forms of an answer -/

namespace Lookup

/-- An answer as a line for people, as a record and as a JSON value. -/
structure Forms where
  /-- The line. -/
  line : String
  /-- The record. -/
  record : String
  /-- The value. -/
  value : Json

/-- The forms for an offset that no span speaks for. -/
def Forms.unmapped (o : Offset) : Forms where
  line := "lookup " ++ decimal o.toNat ++ " -> unmapped\n"
  record := "lookup\t" ++ decimal o.toNat ++ "\t-\n"
  value := .object [("offset", .word o), ("index", .null), ("location", .null)]

/-- The forms for an offset that comes from a location, by the span of a number. -/
def Forms.mapped (o : Offset) (i : ℕ) (l : Location) : Forms where
  line := "lookup " ++ decimal o.toNat ++ " -> " ++ l.text ++ " (#" ++ decimal i ++ ")\n"
  record := "lookup\t" ++ decimal o.toNat ++ "\t" ++ decimal i ++ "\n"
  value := .object [("offset", .word o), ("index", .natural i), ("location", l.toJson)]

/-- The forms that a report shows of an answer. -/
def forms (a : Lookup) : Forms := ⟨Report.lookupLine a, Report.lookupRecord a, a.toJson⟩

variable {o : Offset} {i : ℕ} {l : Location}

theorem forms_of_none (o : Offset) : forms ⟨o, none, none⟩ = .unmapped o := by
  simp [forms, Forms.unmapped, Report.lookupLine, Report.lookupRecord, Report.tabbed, toJson,
    Json.option, ← String.toList_inj]

theorem forms_of_some (o : Offset) (i : ℕ) (l : Location) :
    forms ⟨o, some i, some l⟩ = .mapped o i l := by
  simp [forms, Forms.mapped, Report.lookupLine, Report.lookupRecord, Report.tabbed, toJson,
    Json.option, ← String.toList_inj]

/-- Nothing reads like the word `unmapped`: the line of a location ends with a bracket. -/
theorem line_mapped_ne : (Forms.mapped o i l).line ≠ (Forms.unmapped o).line := by
  intro h
  have hend : (Forms.mapped o i l).line.toList =
      ("lookup " ++ decimal o.toNat ++ " -> " ++ l.text ++ " (#" ++ decimal i).toList ++
        [')', '\n'] := by
    simp [Forms.mapped]
  have hend' : (Forms.unmapped o).line.toList =
      ("lookup " ++ decimal o.toNat ++ " -> unmappe").toList ++ ['d', '\n'] := by
    simp [Forms.unmapped]
  rw [h, hend'] at hend
  exact absurd (List.append_inj_right' hend rfl) (by decide)

theorem record_mapped_ne : (Forms.mapped o i l).record ≠ (Forms.unmapped o).record := by
  intro h
  rw [← forms_of_some, ← forms_of_none] at h
  have hline : Report.Line.lookup o (some i) = .lookup o none := Report.Line.eq_of_record_eq h
  exact absurd hline (by simp)

theorem value_mapped_ne : (Forms.mapped o i l).value ≠ (Forms.unmapped o).value := by
  simp [Forms.mapped, Forms.unmapped, Json.natural]

/-- If an answer is unmapped in all forms under a condition and mapped in all forms otherwise, then
each form tells whether the condition holds. -/
theorem tfae_unmapped {a : Lookup} {P : Prop}
    (h : P ∧ a.forms = .unmapped a.offset ∨ ¬ P ∧ ∃ i l, a.forms = .mapped a.offset i l) :
    List.TFAE [a.forms.line = (Forms.unmapped a.offset).line,
      a.forms.record = (Forms.unmapped a.offset).record,
      a.forms.value = (Forms.unmapped a.offset).value, P] := by
  rcases h with ⟨hP, hforms⟩ | ⟨hP, i, l, hforms⟩
  · simp [hforms, hP]
  · simp [hforms, hP, line_mapped_ne, record_mapped_ne, value_mapped_ne]

/-! ### Answers of built maps -/

/-- The span of a number is the last listed one that covers an offset. -/
def IsLastCovering (spans : List Span) (o : Offset) (i : ℕ) (s : Span) : Prop :=
  spans[i]? = some s ∧ s.Covers o ∧ ∀ j t, i < j → spans[j]? = some t → ¬ t.Covers o

/-- **The answer of a built map is whole or empty.** -/
theorem resolve_cases (spans : List Span) (o : Offset) :
    (∀ s ∈ (SourceMap.ofSpans spans).spans, ¬ s.Covers o) ∧
        resolve (.ofSpans spans) o = ⟨o, none, none⟩ ∨
      ∃ i s, IsLastCovering (SourceMap.ofSpans spans).spans o i s ∧
        resolve (.ofSpans spans) o = ⟨o, some i, some s.location⟩ := by
  rcases hindex : (SourceMap.ofSpans spans).indexAt? o with - | i
  · refine .inl ⟨fun s hs ↦ ?_, ?_⟩
    · exact SourceMap.indexAt?_ofSpans_eq_none_iff.1 hindex s (Span.mem_sort.1 hs)
    · simp [resolve, SourceMap.locationAt?, SourceMap.spanAt?, hindex]
  · obtain ⟨⟨s, hs, ho⟩, hmax⟩ := SourceMap.indexAt?_ofSpans_eq_some_iff.1 hindex
    have hspan : (SourceMap.ofSpans spans).spans[i]? = some s := hs
    refine .inr ⟨i, s, ⟨hspan, ho, fun j t hlt ht hcovers ↦ ?_⟩, ?_⟩
    · have hle := hmax j t ht hcovers
      omega
    · simp [resolve, SourceMap.locationAt?, SourceMap.spanAt?, hindex, hspan]

end Lookup

/-! ### Reports -/

namespace Report

open Lookup

/-- **The forms of a report answer lookups alike.** -/
structure AnswersAlike (r : Report) (offsets : List Offset) : Prop where
  /-- The offsets have their answers in the order of asking. -/
  asked : r.lookups.map Lookup.offset = offsets
  /-- In the text for people stands a line for each answer, between the spans and the files. -/
  human : r.text .human = ({ r with lookups := [], written := [] } : Report).text .human ++
    (if offsets = [] then "" else "\n") ++ String.join (r.lookups.map fun a ↦ a.forms.line) ++
      String.join (r.written.map fun path ↦ "wrote " ++ path ++ "\n")
  /-- Among the records stands one for each answer, behind those of the spans. -/
  machine : r.text .machine = ({ r with lookups := [] } : Report).text .machine ++
    String.join (r.lookups.map fun a ↦ a.forms.record)
  /-- In the JSON form stands a value for each answer, in the list of lookups. -/
  json : r.text .json = (Json.object [("entrypoint", .text r.entrypoint),
    ("locations", r.map.spansJson), ("correspondence", r.map.indexJson),
    ("lookups", .list (r.lookups.map fun a ↦ a.forms.value))]).pretty
  /-- An offset is unmapped in one form exactly if it is in each other one, and exactly if no listed
  span covers it. -/
  unmapped : ∀ a ∈ r.lookups, List.TFAE [a.forms.line = (Forms.unmapped a.offset).line,
    a.forms.record = (Forms.unmapped a.offset).record,
    a.forms.value = (Forms.unmapped a.offset).value, ∀ s ∈ r.map.spans, ¬ s.Covers a.offset]
  /-- Otherwise all three show the number and the location of the last listed span that covers
  it. -/
  mapped : ∀ a ∈ r.lookups, a.forms.line ≠ (Forms.unmapped a.offset).line →
    ∃ i s, IsLastCovering r.map.spans a.offset i s ∧ a.forms = .mapped a.offset i s.location

/-- A report on a built map answers alike in all forms. -/
theorem answersAlike_of_map_eq {r : Report} {spans : List Span} {offsets : List Offset}
    (hmap : r.map = .ofSpans spans) (hlookups : r.lookups = offsets.map (resolve r.map)) :
    r.AnswersAlike offsets := by
  have hcases : ∀ a ∈ r.lookups,
      (∀ s ∈ r.map.spans, ¬ s.Covers a.offset) ∧ a.forms = .unmapped a.offset ∨
        ∃ i s, IsLastCovering r.map.spans a.offset i s ∧
          a.forms = .mapped a.offset i s.location := by
    intro a ha
    rw [hlookups] at ha
    obtain ⟨o, -, rfl⟩ := List.mem_map.1 ha
    rw [hmap]
    rcases resolve_cases spans o with ⟨hnone, ha⟩ | ⟨i, s, hlast, ha⟩
    · rw [ha]
      exact .inl ⟨hnone, forms_of_none o⟩
    · rw [ha]
      exact .inr ⟨i, s, hlast, forms_of_some o i s.location⟩
  have hempty : r.lookups.isEmpty = true ↔ offsets = [] := by
    rw [hlookups, List.isEmpty_iff, List.map_eq_nil_iff]
  refine ⟨?_, ?_, ?_, rfl, fun a ha ↦ ?_, fun a ha hline ↦ ?_⟩
  · rw [hlookups, List.map_map]
    exact List.map_id offsets
  · simp [text, human, hempty, Lookup.forms]
  · simp [text, machine, Lookup.forms]
  · refine tfae_unmapped ?_
    rcases hcases a ha with hnone | ⟨i, s, ⟨hs, hcovers, -⟩, hforms⟩
    · exact .inl hnone
    · exact .inr ⟨fun hnone ↦ hnone s (List.mem_of_getElem? hs) hcovers, i, s.location, hforms⟩
  · rcases hcases a ha with ⟨-, hforms⟩ | hmapped
    · exact absurd (congrArg Forms.line hforms) hline
    · exact hmapped

end Report

namespace Job

variable {fs : FileSystem} {args : Arguments} {m : Manifest} {flags : Flags} {c : Catalogue}
  {p : Program} {r : Report}

/-- A job reports on a built map. -/
theorem Decided.exists_map_eq {read : String → Except FileFault String}
    (h : Decided args read m flags c p) : ∃ spans, p.map = .ofSpans spans := by
  have hcompiled := h.compiled
  rw [Catalogue.result_compile] at hcompiled
  obtain ⟨placed, -, -, -, -, -, -, hmap⟩ := Catalogue.exists_placed_of_emit hcompiled
  exact ⟨_, hmap⟩

/-- **The three forms answer alike.** Whichever files there are, and whatever a job is asked for: if
it ends with a report, its text for people, its records and its JSON form answer the offsets that
were asked for in the same order. An offset is unmapped in one of them exactly if it is in the
others. Otherwise they show the number and the location of one and the same listed span, which is
the last one that covers the offset. -/
theorem runIn_answersAlike (h : (runIn fs args).1.result = .ok r) :
    r.AnswersAlike args.lookups := by
  obtain ⟨m, flags, c, p, -, written, hdecided, -, -, rfl⟩ := exists_of_runIn_eq_ok h
  obtain ⟨spans, hmap⟩ := hdecided.exists_map_eq
  exact Report.answersAlike_of_map_eq hmap rfl

/-- The text of a manifest with a fragment of ten bytes. Its spans overlap, and they are not listed
by location. -/
def rulerText : String :=
  "[\"ruler\",[[\"f\",\"0123456789\",\"normal\",false," ++
    "[[[\"unmapped\",2,0],2,5],[[\"a\",1,0],0,3]]]]]"

/-- A file system with that manifest. -/
def rulerDesk : FileSystem where
  nodes := [(["work"], .directory), (["work", "ruler.json"], .file rulerText.toUTF8)]
  current := ["work"]

/-- A job that looks offsets up, one of them twice. -/
def measuring : Arguments :=
  ⟨"ruler.json", none, none, [], .human, [2, 9, 0, 2], none, none, none⟩

/-- Both spans cover the offset 2, one covers the offset 0, and none the offset 9. One of them comes
from a file whose name is the word for such offsets. -/
theorem runIn_answersAlike_ruler :
    ∃ r, (runIn rulerDesk measuring).1.result = .ok r ∧ r.AnswersAlike [2, 9, 0, 2] := by
  obtain ⟨r, hr⟩ :=
    Logged.exists_result_eq_ok (x := (runIn rulerDesk measuring).1) (by decide +kernel)
  exact ⟨r, hr, runIn_answersAlike hr⟩

end Job

end Provenance
