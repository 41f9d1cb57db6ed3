import Provenance.Proofs.LocationText
import Provenance.Report

/-!
# Decoding records

In its tab-separated form a report is a list of records, each of which ends its line.

* **One record** can always be decoded (`Report.Line.eq_of_record_eq`). Only a file name is free
  text, and there is one at most: its record has four fields before it and two behind it, so that
  the name is what remains when these are taken away from both ends, tabs and all.
* **A list of records** can be decoded if no record goes on over the end of a line, that is, if no
  file name has a line break (`Report.lines_eq_of_machine_eq`). Then the text determines the spans
  and the answers to the lookups (`Report.spans_eq_of_machine_eq`).

A line break inside a name is not marked, so behind it the name may go on like a record. Two maps
then have one text (`Report.not_spans_eq_of_machine_eq`).
-/

namespace Provenance

namespace Report

/-! ### One record -/

/-- What a record says. -/
inductive Line where
  /-- A numbered span. -/
  | span (s : Span) (n : ℕ)
  /-- An offset that was looked up and the number of the span that speaks for it. -/
  | lookup (offset : Offset) (index : Option ℕ)

namespace Line

/-- The record of a line. -/
def record : Line → String
  | span s n => spanRecord s n
  | lookup offset index => lookupRecord ⟨offset, index, none⟩

/-- The line stays on one line: it has no name with a line break. -/
def IsPlain : Line → Prop
  | span s _ => '\n' ∉ s.location.file.toList
  | lookup _ _ => True

/-- The index of a lookup, or a hyphen. -/
def answer (index : Option ℕ) : String := (index.map decimal).getD "-"

theorem answer_inj {i j : Option ℕ} : answer i = answer j ↔ i = j := by
  have hne : ∀ n, decimal n ≠ "-" := by
    intro n h
    have hmem : '-' ∈ (decimal n).toList := by rw [h]; decide
    exact absurd (isDigit_of_mem_decimal hmem) (by decide)
  constructor
  · intro h
    match i, j with
    | none, none => rfl
    | none, some n => exact absurd h.symm (hne n)
    | some m, none => exact absurd h (hne m)
    | some m, some n => rw [decimal_inj.1 h]
  · rintro rfl
    rfl

theorem not_mem_answer {c : Char} (hc : c.isDigit = false) (hne : c ≠ '-') (index : Option ℕ) :
    c ∉ (answer index).toList := by
  cases index with
  | none => simpa [answer] using hne
  | some n => exact not_mem_decimal hc n

theorem toList_record_span (s : Span) (n : ℕ) :
    (span s n).record.toList = "location".toList ++ '\t' :: ((decimal n).toList ++ '\t' ::
      ((decimal s.first.toNat).toList ++ '\t' :: ((decimal s.last.toNat).toList ++ '\t' ::
        (s.location.file.toList ++ '\t' :: ((decimal s.location.line.toNat).toList ++ '\t' ::
          ((decimal s.location.col.toNat).toList ++ ['\n'])))))) := by
  simp [record, spanRecord, tabbed]

theorem toList_record_lookup (offset : Offset) (index : Option ℕ) :
    (lookup offset index).record.toList =
      "lookup".toList ++ '\t' :: ((decimal offset.toNat).toList ++ '\t' ::
        ((answer index).toList ++ ['\n'])) := by
  simp [record, lookupRecord, tabbed, answer]

/-- **A record can be decoded**, whatever name it has. -/
theorem eq_of_record_eq {a b : Line} (h : a.record = b.record) : a = b := by
  have htab : ∀ n, '\t' ∉ (decimal n).toList := not_mem_decimal rfl
  have hlocation : '\t' ∉ "location".toList := by decide
  have hlookup : '\t' ∉ "lookup".toList := by decide
  have hne : "location".toList ≠ "lookup".toList := by decide
  replace h := congrArg String.toList h
  cases a with
  | span s n =>
    obtain ⟨⟨file, line, col⟩, first, last⟩ := s
    rw [toList_record_span] at h
    cases b with
    | span s' n' =>
      obtain ⟨⟨file', line', col'⟩, first', last'⟩ := s'
      rw [toList_record_span] at h
      obtain ⟨-, h⟩ := (append_cons_inj_of_not_mem_left hlocation hlocation).1 h
      obtain ⟨hn, h⟩ := (append_cons_inj_of_not_mem_left (htab _) (htab _)).1 h
      obtain ⟨hfirst, h⟩ := (append_cons_inj_of_not_mem_left (htab _) (htab _)).1 h
      obtain ⟨hlast, h⟩ := (append_cons_inj_of_not_mem_left (htab _) (htab _)).1 h
      -- The name comes next. It may have tabs, so the fields behind it are told from the end.
      have hfields : (file.toList ++ '\t' :: ((decimal line.toNat).toList ++
            '\t' :: (decimal col.toNat).toList)) ++ ['\n'] =
          (file'.toList ++ '\t' :: ((decimal line'.toNat).toList ++
            '\t' :: (decimal col'.toNat).toList)) ++ ['\n'] := by
        simpa using h
      obtain ⟨hfile, rfl, rfl⟩ := (named_inj rfl).1 (List.append_cancel_right hfields)
      obtain rfl : n = n' := decimal_inj.1 (String.toList_inj.1 hn)
      obtain rfl : first = first' := toList_decimal_inj.1 hfirst
      obtain rfl : last = last' := toList_decimal_inj.1 hlast
      obtain rfl : file = file' := String.toList_inj.1 hfile
      rfl
    | lookup offset index =>
      rw [toList_record_lookup] at h
      exact absurd ((append_cons_inj_of_not_mem_left hlocation hlookup).1 h).1 hne
  | lookup offset index =>
    rw [toList_record_lookup] at h
    cases b with
    | span s n =>
      rw [toList_record_span] at h
      exact absurd ((append_cons_inj_of_not_mem_left hlookup hlocation).1 h).1 hne.symm
    | lookup offset' index' =>
      rw [toList_record_lookup] at h
      obtain ⟨-, h⟩ := (append_cons_inj_of_not_mem_left hlookup hlookup).1 h
      obtain ⟨hoffset, hindex⟩ := (append_cons_inj_of_not_mem_left (htab _) (htab _)).1 h
      have hanswer := String.toList_inj.1 (List.append_cancel_right hindex)
      rw [toList_decimal_inj.1 hoffset, answer_inj.1 hanswer]

/-- A record ends its line, and has no other line break if its name has none. -/
theorem exists_record_eq (a : Line) :
    ∃ body, a.record.toList = body ++ ['\n'] ∧ (a.IsPlain → '\n' ∉ body) := by
  have hbreak : ∀ n, '\n' ∉ (decimal n).toList := not_mem_decimal rfl
  cases a with
  | span s n =>
    refine ⟨"location".toList ++ '\t' :: ((decimal n).toList ++ '\t' ::
      ((decimal s.first.toNat).toList ++ '\t' :: ((decimal s.last.toNat).toList ++ '\t' ::
        (s.location.file.toList ++ '\t' :: ((decimal s.location.line.toNat).toList ++ '\t' ::
          (decimal s.location.col.toNat).toList))))), ?_, fun hfile ↦ ?_⟩
    · rw [toList_record_span]
      simp only [List.append_assoc, List.cons_append]
    · have hfile : '\n' ∉ s.location.file.toList := hfile
      simp [hbreak, hfile]
  | lookup offset index =>
    refine ⟨"lookup".toList ++ '\t' :: ((decimal offset.toNat).toList ++ '\t' ::
      (answer index).toList), ?_, fun _ ↦ ?_⟩
    · rw [toList_record_lookup]
      simp only [List.append_assoc, List.cons_append]
    · simp [hbreak, not_mem_answer (c := '\n') rfl (by decide)]

end Line

/-! ### Lists of records -/

/-- The lines of a report. -/
def lines (r : Report) : List Line :=
  r.map.spans.zipIdx.map (fun (s, n) ↦ .span s n) ++
    r.lookups.map fun l ↦ .lookup l.offset l.index

theorem machine_eq (r : Report) : r.machine = String.join (r.lines.map Line.record) := by
  rw [machine, lines, ← String.toList_inj]
  simp [String.toList_join, List.flatMap_map, Function.comp_def, Line.record, lookupRecord]

/-- Records that stay on their lines can be decoded one after another. -/
theorem eq_of_flatMap_record_eq {ls ls' : List Line} (hls : ∀ a ∈ ls, a.IsPlain)
    (hls' : ∀ a ∈ ls', a.IsPlain)
    (h : ls.flatMap (·.record.toList) = ls'.flatMap (·.record.toList)) : ls = ls' := by
  induction ls generalizing ls' with
  | nil =>
    cases ls' with
    | nil => rfl
    | cons b ls' =>
      obtain ⟨body, hbody, -⟩ := b.exists_record_eq
      simp [hbody] at h
  | cons a ls ih =>
    obtain ⟨ha, hls⟩ := List.forall_mem_cons.1 hls
    obtain ⟨body, hbody, hplain⟩ := a.exists_record_eq
    cases ls' with
    | nil => simp [hbody] at h
    | cons b ls' =>
      obtain ⟨hb, hls'⟩ := List.forall_mem_cons.1 hls'
      obtain ⟨body', hbody', hplain'⟩ := b.exists_record_eq
      simp only [List.flatMap_cons, hbody, hbody', List.append_assoc, List.singleton_append,
        append_cons_inj_of_not_mem_left (hplain ha) (hplain' hb)] at h
      have hrecord : a.record = b.record := String.toList_inj.1 (by rw [hbody, hbody', h.1])
      rw [Line.eq_of_record_eq hrecord, ih hls hls' h.2]

/-- No file name of the report has a line break. -/
def HasPlainNames (r : Report) : Prop := ∀ s ∈ r.map.spans, '\n' ∉ s.location.file.toList

instance (r : Report) : Decidable r.HasPlainNames :=
  inferInstanceAs (Decidable (∀ s ∈ r.map.spans, '\n' ∉ s.location.file.toList))

theorem HasPlainNames.isPlain {r : Report} (h : r.HasPlainNames) : ∀ a ∈ r.lines, a.IsPlain := by
  intro a ha
  rcases List.mem_append.1 ha with ha | ha
  · obtain ⟨⟨s, n⟩, hmem, rfl⟩ := List.mem_map.1 ha
    exact h s (List.fst_mem_of_mem_zipIdx hmem)
  · obtain ⟨l, -, rfl⟩ := List.mem_map.1 ha
    trivial

/-- The text determines the lines if no file name has a line break. -/
theorem lines_eq_of_machine_eq {r r' : Report} (hr : r.HasPlainNames) (hr' : r'.HasPlainNames)
    (h : r.machine = r'.machine) : r.lines = r'.lines := by
  rw [machine_eq, machine_eq, ← String.toList_inj, String.toList_join, String.toList_join,
    List.flatMap_map, List.flatMap_map] at h
  exact eq_of_flatMap_record_eq hr.isPlain hr'.isPlain h

/-- The span of a line. -/
def Line.span? : Line → Option Span
  | span s _ => some s
  | lookup _ _ => none

/-- The offset and the answer of a line. -/
def Line.lookup? : Line → Option (Offset × Option ℕ)
  | span _ _ => none
  | lookup offset index => some (offset, index)

theorem filterMap_span?_lines (r : Report) : r.lines.filterMap Line.span? = r.map.spans := by
  simp only [lines, List.filterMap_append, List.filterMap_map, Function.comp_def, Line.span?,
    List.filterMap_none, List.append_nil]
  rw [List.filterMap_eq_map', List.zipIdx_map_fst]

theorem filterMap_lookup?_lines (r : Report) :
    r.lines.filterMap Line.lookup? = r.lookups.map fun l ↦ (l.offset, l.index) := by
  simp only [lines, List.filterMap_append, List.filterMap_map, Function.comp_def, Line.lookup?,
    List.filterMap_none, List.nil_append]
  rw [List.filterMap_eq_map']

/-- **Records can be decoded.** If no file name has a line break, the tab-separated text of a report
determines the list of its spans and the list of offsets that were looked up with their answers.
Tabs, colons and digits in names do no harm. -/
theorem spans_eq_of_machine_eq {r r' : Report} (hr : r.HasPlainNames) (hr' : r'.HasPlainNames)
    (h : r.machine = r'.machine) :
    r.map.spans = r'.map.spans ∧
      (r.lookups.map fun l ↦ (l.offset, l.index)) =
        r'.lookups.map fun l ↦ (l.offset, l.index) := by
  have hlines := lines_eq_of_machine_eq hr hr' h
  rw [← filterMap_span?_lines, ← filterMap_span?_lines, ← filterMap_lookup?_lines,
    ← filterMap_lookup?_lines, hlines]
  exact ⟨rfl, rfl⟩

/-- Spans of files whose names look like fields: with tabs and numerals, and with nothing. -/
def fieldlike : List Span :=
  [⟨⟨"b\t1\t2\t3", 4, 5⟩, 2, 6⟩, ⟨⟨"", 0, 0⟩, 6, 6⟩, ⟨⟨"b\t1", 2, 3⟩, 4, 2⟩]

/-- Such names can be decoded. The two reports differ in all that their text does not show. -/
theorem spans_eq_of_machine_eq_fieldlike :
    let r : Report := ⟨"b", ⟨fieldlike, .empty⟩, [⟨6, some 1, none⟩, ⟨7, none, none⟩], ["b"]⟩
    let r' : Report :=
      ⟨"c", ⟨fieldlike, ⟨[(2, 3)], by decide⟩⟩, [⟨6, some 1, some default⟩, ⟨7, none, none⟩], []⟩
    (r.HasPlainNames ∧ r'.HasPlainNames ∧ r.machine = r'.machine) ∧
      r.map.spans = r'.map.spans ∧
        (r.lookups.map fun l ↦ (l.offset, l.index)) =
          r'.lookups.map fun l ↦ (l.offset, l.index) := by
  intro r r'
  have hr : r.HasPlainNames := by decide
  have hr' : r'.HasPlainNames := by decide
  have htext : r.machine = r'.machine := by decide +kernel
  exact ⟨⟨hr, hr', htext⟩, spans_eq_of_machine_eq hr hr' htext⟩

/-- The report on a program with the given spans and on the given offsets. -/
def onSpans (entrypoint : String) (spans : List Span) (offsets : List Offset) : Report :=
  ⟨entrypoint, .ofSpans spans, offsets.map (Lookup.resolve (.ofSpans spans)), []⟩

/-- **Line breaks in names are ambiguous.** Reports on built maps can have the same tab-separated
text and list different spans: a name goes on behind a line break like the record of another span.
-/
theorem not_spans_eq_of_machine_eq :
    ¬ ∀ (entrypoint : String) (spans spans' : List Span) (offsets offsets' : List Offset),
      (onSpans entrypoint spans offsets).machine = (onSpans entrypoint spans' offsets').machine →
        (onSpans entrypoint spans offsets).map.spans =
            (onSpans entrypoint spans' offsets').map.spans ∧
          ((onSpans entrypoint spans offsets).lookups.map fun l ↦ (l.offset, l.index)) =
            (onSpans entrypoint spans' offsets').lookups.map fun l ↦ (l.offset, l.index) := by
  intro h
  let joint : List Span := [⟨⟨"a\t1\t2\nlocation\t1\t0\t0\tb", 1, 2⟩, 0, 0⟩]
  let split : List Span := [⟨⟨"a", 1, 2⟩, 0, 0⟩, ⟨⟨"b", 1, 2⟩, 0, 0⟩]
  have hjoint : Span.sort joint = joint := List.mergeSort_singleton _
  have hsplit : Span.sort split = split := List.mergeSort_of_pairwise (by decide +kernel)
  have htext : (onSpans "main" joint []).machine = (onSpans "main" split []).machine := by
    rw [machine, machine, onSpans, onSpans, SourceMap.ofSpans, SourceMap.ofSpans, hjoint, hsplit]
    decide +kernel
  have hspans : Span.sort joint = Span.sort split := (h "main" joint split [] [] htext).1
  rw [hjoint, hsplit] at hspans
  exact absurd (congrArg List.length hspans) (by decide)

end Report

end Provenance
