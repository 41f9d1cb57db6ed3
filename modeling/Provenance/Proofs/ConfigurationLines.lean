import Provenance.Project
import Provenance.Proofs.Json.Lines
import Provenance.Proofs.Json.Zones

/-!
# Lines of configuration faults

The comments of a configuration are left out before it is read, so the line of a fault need not be
the line that an editor shows. The ends of lines that are lost are those inside comments that end
with `*/` (`Json.filter_kept_newline`), because the end of a line belongs to no comment that ends
with its line. Hence the two lines of a place differ by the ends of lines that are lost in front of
it (`Json.Cut.line_eq`). Readers count the lines of what they read
(`Configuration.countsLines_reader`), so a fault is met on the line of such a place
(`Configuration.lines_without_comments`).
-/

namespace Provenance

namespace Json

/-! ### Ends of lines -/

/-- The end of a line is in no comment that ends with its line. -/
theorem not_mem_lineComment (z : Zone) (cs : List Char) :
    (Zone.lineComment, '\n') ∉ (scanFrom z cs).zoned := by
  fun_induction scanFrom z cs with
  | case1 z => exact List.not_mem_nil
  | case10 c rest hc ih => simpa [Ne.symm hc] using ih
  | _ => simp_all

/-- The ends of lines that are kept are those outside comments that end with `*/`. -/
theorem filter_kept_newline (text : String) :
    (scan text).kept.filter (fun p ↦ p.2 = '\n') =
      (scan text).zoned.filter fun p ↦ p.2 = '\n' ∧ p.1 ≠ .blockComment := by
  rw [Scan.kept, List.filter_filter]
  refine List.filter_congr fun p hp ↦ ?_
  obtain ⟨z, c⟩ := p
  by_cases hc : c = '\n'
  · subst hc
    have hz : z ≠ .lineComment := by
      rintro rfl
      exact not_mem_lineComment _ _ hp
    cases z <;> simp_all [Zone.isKept]
  · simp [hc]

/-! ### Places -/

/-- The characters of a part of a text. -/
def characters (part : List (Zone × Char)) : List Char := part.map Prod.snd

/-- The characters of a part of a text that are kept when comments are left out. -/
def keptCharacters (part : List (Zone × Char)) : List Char :=
  characters (part.filter fun p ↦ p.1.isKept)

theorem keptCharacters_cons {z : Zone} (hz : z.isKept = true) (c : Char)
    (part : List (Zone × Char)) : keptCharacters ((z, c) :: part) = c :: keptCharacters part := by
  simp [keptCharacters, characters, hz]

/-- The number of ends of lines in a part of a text that stand in comments that end with `*/`. -/
def lostLines (part : List (Zone × Char)) : Nat := part.count (.blockComment, '\n')

theorem count_keptCharacters_add {part : List (Zone × Char)} (h : (.lineComment, '\n') ∉ part) :
    (keptCharacters part).count '\n' + lostLines part = (characters part).count '\n' := by
  induction part with
  | nil => rfl
  | cons p part ih =>
    obtain ⟨z, c⟩ := p
    have ih := ih (List.not_mem_of_not_mem_cons h)
    have hz : c = '\n' → z ≠ .lineComment := by
      rintro rfl rfl
      exact h List.mem_cons_self
    simp only [keptCharacters, characters, lostLines, List.count_cons, List.map_cons,
      List.filter_cons] at ih ⊢
    by_cases hc : c = '\n' <;> cases z <;> simp_all [Zone.isKept] <;> omega

/-- A text that is cut in two at a place. -/
structure Cut (text : String) where
  /-- What stands in front of the place. -/
  front : List (Zone × Char)
  /-- What stands behind it. -/
  behind : List (Zone × Char)
  /-- Both together are the text. -/
  zoned_eq : (scan text).zoned = front ++ behind

namespace Cut

variable {text : String} (cut : Cut text)

theorem toList_eq : text.toList = characters cut.front ++ characters cut.behind := by
  rw [characters, characters, ← List.map_append, ← cut.zoned_eq, scan, map_snd_zoned]

theorem toList_uncomment_eq :
    (uncomment text).toList = keptCharacters cut.front ++ keptCharacters cut.behind := by
  rw [toList_uncomment, ← map_snd_kept, Scan.kept, ← scan, cut.zoned_eq, List.filter_append,
    List.map_append]
  rfl

/-- When comments are left out, a place stands on the line that it has in the text, less the ends of
lines that are lost in front of it. -/
theorem line_eq : lineBehind (keptCharacters cut.front) + lostLines cut.front =
    lineBehind (characters cut.front) := by
  have hmem : (Zone.lineComment, '\n') ∉ cut.front := by
    intro h
    have hscan : (Zone.lineComment, '\n') ∈ (scan text).zoned := by
      rw [cut.zoned_eq]
      exact List.mem_append_left _ h
    exact not_mem_lineComment _ _ hscan
  rw [lineBehind, lineBehind, ← count_keptCharacters_add hmem]
  omega

theorem line_eq_iff : lineBehind (keptCharacters cut.front) = lineBehind (characters cut.front) ↔
    (Zone.blockComment, '\n') ∉ cut.front := by
  rw [← cut.line_eq, ← List.count_eq_zero, ← lostLines]
  omega

end Cut

/-- A place in what is left of a text is a place in the text. -/
theorem exists_cut {text : String} {front behind : List Char}
    (h : (uncomment text).toList = front ++ behind) :
    ∃ cut : Cut text, keptCharacters cut.front = front := by
  rw [toList_uncomment, ← map_snd_kept] at h
  obtain ⟨kept, kept', hkept, rfl, rfl⟩ := List.map_eq_append_iff.1 h
  obtain ⟨part, part', hpart, rfl, rfl⟩ := List.filter_eq_append_iff.1 hkept
  exact ⟨⟨part, part', hpart⟩, rfl⟩

end Json

/-! ### Configurations -/

open Json Json.Reader

theorem Experimental.countsLines_reader : Experimental.reader.CountsLines :=
  (Fields.CountLines.record (.field countsLines_flag.option .done) _).map _

theorem Options.countsLines_reader : Options.reader.CountsLines :=
  (Fields.CountLines.record (.field countsLines_flag.option (.field countsLines_flag.option
    (.field countsLines_flag.option (.field countsLines_flag.option
      (.field Experimental.countsLines_reader.option .done))))) _).map _

theorem Project.countsLines_reader : Project.reader.CountsLines :=
  (Fields.CountLines.record (.field (countsLines_textAs .text) (.field (countsLines_textAs .path)
    (.field (countsLines_textAs .path) (.field Options.countsLines_reader .done)))) _).map _

namespace Configuration

theorem countsLines_reader : reader.CountsLines :=
  (Fields.CountLines.record (.field Project.countsLines_reader.list .done) _).map _

/-- **Comments of more than one line move faults.** The ends of lines that are left when comments
are left out are those outside comments that end with `*/`. So a character that is kept stands on
the line that it has in the text, less the ends of lines in such comments in front of it. The line
of a fault is the line of a place in what is left. In the text a place of this line stands further
down by the ends of lines in such comments in front of it, and on the same line exactly if there are
none. -/
theorem lines_without_comments (text : String) :
    (text.toList = characters (scan text).zoned ∧
        (uncomment text).toList = characters (scan text).kept ∧
        (scan text).kept.filter (fun p ↦ p.2 = '\n') =
          (scan text).zoned.filter fun p ↦ p.2 = '\n' ∧ p.1 ≠ .blockComment) ∧
      (∀ (cut : Cut text) (z : Zone) (c : Char) (rest : List (Zone × Char)),
        cut.behind = (z, c) :: rest → z.isKept = true →
          text.toList = characters cut.front ++ c :: characters rest ∧
            (uncomment text).toList = keptCharacters cut.front ++ c :: keptCharacters rest ∧
            lineBehind (keptCharacters cut.front) + lostLines cut.front =
              lineBehind (characters cut.front)) ∧
      ∀ e, ofText text = .error e →
        (∃ cut : Cut text, e.line = lineBehind (keptCharacters cut.front)) ∧
          ∀ cut : Cut text, e.line = lineBehind (keptCharacters cut.front) →
            e.line + lostLines cut.front = lineBehind (characters cut.front) ∧
              (e.line = lineBehind (characters cut.front) ↔ (.blockComment, '\n') ∉ cut.front) := by
  refine ⟨⟨(map_snd_zoned _ _).symm, ?_, filter_kept_newline text⟩,
    fun cut z c rest hbehind hz ↦ ⟨?_, ?_, cut.line_eq⟩,
    fun e he ↦ ⟨?_, fun cut hline ↦ hline ▸ ⟨cut.line_eq, cut.line_eq_iff⟩⟩⟩
  · rw [toList_uncomment, ← map_snd_kept]
    rfl
  · rw [cut.toList_eq, hbehind]
    rfl
  · rw [cut.toList_uncomment_eq, hbehind, keptCharacters_cons hz]
  · obtain ⟨front, behind, htext, hline⟩ := countsLines_reader.line_of_parse he
    obtain ⟨cut, rfl⟩ := exists_cut htext
    exact ⟨cut, hline⟩

/-- A text with a comment of each kind, the second of two lines, in front of a misspelled word. -/
def tornText : String := "\x7b // a\n\"projects\" /* b\n*/ : tru\x7d"

/-- The cut behind the second comment. -/
def tornCut : Cut tornText :=
  ⟨(scan tornText).zoned.take 25, (scan tornText).zoned.drop 25, (List.take_append_drop _ _).symm⟩

/-- Behind its second comment the text is on its third line, and the fault is met on the second. -/
theorem lines_without_comments_tornText :
    ofText tornText = .error ⟨.misspelled, 2⟩ ∧
      (∃ cut : Cut tornText, 2 = lineBehind (keptCharacters cut.front)) ∧
      2 = lineBehind (keptCharacters tornCut.front) ∧
      2 + 1 = lineBehind (characters tornCut.front) ∧
      lineBehind (keptCharacters tornCut.front) + 1 = lineBehind (characters tornCut.front) := by
  have hfault : ofText tornText = .error ⟨.misspelled, 2⟩ := by decide +kernel
  have hlost : lostLines tornCut.front = 1 := by decide +kernel
  have hbehind : tornCut.behind = (.plain, ' ') :: tornCut.behind.tail := by decide +kernel
  have hline : 2 = lineBehind (keptCharacters tornCut.front) := by decide +kernel
  obtain ⟨-, hcharacter, herror⟩ := lines_without_comments tornText
  obtain ⟨hcut, hcuts⟩ := herror _ hfault
  obtain ⟨-, -, hkept⟩ := hcharacter tornCut _ _ _ hbehind rfl
  obtain ⟨hsum, -⟩ := hcuts tornCut hline
  rw [hlost] at hkept hsum
  exact ⟨hfault, hcut, hline, hsum, hkept⟩

end Configuration

end Provenance
