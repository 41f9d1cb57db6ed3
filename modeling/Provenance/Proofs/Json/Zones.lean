import Provenance.Proofs.Json.Comments

/-!
# Zones of a text with comments

`scan` says of every character of a text whether it stands outside texts and comments, in a text
between quotes, or in one of the two kinds of comment, and where the text ends. What is kept when
comments are left out are the characters of the first two zones (`map_snd_kept`).

Two facts about the scanner carry the main statements, both by induction along it:

* behind a text that ends outside texts and comments, and not with a slash that could open a
  comment, it starts afresh (`scanFrom_append`). So comments are removed where they stand, whatever
  is in front of them and behind (`uncomment_between`);
* what is left of a text it scans to what is left of the scan (`scanFrom_uncommentFrom`). A slash
  that opens no comment in the text opens none then, because what comes next is either kept or opens
  a comment with a slash of its own. So no comment is left behind (`uncomment_uncomment`).
-/

namespace Provenance.Json

/-! ### Zones of characters -/

/-- What the scanner for comments makes of a text. -/
structure Scan where
  /-- The characters of the text, each with the zone that it belongs to. -/
  zoned : List (Zone × Char)
  /-- The zone in which the text ends. -/
  last : Zone
deriving DecidableEq

/-- The scan of a text with more characters of one zone in front. -/
def Scan.behind (z : Zone) (cs : List Char) (s : Scan) : Scan := ⟨cs.map (z, ·) ++ s.zoned, s.last⟩

/-- Scans a text that starts in a zone. Quotes belong to the text between them, and the characters
that open or close a comment to the comment; but the end of a line does not belong to the comment
that it ends. -/
def scanFrom : Zone → List Char → Scan
  | z, [] => ⟨[], z⟩
  | .plain, '"' :: rest => (scanFrom .quoted rest).behind .quoted ['"']
  | .plain, '/' :: '/' :: rest => (scanFrom .lineComment rest).behind .lineComment ['/', '/']
  | .plain, '/' :: '*' :: rest => (scanFrom .blockComment rest).behind .blockComment ['/', '*']
  | .plain, c :: rest => (scanFrom .plain rest).behind .plain [c]
  | .quoted, '"' :: rest => (scanFrom .plain rest).behind .quoted ['"']
  | .quoted, '\\' :: c :: rest => (scanFrom .quoted rest).behind .quoted ['\\', c]
  | .quoted, c :: rest => (scanFrom .quoted rest).behind .quoted [c]
  | .lineComment, '\n' :: rest => (scanFrom .plain rest).behind .plain ['\n']
  | .lineComment, c :: rest => (scanFrom .lineComment rest).behind .lineComment [c]
  | .blockComment, '*' :: '/' :: rest => (scanFrom .plain rest).behind .blockComment ['*', '/']
  | .blockComment, c :: rest => (scanFrom .blockComment rest).behind .blockComment [c]

/-- Characters outside comments are kept. -/
def Zone.isKept : Zone → Bool
  | plain | quoted => true
  | lineComment | blockComment => false

namespace Scan

/-- The characters that are kept, with their zones. -/
def kept (s : Scan) : List (Zone × Char) := s.zoned.filter fun p ↦ p.1.isKept

@[simp] theorem zoned_behind (z : Zone) (cs : List Char) (s : Scan) :
    (s.behind z cs).zoned = cs.map (z, ·) ++ s.zoned := rfl

end Scan

/-- No character is lost. -/
theorem map_snd_zoned (z : Zone) (cs : List Char) : (scanFrom z cs).zoned.map Prod.snd = cs := by
  fun_induction scanFrom z cs with
  | case1 => rfl
  | _ => simp_all [Scan.behind]

/-- The characters that are kept are those of the text without its comments. -/
theorem map_snd_kept (z : Zone) (cs : List Char) :
    (scanFrom z cs).kept.map Prod.snd = uncommentFrom z cs := by
  fun_induction scanFrom z cs with
  | case1 z => cases z <;> rfl
  | _ => simp_all [Scan.kept, Zone.isKept, uncommentFrom, Scan.behind]

/-! ### Texts behind each other -/

/-- The scan of a text with another one behind it that starts in the zone where the first ends. -/
def Scan.append (s t : Scan) : Scan := ⟨s.zoned ++ t.zoned, t.last⟩

/-- A text ends outside texts and comments, and not with a slash that stands there. -/
structure Scan.EndsPlain (s : Scan) : Prop where
  /-- The text ends outside texts and comments. -/
  last : s.last = .plain
  /-- Its last character is no slash that stands there. -/
  slash : s.zoned.getLast? ≠ some (.plain, '/')

theorem Scan.EndsPlain.of_behind {z : Zone} {cs : List Char} {s : Scan}
    (h : (s.behind z cs).EndsPlain) : s.EndsPlain where
  last := h.last
  slash hslash := h.slash (by simp [hslash])

/-- A text that ends in another zone than it starts in is not empty. -/
theorem ne_nil_of_last_ne {z : Zone} {cs : List Char} (h : (scanFrom z cs).last ≠ z) : cs ≠ [] := by
  rintro rfl
  exact h rfl

/-- What comes next is not changed by text that comes later. -/
theorem cons_of_append_eq_cons {x : Char} {rest w more : List Char} (hne : rest ≠ [])
    (h : rest ++ w = x :: more) : ∃ more', rest = x :: more' := by
  obtain ⟨y, rest, rfl⟩ := List.exists_cons_of_ne_nil hne
  exact ⟨rest, congrArg (· :: rest) (List.cons.inj h).1⟩

/-- **Scanning on.** Behind a text that ends outside texts and comments, and not with a slash that
could open a comment, the scanner starts afresh. -/
theorem scanFrom_append {z : Zone} {u : List Char} (h : (scanFrom z u).EndsPlain) (w : List Char) :
    scanFrom z (u ++ w) = (scanFrom z u).append (scanFrom .plain w) := by
  fun_induction scanFrom z u with
  | case1 z =>
    obtain rfl : z = .plain := h.last
    rfl
  | case5 c rest hquote hline hblock ih =>
    have hne : c = '/' → rest ≠ [] := by
      rintro rfl rfl
      exact h.slash rfl
    rw [List.cons_append, scanFrom, ih h.of_behind]
    · rfl
    · exact hquote
    · intro more hc hmore
      obtain ⟨more', hrest⟩ := cons_of_append_eq_cons (hne hc) hmore
      exact hline more' hc hrest
    · intro more hc hmore
      obtain ⟨more', hrest⟩ := cons_of_append_eq_cons (hne hc) hmore
      exact hblock more' hc hrest
  | case8 c rest hquote hescape ih =>
    obtain ⟨d, rest, rfl⟩ := List.exists_cons_of_ne_nil
      (ne_nil_of_last_ne (z := .quoted) (h.last.trans_ne (by simp)))
    rw [List.cons_append, scanFrom, ih h.of_behind]
    · rfl
    · exact hquote
    · exact fun _ _ hc _ ↦ hescape d rest hc rfl
  | case10 c rest hc ih =>
    rw [List.cons_append, scanFrom, ih h.of_behind]
    · rfl
    · exact hc
  | case12 c rest hc ih =>
    have hne : rest ≠ [] := ne_nil_of_last_ne (z := .blockComment) (h.last.trans_ne (by simp))
    rw [List.cons_append, scanFrom, ih h.of_behind]
    · rfl
    · intro more hstar hmore
      obtain ⟨more', hrest⟩ := cons_of_append_eq_cons hne hmore
      exact hc more' hstar hrest
  | case2 rest ih | case3 rest ih | case4 rest ih | case6 rest ih | case9 rest ih
  | case11 rest ih =>
    simp only [List.cons_append, scanFrom, ih h.of_behind]
    rfl
  | case7 c rest ih =>
    simp only [List.cons_append, scanFrom, ih h.of_behind]
    rfl

theorem Scan.kept_append (s t : Scan) : (s.append t).kept = s.kept ++ t.kept :=
  List.filter_append ..

theorem uncommentFrom_append {z : Zone} {u : List Char} (h : (scanFrom z u).EndsPlain)
    (w : List Char) : uncommentFrom z (u ++ w) = uncommentFrom z u ++ uncommentFrom .plain w := by
  rw [← map_snd_kept, scanFrom_append h, Scan.kept_append, List.map_append, map_snd_kept,
    map_snd_kept]

/-! ### Comments left out -/

/-- The zone that is left of a zone when comments are left out. -/
def Zone.resumed : Zone → Zone
  | quoted => quoted
  | plain | lineComment | blockComment => plain

namespace Scan

/-- What is left of a scan when comments are left out. -/
def uncommented (s : Scan) : Scan := ⟨s.kept, s.last.resumed⟩

@[simp] theorem kept_uncommented (s : Scan) : s.uncommented.kept = s.kept := by
  simp [uncommented, kept]

theorem uncommented_behind_of_isKept {z : Zone} (hz : z.isKept = true) (cs : List Char) (s : Scan) :
    (s.behind z cs).uncommented = s.uncommented.behind z cs := by
  simp [uncommented, behind, kept, List.filter_append, hz]

theorem uncommented_behind_of_not_isKept {z : Zone} (hz : z.isKept = false) (cs : List Char)
    (s : Scan) : (s.behind z cs).uncommented = s.uncommented := by
  simp [uncommented, behind, kept, List.filter_append, hz]

end Scan

/-- What opens no comment stays in front. -/
theorem head?_uncommentFrom {cs : List Char} (h : ∀ more, cs ≠ '/' :: more) :
    (uncommentFrom .plain cs).head? = cs.head? := by
  cases cs with
  | nil => rfl
  | cons c rest =>
    have hc : c ≠ '/' := fun hc ↦ h rest (by rw [hc])
    by_cases hquote : c = '"'
    · rw [hquote]
      rfl
    · rw [uncommentFrom]
      · rfl
      · exact hquote
      · exact fun _ hslash ↦ absurd hslash hc
      · exact fun _ hslash ↦ absurd hslash hc

/-- A slash that opens no comment opens none when comments are left out. -/
theorem not_cons_uncommentFrom {x : Char} {cs : List Char} (hline : ∀ more, cs ≠ '/' :: more)
    (h : ∀ more, cs ≠ x :: more) (more : List Char) : uncommentFrom .plain cs ≠ x :: more := by
  intro hmore
  have hhead := head?_uncommentFrom hline
  rw [hmore, List.head?_cons, eq_comm, List.head?_eq_some_iff] at hhead
  obtain ⟨more', hcs⟩ := hhead
  exact h more' hcs

/-- **The scanner finds in what is left what it has left.** -/
theorem scanFrom_uncommentFrom (z : Zone) (cs : List Char) :
    scanFrom z.resumed (uncommentFrom z cs) = (scanFrom z cs).uncommented := by
  fun_induction scanFrom z cs with
  | case1 z => cases z <;> rfl
  | case2 rest ih | case6 rest ih | case9 rest ih =>
    rw [Scan.uncommented_behind_of_isKept rfl, ← ih]
    rfl
  | case3 rest ih | case4 rest ih | case11 rest ih =>
    rw [Scan.uncommented_behind_of_not_isKept rfl, ← ih]
    rfl
  | case5 c rest hquote hline hblock ih =>
    have hleft : uncommentFrom .plain (c :: rest) = c :: uncommentFrom .plain rest := by
      rw [uncommentFrom]
      · exact hquote
      · exact hline
      · exact hblock
    rw [Scan.uncommented_behind_of_isKept rfl, ← ih, hleft]
    show scanFrom .plain _ = _
    rw [scanFrom]
    · rfl
    · exact hquote
    · exact fun more hc ↦ not_cons_uncommentFrom (hline · hc) (hline · hc) more
    · exact fun more hc ↦ not_cons_uncommentFrom (hline · hc) (hblock · hc) more
  | case7 c rest ih =>
    rw [Scan.uncommented_behind_of_isKept rfl, ← ih]
    rfl
  | case8 c rest hquote hescape ih =>
    have hleft : uncommentFrom .quoted (c :: rest) = c :: uncommentFrom .quoted rest := by
      rw [uncommentFrom]
      · exact hquote
      · exact hescape
    rw [Scan.uncommented_behind_of_isKept rfl, ← ih, hleft]
    show scanFrom .quoted _ = _
    rw [scanFrom]
    · rfl
    · exact hquote
    · -- A backslash that nothing follows is the last character, also of what is left.
      intro d more hc hmore
      cases rest with
      | nil => exact absurd hmore (by simp [uncommentFrom])
      | cons d rest => exact hescape d rest hc rfl
  | case10 c rest hc ih =>
    rw [Scan.uncommented_behind_of_not_isKept rfl, ← ih, uncommentFrom]
    exact hc
  | case12 c rest hc ih =>
    rw [Scan.uncommented_behind_of_not_isKept rfl, ← ih, uncommentFrom]
    exact hc

/-! ### Whole texts -/

/-- Scans a text. -/
def scan (text : String) : Scan := scanFrom .plain text.toList

@[simp] theorem toList_uncomment (text : String) :
    (uncomment text).toList = uncommentFrom .plain text.toList := String.toList_ofList

theorem uncomment_append {u : String} (hu : (scan u).EndsPlain) (w : String) :
    uncomment (u ++ w) = uncomment u ++ uncomment w := by
  refine String.toList_inj.1 ?_
  rw [String.toList_append, toList_uncomment, toList_uncomment, toList_uncomment,
    String.toList_append, uncommentFrom_append hu]

/-! ### Comments and quotations -/

theorem uncommentFrom_lineComment_append {body : List Char} (h : '\n' ∉ body) (rest : List Char) :
    uncommentFrom .lineComment (body ++ '\n' :: rest) = '\n' :: uncommentFrom .plain rest := by
  rw [← filterMap_kept?_markFrom, markFrom_lineComment_append h, ← filterMap_kept?_markFrom]
  rfl

theorem uncommentFrom_lineComment {body : List Char} (h : '\n' ∉ body) :
    uncommentFrom .lineComment body = [] := by
  rw [← filterMap_kept?_markFrom, markFrom_lineComment h]
  rfl

theorem uncommentFrom_blockComment_append {body : List Char} (h : ¬ ['*', '/'] <:+: body)
    (rest : List Char) :
    uncommentFrom .blockComment (body ++ '*' :: '/' :: rest) = uncommentFrom .plain rest := by
  rw [← filterMap_kept?_markFrom, markFrom_blockComment_append h, filterMap_kept?_markFrom]

/-- What may stand between two quotes: a quote and a backslash only behind a backslash, which goes
with any character. -/
inductive IsQuotable : List Char → Prop
  | nil : IsQuotable []
  | plain {c : Char} {body : List Char} : c ≠ '"' → c ≠ '\\' → IsQuotable body →
    IsQuotable (c :: body)
  | escape {c : Char} {body : List Char} : IsQuotable body → IsQuotable ('\\' :: c :: body)

theorem uncommentFrom_quoted_append {body : List Char} (h : IsQuotable body) (rest : List Char) :
    uncommentFrom .quoted (body ++ '"' :: rest) = body ++ '"' :: uncommentFrom .plain rest := by
  induction h with
  | nil => rfl
  | plain hquote hbackslash _ ih =>
    rw [List.cons_append, uncommentFrom, ih]
    · rfl
    · exact hquote
    · exact fun _ _ hc _ ↦ hbackslash hc
  | escape _ ih =>
    rw [List.cons_append, List.cons_append, uncommentFrom, ih]
    rfl

/-- A text with its quotes. -/
def IsQuotation (s : String) : Prop := ∃ body, IsQuotable body ∧ s.toList = '"' :: (body ++ ['"'])

theorem uncomment_block_append {b : String} (hb : ¬ ['*', '/'] <:+: b.toList) (v : String) :
    uncomment ("/*" ++ b ++ "*/" ++ v) = uncomment v := by
  refine String.toList_inj.1 ?_
  simp [uncommentFrom, uncommentFrom_blockComment_append hb]

theorem uncomment_line_append {b : String} (hb : '\n' ∉ b.toList) (v : String) :
    uncomment ("//" ++ b ++ "\n" ++ v) = "\n" ++ uncomment v := by
  refine String.toList_inj.1 ?_
  simp [uncommentFrom, uncommentFrom_lineComment_append hb]

theorem uncomment_line {b : String} (hb : '\n' ∉ b.toList) : uncomment ("//" ++ b) = "" := by
  refine String.toList_inj.1 ?_
  simp [uncommentFrom, uncommentFrom_lineComment hb]

theorem uncomment_quotation_append {s : String} (hs : IsQuotation s) (v : String) :
    uncomment (s ++ v) = s ++ uncomment v := by
  obtain ⟨body, hbody, hs⟩ := hs
  refine String.toList_inj.1 ?_
  simp [hs, uncommentFrom, uncommentFrom_quoted_append hbody]

/-- **Comments are removed where they stand.** Behind a text that ends outside texts and comments,
and not with a slash that stands there, a comment is left out, but for the end of the line that ends
it, and a text with its quotes is kept. What stands in front and behind comes out as it would
alone. -/
theorem uncomment_between {u : String} (hu : (scan u).EndsPlain) (v : String) :
    (∀ b : String, ¬ ['*', '/'] <:+: b.toList →
      uncomment (u ++ "/*" ++ b ++ "*/" ++ v) = uncomment u ++ uncomment v) ∧
    (∀ b : String, '\n' ∉ b.toList →
      uncomment (u ++ "//" ++ b ++ "\n" ++ v) = uncomment u ++ "\n" ++ uncomment v ∧
      uncomment (u ++ "//" ++ b) = uncomment u) ∧
    ∀ s : String, IsQuotation s → uncomment (u ++ s ++ v) = uncomment u ++ s ++ uncomment v := by
  refine ⟨fun b hb ↦ ?_, fun b hb ↦ ⟨?_, ?_⟩, fun s hs ↦ ?_⟩
  · calc uncomment (u ++ "/*" ++ b ++ "*/" ++ v)
        = uncomment (u ++ ("/*" ++ b ++ "*/" ++ v)) := by simp only [String.append_assoc]
      _ = uncomment u ++ uncomment v := by rw [uncomment_append hu, uncomment_block_append hb]
  · calc uncomment (u ++ "//" ++ b ++ "\n" ++ v)
        = uncomment (u ++ ("//" ++ b ++ "\n" ++ v)) := by simp only [String.append_assoc]
      _ = uncomment u ++ "\n" ++ uncomment v := by
        rw [uncomment_append hu, uncomment_line_append hb, String.append_assoc]
  · rw [String.append_assoc, uncomment_append hu, uncomment_line hb, String.append_empty]
  · rw [String.append_assoc, uncomment_append hu, uncomment_quotation_append hs,
      String.append_assoc]

/-- A text with quotes, stars and slashes between its quotes, and a comment at its end. -/
def linkText : String := "\x7b\"to\": \"http://\\\"/*\"/* / \" */"

/-- Comments and a text behind `linkText`. -/
theorem uncomment_between_linkText :
    (scan linkText).EndsPlain ∧
      uncomment (linkText ++ "/*" ++ "/* \" // *" ++ "*/" ++ "\x7d") =
        uncomment linkText ++ uncomment "\x7d" ∧
      uncomment (linkText ++ "//" ++ " \" /* */" ++ "\n" ++ "\x7d") =
        uncomment linkText ++ "\n" ++ uncomment "\x7d" ∧
      uncomment (linkText ++ "\"\\\\/*\"" ++ "\x7d") =
        uncomment linkText ++ "\"\\\\/*\"" ++ uncomment "\x7d" := by
  have hu : (scan linkText).EndsPlain := ⟨by decide +kernel, by decide +kernel⟩
  have hs : IsQuotation "\"\\\\/*\"" :=
    ⟨['\\', '\\', '/', '*'], .escape (.plain (by decide) (by decide)
      (.plain (by decide) (by decide) .nil)), by decide +kernel⟩
  obtain ⟨hblock, hline, hquotation⟩ := uncomment_between hu "\x7d"
  exact ⟨hu, hblock _ (by decide +kernel), (hline _ (by decide +kernel)).1, hquotation _ hs⟩

/-- **No comment is left behind.** To leave comments out once more changes nothing, and every
character that is left stands in the zone in which it stood: no slash is joined to another one or to
a star, and no text begins or ends elsewhere. -/
theorem uncomment_uncomment (text : String) :
    uncomment (uncomment text) = uncomment text ∧
      (scan (uncomment text)).zoned = (scan text).kept := by
  have hscan : scan (uncomment text) = (scan text).uncommented := by
    rw [scan, toList_uncomment]
    exact scanFrom_uncommentFrom .plain text.toList
  refine ⟨String.toList_inj.1 ?_, congrArg Scan.zoned hscan⟩
  calc (uncomment (uncomment text)).toList
      = (scan (uncomment text)).kept.map Prod.snd := by rw [toList_uncomment, scan, map_snd_kept]
    _ = (scan text).kept.map Prod.snd := by rw [hscan, Scan.kept_uncommented]
    _ = (uncomment text).toList := by rw [scan, map_snd_kept, toList_uncomment]

end Provenance.Json
