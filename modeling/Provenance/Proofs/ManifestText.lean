import Provenance.Manifest
import Provenance.Proofs.Json.Choice

/-!
# The texts of a manifest

Forms say which documents stand for locations, spans, fragments and manifests; each reader accepts
its form. A text spells a manifest (`Manifest.IsSpelled`) if it has the tokens of a document that
stands for it, with blanks between them. So what may vary in the text of a manifest is said once,
by `Schema.record` and `Form.choice`:

* A record is an object or a list. In an object members come in any order, with members of other
  keys and any values between them, and a field that has its default may be left out. In a list such
  fields may be left out at the end.
* The kind of a fragment is its name, or an object with the name as its only key and `null`.
* Texts and keys are spelled with any escapes, and blanks stand wherever tokens meet.

A text is read to a manifest exactly if it spells the manifest
(`Manifest.ofText_eq_ok_iff_isSpelled`). A text spells one manifest at most, since reading is a
function.
-/

namespace Provenance

open Json Json.Reader

/-! ### Forms -/

/-- The documents that stand for a location. -/
def Location.form : Form Location :=
  (Schema.record (.field "file" .text none (.field "line" .word none
    (.field "col" .word none .done)))).map
    fun (file, line, col, ()) ↦ { file, line, col }

/-- The documents that stand for a span. -/
def Span.form : Form Span :=
  (Schema.record (.field "loc" Location.form none (.field "start" .word none
    (.field "end" .word none .done)))).map
    fun (location, first, last, ()) ↦ { location, first, last }

/-- The documents that stand for a fragment. -/
def Fragment.form : Form Fragment :=
  (Schema.record
    (.field "name" .text none
      (.field "code" .text none
        (.field "kind" (.choice Kind.names) (some .normal)
          (.field "inline" .flag (some false)
            (.field "entries" (.list Span.form) (some []) .done)))))).map
    fun (name, code, kind, inlinable, spans, ()) ↦ { name, code, kind, inlinable, spans }

/-- The documents that stand for a manifest. -/
def Manifest.form : Form Manifest :=
  (Schema.record
    (.field "name" .text none (.field "fragments" (.list Fragment.form) (some []) .done))).map
    fun (name, fragments, ()) ↦ { name, fragments }

/-! Every manifest has a document: all records may be written as lists. -/

theorem Location.exists_form (l : Location) : ∃ d, form l d := by
  obtain ⟨file, hfile⟩ := Form.exists_text l.file
  obtain ⟨line, hline⟩ := Form.exists_word l.line
  obtain ⟨col, hcol⟩ := Form.exists_word l.col
  exact ⟨.list [file, line, col], (_, _, _, ()), rfl, .inl ⟨_, rfl, hfile, hline, hcol, rfl⟩⟩

theorem Span.exists_form (s : Span) : ∃ d, form s d := by
  obtain ⟨location, hlocation⟩ := s.location.exists_form
  obtain ⟨first, hfirst⟩ := Form.exists_word s.first
  obtain ⟨last, hlast⟩ := Form.exists_word s.last
  exact ⟨.list [location, first, last], (_, _, _, ()), rfl,
    .inl ⟨_, rfl, hlocation, hfirst, hlast, rfl⟩⟩

theorem Kind.exists_form (k : Kind) : ∃ d, Form.choice names k d := by
  cases k with
  | normal => exact Form.exists_choice (s := "normal") rfl
  | debug => exact Form.exists_choice (s := "debug") rfl
  | external => exact Form.exists_choice (s := "external") rfl

theorem Fragment.exists_form (f : Fragment) : ∃ d, form f d := by
  obtain ⟨name, hname⟩ := Form.exists_text f.name
  obtain ⟨code, hcode⟩ := Form.exists_text f.code
  obtain ⟨kind, hkind⟩ := f.kind.exists_form
  obtain ⟨inlinable, hinlinable⟩ := Form.exists_flag f.inlinable
  obtain ⟨spans, hspans⟩ := Form.exists_list Span.exists_form f.spans
  exact ⟨.list [name, code, kind, inlinable, spans], (_, _, _, _, _, ()), rfl,
    .inl ⟨_, rfl, hname, hcode, hkind, hinlinable, hspans, rfl⟩⟩

theorem Manifest.exists_form (m : Manifest) : ∃ d, form m d := by
  obtain ⟨name, hname⟩ := Form.exists_text m.name
  obtain ⟨fragments, hfragments⟩ := Form.exists_list Fragment.exists_form m.fragments
  exact ⟨.list [name, fragments], (_, _, ()), rfl, .inl ⟨_, rfl, hname, hfragments, rfl⟩⟩

/-! ### Readers -/

theorem Location.accepts_reader : reader.Accepts form :=
  (Describes.accepts_record
    (.field (accepts_textAs .text) (.field accepts_word (.field accepts_word .done)))
    (by decide) _).map _

theorem Span.accepts_reader : reader.Accepts form :=
  (Describes.accepts_record
    (.field Location.accepts_reader (.field accepts_word (.field accepts_word .done)))
    (by decide) _).map _

theorem Fragment.accepts_reader : reader.Accepts form :=
  (Describes.accepts_record
    (.field (accepts_textAs .text) (.field (accepts_textAs .text)
      (.field (accepts_choice Kind.names) (.field accepts_flag
        (.field Span.accepts_reader.list .done)))))
    (by decide) _).map _

namespace Manifest

theorem accepts_reader : reader.Accepts form :=
  (Describes.accepts_record
    (.field (accepts_textAs .text) (.field Fragment.accepts_reader.list .done))
    (by decide) _).map _

/-! ### Spelling -/

/-- The text has the tokens of a document that stands for the manifest, with blanks between them. -/
def IsSpelled (text : String) (m : Manifest) : Prop :=
  ∃ d, form m d ∧ Spaced Blank Blank d.tokens text.toList

/-- Every manifest is spelled by a text. -/
theorem exists_isSpelled (m : Manifest) : ∃ text, IsSpelled text m := by
  obtain ⟨d, hd⟩ := m.exists_form
  refine ⟨String.ofList d.tokens.flatten, d, hd, ?_⟩
  rw [String.toList_ofList]
  exact spaced_flatten blank_nil blank_nil d.tokens

/-- **Spelling does not matter.** Every manifest is spelled by a text, and every text that spells it
is read to it. A text that spells no manifest is not read to any. -/
theorem ofText_eq_ok_iff_isSpelled (m : Manifest) :
    (∃ text, IsSpelled text m) ∧ ∀ text, ofText text = .ok m ↔ IsSpelled text m :=
  ⟨m.exists_isSpelled, fun _ ↦ accepts_reader.parse_eq_ok_iff⟩

/-- A manifest with a fragment that has defaults and one that has none. -/
def scattered : Manifest :=
  ⟨"😀", [⟨"f", "f\n", .debug, false, []⟩,
    ⟨"g", "", .external, true, [⟨⟨"a", 1, 20⟩, 0, 3⟩, ⟨⟨"", 0, 0⟩, 7, 4294967295⟩]⟩]⟩

/-- A text of it in which all records are lists. -/
def compactText : String :=
  "[\"😀\",[[\"f\",\"f\\n\",\"debug\"],[\"g\",\"\",\"external\",true," ++
    "[[[\"a\",1,20],0,3],[[\"\",0,0],7,4294967295]]]]]"

/-- A text of it with members out of order, unknown ones among them, and escapes. -/
def scatteredText : String :=
  "\t\x7b\"x\":[\x7b\"name\":[]\x7d,-0.5e+3],\"fragments\" :[
[\"\\u0066\",\"f\\u000a\",\x7b\"debug\": null\x7d],\x7b\"entries\":[[[\"a\",1,20],0,3],
\x7b\"end\":4294967295,\"loc\":\x7b\"col\":0,\"x\":1e9,\"line\":0,\"file\":\"\"\x7d,
\"start\":7\x7d],\"inline\":true,\"code\":\"\",\"kind\":\"e\\u0078ternal\",\"name\":\"g\"\x7d],
\"n\\u0061me\":\"\\ud83d\\ude00\"\x7d\n"

/-- Both texts spell the manifest, so they are read to the same. -/
theorem ofText_eq_ok_iff_isSpelled_scattered :
    IsSpelled compactText scattered ∧ IsSpelled scatteredText scattered ∧
      ofText compactText = ofText scatteredText := by
  -- From here on the text is a list of characters.
  set_option maxRecDepth 3000 in
  have htext : scatteredText = String.ofList _ := rfl
  have hcompact : ofText compactText = .ok scattered := by decide +kernel
  have hscattered : ofText scatteredText = .ok scattered := by
    rw [htext, ofText, Reader.parse, Cursor.start, String.toList_ofList]
    decide +kernel
  obtain ⟨-, hspelled⟩ := ofText_eq_ok_iff_isSpelled scattered
  exact ⟨(hspelled _).1 hcompact, (hspelled _).1 hscattered, hcompact.trans hscattered.symm⟩

end Manifest

end Provenance
