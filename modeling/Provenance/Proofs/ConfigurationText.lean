import Provenance.Project
import Provenance.Proofs.Json.CommentPlaces
import Provenance.Proofs.Json.Schema

/-!
# The texts of a configuration

Forms say which documents stand for options, projects and configurations, with the keys and the
defaults of their fields; each reader accepts its form. A text spells a configuration
(`Configuration.IsSpelled`) if it has the tokens of a document that stands for it, with blanks and
comments between them.

A text that spells a configuration is read to it (`Configuration.ofText_of_form`), and every
configuration is spelled by a text (`Configuration.exists_isSpelled`). The converse fails where a
comment is no blank: in a text that is read, a comment may stand inside a word or a numeral, and the
last comment may not be closed. These are the only exceptions (`Configuration.parse_respaced_iff`).
-/

namespace Provenance

open Json Json.Reader

/-! ### Forms -/

/-- The documents that stand for unstable options. -/
def Experimental.form : Form Experimental :=
  (Schema.record (.field "inline" (.option .flag) (some none) .done)).map
    fun (inline, ()) ↦ { inline }

/-- The documents that stand for options. -/
def Options.form : Form Options :=
  (Schema.record
    (.field "debug" (.option .flag) (some none)
      (.field "external" (.option .flag) (some none)
        (.field "ipfsAbiGetter" (.option .flag) (some none)
          (.field "interfacesGetter" (.option .flag) (some none)
            (.field "experimental" (.option Experimental.form) (some none) .done)))))).map
    fun (debug, external, ipfsAbiGetter, interfacesGetter, experimental, ()) ↦
      { debug, external, ipfsAbiGetter, interfacesGetter, experimental }

/-- The documents that stand for a project. -/
def Project.form : Form Project :=
  (Schema.record
    (.field "name" .text none
      (.field "path" .text none
        (.field "output" .text none
          (.field "options" Options.form (some .unset) .done))))).map
    fun (name, path, output, options, ()) ↦ { name, path, output, options }

/-- The documents that stand for a configuration. -/
def Configuration.form : Form Configuration :=
  (Schema.record (.field "projects" (.list Project.form) (some []) .done)).map
    fun (projects, ()) ↦ { projects }

/-! Every configuration has a document: projects and options may be written as lists. -/

theorem Experimental.exists_form (e : Experimental) : ∃ d, form e d := by
  obtain ⟨d, hd⟩ := Form.exists_option Form.exists_flag e.inline
  exact ⟨.list [d], (e.inline, ()), rfl, .inl ⟨_, rfl, hd, rfl⟩⟩

theorem Options.exists_form (o : Options) : ∃ d, form o d := by
  have hflag := Form.exists_option Form.exists_flag
  obtain ⟨debug, hdebug⟩ := hflag o.debug
  obtain ⟨external, hexternal⟩ := hflag o.external
  obtain ⟨ipfs, hipfs⟩ := hflag o.ipfsAbiGetter
  obtain ⟨interfaces, hinterfaces⟩ := hflag o.interfacesGetter
  obtain ⟨experimental, hexperimental⟩ := Form.exists_option Experimental.exists_form o.experimental
  exact ⟨.list [debug, external, ipfs, interfaces, experimental], (_, _, _, _, _, ()), rfl,
    .inl ⟨_, rfl, hdebug, hexternal, hipfs, hinterfaces, hexperimental, rfl⟩⟩

theorem Project.exists_form (p : Project) : ∃ d, form p d := by
  obtain ⟨name, hname⟩ := Form.exists_text p.name
  obtain ⟨path, hpath⟩ := Form.exists_text p.path
  obtain ⟨output, houtput⟩ := Form.exists_text p.output
  obtain ⟨options, hoptions⟩ := p.options.exists_form
  exact ⟨.list [name, path, output, options], (_, _, _, _, ()), rfl,
    .inl ⟨_, rfl, hname, hpath, houtput, hoptions, rfl⟩⟩

theorem Configuration.exists_form (c : Configuration) : ∃ d, form c d := by
  obtain ⟨d, hd⟩ := Form.exists_list Project.exists_form c.projects
  exact ⟨.list [d], (c.projects, ()), rfl, .inl ⟨_, rfl, hd, rfl⟩⟩

/-! ### Readers -/

theorem accepts_option_flag : (Reader.option Reader.flag).Accepts (.option .flag) :=
  accepts_flag.option fun _ h ↦ absurd h (by simp [Form.flag])

theorem Experimental.accepts_reader : reader.Accepts form :=
  (Describes.accepts_record (.field accepts_option_flag .done) (by decide) _).map _

/-- Unstable options are no `null`. -/
theorem Experimental.not_form_null (e : Experimental) : ¬ form e .null := by
  rintro ⟨_, -, ⟨_, h, -⟩ | ⟨_, _, h, -⟩⟩ <;> exact absurd h (by simp)

theorem Options.accepts_reader : reader.Accepts form :=
  (Describes.accepts_record
    (.field accepts_option_flag (.field accepts_option_flag (.field accepts_option_flag
      (.field accepts_option_flag (.field
        (Experimental.accepts_reader.option Experimental.not_form_null) .done)))))
    (by decide) _).map _

theorem Project.accepts_reader : reader.Accepts form :=
  (Describes.accepts_record
    (.field (accepts_textAs .text) (.field (accepts_textAs .path) (.field (accepts_textAs .path)
      (.field Options.accepts_reader .done))))
    (by decide) _).map _

namespace Configuration

theorem accepts_reader : reader.Accepts form :=
  (Describes.accepts_record (.field Project.accepts_reader.list .done) (by decide) _).map _

/-! ### Spelling -/

/-- The text has the tokens of a document that stands for the configuration, with blanks and
comments between them. -/
def IsSpelled (text : String) (c : Configuration) : Prop :=
  ∃ d, form c d ∧ Spaced Gap Trailing d.tokens text.toList

/-- Every configuration is spelled by a text. -/
theorem exists_isSpelled (c : Configuration) : ∃ text, IsSpelled text c := by
  obtain ⟨d, hd⟩ := c.exists_form
  refine ⟨String.ofList d.tokens.flatten, d, hd, ?_⟩
  rw [String.toList_ofList]
  exact spaced_flatten .nil (.gap .nil) d.tokens

variable {text : String} {c : Configuration}

/-- A configuration is spelled exactly if it is read, every comment is closed and none splits a word
or a numeral. -/
theorem isSpelled_iff_ofText :
    IsSpelled text c ↔ ofText text = .ok c ∧ ClosesComments text ∧ splitsToken text = false := by
  rw [ofText, accepts_reader.parse_eq_ok_iff]
  simp only [IsSpelled, spaced_gap_iff_uncomment, ← exists_and_right, and_assoc]

/-- A configuration is spelled exactly if it is read with a blank in the place of each comment and
every comment is closed. -/
theorem isSpelled_iff_respaced :
    IsSpelled text c ↔ reader.parse (respaced text) = .ok c ∧ ClosesComments text := by
  rw [accepts_reader.parse_eq_ok_iff]
  simp only [IsSpelled, spaced_gap_iff_respaced, ← exists_and_right, and_assoc]

/-- **Texts with comments are read.** A text that has the tokens of a document which stands for a
configuration is read to the configuration, whatever blanks and comments stand between the tokens,
before the first and behind the last. -/
theorem ofText_of_form {d : Document} (hd : form c d)
    (h : Spaced Gap Trailing d.tokens text.toList) : ofText text = .ok c :=
  (isSpelled_iff_ofText.1 ⟨d, hd, h⟩).1

/-- A project whose texts look like comments. -/
def annotated : Configuration := ⟨[⟨"a\"//😀", "/**/", "\\", ⟨some true, none, none, none, none⟩⟩]⟩

/-- A text of it, with comments. Members stand out of order, one is unknown, and some are left out.
-/
def annotatedText : String :=
  "/***/\x7b\"x//\":[1.5,/* \" /**/\x7b\x7d], // x
\"pro\\u006aects\"/*:*/:[\x7b\"output\":\"\\\\\",\"path\":\"\\/**\\/\",
\"options\":\x7b\"debug\":/**//*-*/true\x7d,\"name\":\"a\\\"//\\ud83d\\ude00\"/*,*/\x7d]\x7d // end"

/-- The text has the tokens of a document that stands for the project, and is read to it. -/
theorem ofText_of_form_annotated :
    ∃ d, form annotated d ∧ Spaced Gap Trailing d.tokens annotatedText.toList ∧
      ofText annotatedText = .ok annotated := by
  -- From here on the text is a list of characters.
  set_option maxRecDepth 1000 in
  have htext : annotatedText = String.ofList _ := rfl
  have hclosed : ClosesComments annotatedText := by
    rw [htext, ClosesComments, marks, String.toList_ofList]
    decide +kernel
  have hread : reader.parse (respaced annotatedText) = .ok annotated := by
    rw [htext, respaced, marks, Reader.parse, Cursor.start, String.toList_ofList,
      String.toList_ofList]
    decide +kernel
  obtain ⟨d, hd, hspaced⟩ := isSpelled_iff_respaced.2 ⟨hread, hclosed⟩
  exact ⟨d, hd, hspaced, ofText_of_form hd hspaced⟩

/-- **Where a comment is no blank.** What is read is a document once the comments are left out. The
comments of the text are closed, and with a blank in the place of each it is read to the same,
exactly if they are closed and none splits a word or a numeral; then the text spells what is read. A
last comment that is not closed can be closed. -/
theorem parse_respaced_iff (h : ofText text = .ok c) :
    (∃ d, form c d ∧ Spaced Blank Blank d.tokens (uncomment text).toList) ∧
      (ClosesComments text ∧ reader.parse (respaced text) = .ok c ↔
        ClosesComments text ∧ splitsToken text = false) ∧
      (ClosesComments text → splitsToken text = false → IsSpelled text c) ∧
      (¬ ClosesComments text → ClosesComments (text ++ "*/") ∧ ofText (text ++ "*/") = .ok c) := by
  have hspelled : IsSpelled text c ↔ ClosesComments text ∧ splitsToken text = false := by
    rw [isSpelled_iff_ofText, and_iff_right h]
  refine ⟨accepts_reader.parse_eq_ok_iff.1 h, ?_, fun hclosed hsplit ↦ hspelled.2 ⟨hclosed, hsplit⟩,
    fun hopen ↦ ?_⟩
  · rw [← hspelled, isSpelled_iff_respaced, and_comm]
  · obtain ⟨hclosed, huncomment⟩ := closesComments_append_close hopen
    exact ⟨hclosed, by rwa [ofText, huncomment]⟩

/-- A text in which a comment stands inside a word. -/
def gluedText : String := "\x7b\"x\":tru/**/e\x7d"

/-- A text with a comment behind its only member. -/
def notedText : String := "\x7b\"projects\":[]/* none */\x7d"

/-- A text whose last comment is not closed. -/
def openText : String := "\x7b\"projects\":[]\x7d /*"

/-- Of three texts that are read, the first spells what is read, the second is not read to it with a
blank in the place of its comment, and the last comment of the third can be closed. -/
theorem parse_respaced_iff_texts :
    IsSpelled notedText ⟨[]⟩ ∧ reader.parse (respaced gluedText) ≠ .ok ⟨[]⟩ ∧
      ¬ ClosesComments openText ∧ ofText (openText ++ "*/") = .ok ⟨[]⟩ := by
  have hnoted : ofText notedText = .ok ⟨[]⟩ := by decide +kernel
  have hglued : ofText gluedText = .ok ⟨[]⟩ := by decide +kernel
  have hopen : ofText openText = .ok ⟨[]⟩ := by decide +kernel
  have hclosed : ClosesComments gluedText := by decide +kernel
  have hsplit : ¬ splitsToken gluedText = false := by decide +kernel
  have hcut : ¬ ClosesComments openText := by decide +kernel
  obtain ⟨-, -, hspelled, -⟩ := parse_respaced_iff hnoted
  obtain ⟨-, hrespaced, -⟩ := parse_respaced_iff hglued
  obtain ⟨-, -, -, hmended⟩ := parse_respaced_iff hopen
  exact ⟨hspelled (by decide +kernel) (by decide +kernel),
    fun h ↦ hsplit (hrespaced.1 ⟨hclosed, h⟩).2, hcut, (hmended hcut).2⟩

/-- Texts are read whose last comment is not closed, and texts that are not read with a blank in the
place of a comment. -/
theorem not_forall_closesComments_and_parse_respaced :
    ¬ (∀ text c, ofText text = .ok c → ClosesComments text) ∧
      ¬ ∀ text c, ofText text = .ok c → ClosesComments text →
        reader.parse (respaced text) = .ok c := by
  constructor
  · intro h
    have hclosed : ClosesComments openText := h openText ⟨[]⟩ (by decide +kernel)
    exact absurd hclosed (by decide +kernel)
  · intro h
    have hread : reader.parse (respaced gluedText) = .ok ⟨[]⟩ :=
      h gluedText ⟨[]⟩ (by decide +kernel) (by decide +kernel)
    exact absurd hread (by decide +kernel)

end Configuration

end Provenance
