import Provenance.Flags.Json
import Provenance.Proofs.Json.Scalars

/-!
# Settings survive their text

Nothing in the text of a setting names its kind: a switch is a word, a text stands in quotes, a
cleared setting is the word `null`. The kinds have no value in common, and each is found as what was
written (`Json.Reader.look_flag`, `Json.Reader.look_null`, `Json.Reader.ReadsKey.look`), so that a
setting is read back from its text with any blanks around it (`Setting.ofText_spaced`). A text that
spells one of the words keeps its quotes. It comes back as a text, and switches nothing on.
-/

namespace Provenance

/-- A key that has just been written is on if the setting counts as on. -/
theorem Flags.isOn_set_self (flags : Flags) (key : String) (s : Setting) :
    (flags.set key s).isOn key = s.isOn := by
  simp [isOn]

namespace Setting

open Json Json.Reader

/-- A written setting is read. -/
theorem reads_write (l : Layout) (level : ℕ) (s : Setting) :
    reader.Reads (s.toJson.write l level) s := by
  have hany : any.Reads (s.toJson.write l level) s.toJson := by
    cases s with
    | switch on => exact Reads.bind (look_flag on l level) fun _ ↦ rfl
    | text value =>
      rw [toJson, write]
      exact Reads.bind (readsKey_quote value).look fun _ ↦ rfl
    | cleared => exact Reads.bind (look_null l level) fun _ ↦ rfl
  refine Reads.bind hany fun c ↦ ?_
  simp only [ofJson?_toJson]
  rfl

/-- **Round trip.** A setting is read back from its compact text with any blanks around it. What is
read counts as on, under whatever key it is stored, exactly if the setting did before. -/
theorem ofText_spaced (s : Setting) {before after : List Char} (hbefore : Blank before)
    (hafter : Blank after) :
    ofText (String.ofList before ++ s.toJson.compact ++ String.ofList after) = .ok s ∧
    ∀ (read : Setting) (flags : Flags) (key : String),
      ofText (String.ofList before ++ s.toJson.compact ++ String.ofList after) = .ok read →
        (flags.set key read).isOn key = s.isOn := by
  have hread : ofText (String.ofList before ++ s.toJson.compact ++ String.ofList after) = .ok s := by
    rw [compact, ← String.ofList_append, ← String.ofList_append, List.append_assoc]
    exact (reads_write .compact 0 s).parse hbefore hafter
  refine ⟨hread, fun read flags key h ↦ ?_⟩
  obtain rfl : s = read := Except.ok.inj (hread.symm.trans h)
  exact Flags.isOn_set_self flags key s

/-- A text that spells a word survives with blanks around it and switches nothing on, and so does one
that has to be escaped. -/
theorem ofText_spaced_lookalike :
    let word : Setting := .text "true"
    let escaped : Setting := .text "null\"\\\x01\n😀"
    (Blank ['\n', '\t'] ∧ Blank [' ', '\r']) ∧
      (ofText (String.ofList ['\n', '\t'] ++ word.toJson.compact ++ String.ofList [' ', '\r']) =
          .ok word ∧
        (Flags.empty.set "debug" word).isOn "debug" = word.isOn ∧ word.isOn = false) ∧
      ofText (String.ofList ['\n', '\t'] ++ escaped.toJson.compact ++ String.ofList [' ', '\r']) =
        .ok escaped := by
  intro word escaped
  have hbefore : Blank ['\n', '\t'] := by simp [Blank, isBlank]
  have hafter : Blank [' ', '\r'] := by simp [Blank, isBlank]
  obtain ⟨hread, hon⟩ := ofText_spaced word hbefore hafter
  exact ⟨⟨hbefore, hafter⟩, ⟨hread, hon _ .empty "debug" hread, rfl⟩,
    (ofText_spaced escaped hbefore hafter).1⟩

end Setting

end Provenance
