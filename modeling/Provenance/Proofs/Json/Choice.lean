import Provenance.Proofs.Json.Schema

/-!
# The documents that stand for a choice

One of a few values is chosen by its name. The name stands alone, or it is the key of an object with
a single member, which is `null`. In both shapes its characters may be spelled with escapes. A
reader of choices accepts these documents and no others (`Reader.accepts_choice`).
-/

namespace Provenance.Json

variable {α : Type} {known : List (String × α)} {a : α} {c c' : Cursor} {b : List Char} {s : String}

/-- A value is chosen by its name, as a text or as the key of the only member of an object. -/
def Form.choice (known : List (String × α)) : Form α := fun a d ↦
  ∃ s, known.lookup s = some a ∧
    (text s d ∨ ∃ k : Body, Encodes k.chars s.toList ∧ d = .object [(k, .null)])

theorem Form.exists_choice (h : known.lookup s = some a) : ∃ d, choice known a d := by
  obtain ⟨d, hd⟩ := exists_text s
  exact ⟨d, s, h, .inl hd⟩

namespace Reader

/-! ### Names -/

/-- A name is read to what it stands for. -/
theorem readsKey_name (hs : known.lookup s = some a) (hb : Encodes b s.toList) :
    (name known).ReadsKey (b ++ ['"']) a := by
  intro rest line
  obtain ⟨line', htext⟩ := readsKey_of_encodes hb rest line
  exact ⟨line', by simp only [name, htext, hs, bind, Except.bind]; rfl⟩

/-- What is read as a name is the name of what comes out. -/
theorem exists_of_name_eq_ok (h : name known c = .ok (a, c')) :
    ∃ s b, known.lookup s = some a ∧ Encodes b s.toList ∧ c.rest = b ++ '"' :: c'.rest := by
  obtain ⟨⟨s, c₁⟩, htext, h⟩ := exists_of_bind_eq_ok h
  obtain ⟨b, hb, hrest⟩ := exists_encodes_of_textRest_eq_ok htext
  simp only at h
  split at h
  · next hs =>
    cases h
    exact ⟨s, b, hs, hb, hrest⟩
  · exact absurd h (stop_ne_ok _ _ _)

/-! ### Choices -/

theorem reads_choice_text (hs : known.lookup s = some a) (hb : Encodes b s.toList) :
    (choice known).Reads ('"' :: (b ++ ['"'])) a := by
  refine .of_skipBlanks rfl (by decide) fun {c rest line} hskip _ ↦ ?_
  obtain ⟨line', hname⟩ := readsKey_name hs hb rest line
  exact ⟨line', by rw [choice, hskip]; exact hname⟩

/-- The value of the only member is `null`, and nothing may follow it. -/
theorem reads_choice_object {k : Body} {t : List Char} (hs : known.lookup s = some a)
    (hk : Encodes k.chars s.toList) (ht : Trimmed (Document.object [(k, .null)]).tokens t) :
    (choice known).Reads t a := by
  obtain ⟨u, rfl, hu⟩ := Document.exists_of_trimmed_object ht
  refine .of_skipBlanks rfl (by decide) fun {c rest line₁} hskip _ ↦ ?_
  obtain ⟨_, b, b', t, more, rfl, hb, hb', ht, hmore, hnext⟩ := nextKey_cons hu
  obtain @⟨_, e, he⟩ := hmore
  obtain ⟨line₂, hnext⟩ := hnext rest line₁
  rw [List.append_assoc e, List.singleton_append] at hnext
  have hdelimits : Delimits (e ++ '\x7d' :: rest) := he.delimits (delimits_cons (by decide) _)
  obtain ⟨line₃, hname⟩ :=
    readsKey_name hs hk (b ++ ':' :: (b' ++ (t ++ (e ++ '\x7d' :: rest)))) line₂
  obtain ⟨line₄, hcolon⟩ := exists_skipColon_eq hb (b' ++ (t ++ (e ++ '\x7d' :: rest))) line₃
  obtain ⟨line₅, hnull⟩ := (reads_null ht).reads line₄ hb' hdelimits
  obtain ⟨line₆, hend⟩ := exists_skipBlanks_eq he (x := '\x7d') rfl rest line₅
  refine ⟨line₆, ?_⟩
  rw [choice, hskip]
  simp only [hnext, hname, hcolon, hnull, hend, bind, Except.bind, if_true]
  rfl

theorem accepts_choice (known : List (String × α)) :
    (choice known).Accepts (Form.choice known) where
  takes := by
    rintro a _ ⟨s, hs, ⟨b, rfl, hb⟩ | ⟨k, hk, rfl⟩⟩ t ht
    · rw [Document.tokens, trimmed_singleton_iff] at ht
      exact ht ▸ reads_choice_text hs hb
    · exact reads_choice_object hs hk ht
  yields := by
    intro c c' a hread
    rw [choice] at hread
    split at hread
    · exact absurd hread (by simp)
    · next hskip =>
      obtain ⟨s, b, hs, hb, hrest⟩ := exists_of_name_eq_ok hread
      refine ⟨.text ⟨b, hb.isBody⟩, ⟨s, hs, .inl ⟨_, rfl, hb⟩⟩, ?_⟩
      rw [Document.tokens]
      exact leads_of_skipBlanks hskip (hrest.trans (by simp)) .nil
    · next hskip =>
      obtain ⟨⟨isKey, c₁⟩, hnext, hread⟩ := exists_of_bind_eq_ok hread
      obtain ⟨g, hg, ⟨rfl, hquote⟩ | ⟨rfl, -⟩⟩ := Describes.cases_of_nextKey_eq_ok hnext
      · obtain ⟨⟨a', c₂⟩, hname, hread⟩ := exists_of_bind_eq_ok hread
        obtain ⟨c₃, hcolon, hread⟩ := exists_of_bind_eq_ok hread
        obtain ⟨⟨⟨⟩, c₄⟩, hnull, hread⟩ := exists_of_bind_eq_ok hread
        obtain ⟨s, b, hs, hb, hrest⟩ := exists_of_name_eq_ok hname
        obtain ⟨d, rfl, hleads⟩ := accepts_null.yields hnull
        simp only at hread
        split at hread
        · exact absurd hread (by simp)
        · next hclose =>
          cases hread
          refine ⟨.object [(⟨b, hb.isBody⟩, .null)], ⟨s, hs, .inr ⟨_, hb, rfl⟩⟩, ?_⟩
          rw [Document.tokens]
          refine leads_of_skipBlanks (t := []) hskip rfl ?_
          refine Describes.leads_memberTokens_cons hg hquote hrest
            ((leads_of_skipColon_eq_ok hcolon).append hleads) ?_
          rw [Document.memberTokens]
          exact leads_of_skipBlanks (t := []) hclose rfl .nil
        · exact absurd hread (stop_ne_ok _ _ _)
      · exact absurd hread (stop_ne_ok _ _ _)
    · exact absurd hread (stop_ne_ok _ _ _)

end Reader

end Provenance.Json
