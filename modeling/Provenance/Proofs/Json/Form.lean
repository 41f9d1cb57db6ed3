import Provenance.Proofs.Json.Document
import Provenance.Proofs.Json.Results

/-!
# The documents that stand for a value

A form says which documents stand for a value; it does not mention a reader. A reader accepts a form
(`Reader.Accepts`) if it takes the text of every document that stands for a value, and if what it
returns has been read from such a document. So a whole text is parsed to a value exactly if it
spells a document of the value, with blanks between the tokens (`Reader.Accepts.parse_eq_ok_iff`).
-/

namespace Provenance.Json

variable {α β : Type}

/-- Which documents stand for a value. -/
abbrev Form (α : Type) := α → Document → Prop

namespace Form

/-- A text stands for the characters that it encodes. -/
def text : Form String := fun s d ↦ ∃ b : Body, d = .text b ∧ Encodes b.chars s.toList

/-- Either word stands for its value. -/
def flag : Form Bool := fun b d ↦ d = .flag b

/-- The word `null` stands for nothing else. -/
def null : Form Unit := fun _ d ↦ d = .null

/-- Digits stand for the natural number that they spell. -/
def natural : Form ℕ := fun n d ↦ ∃ h, d = .number false (Nat.toDigits 10 n) h

/-- Digits stand for the number of 32 bits that they spell. -/
def word : Form UInt32 := fun w d ↦ natural w.toNat d

/-- The word `null` stands for no value. -/
def option (form : Form α) : Form (Option α)
  | none, d => d = .null
  | some a, d => form a d

/-- A list stands for the values that its elements stand for, in their order. -/
def list (form : Form α) : Form (List α) :=
  fun as d ↦ ∃ ds, d = .list ds ∧ List.Forall₂ form as ds

/-- What stands for a value stands for what is made of it. -/
def map (f : α → β) (form : Form α) : Form β := fun b d ↦ ∃ a, f a = b ∧ form a d

end Form

/-! Every value has a document if its parts have. -/

namespace Form

variable {form : Form α}

theorem exists_text (s : String) : ∃ d, text s d :=
  ⟨_, ⟨_, (encodes_flatMap_escape s.toList).isBody⟩, rfl, encodes_flatMap_escape s.toList⟩

theorem exists_flag (b : Bool) : ∃ d, flag b d := ⟨.flag b, rfl⟩

theorem exists_word (w : UInt32) : ∃ d, word w d :=
  ⟨_, ⟨_, Numeral.numeralText_toDigits w.toNat⟩, rfl⟩

theorem exists_option (h : ∀ a, ∃ d, form a d) (a? : Option α) : ∃ d, option form a? d := by
  cases a? with
  | none => exact ⟨.null, rfl⟩
  | some a => exact h a

theorem exists_list (h : ∀ a, ∃ d, form a d) (as : List α) : ∃ d, list form as d := by
  suffices hds : ∃ ds, List.Forall₂ form as ds from ⟨_, hds.choose, rfl, hds.choose_spec⟩
  induction as with
  | nil => exact ⟨[], .nil⟩
  | cons a as ih =>
    obtain ⟨d, hd⟩ := h a
    obtain ⟨ds, hds⟩ := ih
    exact ⟨d :: ds, .cons hd hds⟩

end Form

namespace Reader

/-- The reader takes the documents of the form and returns only what they stand for. -/
structure Accepts (read : Reader α) (form : Form α) : Prop where
  /-- A document that stands for a value is read to it. -/
  takes : ∀ {a : α} {d : Document}, form a d → ∀ t, Trimmed d.tokens t → read.Reads t a
  /-- A value that is returned has been read from a document that stands for it. -/
  yields : ∀ {c c' : Cursor} {a : α}, read c = .ok (a, c') →
    ∃ d, form a d ∧ Leads Blank d.tokens c.rest c'.rest

variable {read : Reader α} {form : Form α} {c c' : Cursor} {rest : List Char} {line : ℕ}

/-! ### Blanks and words -/

/-- What is passed over in front of a token are blanks. -/
theorem exists_blank_append_eq (c : Cursor) : ∃ b, Blank b ∧ c.rest = b ++ c.skipBlanks.rest := by
  obtain ⟨rest, line⟩ := c
  induction rest generalizing line with
  | nil => exact ⟨[], blank_nil, rfl⟩
  | cons x rest ih =>
    by_cases hx : isBlank x = true
    · obtain ⟨b, hb, hrest⟩ := ih (lineAfter x line)
      refine ⟨x :: b, .cons hx hb, ?_⟩
      simp only [Cursor.skipBlanks, dropBlanks, hx, if_true, List.cons_append] at hrest ⊢
      rw [← hrest]
    · refine ⟨[], blank_nil, ?_⟩
      simp [Cursor.skipBlanks, dropBlanks, hx]

/-- A token that is found behind blanks. -/
theorem leads_of_skipBlanks {x : Char} {t u v : List Char} {ts : List Token}
    (hskip : c.skipBlanks = ⟨x :: rest, line⟩) (hrest : rest = t ++ u) (h : Leads Blank ts u v) :
    Leads Blank ((x :: t) :: ts) c.rest v := by
  obtain ⟨b, hb, hc⟩ := exists_blank_append_eq c
  rw [hc, hskip, hrest]
  exact .cons hb h

theorem rest_eq_of_spell_eq_ok {letters : List Char} (h : spell letters c = .ok c') :
    c.rest = letters ++ c'.rest := by
  fun_induction spell letters c with
  | case1 c =>
    cases h
    rfl
  | case2 more y rest line ih => exact congrArg (y :: ·) (ih h)
  | _ => exact absurd h (by simp)

/-- What is read as a changed value has been read as a value. -/
theorem exists_of_map_eq_ok {f : α → β} {b : β} (h : read.map f c = .ok (b, c')) :
    ∃ a, f a = b ∧ read c = .ok (a, c') := by
  obtain ⟨⟨a, c''⟩, hread, hpure⟩ := exists_of_bind_eq_ok h
  cases hpure
  exact ⟨a, rfl, hread⟩

theorem exists_of_expect_eq_ok {take : Found → Except Cause α} {a : α}
    (h : expect take c = .ok (a, c')) : ∃ found, look c = .ok (found, c') ∧ take found = .ok a := by
  obtain ⟨⟨found, c''⟩, hlook, h⟩ := exists_of_bind_eq_ok h
  simp only at h
  split at h
  · next htake =>
    cases h
    exact ⟨found, hlook, htake⟩
  · exact absurd h (stop_ne_ok _ _ _)

/-! ### Whole texts -/

/-- A text is parsed to a value exactly if it spells a document of the value with blanks between the
tokens. -/
theorem Accepts.parse_eq_ok_iff (h : read.Accepts form) {text : String} {a : α} :
    read.parse text = .ok a ↔ ∃ d, form a d ∧ Spaced Blank Blank d.tokens text.toList := by
  constructor
  · intro hparse
    obtain ⟨⟨a', c⟩, hread, hend⟩ := exists_of_bind_eq_ok hparse
    simp only at hend
    split at hend
    · next hempty =>
      cases hend
      obtain ⟨d, hd, hleads⟩ := h.yields hread
      obtain ⟨b, hb, hrest⟩ := exists_blank_append_eq c
      rw [List.isEmpty_iff.1 hempty, List.append_nil] at hrest
      exact ⟨d, hd, c.rest, hleads, hrest ▸ hb⟩
    · exact absurd hend (stop_ne_ok _ _ _)
  · rintro ⟨d, hd, v, hleads, hv⟩
    obtain ⟨b, t, htext, hb, ht⟩ := hleads.exists_trimmed d.tokens_ne_nil
    rw [← String.ofList_toList (s := text), htext]
    exact (h.takes hd t ht).parse hb hv

/-! ### Scalars -/

theorem Accepts.map (h : read.Accepts form) (f : α → β) : (read.map f).Accepts (form.map f) where
  takes := by
    rintro _ d ⟨a, rfl, hd⟩ t ht
    exact (h.takes hd t ht).map f
  yields := by
    intro c c' b hmap
    obtain ⟨a, rfl, hread⟩ := exists_of_map_eq_ok hmap
    obtain ⟨d, hd, hleads⟩ := h.yields hread
    exact ⟨d, ⟨a, rfl, hd⟩, hleads⟩

/-- A word that stands for a value is found behind blanks. -/
theorem leads_of_spell {a a' : α} {x : Char} {letters : List Char}
    (hskip : c.skipBlanks = ⟨x :: rest, line⟩)
    (h : (a, ·) <$> spell letters ⟨rest, line⟩ = .ok (a', c')) :
    a' = a ∧ Leads Blank [x :: letters] c.rest c'.rest := by
  obtain ⟨c'', hspell, ha⟩ := map_eq_ok_iff.1 h
  cases ha
  exact ⟨rfl, leads_of_skipBlanks hskip (rest_eq_of_spell_eq_ok hspell) .nil⟩

/-- What a reader of scalars has passed over when it has found a word, a natural number or a text.
What it makes of other finds is left open. -/
def Finds : Found → List Char → List Char → Prop
  | .null, u, v => ∃ d, Form.null () d ∧ Leads Blank d.tokens u v
  | .flag b, u, v => ∃ d, Form.flag b d ∧ Leads Blank d.tokens u v
  | .number (.natural n), u, v => ∃ d, Form.natural n d ∧ Leads Blank d.tokens u v
  | .text s, u, v => ∃ d, Form.text s d ∧ Leads Blank d.tokens u v
  | _, _, _ => True

/-- A number that has been read without a sign is found behind blanks. -/
theorem finds_number {n : Number} {x : Char} (hskip : c.skipBlanks = ⟨x :: rest, line⟩)
    (h : number false ⟨x :: rest, line⟩ = .ok (n, c')) : Finds (.number n) c.rest c'.rest := by
  rcases n with m | m | _
  · obtain ⟨d, ds, hds⟩ := List.exists_cons_of_ne_nil (Nat.toDigits_ne_nil (n := m) (b := 10))
    have hdigits : x :: rest = d :: (ds ++ c'.rest) := by
      rw [← List.cons_append, ← hds]
      exact (rest_eq_of_number_eq_ok h).2
    obtain ⟨rfl, hrest⟩ := List.cons.inj hdigits
    refine ⟨.number false _ ⟨_, Numeral.numeralText_toDigits m⟩, ⟨_, rfl⟩, ?_⟩
    rw [Document.tokens, if_neg Bool.false_ne_true, hds]
    exact leads_of_skipBlanks hskip hrest .nil
  · trivial
  · trivial

theorem finds_of_look_eq_ok {found : Found} (h : look c = .ok (found, c')) :
    Finds found c.rest c'.rest := by
  rw [look] at h
  split at h
  case h_1 => exact absurd h (by simp)
  case h_2 hskip =>
    obtain ⟨rfl, hleads⟩ := leads_of_spell hskip h
    exact ⟨_, rfl, by rwa [Document.tokens]⟩
  case h_3 hskip =>
    obtain ⟨rfl, hleads⟩ := leads_of_spell hskip h
    exact ⟨_, rfl, by rwa [Document.tokens]⟩
  case h_4 hskip =>
    obtain ⟨rfl, hleads⟩ := leads_of_spell hskip h
    exact ⟨_, rfl, by rwa [Document.tokens]⟩
  case h_5 =>
    obtain ⟨n, rfl, hread⟩ := exists_of_map_eq_ok h
    rcases n with m | _ | _
    · exact absurd (rest_eq_of_number_eq_ok hread).1 (by simp)
    · trivial
    · trivial
  case h_6 hskip =>
    obtain ⟨s, rfl, hread⟩ := exists_of_map_eq_ok h
    obtain ⟨b, hb, hrest⟩ := exists_encodes_of_textRest_eq_ok hread
    refine ⟨.text ⟨b, hb.isBody⟩, ⟨_, rfl, hb⟩, ?_⟩
    rw [Document.tokens]
    exact leads_of_skipBlanks hskip (hrest.trans (by simp)) .nil
  case h_7 | h_8 =>
    cases h
    trivial
  case h_9 hskip =>
    split at h
    · obtain ⟨n, rfl, hread⟩ := exists_of_map_eq_ok h
      exact finds_number hskip hread
    · exact absurd h (by simp)

/-- What has been expected is what was found, and has been passed over. -/
theorem finds_of_expect_eq_ok {take : Found → Except Cause α} {a : α}
    (h : expect take c = .ok (a, c')) :
    ∃ found, take found = .ok a ∧ Finds found c.rest c'.rest := by
  obtain ⟨found, hlook, htake⟩ := exists_of_expect_eq_ok h
  exact ⟨found, htake, finds_of_look_eq_ok hlook⟩

theorem accepts_textAs (wanted : Wanted) : (textAs wanted).Accepts Form.text where
  takes := by
    rintro s _ ⟨b, rfl, hb⟩ t ht
    rw [Document.tokens, trimmed_singleton_iff] at ht
    exact ht ▸ (readsKey_of_encodes hb).textAs wanted
  yields := by
    intro c c' s hread
    obtain ⟨found, htake, hfinds⟩ := finds_of_expect_eq_ok hread
    split at htake
    · cases htake
      exact hfinds
    · exact absurd htake (by simp)

theorem reads_flag (b : Bool) {t : List Char} (h : Trimmed (Document.flag b).tokens t) :
    flag.Reads t b := by
  have hlook := look_flag b .compact 0
  cases b with
  | true | false =>
    rw [Document.tokens, trimmed_singleton_iff] at h
    rw [write] at hlook
    exact h ▸ hlook.expect rfl

theorem accepts_flag : flag.Accepts Form.flag where
  takes := by
    rintro b _ rfl t ht
    exact reads_flag b ht
  yields := by
    intro c c' b hread
    obtain ⟨found, htake, hfinds⟩ := finds_of_expect_eq_ok hread
    split at htake
    · cases htake
      exact hfinds
    · exact absurd htake (by simp)

theorem reads_null {t : List Char} (h : Trimmed Document.null.tokens t) : null.Reads t () := by
  have hlook := look_null .compact 0
  rw [Document.tokens, trimmed_singleton_iff] at h
  rw [write] at hlook
  exact h ▸ hlook.expect rfl

theorem accepts_null : null.Accepts Form.null where
  takes := by
    rintro ⟨⟩ _ rfl t ht
    exact reads_null ht
  yields := by
    intro c c' _ hread
    obtain ⟨found, htake, hfinds⟩ := finds_of_expect_eq_ok hread
    split at htake
    · exact hfinds
    · exact absurd htake (by simp)

theorem accepts_word : word.Accepts Form.word where
  takes := by
    rintro w _ ⟨h, rfl⟩ t ht
    rw [Document.tokens, if_neg Bool.false_ne_true, trimmed_singleton_iff] at ht
    have hread := reads_word w
    rw [decimal, String.toList_ofList] at hread
    exact ht ▸ hread
  yields := by
    intro c c' w hread
    obtain ⟨n, rfl, hbelow⟩ := exists_of_map_eq_ok hread
    obtain ⟨found, htake, hfinds⟩ := finds_of_expect_eq_ok hbelow
    split at htake
    · split at htake
      · next hlt =>
        cases htake
        obtain ⟨d, hd, hleads⟩ := hfinds
        exact ⟨d, by rwa [Form.word, UInt32.toNat_ofNat', Nat.mod_eq_of_lt hlt], hleads⟩
      · exact absurd htake (by simp)
    · exact absurd htake (by simp)
    · exact absurd htake (by simp)

/-- No other document starts like `null`. -/
theorem ne_of_trimmed_of_ne_null {d : Document} (hd : d ≠ .null) {x : Char} {u : List Char}
    (h : Trimmed d.tokens (x :: u)) : x ≠ 'n' := by
  obtain ⟨x', t, ts, hts, -, -, hnull⟩ := d.exists_tokens_eq
  rw [hts, trimmed_cons_iff] at h
  obtain ⟨v, hxu, -⟩ := h
  obtain ⟨rfl, -⟩ := List.cons.inj hxu
  exact fun hx ↦ hd (hnull hx)

theorem Accepts.option (h : read.Accepts form) (hnull : ∀ a, ¬ form a .null) :
    (option read).Accepts form.option where
  takes := by
    intro a? d hd t ht
    cases a? with
    | none =>
      obtain rfl : d = .null := hd
      rw [Document.tokens, trimmed_singleton_iff] at ht
      subst ht
      exact .of_skipBlanks rfl (by decide) fun {c rest line} hskip _ ↦
        ⟨line, by rw [Reader.option, hskip]; rfl⟩
    | some a =>
      have hform : form a d := hd
      have hne : d ≠ .null := fun hd' ↦ hnull a (hd' ▸ hform)
      have hreads := (h.takes hform t ht).map some
      obtain ⟨x, u, rfl, hx, hbracket⟩ := hreads.opens
      refine .of_skipBlanks hx hbracket fun {c rest line} hskip hrest ↦ ?_
      obtain ⟨line', hread⟩ := hreads.reads line blank_nil hrest
      refine ⟨line', ?_⟩
      rw [Reader.option, hskip]
      split
      · next h =>
        cases h
        exact absurd rfl (ne_of_trimmed_of_ne_null hne ht)
      · exact hread
  yields := by
    intro c c' a? hoption
    rw [Reader.option] at hoption
    split at hoption
    · next hskip =>
      obtain ⟨rfl, hleads⟩ := leads_of_spell hskip hoption
      exact ⟨.null, rfl, by rwa [Document.tokens]⟩
    · obtain ⟨a, rfl, hread⟩ := exists_of_map_eq_ok hoption
      obtain ⟨d, hd, hleads⟩ := h.yields hread
      obtain ⟨b, hb, hrest⟩ := exists_blank_append_eq c
      exact ⟨d, hd, hrest ▸ hleads.blank_append hb d.tokens_ne_nil⟩

/-! ### Lists -/

/-- In front of a further element stand blanks, and a comma if it is not the first. Where none
follows stands the closing bracket. -/
theorem cases_of_nextElement_eq_ok {isFirst more : Bool}
    (h : nextElement isFirst c = .ok (more, c')) : ∃ b, Blank b ∧
      ((more = true ∧ Leads Blank (separator isFirst) c.rest (b ++ c'.rest)) ∨
        (more = false ∧ c.rest = b ++ c'.rest ∧ ∃ u, c'.rest = ']' :: u)) := by
  obtain ⟨b, hb, hrest⟩ := exists_blank_append_eq c
  rw [nextElement] at h
  split at h
  · exact absurd h (by simp)
  · next x rest line hskip =>
    rw [hskip] at hrest
    split at h
    · next hclose =>
      cases h
      exact ⟨b, hb, .inr ⟨rfl, hrest, rest, congrArg (· :: rest) hclose⟩⟩
    · split at h
      · next hfirst =>
        cases h
        subst hfirst
        exact ⟨b, hb, .inl ⟨rfl, hrest ▸ .nil⟩⟩
      · next hfirst =>
        rw [Bool.not_eq_true] at hfirst
        subst hfirst
        split at h
        · next hcomma =>
          subst hcomma
          obtain ⟨b', hb', hrest'⟩ := exists_blank_append_eq ⟨rest, line⟩
          split at h
          · exact absurd h (by simp)
          · exact absurd h (by simp)
          · cases h
            exact ⟨b', hb', .inl ⟨rfl, hrest.symm ▸ .cons hb (hrest' ▸ .nil)⟩⟩
        · exact absurd h (by simp)

theorem leads_of_endList_eq_ok (h : endList c = .ok c') : Leads Blank [[']']] c.rest c'.rest := by
  rw [endList] at h
  split at h
  · exact absurd h (by simp)
  · next hskip =>
    cases h
    exact leads_of_skipBlanks hskip rfl .nil
  · split at h
    · exact absurd h (by simp)
    · exact absurd h (stop_ne_ok _ _ _)
  · exact absurd h (stop_ne_ok _ _ _)

/-- The elements that are read stand for the values that come out. -/
theorem Accepts.exists_of_elements_eq_ok (h : read.Accepts form) {steps : ℕ} {isFirst : Bool}
    {as : List α} {c₁ : Cursor} (helements : elements read steps isFirst c = .ok (as, c₁))
    (hend : endList c₁ = .ok c') :
    ∃ ds, List.Forall₂ form as ds ∧
      Leads Blank (Document.itemTokens isFirst ds) c.rest c'.rest := by
  induction steps generalizing isFirst c as with
  | zero => exact absurd helements (stop_ne_ok c _ _)
  | succ steps ih =>
    obtain ⟨⟨more, c₂⟩, hnext, helements⟩ := exists_of_bind_eq_ok helements
    obtain ⟨b, hb, ⟨rfl, hcomma⟩ | ⟨rfl, hrest, -⟩⟩ := cases_of_nextElement_eq_ok hnext
    · obtain ⟨⟨a, c₃⟩, hread, helements⟩ := exists_of_bind_eq_ok helements
      obtain ⟨⟨as, c₄⟩, hrest, helements⟩ := exists_of_bind_eq_ok helements
      cases helements
      obtain ⟨d, hd, hleads⟩ := h.yields hread
      obtain ⟨ds, hds, hleads'⟩ := ih hrest
      refine ⟨d :: ds, .cons hd hds, ?_⟩
      rw [Document.itemTokens]
      exact hcomma.append ((hleads.blank_append hb d.tokens_ne_nil).append hleads')
    · cases helements
      refine ⟨[], .nil, ?_⟩
      rw [Document.itemTokens, hrest]
      exact (leads_of_endList_eq_ok hend).blank_append hb (List.cons_ne_nil _ _)

theorem Accepts.list (h : read.Accepts form) : (list read).Accepts form.list where
  takes := by
    rintro as _ ⟨ds, rfl, hds⟩ t ht
    obtain ⟨u, rfl, hu⟩ := Document.exists_of_trimmed_list ht
    exact .list (hu.forall₂ (hds.flip.imp fun _ _ hd ↦ h.takes hd))
  yields := by
    intro c c' as hread
    rw [Reader.list] at hread
    split at hread
    · next hskip =>
      obtain ⟨⟨items, c₁⟩, helements, hread⟩ := exists_of_bind_eq_ok hread
      obtain ⟨c₂, hend, hread⟩ := exists_of_bind_eq_ok hread
      cases hread
      obtain ⟨ds, hds, hleads⟩ := h.exists_of_elements_eq_ok helements hend
      refine ⟨.list ds, ⟨ds, rfl, hds⟩, ?_⟩
      rw [Document.tokens]
      exact leads_of_skipBlanks (t := []) hskip rfl hleads
    · exact absurd ⟨_, _, hread⟩ (not_returns_refuse _ as)

end Reader

end Provenance.Json
