import Provenance.Proofs.Json.Skipping

/-!
# Documents and their tokens

A document is a JSON value as it is spelled: texts and numerals are kept in their form, members in
their order, and blanks are left out. It determines a list of tokens (`Document.tokens`), and a text
spells it if it has these tokens in their order with gaps between them (`Spaced`). What a gap may be
is a parameter: blanks in JSON text, comments too in a text with comments.

Behind the first of its tokens the text of a document is a text between brackets in the sense of
`Reader.Enclosed` (`Document.exists_enclosed_of_leads`). So every document is passed over where
nobody asks for it (`Document.passes`).
-/

namespace Provenance.Json

/-! ### Tokens -/

/-- A token. -/
abbrev Token := List Char

/-- The text has the tokens in their order, each behind a gap, and goes on with another text. -/
inductive Leads (Gap : List Char → Prop) : List Token → List Char → List Char → Prop
  /-- No token is left. -/
  | nil {u : List Char} : Leads Gap [] u u
  /-- One token before others. -/
  | cons {g t u v : List Char} {ts : List Token} : Gap g → Leads Gap ts u v →
    Leads Gap (t :: ts) (g ++ (t ++ u)) v

/-- The text has the tokens in their order, with a gap before each and something last behind them.
-/
def Spaced (Gap Last : List Char → Prop) (ts : List Token) (u : List Char) : Prop :=
  ∃ v, Leads Gap ts u v ∧ Last v

section Leads

variable {Gap : List Char → Prop} {ts ts' : List Token} {t : Token} {u v w : List Char}

theorem leads_cons_iff :
    Leads Gap (t :: ts) u v ↔ ∃ g w, u = g ++ (t ++ w) ∧ Gap g ∧ Leads Gap ts w v := by
  constructor
  · rintro (_ | ⟨hg, h⟩)
    exact ⟨_, _, rfl, hg, h⟩
  · rintro ⟨g, w, rfl, hg, h⟩
    exact .cons hg h

theorem leads_append_iff :
    Leads Gap (ts ++ ts') u v ↔ ∃ w, Leads Gap ts u w ∧ Leads Gap ts' w v := by
  induction ts generalizing u with
  | nil => exact ⟨fun h ↦ ⟨u, .nil, h⟩, fun ⟨_, .nil, h⟩ ↦ h⟩
  | cons t ts ih =>
    simp only [List.cons_append, leads_cons_iff, ih]
    constructor
    · rintro ⟨g, w, rfl, hg, x, hts, hts'⟩
      exact ⟨x, ⟨g, w, rfl, hg, hts⟩, hts'⟩
    · rintro ⟨x, ⟨g, w, rfl, hg, hts⟩, hts'⟩
      exact ⟨g, w, rfl, hg, x, hts, hts'⟩

theorem Leads.append (h : Leads Gap ts u v) (h' : Leads Gap ts' v w) : Leads Gap (ts ++ ts') u w :=
  leads_append_iff.2 ⟨v, h, h'⟩

/-- What follows the tokens does not matter. -/
theorem Leads.exists_append_eq (h : Leads Gap ts u v) : ∃ p, u = p ++ v ∧ Leads Gap ts p [] := by
  induction h with
  | nil => exact ⟨[], rfl, .nil⟩
  | @cons g t _ _ _ hg _ ih =>
    obtain ⟨p, rfl, hp⟩ := ih
    exact ⟨g ++ (t ++ p), by simp, .cons hg hp⟩

/-- The tokens one behind the other. -/
theorem spaced_flatten {Last : List Char → Prop} (hgap : Gap []) (hlast : Last [])
    (ts : List Token) : Spaced Gap Last ts ts.flatten := by
  refine ⟨[], ?_, hlast⟩
  induction ts with
  | nil => exact .nil
  | cons t ts ih => exact .cons hgap ih

/-- Blanks before the first token belong to its gap. -/
theorem Leads.blank_append {b : List Char} (hb : Blank b) (hts : ts ≠ [])
    (h : Leads Blank ts u v) : Leads Blank ts (b ++ u) v := by
  obtain ⟨t, ts, rfl⟩ := List.exists_cons_of_ne_nil hts
  obtain ⟨g, w, rfl, hg, h⟩ := leads_cons_iff.1 h
  exact leads_cons_iff.2 ⟨b ++ g, w, by rw [List.append_assoc], hb.append hg, h⟩

end Leads

/-- The text has the tokens in their order with blanks between them, and nothing before the first
and behind the last. -/
def Trimmed (ts : List Token) (u : List Char) : Prop :=
  ∃ t more v, ts = t :: more ∧ u = t ++ v ∧ Leads Blank more v []

theorem trimmed_cons_iff {t : Token} {ts : List Token} {u : List Char} :
    Trimmed (t :: ts) u ↔ ∃ v, u = t ++ v ∧ Leads Blank ts v [] := by
  constructor
  · rintro ⟨_, _, v, ⟨⟩, hu, h⟩
    exact ⟨v, hu, h⟩
  · rintro ⟨v, hu, h⟩
    exact ⟨t, ts, v, rfl, hu, h⟩

theorem trimmed_singleton_iff {t : Token} {u : List Char} : Trimmed [t] u ↔ u = t := by
  rw [trimmed_cons_iff]
  constructor
  · rintro ⟨_, rfl, ⟨⟩⟩
    rw [List.append_nil]
  · rintro rfl
    exact ⟨[], (List.append_nil u).symm, .nil⟩

/-- Tokens with blanks between them stand behind blanks. -/
theorem Leads.exists_trimmed {ts : List Token} {u v : List Char} (h : Leads Blank ts u v)
    (hts : ts ≠ []) : ∃ b t, u = b ++ (t ++ v) ∧ Blank b ∧ Trimmed ts t := by
  obtain ⟨t, ts, rfl⟩ := List.exists_cons_of_ne_nil hts
  obtain ⟨b, w, rfl, hb, h⟩ := leads_cons_iff.1 h
  obtain ⟨p, rfl, hp⟩ := h.exists_append_eq
  exact ⟨b, t ++ p, by rw [List.append_assoc], hb, t, ts, p, rfl, rfl, hp⟩

/-- Elements between brackets may be replaced one by one. -/
theorem Reader.Enclosed.forall₂ {α β : Type} {close : Char} {isFirst : Bool}
    {Item : List Char → α → Prop} {Item' : List Char → β → Prop} {as : List α} {bs : List β}
    {u : List Char} (h : Enclosed close Item isFirst as u)
    (hbs : List.Forall₂ (fun a b ↦ ∀ t, Item t a → Item' t b) as bs) :
    Enclosed close Item' isFirst bs u := by
  induction h generalizing bs with
  | last hb =>
    cases hbs
    exact .last hb
  | first hb ht _ ih =>
    obtain _ | ⟨hab, hbs⟩ := hbs
    exact .first hb (hab _ ht) (ih hbs)
  | next hb hb' ht _ ih =>
    obtain _ | ⟨hab, hbs⟩ := hbs
    exact .next hb hb' (hab _ ht) (ih hbs)

/-! ### Documents -/

/-- What stands between the quotes of a text. -/
structure Body where
  /-- The characters, escapes included. -/
  chars : List Char
  /-- They have the form of a text. -/
  isBody : IsBody chars

/-- A text in its quotes. -/
def Body.quoted (b : Body) : Token := '"' :: (b.chars ++ ['"'])

/-- A JSON value as it is spelled. -/
inductive Document where
  | null
  | flag (value : Bool)
  | number (isNegative : Bool) (digits : List Char) (isNumeral : ∃ n, NumeralText n digits)
  | text (body : Body)
  | list (items : List Document)
  | object (members : List (Body × Document))

/-- The comma before an element that is not the first. -/
def separator (isFirst : Bool) : List Token := if isFirst then [] else [[',']]

namespace Document

mutual

/-- The tokens of a document. -/
def tokens : Document → List Token
  | null => [['n', 'u', 'l', 'l']]
  | flag true => [['t', 'r', 'u', 'e']]
  | flag false => [['f', 'a', 'l', 's', 'e']]
  | number isNegative digits _ => [if isNegative then '-' :: digits else digits]
  | text body => [body.quoted]
  | list items => ['['] :: itemTokens true items
  | object members => ['\x7b'] :: memberTokens true members

/-- The tokens of the elements of a list and of its end. -/
def itemTokens : Bool → List Document → List Token
  | _, [] => [[']']]
  | isFirst, d :: rest => separator isFirst ++ (d.tokens ++ itemTokens false rest)

/-- The tokens of the members of an object and of its end. -/
def memberTokens : Bool → List (Body × Document) → List Token
  | _, [] => [['\x7d']]
  | isFirst, (k, d) :: rest =>
    separator isFirst ++ (k.quoted :: [':'] :: d.tokens ++ memberTokens false rest)

end

/-- What holds of the scalars, and of lists and objects if it holds of their parts, holds of every
document. -/
theorem induct {P : Document → Prop} (null : P null) (flag : ∀ b, P (flag b))
    (number : ∀ isNegative digits isNumeral, P (number isNegative digits isNumeral))
    (text : ∀ b, P (text b)) (list : ∀ ds, (∀ d ∈ ds, P d) → P (list ds))
    (object : ∀ ms, (∀ m ∈ ms, P m.2) → P (object ms)) (d : Document) : P d :=
  match d with
  | .null => null
  | .flag b => flag b
  | .number isNegative digits isNumeral => number isNegative digits isNumeral
  | .text b => text b
  | .list ds => list ds fun d hd ↦
    have := List.sizeOf_lt_of_mem hd
    induct null flag number text list object d
  | .object ms => object ms fun m hm ↦
    have := List.sizeOf_lt_of_mem hm
    induct null flag number text list object m.2
termination_by sizeOf d
decreasing_by
  · rw [Document.list.sizeOf_spec]
    omega
  · obtain ⟨k, d⟩ := m
    rw [Prod.mk.sizeOf_spec] at this
    rw [Document.object.sizeOf_spec]
    show sizeOf d < _
    omega

/-- The tokens of a member of an object. -/
def entryTokens (m : Body × Document) : List Token := m.1.quoted :: [':'] :: m.2.tokens

/-- The tokens of elements with commas between them, and of a closing bracket. -/
def enclosed {α : Type} (close : Char) (tokens : α → List Token) : Bool → List α → List Token
  | _, [] => [[close]]
  | isFirst, a :: as => separator isFirst ++ (tokens a ++ enclosed close tokens false as)

theorem itemTokens_eq (isFirst : Bool) (ds : List Document) :
    itemTokens isFirst ds = enclosed ']' tokens isFirst ds := by
  induction ds generalizing isFirst with
  | nil => rw [itemTokens, enclosed]
  | cons d ds ih => rw [itemTokens, enclosed, ih]

theorem memberTokens_eq (isFirst : Bool) (ms : List (Body × Document)) :
    memberTokens isFirst ms = enclosed '\x7d' entryTokens isFirst ms := by
  induction ms generalizing isFirst with
  | nil => rw [memberTokens, enclosed]
  | cons m ms ih => rw [memberTokens, enclosed, ih, entryTokens]

open Reader

/-- A document has a first token, which starts as values do. Only `null` starts with its letter. -/
theorem exists_tokens_eq (d : Document) : ∃ x t ts, d.tokens = (x :: t) :: ts ∧
    isBlank x = false ∧ x ≠ ']' ∧ (x = 'n' → d = null) := by
  have hne : ∀ {x : Char}, x ≠ 'n' → x = 'n' → d = null := fun h hx ↦ absurd hx h
  cases d with
  | null => exact ⟨'n', _, _, by rw [tokens], rfl, by decide, fun _ ↦ rfl⟩
  | flag b =>
    cases b <;> exact ⟨_, _, _, by rw [tokens], rfl, by decide, hne (by decide)⟩
  | number isNegative digits isNumeral =>
    cases isNegative with
    | true => exact ⟨'-', _, _, by rw [tokens, if_pos rfl], rfl, by decide, hne (by decide)⟩
    | false =>
      obtain ⟨n, hn⟩ := isNumeral
      obtain ⟨d, ds, rfl, hd⟩ := hn.exists_cons
      refine ⟨d, ds, _, by rw [tokens, if_neg Bool.false_ne_true], isBlank_of_isDigit hd, ?_,
        hne ?_⟩ <;>
      · rintro rfl
        exact absurd hd (by decide)
  | text b => exact ⟨'"', _, _, by rw [tokens, Body.quoted], rfl, by decide, hne (by decide)⟩
  | list ds => exact ⟨'[', _, _, by rw [tokens], rfl, by decide, hne (by decide)⟩
  | object ms => exact ⟨'\x7b', _, _, by rw [tokens], rfl, by decide, hne (by decide)⟩

theorem tokens_ne_nil (d : Document) : d.tokens ≠ [] := by
  obtain ⟨x, t, ts, h, -⟩ := d.exists_tokens_eq
  rw [h]
  exact List.cons_ne_nil _ ts

/-! ### Between brackets -/

section Enclosed

variable {α : Type} {close : Char} {isFirst : Bool} {u v : List Char}

/-- The tokens behind an opening bracket are those of a text between brackets. -/
theorem exists_enclosed_of_leads {tokens : α → List Token} (hne : ∀ a, tokens a ≠ [])
    {as : List α} (h : Leads Blank (enclosed close tokens isFirst as) u v) :
    ∃ p, u = p ++ v ∧ Enclosed close (fun t a ↦ Trimmed (tokens a) t) isFirst as p := by
  induction as generalizing isFirst u with
  | nil =>
    obtain ⟨b, w, rfl, hb, ⟨⟩⟩ := leads_cons_iff.1 h
    exact ⟨b ++ [close], by simp, .last hb⟩
  | cons a as ih =>
    rw [enclosed, leads_append_iff] at h
    obtain ⟨w, hcomma, h⟩ := h
    obtain ⟨w', ha, has⟩ := leads_append_iff.1 h
    obtain ⟨b, t, rfl, hb, ht⟩ := ha.exists_trimmed (hne a)
    obtain ⟨p, rfl, hp⟩ := ih has
    cases isFirst with
    | true =>
      cases hcomma
      exact ⟨b ++ (t ++ p), by simp, .first hb ht hp⟩
    | false =>
      obtain ⟨b', w, rfl, hb', ⟨⟩⟩ := leads_cons_iff.1 hcomma
      exact ⟨b' ++ ',' :: (b ++ (t ++ p)), by simp, .next hb' hb ht hp⟩

/-- The text of a member is its key in quotes, a colon and the text of its value. -/
theorem member_of_trimmed {m : Body × Document} {t : List Char} (h : Trimmed (entryTokens m) t) :
    Member (fun k b ↦ k = b.chars ++ ['"']) (fun t d ↦ Trimmed d.tokens t) t m := by
  obtain ⟨k, d⟩ := m
  obtain ⟨_, _, v, ⟨⟩, rfl, h⟩ := h
  obtain ⟨b, w, rfl, hb, h⟩ := leads_cons_iff.1 h
  obtain ⟨b', t, rfl, hb', ht⟩ := h.exists_trimmed d.tokens_ne_nil
  rw [List.append_nil]
  show Member _ _ ('"' :: ((k.chars ++ ['"']) ++ (b ++ ':' :: (b' ++ t)))) (k, d)
  exact .mk rfl hb hb' ht

end Enclosed

/-- A list of documents is a text between brackets. -/
theorem exists_of_trimmed_list {ds : List Document} {t : List Char}
    (h : Trimmed (list ds).tokens t) :
    ∃ u, t = '[' :: u ∧ Enclosed ']' (fun t d ↦ Trimmed d.tokens t) true ds u := by
  rw [tokens, itemTokens_eq, trimmed_cons_iff] at h
  obtain ⟨v, rfl, h⟩ := h
  obtain ⟨p, rfl, hp⟩ := exists_enclosed_of_leads tokens_ne_nil h
  exact ⟨p, by simp, hp⟩

/-- An object of documents is a text between brackets. -/
theorem exists_of_trimmed_object {ms : List (Body × Document)} {t : List Char}
    (h : Trimmed (object ms).tokens t) :
    ∃ u, t = '\x7b' :: u ∧ Enclosed '\x7d' (Member (fun k b ↦ k = b.chars ++ ['"'])
      fun t d ↦ Trimmed d.tokens t) true ms u := by
  rw [tokens, memberTokens_eq, trimmed_cons_iff] at h
  obtain ⟨v, rfl, h⟩ := h
  obtain ⟨p, rfl, hp⟩ := exists_enclosed_of_leads (fun _ ↦ List.cons_ne_nil _ _) h
  exact ⟨p, by simp, hp.forall₂ (List.forall₂_same.2 fun _ _ _ ↦ member_of_trimmed)⟩

/-- A document is passed over where nobody asks for it. -/
theorem passes (d : Document) : ∀ t, Trimmed d.tokens t → Passes t := by
  induction d using Document.induct with
  | null =>
    intro t h
    rw [tokens, trimmed_singleton_iff] at h
    exact h ▸ passes_null
  | flag b =>
    intro t h
    cases b <;> rw [tokens, trimmed_singleton_iff] at h
    · exact h ▸ passes_false
    · exact h ▸ passes_true
  | number isNegative digits isNumeral =>
    intro t h
    obtain ⟨n, hn⟩ := isNumeral
    rw [tokens, trimmed_singleton_iff] at h
    cases isNegative with
    | true => exact h ▸ passes_minus hn
    | false => exact h ▸ passes_numeral hn
  | text b =>
    intro t h
    rw [tokens, trimmed_singleton_iff] at h
    exact h ▸ passes_of_isBody b.isBody
  | list ds ih =>
    intro t h
    obtain ⟨u, rfl, hu⟩ := exists_of_trimmed_list h
    exact .list (hu.forall₂ (List.forall₂_same.2 ih))
  | object ms ih =>
    intro t h
    obtain ⟨u, rfl, hu⟩ := exists_of_trimmed_object h
    refine .object (hu.forall₂ (List.forall₂_same.2 fun m hm t ht ↦ ?_))
    obtain @⟨_, b, b', t, k, d, rfl, hb, hb', ht⟩ := ht
    exact .mk (passesKey_of_isBody k.isBody) hb hb' (ih _ hm t ht)

end Document

end Provenance.Json
