import Mathlib.Data.List.Chain
import Provenance.Json.Comments
import Provenance.Proofs.Json.Document

/-!
# Comments between tokens

A gap is made of blanks and comments (`Gap`). `Mark` says what the scanner for comments makes of the
places in a text: which characters are kept, where a comment starts, and whether the text ends
inside a comment (`ClosesComments`) or has one inside a word or a numeral (`splitsToken`).

If the tokens of a document stand in gaps, the scanner and the readers agree on where texts begin
and end. Tokens are kept and gaps come out as blanks: so the text without its comments has the same
tokens with blanks between them (`Spaced.uncomment`), and so has the text with a blank in the place
of each comment (`Spaced.respaced`). Its comments are closed (`Spaced.closesComments`), and since
between two words stands another token, none splits a word (`Spaced.splitsToken_eq_false`).
-/

namespace Provenance.Json

/-! ### Gaps -/

/-- Blanks and comments: a comment to the end of its line with the line's end, or one up to the
first `*/`. -/
inductive Gap : List Char → Prop
  | nil : Gap []
  | blank {x : Char} {g : List Char} : isBlank x = true → Gap g → Gap (x :: g)
  | line {body g : List Char} : '\n' ∉ body → Gap g → Gap ('/' :: '/' :: (body ++ '\n' :: g))
  | block {body g : List Char} : ¬ ['*', '/'] <:+: body → Gap g →
    Gap ('/' :: '*' :: (body ++ '*' :: '/' :: g))

/-- What may stand behind the last token: a gap, or one whose last comment ends with the text. -/
inductive Trailing : List Char → Prop
  | gap {g : List Char} : Gap g → Trailing g
  | line {g body : List Char} : Gap g → '\n' ∉ body → Trailing (g ++ '/' :: '/' :: body)

/-! ### Marks -/

/-- What the scanner for comments makes of a place in a text. -/
inductive Mark where
  /-- The character is kept. -/
  | kept (c : Char)
  /-- A comment starts. -/
  | comment
  /-- The text ends inside a comment that `*/` would close. -/
  | cut
deriving DecidableEq

/-- Marks a text that starts in a zone. -/
def markFrom : Zone → List Char → List Mark
  | .blockComment, [] => [.cut]
  | _, [] => []
  | .plain, '"' :: rest => .kept '"' :: markFrom .quoted rest
  | .plain, '/' :: '/' :: rest => .comment :: markFrom .lineComment rest
  | .plain, '/' :: '*' :: rest => .comment :: markFrom .blockComment rest
  | .plain, c :: rest => .kept c :: markFrom .plain rest
  | .quoted, '"' :: rest => .kept '"' :: markFrom .plain rest
  | .quoted, '\\' :: c :: rest => .kept '\\' :: .kept c :: markFrom .quoted rest
  | .quoted, c :: rest => .kept c :: markFrom .quoted rest
  | .lineComment, '\n' :: rest => .kept '\n' :: markFrom .plain rest
  | .lineComment, _ :: rest => markFrom .lineComment rest
  | .blockComment, '*' :: '/' :: rest => markFrom .plain rest
  | .blockComment, _ :: rest => markFrom .blockComment rest

namespace Mark

/-- The character that is kept. -/
def kept? : Mark → Option Char
  | kept c => some c
  | _ => none

/-- The character that is kept, or a blank for a comment. -/
def spaced? : Mark → Option Char
  | kept c => some c
  | comment => some ' '
  | cut => none

@[simp] theorem kept?_kept (c : Char) : kept? (kept c) = some c := rfl

@[simp] theorem kept?_comment : kept? comment = none := rfl

@[simp] theorem kept?_cut : kept? cut = none := rfl

/-- A character of a word or of a numeral. -/
def isInner (c : Char) : Bool := c.isAlphanum || c = '+' || c = '-' || c = '.'

/-- A comment stands between two characters of a word or of a numeral. -/
def split : List Mark → Bool
  | kept x :: comment :: rest =>
    (isInner x && (rest.filterMap kept?).head?.any isInner) || split rest
  | _ :: rest => split rest
  | [] => false

end Mark

/-- The marks of a text. -/
def marks (text : String) : List Mark := markFrom .plain text.toList

/-- Every comment that `*/` closes is closed. -/
def ClosesComments (text : String) : Prop := Mark.cut ∉ marks text

instance (text : String) : Decidable (ClosesComments text) :=
  inferInstanceAs (Decidable (Mark.cut ∉ marks text))

/-- A comment splits a word or a numeral. -/
def splitsToken (text : String) : Bool := Mark.split (marks text)

/-- The text with a blank in the place of each comment. -/
def respaced (text : String) : String := String.ofList ((marks text).filterMap Mark.spaced?)

/-- The characters that are kept are those of the text without its comments. -/
theorem filterMap_kept?_markFrom (z : Zone) (cs : List Char) :
    (markFrom z cs).filterMap Mark.kept? = uncommentFrom z cs := by
  fun_induction uncommentFrom z cs with
  | case1 z => cases z <;> rfl
  | _ => simp_all [markFrom, List.filterMap_cons]

/-! ### Comments are passed over -/

theorem markFrom_lineComment_append {body : List Char} (h : '\n' ∉ body) (rest : List Char) :
    markFrom .lineComment (body ++ '\n' :: rest) = .kept '\n' :: markFrom .plain rest := by
  induction body with
  | nil => rw [List.nil_append, markFrom]
  | cons c body ih =>
    obtain ⟨hc, hbody⟩ := List.ne_and_not_mem_of_not_mem_cons h
    rw [List.cons_append, markFrom, ih hbody]
    exact fun hc' ↦ hc hc'.symm

theorem markFrom_lineComment {body : List Char} (h : '\n' ∉ body) :
    markFrom .lineComment body = [] := by
  induction body with
  | nil => rfl
  | cons c body ih =>
    obtain ⟨hc, hbody⟩ := List.ne_and_not_mem_of_not_mem_cons h
    rw [markFrom, ih hbody]
    exact fun hc' ↦ hc hc'.symm

theorem markFrom_blockComment_append {body : List Char} (h : ¬ ['*', '/'] <:+: body)
    (rest : List Char) :
    markFrom .blockComment (body ++ '*' :: '/' :: rest) = markFrom .plain rest := by
  induction body with
  | nil => rw [List.nil_append, markFrom]
  | cons c body ih =>
    have hbody : ¬ ['*', '/'] <:+: body := fun h' ↦ h (List.infix_cons h')
    rw [List.cons_append, markFrom, ih hbody]
    -- A star at the end of the body is followed by the closing star and not by a slash.
    rintro more rfl hmore
    cases body with
    | nil => exact absurd hmore (by simp)
    | cons d body =>
      obtain ⟨rfl, -⟩ := List.cons.inj hmore
      exact h ⟨[], body, rfl⟩

/-! ### Tokens are kept -/

/-- A word or a numeral. -/
def IsWord (t : Token) : Prop := ∀ x ∈ t, Mark.isInner x = true

instance (t : Token) : Decidable (IsWord t) :=
  decidable_of_iff (t.all Mark.isInner = true) List.all_eq_true

/-- A token is a single mark, a word or a numeral, or a text in its quotes. -/
inductive IsToken : Token → Prop
  | mark {x : Char} : isBlank x = false → x ≠ '"' → x ≠ '/' → IsToken [x]
  | word {t : Token} : t ≠ [] → IsWord t → IsToken t
  | quoted (b : Body) : IsToken b.quoted

theorem isInner_of_isDigit {d : Char} (h : d.isDigit = true) : Mark.isInner d = true := by
  simp [Mark.isInner, Char.isAlphanum, h]

theorem AreDigits.isWord {ds : List Char} (h : AreDigits ds) : IsWord ds :=
  fun x hx ↦ isInner_of_isDigit (h.2 x hx)

theorem NumeralText.isWord {n : Numeral} {t : List Char} (h : NumeralText n t) : IsWord t := by
  obtain @⟨whole, f, e, _, _, ⟨hwhole, -⟩, hfraction, hexponent⟩ := h
  have hfraction' : IsWord f := by
    cases hfraction with
    | none => exact fun x hx ↦ absurd hx List.not_mem_nil
    | some hds => exact List.forall_mem_cons.2 ⟨rfl, hds.isWord⟩
  have hexponent' : IsWord e := by
    cases hexponent with
    | none => exact fun x hx ↦ absurd hx List.not_mem_nil
    | unsigned he hds =>
      obtain rfl | rfl := he <;> exact List.forall_mem_cons.2 ⟨rfl, hds.isWord⟩
    | plus he hds | minus he hds =>
      obtain rfl | rfl := he <;>
        exact List.forall_mem_cons.2 ⟨rfl, List.forall_mem_cons.2 ⟨rfl, hds.isWord⟩⟩
  exact List.forall_mem_append.2 ⟨hwhole.isWord,
    List.forall_mem_append.2 ⟨hfraction', hexponent'⟩⟩

namespace Document

theorem isToken_of_mem_separator {isFirst : Bool} {t : Token} (h : t ∈ separator isFirst) :
    IsToken t := by
  cases isFirst with
  | true => exact absurd h List.not_mem_nil
  | false =>
    obtain rfl := List.mem_singleton.1 h
    exact .mark rfl (by decide) (by decide)

theorem forall_isToken_enclosed {α : Type} {close : Char} {tokens : α → List Token} {isFirst : Bool}
    {as : List α} (hclose : IsToken [close]) (h : ∀ a ∈ as, ∀ t ∈ tokens a, IsToken t) :
    ∀ t ∈ enclosed close tokens isFirst as, IsToken t := by
  induction as generalizing isFirst with
  | nil =>
    rw [enclosed]
    exact List.forall_mem_singleton.2 hclose
  | cons a as ih =>
    obtain ⟨ha, has⟩ := List.forall_mem_cons.1 h
    rw [enclosed]
    exact List.forall_mem_append.2 ⟨fun _ ↦ isToken_of_mem_separator,
      List.forall_mem_append.2 ⟨ha, ih has⟩⟩

/-- The tokens of a document are tokens. -/
theorem forall_isToken (d : Document) : ∀ t ∈ d.tokens, IsToken t := by
  induction d using Document.induct with
  | null =>
    rw [tokens]
    exact List.forall_mem_singleton.2 (.word (by simp) (by decide))
  | flag b =>
    cases b <;> rw [tokens] <;>
      exact List.forall_mem_singleton.2 (.word (by simp) (by decide))
  | number isNegative digits isNumeral =>
    obtain ⟨n, hn⟩ := isNumeral
    rw [tokens]
    obtain ⟨x, t, rfl, -⟩ := hn.exists_cons
    cases isNegative with
    | true =>
      exact List.forall_mem_singleton.2 (.word (List.cons_ne_nil _ _)
        (List.forall_mem_cons.2 ⟨rfl, hn.isWord⟩))
    | false => exact List.forall_mem_singleton.2 (.word (List.cons_ne_nil _ _) hn.isWord)
  | text b =>
    rw [tokens]
    exact List.forall_mem_singleton.2 (.quoted b)
  | list ds ih =>
    rw [tokens, itemTokens_eq]
    exact List.forall_mem_cons.2 ⟨.mark rfl (by decide) (by decide),
      forall_isToken_enclosed (.mark rfl (by decide) (by decide)) ih⟩
  | object ms ih =>
    rw [tokens, memberTokens_eq]
    refine List.forall_mem_cons.2 ⟨.mark rfl (by decide) (by decide),
      forall_isToken_enclosed (.mark rfl (by decide) (by decide)) fun m hm ↦ ?_⟩
    exact List.forall_mem_cons.2 ⟨.quoted m.1, List.forall_mem_cons.2
      ⟨.mark rfl (by decide) (by decide), ih m hm⟩⟩

end Document

/-- A character that opens neither a text nor a comment is kept. -/
theorem markFrom_plain_cons {x : Char} (hquote : x ≠ '"') (hslash : x ≠ '/') (rest : List Char) :
    markFrom .plain (x :: rest) = .kept x :: markFrom .plain rest := by
  rw [markFrom]
  · exact hquote
  · exact fun _ h ↦ absurd h hslash
  · exact fun _ h ↦ absurd h hslash

/-- A hexadecimal digit is no quote and no backslash. -/
theorem ne_of_hexUnit? {w x y z : Char} {n : ℕ} (h : hexUnit? w x y z = some n) :
    ∀ c ∈ [w, x, y, z], c ≠ '"' ∧ c ≠ '\\' := by
  have hdigits : ∀ c ∈ [w, x, y, z], hexDigit? c ≠ none := by
    intro c hc hnone
    simp only [List.mem_cons, List.not_mem_nil, or_false] at hc
    rcases hc with rfl | rfl | rfl | rfl <;> simp [hexUnit?, hnone] at h
  intro c hc
  constructor <;>
  · rintro rfl
    exact hdigits _ hc rfl

/-- A character inside a text that neither ends it nor starts an escape is kept. -/
theorem markFrom_quoted_cons {x : Char} (h : x ≠ '"' ∧ x ≠ '\\') (rest : List Char) :
    markFrom .quoted (x :: rest) = .kept x :: markFrom .quoted rest := by
  rw [markFrom]
  · exact h.1
  · exact fun _ _ h' ↦ absurd h' h.2

/-- What has the form of a text is kept up to its closing quote. -/
theorem markFrom_quoted_append {b : List Char} (h : IsBody b) (rest : List Char) :
    markFrom .quoted (b ++ '"' :: rest) = b.map .kept ++ .kept '"' :: markFrom .plain rest := by
  induction h with
  | nil => rw [List.nil_append, markFrom, List.map_nil, List.nil_append]
  | plain _ hquote hbackslash _ ih =>
    rw [List.cons_append, markFrom_quoted_cons ⟨hquote, hbackslash⟩, ih]
    rfl
  | short _ _ ih =>
    rw [List.cons_append, List.cons_append, markFrom, ih]
    rfl
  | hex hn _ ih =>
    have hdigits := ne_of_hexUnit? hn
    simp only [List.forall_mem_cons] at hdigits
    obtain ⟨hw, hx, hy, hz, -⟩ := hdigits
    simp only [List.cons_append, markFrom, markFrom_quoted_cons hw, markFrom_quoted_cons hx,
      markFrom_quoted_cons hy, markFrom_quoted_cons hz, ih, List.map_cons]

theorem isInner_ne {x y : Char} (hx : Mark.isInner x = true) (hy : Mark.isInner y = false) :
    x ≠ y := by
  rintro rfl
  exact Bool.false_ne_true (hy.symm.trans hx)

theorem IsWord.markFrom_append {t : Token} (h : IsWord t) (rest : List Char) :
    markFrom .plain (t ++ rest) = t.map .kept ++ markFrom .plain rest := by
  induction t with
  | nil => rfl
  | cons x t ih =>
    obtain ⟨hx, ht⟩ := List.forall_mem_cons.1 h
    rw [List.cons_append, markFrom_plain_cons (isInner_ne hx rfl) (isInner_ne hx rfl), ih ht]
    rfl

/-- A token is kept. -/
theorem IsToken.markFrom_append {t : Token} (h : IsToken t) (rest : List Char) :
    markFrom .plain (t ++ rest) = t.map .kept ++ markFrom .plain rest := by
  cases h with
  | mark _ hquote hslash => exact markFrom_plain_cons hquote hslash rest
  | word _ ht => exact ht.markFrom_append rest
  | quoted b =>
    show markFrom .plain ('"' :: (b.chars ++ ['"'] ++ rest)) = _
    rw [markFrom, List.append_assoc, List.singleton_append, markFrom_quoted_append b.isBody]
    simp [Body.quoted]

/-! ### Gaps come out as blanks -/

/-- A blank opens neither a text nor a comment. -/
theorem ne_of_isBlank {x : Char} (hx : isBlank x = true) : x ≠ '"' ∧ x ≠ '/' := by
  constructor <;>
  · rintro rfl
    exact absurd hx (by decide)

/-- Marks of blanks and comments only. -/
def IsVoid (m : List Mark) : Prop := ∀ y ∈ m, y = .comment ∨ ∃ c, isBlank c = true ∧ y = .kept c

/-- The marks of a gap are void. -/
theorem Gap.exists_markFrom_append {g : List Char} (h : Gap g) :
    ∃ m, IsVoid m ∧ ∀ rest, markFrom .plain (g ++ rest) = m ++ markFrom .plain rest := by
  induction h with
  | nil => exact ⟨[], fun _ h ↦ absurd h List.not_mem_nil, fun _ ↦ rfl⟩
  | @blank x g hx _ ih =>
    obtain ⟨m, hm, ih⟩ := ih
    obtain ⟨hquote, hslash⟩ := ne_of_isBlank hx
    refine ⟨.kept x :: m, List.forall_mem_cons.2 ⟨.inr ⟨x, hx, rfl⟩, hm⟩, fun rest ↦ ?_⟩
    rw [List.cons_append, markFrom_plain_cons hquote hslash, ih]
    rfl
  | line hbody _ ih =>
    obtain ⟨m, hm, ih⟩ := ih
    refine ⟨.comment :: .kept '\n' :: m, List.forall_mem_cons.2 ⟨.inl rfl,
      List.forall_mem_cons.2 ⟨.inr ⟨'\n', rfl, rfl⟩, hm⟩⟩, fun rest ↦ ?_⟩
    simp only [List.cons_append, List.append_assoc]
    rw [markFrom, markFrom_lineComment_append hbody, ih]
  | block hbody _ ih =>
    obtain ⟨m, hm, ih⟩ := ih
    refine ⟨.comment :: m, List.forall_mem_cons.2 ⟨.inl rfl, hm⟩, fun rest ↦ ?_⟩
    simp only [List.cons_append, List.append_assoc]
    rw [markFrom, markFrom_blockComment_append hbody, ih]

/-- The marks of what stands behind the last token are void. -/
theorem Trailing.isVoid {v : List Char} (h : Trailing v) : IsVoid (markFrom .plain v) := by
  cases h with
  | gap hg =>
    obtain ⟨m, hm, hgap⟩ := hg.exists_markFrom_append
    have hmarks := hgap []
    rw [List.append_nil] at hmarks
    rw [hmarks, show markFrom .plain [] = [] from rfl, List.append_nil]
    exact hm
  | line hg hbody =>
    obtain ⟨m, hm, hgap⟩ := hg.exists_markFrom_append
    rw [hgap, markFrom, markFrom_lineComment hbody]
    exact List.forall_mem_append.2 ⟨hm, List.forall_mem_singleton.2 (.inl rfl)⟩

/-- What takes the places of marks: each character that is kept stays, and a blank, if anything,
takes the place of a comment. -/
structure Fills (fill : Mark → Option Char) : Prop where
  kept : ∀ c, fill (.kept c) = some c
  comment : ∀ c ∈ fill .comment, isBlank c = true
  cut : fill .cut = none

theorem fills_kept? : Fills Mark.kept? := ⟨fun _ ↦ rfl, fun _ h ↦ absurd h (by simp), rfl⟩

theorem fills_spaced? : Fills Mark.spaced? := ⟨fun _ ↦ rfl, fun _ h ↦ by cases h; rfl, rfl⟩

namespace Fills

variable {fill : Mark → Option Char} {m : List Mark} {ts : List Token} {u v : List Char}

theorem filterMap_map_kept (hfill : Fills fill) (t : List Char) :
    (t.map Mark.kept).filterMap fill = t := by
  rw [List.filterMap_map]
  exact (List.filterMap_congr fun c _ ↦ hfill.kept c).trans List.filterMap_some

theorem blank_of_isVoid (hfill : Fills fill) (hm : IsVoid m) : Blank (m.filterMap fill) := by
  intro c hc
  obtain ⟨y, hy, hfilled⟩ := List.mem_filterMap.1 hc
  obtain rfl | ⟨c', hc', rfl⟩ := hm y hy
  · exact hfill.comment c hfilled
  · obtain rfl := Option.some.inj ((hfill.kept c').symm.trans hfilled)
    exact hc'

/-- Tokens in gaps come out as tokens in blanks. -/
theorem leads (hfill : Fills fill) (hts : ∀ t ∈ ts, IsToken t) (h : Leads Gap ts u v) :
    Leads Blank ts ((markFrom .plain u).filterMap fill) ((markFrom .plain v).filterMap fill) := by
  induction h with
  | nil => exact .nil
  | cons hg _ ih =>
    obtain ⟨ht, hts⟩ := List.forall_mem_cons.1 hts
    obtain ⟨m, hm, hgap⟩ := hg.exists_markFrom_append
    rw [hgap, ht.markFrom_append, List.filterMap_append, List.filterMap_append,
      hfill.filterMap_map_kept]
    exact .cons (hfill.blank_of_isVoid hm) (ih hts)

theorem spaced (hfill : Fills fill) (hts : ∀ t ∈ ts, IsToken t) (h : Spaced Gap Trailing ts u) :
    Spaced Blank Blank ts ((markFrom .plain u).filterMap fill) := by
  obtain ⟨v, h, hv⟩ := h
  exact ⟨_, hfill.leads hts h, hfill.blank_of_isVoid hv.isVoid⟩

end Fills

/-! ### No comment splits a token -/

/-- Of two tokens one at least is neither a word nor a numeral. -/
def Apart (t t' : Token) : Prop := ¬ IsWord t ∨ ¬ IsWord t'

theorem not_isWord_quoted (b : Body) : ¬ IsWord b.quoted :=
  fun h ↦ absurd (h '"' List.mem_cons_self) (by decide)

namespace Document

theorem not_isWord_of_mem_head?_enclosed {α : Type} {close : Char} {tokens : α → List Token}
    (hclose : ¬ IsWord [close]) (as : List α) :
    ∀ t ∈ (enclosed close tokens false as).head?, ¬ IsWord t := by
  intro t ht
  cases as with
  | nil =>
    rw [enclosed] at ht
    exact Option.some.inj ht ▸ hclose
  | cons a as =>
    rw [enclosed] at ht
    obtain rfl := Option.some.inj ht
    decide

theorem isChain_enclosed {α : Type} {close : Char} {tokens : α → List Token} {isFirst : Bool}
    {as : List α} (hclose : ¬ IsWord [close]) (h : ∀ a ∈ as, (tokens a).IsChain Apart) :
    (enclosed close tokens isFirst as).IsChain Apart := by
  induction as generalizing isFirst with
  | nil =>
    rw [enclosed]
    exact List.isChain_singleton _
  | cons a as ih =>
    obtain ⟨ha, has⟩ := List.forall_mem_cons.1 h
    have hmore : (tokens a ++ enclosed close tokens false as).IsChain Apart :=
      List.isChain_append.2 ⟨ha, ih has, fun _ _ t ht ↦
        .inr (not_isWord_of_mem_head?_enclosed hclose as t ht)⟩
    rw [enclosed]
    cases isFirst with
    | true => exact hmore
    | false => exact List.isChain_cons.2 ⟨fun _ _ ↦ .inl (by decide), hmore⟩

/-- Between two words or numerals of a document stands another token. -/
theorem isChain_tokens (d : Document) : d.tokens.IsChain Apart := by
  induction d using Document.induct with
  | null =>
    rw [tokens]
    exact List.isChain_singleton _
  | flag b => cases b <;> rw [tokens] <;> exact List.isChain_singleton _
  | number isNegative digits isNumeral =>
    rw [tokens]
    exact List.isChain_singleton _
  | text b =>
    rw [tokens]
    exact List.isChain_singleton _
  | list ds ih =>
    rw [tokens, itemTokens_eq]
    exact List.isChain_cons.2 ⟨fun _ _ ↦ .inl (by decide),
      isChain_enclosed (by decide) ih⟩
  | object ms ih =>
    rw [tokens, memberTokens_eq]
    refine List.isChain_cons.2 ⟨fun _ _ ↦ .inl (by decide),
      isChain_enclosed (by decide) fun m hm ↦ ?_⟩
    exact List.isChain_cons_cons.2 ⟨.inl (not_isWord_quoted m.1), List.isChain_cons.2
      ⟨fun _ _ ↦ .inl (by decide), ih m hm⟩⟩

end Document

theorem isInner_of_isBlank {x : Char} (h : isBlank x = true) : Mark.isInner x = false := by
  simp only [isBlank, Bool.or_eq_true, decide_eq_true_eq] at h
  obtain ((rfl | rfl) | rfl) | rfl := h <;> decide

theorem IsToken.exists_eq_cons {t : Token} (ht : IsToken t) :
    ∃ x t', t = x :: t' ∧ isBlank x = false := by
  cases ht with
  | mark hblank => exact ⟨_, [], rfl, hblank⟩
  | word hne hinner =>
    obtain ⟨x, t, rfl⟩ := List.exists_cons_of_ne_nil hne
    refine ⟨x, t, rfl, Bool.eq_false_iff.2 fun hblank ↦ ?_⟩
    exact Bool.false_ne_true ((isInner_of_isBlank hblank).symm.trans (hinner x List.mem_cons_self))
  | quoted b => exact ⟨'"', _, rfl, rfl⟩

section Split

variable {m : List Mark} {t : Token} {ts : List Token} {u v : List Char}

/-- A mark that is no character of a word splits nothing. -/
theorem split_cons {y : Mark} (hy : ∀ x, y = .kept x → Mark.isInner x = false) (m : List Mark) :
    Mark.split (y :: m) = Mark.split m := by
  rw [Mark.split.eq_def]
  split
  · next x rest heq =>
    obtain ⟨rfl, rfl⟩ := List.cons.inj heq
    simp [hy x rfl, Mark.split]
  · next heq =>
    obtain ⟨rfl, rfl⟩ := List.cons.inj heq
    rfl
  · next heq => exact absurd heq (List.cons_ne_nil _ _)

theorem split_append_of_isVoid (hm : IsVoid m) (m' : List Mark) :
    Mark.split (m ++ m') = Mark.split m' := by
  induction m with
  | nil => rfl
  | cons y m ih =>
    obtain ⟨hy, hm⟩ := List.forall_mem_cons.1 hm
    rw [List.cons_append, split_cons, ih hm]
    rintro x rfl
    obtain h | ⟨c, hc, h⟩ := hy
    · exact absurd h (by simp)
    · cases h
      exact isInner_of_isBlank hc

/-- Behind a character of a word stands no other one, though comments may stand between. -/
theorem split_kept_cons {x : Char}
    (h : ∀ y ∈ (m.filterMap Mark.kept?).head?, Mark.isInner y = false) :
    Mark.split (.kept x :: m) = Mark.split m := by
  rw [Mark.split.eq_def]
  split
  · next rest heq =>
    obtain ⟨h₁, rfl⟩ := List.cons.inj heq
    cases h₁
    rw [List.filterMap_cons_none Mark.kept?_comment] at h
    cases hhead : (rest.filterMap Mark.kept?).head? with
    | none => simp [Mark.split]
    | some y => simp [Mark.split, h y hhead]
  · next heq =>
    obtain ⟨rfl, rfl⟩ := List.cons.inj heq
    rfl
  · next heq => exact absurd heq (List.cons_ne_nil _ _)

/-- Characters that are kept are split from no comment among them, nor behind them unless a word
goes on there. -/
theorem split_map_kept_append {t : List Char} (h : ∀ x ∈ t.getLast?, Mark.isInner x = true →
    ∀ y ∈ (m.filterMap Mark.kept?).head?, Mark.isInner y = false) :
    Mark.split (t.map .kept ++ m) = Mark.split m := by
  induction t with
  | nil => rfl
  | cons x t ih =>
    cases t with
    | nil =>
      show Mark.split (.kept x :: m) = Mark.split m
      by_cases hx : Mark.isInner x = true
      · exact split_kept_cons (h x rfl hx)
      · refine split_cons ?_ m
        rintro _ ⟨⟩
        exact Bool.eq_false_iff.2 hx
    | cons y t =>
      rw [← ih h]
      rfl

theorem IsToken.split_append (ht : IsToken t)
    (h : IsWord t → ∀ y ∈ (m.filterMap Mark.kept?).head?, Mark.isInner y = false) :
    Mark.split (t.map .kept ++ m) = Mark.split m := by
  refine split_map_kept_append fun x hx hinner ↦ ?_
  cases ht with
  | mark =>
    obtain rfl : _ = x := Option.some.inj hx
    exact h (List.forall_mem_singleton.2 hinner)
  | word _ hword => exact h hword
  | quoted b =>
    obtain rfl : '"' = x := by simpa [Body.quoted, List.getLast?_cons] using hx
    exact absurd hinner (by decide)

theorem IsToken.not_isInner_of_mem_head? (ht : IsToken t) (hword : ¬ IsWord t) :
    ∀ x ∈ t.head?, Mark.isInner x = false := by
  intro x hx
  cases ht with
  | mark =>
    obtain rfl : _ = x := Option.some.inj hx
    exact Bool.eq_false_iff.2 fun hinner ↦ hword (List.forall_mem_singleton.2 hinner)
  | word _ hinner => exact absurd hinner hword
  | quoted b =>
    obtain rfl : '"' = x := Option.some.inj hx
    rfl

/-- What starts with blanks or with a token that is no word starts with no character of one. -/
theorem not_isInner_of_leads (h : Leads Blank ts u v) (hv : Blank v)
    (hts : ∀ t ∈ ts.head?, IsToken t ∧ ¬ IsWord t) :
    ∀ x ∈ u.head?, Mark.isInner x = false := by
  intro x hx
  cases h with
  | nil => exact isInner_of_isBlank (hv x (List.mem_of_mem_head? hx))
  | @cons g t _ _ _ hg _ =>
    obtain ⟨ht, hword⟩ := hts t rfl
    cases g with
    | nil =>
      obtain ⟨y, t, rfl, -⟩ := ht.exists_eq_cons
      exact ht.not_isInner_of_mem_head? hword x hx
    | cons y g =>
      obtain rfl : y = x := Option.some.inj hx
      exact isInner_of_isBlank (hg y List.mem_cons_self)

/-- Tokens in gaps are split by no comment. -/
theorem split_eq_false_of_leads (hts : ∀ t ∈ ts, IsToken t) (hchain : ts.IsChain Apart)
    (h : Leads Gap ts u v) (hv : Trailing v) : Mark.split (markFrom .plain u) = false := by
  induction h with
  | nil =>
    rw [← List.append_nil (markFrom _ _), split_append_of_isVoid hv.isVoid]
    rfl
  | @cons g t u _ ts hg h ih =>
    obtain ⟨ht, hts⟩ := List.forall_mem_cons.1 hts
    obtain ⟨hapart, hchain⟩ := List.isChain_cons.1 hchain
    obtain ⟨m, hm, hgap⟩ := hg.exists_markFrom_append
    rw [hgap, ht.markFrom_append, split_append_of_isVoid hm, ht.split_append, ih hts hchain hv]
    intro hword
    refine not_isInner_of_leads (fills_kept?.leads hts h) (fills_kept?.blank_of_isVoid hv.isVoid) ?_
    intro t' ht'
    exact ⟨hts t' (List.mem_of_mem_head? ht'), (hapart t' ht').resolve_left (not_not.2 hword)⟩

/-- Tokens in gaps stand with comments that are closed. -/
theorem not_mem_markFrom_of_leads (hts : ∀ t ∈ ts, IsToken t) (h : Leads Gap ts u v)
    (hv : Trailing v) : Mark.cut ∉ markFrom .plain u := by
  have hvoid : ∀ {m}, IsVoid m → Mark.cut ∉ m := by
    intro m hm hcut
    obtain h | ⟨_, -, h⟩ := hm _ hcut <;> exact absurd h (by simp)
  induction h with
  | nil => exact hvoid hv.isVoid
  | @cons g t u _ ts hg h ih =>
    obtain ⟨ht, hts⟩ := List.forall_mem_cons.1 hts
    obtain ⟨m, hm, hgap⟩ := hg.exists_markFrom_append
    rw [hgap, ht.markFrom_append, List.mem_append, List.mem_append, not_or, not_or]
    exact ⟨hvoid hm, by simp, ih hts hv⟩

end Split
/-! ### Documents in gaps -/

section Document

variable {d : Document} {text : String}

/-- A document in gaps stands in blanks when the comments are left out. -/
theorem Spaced.uncomment (h : Spaced Gap Trailing d.tokens text.toList) :
    Spaced Blank Blank d.tokens (uncomment text).toList := by
  have hspaced := fills_kept?.spaced d.forall_isToken h
  rw [filterMap_kept?_markFrom] at hspaced
  rwa [Json.uncomment, String.toList_ofList]

/-- A document in gaps stands in blanks when a blank takes the place of each comment. -/
theorem Spaced.respaced (h : Spaced Gap Trailing d.tokens text.toList) :
    Spaced Blank Blank d.tokens (respaced text).toList := by
  rw [Json.respaced, String.toList_ofList]
  exact fills_spaced?.spaced d.forall_isToken h

/-- The comments of a document in gaps are closed. -/
theorem Spaced.closesComments (h : Spaced Gap Trailing d.tokens text.toList) :
    ClosesComments text := by
  obtain ⟨v, h, hv⟩ := h
  exact not_mem_markFrom_of_leads d.forall_isToken h hv

/-- The comments of a document in gaps split no word and no numeral. -/
theorem Spaced.splitsToken_eq_false (h : Spaced Gap Trailing d.tokens text.toList) :
    splitsToken text = false := by
  obtain ⟨v, h, hv⟩ := h
  exact split_eq_false_of_leads d.forall_isToken d.isChain_tokens h hv

end Document

end Provenance.Json
