import Provenance.Proofs.Json.Comments

/-!
# Where comments may stand

Nothing takes the place of a comment, and one that is not closed reaches to the end of the text. So
two kinds of text have the tokens of a document when the comments are left out, but not in gaps: a
comment may stand inside a word or a numeral, and the last one may not be closed. There is no third
kind (`spaced_gap_iff_uncomment`). With a blank in the place of each comment only the second kind is
left (`spaced_gap_iff_respaced`). A last comment that is not closed can be closed, and nothing else
changes (`closesComments_append_close`).

The proof goes along the scanner, for both ways to fill the place of a comment at once (`Fills`).
What stands in front of the next token is a gap (`Fills.exists_resumes`), inside a text nothing is
dropped (`Fills.exists_of_quoted`), and inside a word only what splits it (`Fills.exists_of_word`).
-/

namespace Provenance.Json

/-! ### Where tokens stand without the comments -/

theorem Gap.append {g g' : List Char} (hg : Gap g) (hg' : Gap g') : Gap (g ++ g') := by
  induction hg with
  | nil => exact hg'
  | blank hx _ ih => exact .blank hx ih
  | line hbody _ ih =>
    rw [List.cons_append, List.cons_append, List.append_assoc]
    exact .line hbody ih
  | block hbody _ ih =>
    rw [List.cons_append, List.cons_append, List.append_assoc]
    exact .block hbody ih

theorem Trailing.gap_append {g v : List Char} (hg : Gap g) (h : Trailing v) :
    Trailing (g ++ v) := by
  cases h with
  | gap hv => exact .gap (hg.append hv)
  | line hv hbody =>
    rw [← List.append_assoc]
    exact .line (hg.append hv) hbody

/-- A character joins the body of a comment up to `*/` if it does not close the comment. -/
theorem not_infix_cons {c : Char} {body rest : List Char} (hbody : ¬ ['*', '/'] <:+: body)
    (hc : ∀ more, c = '*' → body ++ rest = '/' :: more → False) :
    ¬ ['*', '/'] <:+: c :: body := by
  rw [List.infix_cons_iff]
  rintro (⟨more, hmore⟩ | hinfix)
  · cases hmore
    exact hc _ rfl rfl
  · exact hbody hinfix

/-- What a text that starts in a zone has in front of its next token. -/
def Resumes : Zone → List Char → Prop
  | .plain, p => Gap p
  | .quoted, _ => False
  | .lineComment, p => ∃ body g, p = body ++ '\n' :: g ∧ '\n' ∉ body ∧ Gap g
  | .blockComment, p => ∃ body g, p = body ++ '*' :: '/' :: g ∧ ¬ ['*', '/'] <:+: body ∧ Gap g

/-- The zone behind the first character of a token. -/
def zoneBehind (x : Char) : Zone := if x = '"' then .quoted else .plain

theorem blank_of_cons {fill : Mark → Option Char} {y : Mark} {m : List Mark}
    (h : Blank ((y :: m).filterMap fill)) : Blank (m.filterMap fill) := by
  cases hy : fill y with
  | none => rwa [List.filterMap_cons_none hy] at h
  | some c =>
    rw [List.filterMap_cons_some hy] at h
    exact (List.forall_mem_cons.1 h).2

namespace Fills

variable {fill : Mark → Option Char} {z : Zone} {m : List Mark} {cs b u : List Char}

theorem filterMap_kept_cons (hfill : Fills fill) (c : Char) (m : List Mark) :
    (Mark.kept c :: m).filterMap fill = c :: m.filterMap fill :=
  List.filterMap_cons_some (hfill.kept c)

/-- In front of what is no blank, a comment comes out as blanks. -/
theorem exists_blank_of_comment (hfill : Fills fill) {x : Char} (hb : Blank b)
    (hx : isBlank x = false) (h : (Mark.comment :: m).filterMap fill = b ++ x :: u) :
    ∃ b', Blank b' ∧ m.filterMap fill = b' ++ x :: u := by
  cases hcomment : fill .comment with
  | none =>
    rw [List.filterMap_cons_none hcomment] at h
    exact ⟨b, hb, h⟩
  | some c =>
    have hc := hfill.comment c hcomment
    rw [List.filterMap_cons_some hcomment] at h
    cases b with
    | nil =>
      obtain ⟨rfl, -⟩ := List.cons.inj h
      exact absurd (hx.symm.trans hc) (by decide)
    | cons y b => exact ⟨b, (List.forall_mem_cons.1 hb).2, (List.cons.inj h).2⟩

/-- The first character that is kept, apart from blanks, stands behind a gap. -/
theorem exists_resumes (hfill : Fills fill) {x : Char} (hz : z ≠ .quoted) (hb : Blank b)
    (hx : isBlank x = false) (h : (markFrom z cs).filterMap fill = b ++ x :: u) :
    ∃ p cs', cs = p ++ x :: cs' ∧ Resumes z p ∧
      (markFrom (zoneBehind x) cs').filterMap fill = u := by
  -- Along the scanner: a comment that it has entered is closed before the character is kept, and it
  -- enters no text, since a text starts with a quote.
  fun_induction markFrom z cs generalizing b with
  | case1 =>
    rw [List.filterMap_cons_none hfill.cut] at h
    exact absurd h (by simp)
  | case2 => exact absurd h (by simp)
  | case3 rest ih =>
    rw [hfill.filterMap_kept_cons] at h
    cases b with
    | nil =>
      obtain ⟨rfl, rfl⟩ := List.cons.inj h
      exact ⟨[], rest, rfl, .nil, rfl⟩
    | cons y b =>
      obtain ⟨rfl, -⟩ := List.cons.inj h
      exact absurd (hb _ List.mem_cons_self) (by decide)
  | case4 rest ih =>
    obtain ⟨b, hb, h⟩ := hfill.exists_blank_of_comment hb hx h
    obtain ⟨p, cs', rfl, ⟨body, g, rfl, hbody, hg⟩, hu⟩ := ih (by simp) hb h
    exact ⟨_, cs', rfl, .line hbody hg, hu⟩
  | case5 rest ih =>
    obtain ⟨b, hb, h⟩ := hfill.exists_blank_of_comment hb hx h
    obtain ⟨p, cs', rfl, ⟨body, g, rfl, hbody, hg⟩, hu⟩ := ih (by simp) hb h
    exact ⟨_, cs', rfl, .block hbody hg, hu⟩
  | case6 c rest hquote _ _ ih =>
    rw [hfill.filterMap_kept_cons] at h
    cases b with
    | nil =>
      obtain ⟨rfl, rfl⟩ := List.cons.inj h
      exact ⟨[], rest, rfl, .nil, by rw [zoneBehind, if_neg hquote]⟩
    | cons y b =>
      obtain ⟨rfl, hmore⟩ := List.cons.inj h
      obtain ⟨hy, hb⟩ := List.forall_mem_cons.1 hb
      obtain ⟨p, cs', rfl, hp, hu⟩ := ih (by simp) hb hmore
      exact ⟨_, cs', rfl, .blank hy hp, hu⟩
  | case10 rest ih =>
    rw [hfill.filterMap_kept_cons] at h
    cases b with
    | nil =>
      obtain ⟨rfl, -⟩ := List.cons.inj h
      exact absurd hx (by decide)
    | cons y b =>
      obtain ⟨rfl, hmore⟩ := List.cons.inj h
      obtain ⟨p, cs', rfl, hp, hu⟩ := ih (by simp) (List.forall_mem_cons.1 hb).2 hmore
      exact ⟨_, cs', rfl, ⟨[], p, rfl, List.not_mem_nil, hp⟩, hu⟩
  | case11 c rest hc ih =>
    obtain ⟨p, cs', rfl, ⟨body, g, rfl, hbody, hg⟩, hu⟩ := ih hz hb h
    refine ⟨_, cs', rfl, ⟨c :: body, g, rfl, ?_, hg⟩, hu⟩
    exact List.not_mem_cons_of_ne_of_not_mem (Ne.symm hc) hbody
  | case12 rest ih =>
    obtain ⟨p, cs', rfl, hp, hu⟩ := ih (by simp) hb h
    exact ⟨_, cs', rfl, ⟨[], p, rfl, by simp, hp⟩, hu⟩
  | case13 c rest hc ih =>
    obtain ⟨p, cs', rfl, ⟨body, g, rfl, hbody, hg⟩, hu⟩ := ih hz hb h
    rw [List.append_assoc] at hc
    exact ⟨_, cs', rfl, ⟨c :: body, g, rfl, not_infix_cons hbody hc, hg⟩, hu⟩
  | _ => exact absurd rfl hz

end Fills

/-- What a text that starts in a zone is if only blanks are left of it: blanks and comments, the last
of which may end with the text. -/
def Trails : Zone → List Char → Prop
  | .plain, v => Trailing v
  | .quoted, _ => False
  | .lineComment, v => '\n' ∉ v ∨ ∃ body w, v = body ++ '\n' :: w ∧ '\n' ∉ body ∧ Trailing w
  | .blockComment, v => ∃ body w, v = body ++ '*' :: '/' :: w ∧ ¬ ['*', '/'] <:+: body ∧ Trailing w

theorem Fills.trails {fill : Mark → Option Char} (hfill : Fills fill) {z : Zone} {cs : List Char}
    (hz : z ≠ .quoted) (hb : Blank ((markFrom z cs).filterMap fill))
    (hcut : Mark.cut ∉ markFrom z cs) : Trails z cs := by
  -- Along the scanner, as for the gap in front of a token.
  fun_induction markFrom z cs with
  | case1 => exact absurd List.mem_cons_self hcut
  | case2 z hblock =>
    cases z with
    | plain => exact .gap .nil
    | quoted => exact hz rfl
    | lineComment => exact .inl List.not_mem_nil
    | blockComment => exact absurd rfl hblock
  | case3 =>
    rw [hfill.filterMap_kept_cons] at hb
    exact absurd (hb _ List.mem_cons_self) (by decide)
  | case4 rest ih =>
    obtain hbody | ⟨body, w, rfl, hbody, hw⟩ :=
      ih (by simp) (blank_of_cons hb) (List.not_mem_of_not_mem_cons hcut)
    · exact .line .nil hbody
    · show Trailing _
      simpa using hw.gap_append (.line hbody .nil)
  | case5 rest ih =>
    obtain ⟨body, w, rfl, hbody, hw⟩ :=
      ih (by simp) (blank_of_cons hb) (List.not_mem_of_not_mem_cons hcut)
    show Trailing _
    simpa using hw.gap_append (.block hbody .nil)
  | case6 c rest _ _ _ ih =>
    rw [hfill.filterMap_kept_cons] at hb
    obtain ⟨hc, hb⟩ := List.forall_mem_cons.1 hb
    exact Trailing.gap_append (.blank hc .nil) (ih (by simp) hb (List.not_mem_of_not_mem_cons hcut))
  | case10 rest ih =>
    exact .inr ⟨[], rest, rfl, List.not_mem_nil,
      ih (by simp) (blank_of_cons hb) (List.not_mem_of_not_mem_cons hcut)⟩
  | case11 c rest hc ih =>
    obtain hbody | ⟨body, w, rfl, hbody, hw⟩ := ih hz hb hcut
    · exact .inl (List.not_mem_cons_of_ne_of_not_mem (Ne.symm hc) hbody)
    · exact .inr ⟨c :: body, w, rfl, List.not_mem_cons_of_ne_of_not_mem (Ne.symm hc) hbody, hw⟩
  | case12 rest ih => exact ⟨[], rest, rfl, by simp, ih (by simp) hb hcut⟩
  | case13 c rest hc ih =>
    obtain ⟨body, w, rfl, hbody, hw⟩ := ih hz hb hcut
    exact ⟨c :: body, w, rfl, not_infix_cons hbody hc, hw⟩
  | _ => exact absurd rfl hz

namespace Fills

section Quoted

variable {fill : Mark → Option Char} {cs u : List Char} {x e : Char}

/-- Inside a text every character is kept. -/
theorem exists_cons_of_quoted (hfill : Fills fill)
    (h : (markFrom .quoted cs).filterMap fill = x :: u) : ∃ rest, cs = x :: rest := by
  cases cs with
  | nil => exact absurd h (by simp [markFrom])
  | cons c rest =>
    obtain ⟨m, hm⟩ : ∃ m, markFrom .quoted (c :: rest) = .kept c :: m := by
      rw [markFrom.eq_def]
      split <;> simp_all
    rw [hm, hfill.filterMap_kept_cons] at h
    obtain ⟨rfl, -⟩ := List.cons.inj h
    exact ⟨rest, rfl⟩

theorem exists_of_quoted_cons (hfill : Fills fill) (hx : x ≠ '"' ∧ x ≠ '\\')
    (h : (markFrom .quoted cs).filterMap fill = x :: u) :
    ∃ rest, cs = x :: rest ∧ (markFrom .quoted rest).filterMap fill = u := by
  obtain ⟨rest, rfl⟩ := hfill.exists_cons_of_quoted h
  rw [markFrom_quoted_cons hx, hfill.filterMap_kept_cons] at h
  exact ⟨rest, rfl, (List.cons.inj h).2⟩

theorem exists_of_quoted_escape (hfill : Fills fill)
    (h : (markFrom .quoted cs).filterMap fill = '\\' :: e :: u) :
    ∃ rest, cs = '\\' :: e :: rest ∧ (markFrom .quoted rest).filterMap fill = u := by
  obtain ⟨rest, rfl⟩ := hfill.exists_cons_of_quoted h
  cases rest with
  | nil => exact absurd h (by simp [markFrom, hfill.filterMap_kept_cons])
  | cons c rest =>
    rw [markFrom, hfill.filterMap_kept_cons, hfill.filterMap_kept_cons] at h
    cases h
    exact ⟨rest, rfl, rfl⟩

/-- What has the form of a text, and a closing quote, stand inside a text as they are. -/
theorem exists_of_quoted (hfill : Fills fill) {body : List Char} (hbody : IsBody body)
    (h : (markFrom .quoted cs).filterMap fill = body ++ '"' :: u) :
    ∃ cs', cs = body ++ '"' :: cs' ∧ (markFrom .plain cs').filterMap fill = u := by
  induction hbody generalizing cs with
  | nil =>
    obtain ⟨rest, rfl⟩ := hfill.exists_cons_of_quoted h
    rw [markFrom, hfill.filterMap_kept_cons] at h
    exact ⟨rest, rfl, (List.cons.inj h).2⟩
  | plain _ hquote hbackslash _ ih =>
    obtain ⟨cs₁, rfl, h₁⟩ := hfill.exists_of_quoted_cons ⟨hquote, hbackslash⟩ h
    obtain ⟨cs', rfl, hu⟩ := ih h₁
    exact ⟨cs', rfl, hu⟩
  | short _ _ ih =>
    obtain ⟨cs₁, rfl, h₁⟩ := hfill.exists_of_quoted_escape h
    obtain ⟨cs', rfl, hu⟩ := ih h₁
    exact ⟨cs', rfl, hu⟩
  | hex hn _ ih =>
    have hdigits := ne_of_hexUnit? hn
    simp only [List.forall_mem_cons] at hdigits
    obtain ⟨hw, hx, hy, hz, -⟩ := hdigits
    obtain ⟨cs₁, rfl, h₁⟩ := hfill.exists_of_quoted_escape h
    obtain ⟨cs₂, rfl, h₂⟩ := hfill.exists_of_quoted_cons hw h₁
    obtain ⟨cs₃, rfl, h₃⟩ := hfill.exists_of_quoted_cons hx h₂
    obtain ⟨cs₄, rfl, h₄⟩ := hfill.exists_of_quoted_cons hy h₃
    obtain ⟨cs₅, rfl, h₅⟩ := hfill.exists_of_quoted_cons hz h₄
    obtain ⟨cs', rfl, hu⟩ := ih h₅
    exact ⟨cs', rfl, hu⟩

end Quoted

end Fills

/-- Outside texts and comments a character is kept or a comment starts. -/
theorem cases_markFrom_plain (c : Char) (rest : List Char) :
    markFrom .plain (c :: rest) = .kept c :: markFrom (zoneBehind c) rest ∨
      ∃ z cs, markFrom .plain (c :: rest) = .comment :: markFrom z cs := by
  by_cases hquote : c = '"'
  · subst hquote
    exact .inl (by rw [markFrom]; rfl)
  · by_cases hcomment : ∃ z cs, markFrom .plain (c :: rest) = .comment :: markFrom z cs
    · exact .inr hcomment
    · refine .inl ?_
      rw [markFrom, zoneBehind, if_neg hquote]
      · exact hquote
      · rintro cs rfl rfl
        exact hcomment ⟨.lineComment, cs, by rw [markFrom]⟩
      · rintro cs rfl rfl
        exact hcomment ⟨.blockComment, cs, by rw [markFrom]⟩

/-- What leaves out comments keeps the rest as it is. -/
theorem Fills.eq_kept? {fill : Mark → Option Char} (hfill : Fills fill)
    (h : fill .comment = none) : fill = Mark.kept? := by
  funext y
  cases y with
  | kept c => exact hfill.kept c
  | comment => exact h
  | cut => exact hfill.cut

/-- Between two characters of a word or a numeral stands no comment, unless it splits it. Where
blanks take the place of comments it need not be said that it does not. -/
theorem Fills.exists_cons_of_split {fill : Mark → Option Char} (hfill : Fills fill) {x y : Char}
    {cs u : List Char} (hx : Mark.isInner x = true) (hy : Mark.isInner y = true)
    (h : (markFrom .plain cs).filterMap fill = y :: u)
    (hsplit : fill .comment = none → Mark.split (.kept x :: markFrom .plain cs) = false) :
    ∃ rest, cs = y :: rest ∧ (markFrom .plain rest).filterMap fill = u := by
  cases cs with
  | nil => exact absurd h (by simp [markFrom])
  | cons c rest =>
    obtain hkept | ⟨z, cs', hcomment⟩ := cases_markFrom_plain c rest
    · rw [hkept, hfill.filterMap_kept_cons] at h
      obtain ⟨rfl, hu⟩ := List.cons.inj h
      rw [zoneBehind, if_neg (isInner_ne hy rfl)] at hu
      exact ⟨rest, rfl, hu⟩
    · rw [hcomment] at h hsplit
      cases hfilled : fill .comment with
      | none =>
        obtain rfl := hfill.eq_kept? hfilled
        have hsplit := hsplit hfilled
        rw [List.filterMap_cons_none hfilled] at h
        rw [Mark.split, h] at hsplit
        simp [hx, hy] at hsplit
      | some c' =>
        rw [List.filterMap_cons_some hfilled] at h
        obtain ⟨rfl, -⟩ := List.cons.inj h
        have hblank := isInner_of_isBlank (hfill.comment _ hfilled)
        exact absurd (hblank.symm.trans hy) (by decide)

theorem split_cons_eq_false {y : Mark} {m : List Mark} (h : Mark.split (y :: m) = false) :
    Mark.split m = false := by
  rw [Mark.split.eq_def] at h
  split at h
  · next heq =>
    cases heq
    rw [Bool.or_eq_false_iff] at h
    simp [Mark.split, h.2]
  · next heq =>
    cases heq
    exact h
  · next heq => exact absurd heq (List.cons_ne_nil _ _)

/-- What no comment splits has no part that a comment splits. -/
theorem split_append_eq_false {m m' : List Mark} (h : Mark.split (m ++ m') = false) :
    Mark.split m' = false := by
  induction m with
  | nil => exact h
  | cons y m ih => exact ih (split_cons_eq_false h)

namespace Fills

variable {fill : Mark → Option Char} {cs u v : List Char}

/-- Inside a word or a numeral stands no comment that does not split it. -/
theorem exists_of_word (hfill : Fills fill) {x : Char} {t : List Char} (ht : IsWord (x :: t))
    (h : (markFrom .plain cs).filterMap fill = t ++ u)
    (hsplit : fill .comment = none → Mark.split (.kept x :: markFrom .plain cs) = false) :
    ∃ cs', cs = t ++ cs' ∧ (markFrom .plain cs').filterMap fill = u := by
  induction t generalizing x cs with
  | nil => exact ⟨cs, rfl, h⟩
  | cons y t ih =>
    obtain ⟨hx, hyt⟩ := List.forall_mem_cons.1 ht
    have hy := hyt y List.mem_cons_self
    obtain ⟨rest, rfl, hrest⟩ := hfill.exists_cons_of_split hx hy h hsplit
    rw [markFrom_plain_cons (isInner_ne hy rfl) (isInner_ne hy rfl)] at hsplit
    obtain ⟨cs', rfl, hu⟩ := ih hyt hrest fun hnone ↦ split_cons_eq_false (hsplit hnone)
    exact ⟨cs', rfl, hu⟩

/-- A token that is left behind blanks stands as it is behind a gap. -/
theorem exists_of_isToken (hfill : Fills fill) {t : Token} (ht : IsToken t) {b : List Char}
    (hb : Blank b) (h : (markFrom .plain cs).filterMap fill = b ++ (t ++ u))
    (hsplit : fill .comment = none → Mark.split (markFrom .plain cs) = false) :
    ∃ g cs', cs = g ++ (t ++ cs') ∧ Gap g ∧ (markFrom .plain cs').filterMap fill = u := by
  obtain ⟨x, t, rfl, hblank⟩ := ht.exists_eq_cons
  obtain ⟨g, cs₁, rfl, hg, h₁⟩ := hfill.exists_resumes (by simp) hb hblank h
  have hgap : Gap g := hg
  suffices hmore : ∃ cs', cs₁ = t ++ cs' ∧ (markFrom .plain cs').filterMap fill = u by
    obtain ⟨cs', rfl, hu⟩ := hmore
    exact ⟨g, cs', rfl, hgap, hu⟩
  generalize hxt : x :: t = token at ht
  cases ht with
  | mark _ hquote =>
    cases hxt
    rw [zoneBehind, if_neg hquote] at h₁
    exact ⟨cs₁, rfl, h₁⟩
  | word _ hword =>
    subst hxt
    have hx := hword x List.mem_cons_self
    obtain ⟨m, -, hmarks⟩ := hgap.exists_markFrom_append
    rw [hmarks, markFrom_plain_cons (isInner_ne hx rfl) (isInner_ne hx rfl)] at hsplit
    rw [zoneBehind, if_neg (isInner_ne hx rfl)] at h₁
    exact hfill.exists_of_word hword h₁ fun hnone ↦ split_append_eq_false (hsplit hnone)
  | quoted body =>
    cases hxt
    rw [zoneBehind, if_pos rfl] at h₁
    obtain ⟨cs', rfl, hu⟩ :=
      hfill.exists_of_quoted body.isBody (h₁.trans (List.append_assoc _ _ _))
    exact ⟨cs', by simp, hu⟩

/-- Tokens that are left in blanks stand in gaps. -/
theorem exists_leads (hfill : Fills fill) {ts : List Token} (hts : ∀ t ∈ ts, IsToken t)
    (h : Leads Blank ts ((markFrom .plain cs).filterMap fill) v)
    (hsplit : fill .comment = none → Mark.split (markFrom .plain cs) = false) :
    ∃ w m, Leads Gap ts cs w ∧ (markFrom .plain w).filterMap fill = v ∧
      markFrom .plain cs = m ++ markFrom .plain w := by
  induction ts generalizing cs with
  | nil =>
    cases h
    exact ⟨cs, [], .nil, rfl, rfl⟩
  | cons t ts ih =>
    obtain ⟨ht, hts⟩ := List.forall_mem_cons.1 hts
    obtain ⟨b, u, hu, hb, h⟩ := leads_cons_iff.1 h
    obtain ⟨g, cs', rfl, hg, rfl⟩ := hfill.exists_of_isToken ht hb hu hsplit
    obtain ⟨m, -, hmarks⟩ := hg.exists_markFrom_append
    rw [hmarks, ht.markFrom_append, ← List.append_assoc] at hsplit
    obtain ⟨w, m', hw, hv, hmarks'⟩ :=
      ih hts h fun hnone ↦ split_append_eq_false (hsplit hnone)
    refine ⟨w, m ++ t.map .kept ++ m', .cons hg hw, hv, ?_⟩
    rw [hmarks, ht.markFrom_append, hmarks']
    simp

/-- A document that is left in blanks stands in gaps, if every comment is closed and none that is
left out splits a token. -/
theorem spaced_gap (hfill : Fills fill) {d : Document} {text : String}
    (h : Spaced Blank Blank d.tokens ((marks text).filterMap fill)) (hclosed : ClosesComments text)
    (hsplit : fill .comment = none → splitsToken text = false) :
    Spaced Gap Trailing d.tokens text.toList := by
  obtain ⟨v, hleads, hv⟩ := h
  obtain ⟨w, m, hw, rfl, hmarks⟩ := hfill.exists_leads d.forall_isToken hleads hsplit
  refine ⟨w, hw, hfill.trails (by simp) hv fun hcut ↦ hclosed ?_⟩
  rw [marks, hmarks]
  exact List.mem_append_right m hcut

end Fills

section Document

variable {d : Document} {text : String}

/-- **Where comments may stand.** A document stands in gaps exactly if it stands in blanks when the
comments are left out, every comment is closed and none splits a word or a numeral. -/
theorem spaced_gap_iff_uncomment : Spaced Gap Trailing d.tokens text.toList ↔
    Spaced Blank Blank d.tokens (uncomment text).toList ∧ ClosesComments text ∧
      splitsToken text = false := by
  refine ⟨fun h ↦ ⟨h.uncomment, h.closesComments, h.splitsToken_eq_false⟩, ?_⟩
  rintro ⟨h, hclosed, hsplit⟩
  rw [uncomment, String.toList_ofList, ← filterMap_kept?_markFrom] at h
  exact fills_kept?.spaced_gap h hclosed fun _ ↦ hsplit

/-- **A comment is a blank.** A document stands in gaps exactly if it stands in blanks when a blank
takes the place of each comment, and every comment is closed. -/
theorem spaced_gap_iff_respaced : Spaced Gap Trailing d.tokens text.toList ↔
    Spaced Blank Blank d.tokens (respaced text).toList ∧ ClosesComments text := by
  refine ⟨fun h ↦ ⟨h.respaced, h.closesComments⟩, ?_⟩
  rintro ⟨h, hclosed⟩
  rw [respaced, String.toList_ofList] at h
  exact fills_spaced?.spaced_gap h hclosed fun hnone ↦ absurd hnone (by simp [Mark.spaced?])

end Document

/-! ### Comments that are not closed -/

theorem ne_nil_of_cut_mem {z : Zone} {cs : List Char} (hz : z ≠ .blockComment)
    (h : Mark.cut ∈ markFrom z cs) : cs ≠ [] := by
  rintro rfl
  cases z with
  | blockComment => exact hz rfl
  | plain | quoted | lineComment => exact absurd h List.not_mem_nil

/-- With `*/` behind it a text has the marks that it had, but for the last one, which was a cut. -/
def Mends (z : Zone) (cs : List Char) : Prop :=
  ∃ m, Mark.cut ∉ m ∧ markFrom z cs = m ++ [.cut] ∧ markFrom z (cs ++ ['*', '/']) = m

theorem Mends.cons {z z' : Zone} {cs cs' : List Char} {y : Mark} (h : Mends z cs) (hy : y ≠ .cut)
    (hmarks : markFrom z' cs' = y :: markFrom z cs)
    (hclosed : markFrom z' (cs' ++ ['*', '/']) = y :: markFrom z (cs ++ ['*', '/'])) :
    Mends z' cs' := by
  obtain ⟨m, hcut, hm, hm'⟩ := h
  refine ⟨y :: m, List.not_mem_cons_of_ne_of_not_mem hy.symm hcut, ?_, ?_⟩
  · rw [hmarks, hm]
    rfl
  · rw [hclosed, hm']

/-- To close a comment that reaches to the end of the text changes nothing else. -/
theorem mends_of_cut_mem {z : Zone} {cs : List Char} (h : Mark.cut ∈ markFrom z cs) :
    Mends z cs := by
  fun_induction markFrom z cs with
  | case1 => exact ⟨[], List.not_mem_nil, rfl, rfl⟩
  | case2 => exact absurd h List.not_mem_nil
  | case3 rest ih => exact (ih (by simpa using h)).cons (by simp) rfl rfl
  | case4 rest ih => exact (ih (by simpa using h)).cons (by simp) rfl rfl
  | case5 rest ih => exact (ih (by simpa using h)).cons (by simp) rfl rfl
  | case6 c rest hquote hline hblock ih =>
    have hrest : Mark.cut ∈ markFrom .plain rest := by simpa using h
    obtain ⟨d, rest, rfl⟩ := List.exists_cons_of_ne_nil (ne_nil_of_cut_mem (by simp) hrest)
    refine (ih hrest).cons (y := .kept c) (by simp) ?_ ?_
    · rw [markFrom]
      · exact hquote
      · exact hline
      · exact hblock
    · rw [List.cons_append, markFrom]
      · exact hquote
      · rintro more hc hmore
        exact hline _ hc (congrArg (· :: rest) (List.cons.inj hmore).1)
      · rintro more hc hmore
        exact hblock _ hc (congrArg (· :: rest) (List.cons.inj hmore).1)
  | case7 rest ih => exact (ih (by simpa using h)).cons (by simp) rfl rfl
  | case8 c rest ih =>
    have hmends : Mends .quoted rest := ih (by simpa using h)
    obtain ⟨m, hcut, hm, hclosed⟩ := hmends
    refine ⟨.kept '\\' :: .kept c :: m, by simpa using hcut, ?_, ?_⟩
    · rw [markFrom, hm]
      rfl
    · rw [List.cons_append, List.cons_append, markFrom, hclosed]
  | case9 c rest hquote hescape ih =>
    have hrest : Mark.cut ∈ markFrom .quoted rest := by simpa using h
    obtain ⟨d, rest, rfl⟩ := List.exists_cons_of_ne_nil (ne_nil_of_cut_mem (by simp) hrest)
    refine (ih hrest).cons (y := .kept c) (by simp) ?_ ?_
    · rw [markFrom]
      · exact hquote
      · exact hescape
    · rw [List.cons_append, markFrom]
      · exact hquote
      · exact fun _ _ hc _ ↦ hescape d rest hc rfl
  | case10 rest ih => exact (ih (by simpa using h)).cons (by simp) rfl rfl
  | case11 c rest hc ih =>
    obtain ⟨m, hcut, hm, hclosed⟩ := ih h
    refine ⟨m, hcut, ?_, ?_⟩
    · rw [markFrom, hm]
      exact hc
    · rw [List.cons_append, markFrom, hclosed]
      exact hc
  | case12 rest ih => exact ih h
  | case13 c rest hc ih =>
    obtain ⟨m, hcut, hm, hclosed⟩ := ih h
    refine ⟨m, hcut, ?_, ?_⟩
    · rw [markFrom, hm]
      exact hc
    · rw [List.cons_append, markFrom, hclosed]
      rintro more hstar hmore
      cases rest with
      | nil => exact absurd hmore (by simp)
      | cons d rest => exact hc rest hstar (congrArg (· :: rest) (List.cons.inj hmore).1)

/-- To close the last comment of a text that is not closed leaves the text without its comments as
it is. -/
theorem closesComments_append_close {text : String} (h : ¬ ClosesComments text) :
    ClosesComments (text ++ "*/") ∧ uncomment (text ++ "*/") = uncomment text := by
  obtain ⟨m, hcut, hm, hclosed⟩ := mends_of_cut_mem (not_not.1 h)
  have hmarks : marks (text ++ "*/") = m := by
    rw [marks, String.toList_append]
    exact hclosed
  refine ⟨by rwa [ClosesComments, hmarks], ?_⟩
  rw [uncomment, uncomment, ← filterMap_kept?_markFrom, ← filterMap_kept?_markFrom, hm,
    show markFrom .plain (text ++ "*/").toList = m from hmarks, List.filterMap_append]
  rw [show [Mark.cut].filterMap Mark.kept? = [] from rfl, List.append_nil]

end Provenance.Json
