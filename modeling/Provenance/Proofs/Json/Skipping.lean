import Provenance.Proofs.Json.Writing

/-!
# Values that nobody asks for

A value that is passed over costs steps, and the steps are bounded by the length of the text. So
`Reader.Passes` says of a text not only that it is passed over, whatever brackets are open around
it, but also that fewer than two steps for each of its characters do it. Between brackets this adds
up (`Reader.exists_skipSteps_eq`), and a whole value is passed over within the bound
(`Reader.Passes.skips`).

Texts, natural numbers and `null` are passed over as they are written, and so are lists and objects
of what is passed over.
-/

namespace Provenance.Json

namespace Reader

/-- The text is a value that is passed over inside any open brackets, in fewer than two steps for
each of its characters. -/
structure Passes (t : List Char) : Prop where
  /-- The text starts as values do. -/
  opens : Opens t
  /-- What follows the value is due behind it. -/
  passes : ∃ n < 2 * t.length, ∀ {b rest : List Char} (steps : ℕ) (brackets : List Bracket)
    (line : ℕ), Blank b → Delimits rest → ∃ line',
      skipSteps (steps + n) .value brackets ⟨b ++ (t ++ rest), line⟩ =
        skipSteps steps .sequel brackets ⟨rest, line'⟩

/-- The text of a key, closing quote included, is passed over behind its opening quote. -/
def PassesKey (t : List Char) : Prop :=
  ∀ (rest : List Char) (line : ℕ), ∃ line', skipText ⟨t ++ rest, line⟩ = .ok ⟨rest, line'⟩

/-- A value that is passed over inside brackets is passed over where a field has no use for it. -/
theorem Passes.skips {t : List Char} (h : Passes t) : Skips t := by
  obtain ⟨n, hn, hpasses⟩ := h.passes
  intro b rest line hb hrest
  have hbound : n + 1 ≤ 2 * (b ++ (t ++ rest)).length + 2 := by
    simp only [List.length_append]
    omega
  obtain ⟨steps, hsteps⟩ := Nat.exists_eq_add_of_le hbound
  obtain ⟨line', hskip⟩ := hpasses (steps + 1) [] line hb hrest
  refine ⟨line', ?_⟩
  rw [skipValue, hsteps, show n + 1 + steps = steps + 1 + n by omega, hskip]
  rfl

/-! ### Between brackets -/

/-- An element is passed over inside a bracket: its key, if the bracket is that of an object, and
its value. -/
structure PassesIn (bracket : Bracket) (t : List Char) : Prop where
  /-- The text starts neither with a blank nor with the closing bracket. -/
  opens : ∃ x u, t = x :: u ∧ isBlank x = false ∧ x ≠ bracket.closing
  /-- What follows the element is due behind it. -/
  passes : ∃ n < 2 * t.length, ∀ {b rest : List Char} (steps : ℕ) (brackets : List Bracket)
    (line : ℕ), Blank b → Delimits rest → ∃ c line',
      skipKey bracket ⟨b ++ (t ++ rest), line⟩ = .ok c ∧
      skipSteps (steps + n) .value (bracket :: brackets) c =
        skipSteps steps .sequel (bracket :: brackets) ⟨rest, line'⟩

theorem Passes.passesIn_list {t : List Char} (h : Passes t) : PassesIn .list t := by
  obtain ⟨n, hn, hpasses⟩ := h.passes
  refine ⟨h.opens, n, hn, fun {b rest} steps brackets line hb hrest ↦ ?_⟩
  obtain ⟨line', hskip⟩ := hpasses steps (.list :: brackets) line hb hrest
  exact ⟨⟨b ++ (t ++ rest), line⟩, line', rfl, hskip⟩

theorem passesIn_object {α κ : Type} {t : List Char} {p : κ × α}
    (h : Member (fun k _ ↦ PassesKey k) (fun v _ ↦ Passes v) t p) : PassesIn .object t := by
  obtain @⟨key, g, g', v, _, _, hkey, hg, hg', hv⟩ := h
  obtain ⟨n, hn, hpasses⟩ := hv.passes
  refine ⟨⟨'"', _, rfl, rfl, by decide⟩, n, ?_, fun {b rest} steps brackets line hb hrest ↦ ?_⟩
  · simp only [List.length_cons, List.length_append]
    omega
  · obtain ⟨line₁, hblanks⟩ :=
      exists_skipBlanks_eq hb (x := '"') rfl (key ++ (g ++ ':' :: (g' ++ (v ++ rest)))) line
    obtain ⟨line₂, htext⟩ := hkey (g ++ ':' :: (g' ++ (v ++ rest))) line₁
    obtain ⟨line₃, hcolon⟩ := exists_skipColon_eq hg (g' ++ (v ++ rest)) line₂
    obtain ⟨line₄, hskip⟩ := hpasses steps (.object :: brackets) line₃ hg' hrest
    refine ⟨⟨g' ++ (v ++ rest), line₃⟩, line₄, ?_, hskip⟩
    simp [skipKey, hblanks, htext, hcolon, bind, Except.bind]

section Enclosed

variable {bracket : Bracket} {α : Type} {Item : List Char → α → Prop} {isFirst : Bool}
  {as : List α} {u : List Char}

theorem Bracket.isBlank_closing (bracket : Bracket) : isBlank bracket.closing = false := by
  cases bracket <;> rfl

theorem Bracket.isDelimiter_closing (bracket : Bracket) : IsDelimiter bracket.closing := by
  cases bracket <;> decide

theorem Bracket.closing_ne_comma (bracket : Bracket) : bracket.closing ≠ ',' := by
  cases bracket <;> decide

/-- What is due behind an opening bracket, or behind an element. -/
def dueAt (isFirst : Bool) : Due := if isFirst then .element else .sequel

/-- At the closing bracket what follows the whole value is due. -/
theorem skipSteps_closing (isFirst : Bool) (steps : ℕ) (brackets : List Bracket) {c : Cursor}
    {rest : List Char} {line : ℕ} (hblanks : c.skipBlanks = ⟨bracket.closing :: rest, line⟩) :
    skipSteps (steps + 1) (dueAt isFirst) (bracket :: brackets) c =
      skipSteps steps .sequel brackets ⟨rest, line⟩ := by
  cases isFirst with
  | true => simp [dueAt, skipSteps, hblanks]
  | false => simp [dueAt, skipSteps, hblanks, bracket.closing_ne_comma]

/-- What stands between brackets is passed over if its elements are, up to and with the closing
bracket. -/
theorem exists_skipSteps_eq (hitem : ∀ t a, Item t a → PassesIn bracket t)
    (h : Enclosed bracket.closing Item isFirst as u) :
    ∃ n < 2 * u.length, ∀ (rest : List Char) (steps : ℕ) (brackets : List Bracket) (line : ℕ),
      ∃ line', skipSteps (steps + n) (dueAt isFirst) (bracket :: brackets) ⟨u ++ rest, line⟩ =
        skipSteps steps .sequel brackets ⟨rest, line'⟩ := by
  induction h with
  | @last isFirst b hb =>
    refine ⟨1, by simp; omega, fun rest steps brackets line ↦ ?_⟩
    obtain ⟨line', hblanks⟩ := exists_skipBlanks_eq hb bracket.isBlank_closing rest line
    refine ⟨line', skipSteps_closing isFirst steps brackets ?_⟩
    rw [List.append_assoc]
    exact hblanks
  | @first b t u a as hb ht hu ih =>
    obtain ⟨n, hn, hpasses⟩ := (hitem t a ht).passes
    obtain ⟨m, hm, ih⟩ := ih
    refine ⟨m + n + 1, by simp only [List.length_append]; omega,
      fun rest steps brackets line ↦ ?_⟩
    obtain ⟨x, v, rfl, hx, hne⟩ := (hitem t a ht).opens
    obtain ⟨line₁, hblanks⟩ := exists_skipBlanks_eq hb hx (v ++ (u ++ rest)) line
    obtain ⟨c, line₂, hkey, hvalue⟩ := hpasses (steps + m) brackets line₁ blank_nil
      (hu.delimits bracket.isDelimiter_closing rest)
    obtain ⟨line₃, hrest⟩ := ih rest steps brackets line₂
    refine ⟨line₃, ?_⟩
    rw [← hrest, show dueAt false = .sequel from rfl, ← hvalue]
    simp only [List.nil_append, List.cons_append] at hkey
    simp [dueAt, skipSteps, ← Nat.add_assoc, hblanks, hne, hkey, bind, Except.bind]
  | @next b b' t u a as hb hb' ht hu ih =>
    obtain ⟨n, hn, hpasses⟩ := (hitem t a ht).passes
    obtain ⟨m, hm, ih⟩ := ih
    refine ⟨m + n + 1, by simp only [List.length_append, List.length_cons]; omega,
      fun rest steps brackets line ↦ ?_⟩
    obtain ⟨line₁, hblanks⟩ :=
      exists_skipBlanks_eq hb (x := ',') rfl (b' ++ (t ++ (u ++ rest))) line
    obtain ⟨c, line₂, hkey, hvalue⟩ := hpasses (steps + m) brackets line₁ hb'
      (hu.delimits bracket.isDelimiter_closing rest)
    obtain ⟨line₃, hrest⟩ := ih rest steps brackets line₂
    refine ⟨line₃, ?_⟩
    rw [← hrest, show dueAt false = .sequel from rfl, ← hvalue]
    simp [skipSteps, ← Nat.add_assoc, hblanks, hkey, bind, Except.bind]

variable (bracket) in
/-- A value in brackets is passed over behind its opening bracket. -/
theorem passes_of_enclosed {x : Char} (hx : isBlank x = false) (hne : x ≠ ']')
    (hstart : ∀ (c : Cursor) (rest : List Char) (line : ℕ), c.skipBlanks = ⟨x :: rest, line⟩ →
      skipStart c = .ok (some bracket, ⟨rest, line⟩))
    (hitem : ∀ t a, Item t a → PassesIn bracket t)
    (h : Enclosed bracket.closing Item true as u) : Passes (x :: u) := by
  obtain ⟨n, hn, hpasses⟩ := exists_skipSteps_eq hitem h
  refine ⟨⟨x, u, rfl, hx, hne⟩, n + 1, by rw [List.length_cons]; omega, ?_⟩
  intro b rest steps brackets line hb _
  obtain ⟨line₁, hblanks⟩ := exists_skipBlanks_eq hb hx (u ++ rest) line
  obtain ⟨line₂, hskip⟩ := hpasses rest steps brackets line₁
  refine ⟨line₂, ?_⟩
  rw [← hskip, ← Nat.add_assoc]
  simp [skipSteps, hstart _ _ _ hblanks, dueAt, bind, Except.bind]

theorem Passes.list (h : Enclosed ']' (fun t (_ : α) ↦ Passes t) true as u) : Passes ('[' :: u) :=
  passes_of_enclosed .list rfl (by decide)
    (fun c rest line hblanks ↦ by rw [skipStart, hblanks]; rfl)
    (fun _ _ ht ↦ ht.passesIn_list) h

theorem Passes.object {κ : Type} {ps : List (κ × α)}
    (h : Enclosed '\x7d' (Member (fun k _ ↦ PassesKey k) fun v _ ↦ Passes v) true ps u) :
    Passes ('\x7b' :: u) :=
  passes_of_enclosed .object rfl (by decide)
    (fun c rest line hblanks ↦ by rw [skipStart, hblanks]; rfl)
    (fun _ _ ht ↦ passesIn_object ht) h

end Enclosed

/-! ### Scalars -/

/-- A text that takes one step is passed over. -/
theorem Passes.of_skipStart {x : Char} {t : List Char} (hx : isBlank x = false) (hne : x ≠ ']')
    (h : ∀ (c : Cursor) (rest : List Char) (line : ℕ), Delimits rest →
      c.skipBlanks = ⟨x :: (t ++ rest), line⟩ → ∃ line',
        skipStart c = .ok (none, ⟨rest, line'⟩)) : Passes (x :: t) := by
  refine ⟨⟨x, t, rfl, hx, hne⟩, 1, by rw [List.length_cons]; omega, ?_⟩
  intro b rest steps brackets line hb hrest
  obtain ⟨line₁, hblanks⟩ := exists_skipBlanks_eq hb hx (t ++ rest) line
  obtain ⟨line₂, hstart⟩ := h _ rest line₁ hrest hblanks
  refine ⟨line₂, ?_⟩
  simp only [List.cons_append]
  simp [skipSteps, hstart, bind, Except.bind]

theorem passes_null : Passes ['n', 'u', 'l', 'l'] :=
  .of_skipStart rfl (by decide) fun c rest line _ hblanks ↦
    ⟨line, by rw [skipStart, hblanks]; rfl⟩

theorem passes_true : Passes ['t', 'r', 'u', 'e'] :=
  .of_skipStart rfl (by decide) fun c rest line _ hblanks ↦
    ⟨line, by rw [skipStart, hblanks]; rfl⟩

theorem passes_false : Passes ['f', 'a', 'l', 's', 'e'] :=
  .of_skipStart rfl (by decide) fun c rest line _ hblanks ↦
    ⟨line, by rw [skipStart, hblanks]; rfl⟩

/-- A text in form is passed over behind its opening quote. -/
theorem passesKey_of_isBody {b : List Char} (h : IsBody b) : PassesKey (b ++ ['"']) := by
  intro rest line
  refine ⟨line, ?_⟩
  rw [skipText, List.append_assoc]
  exact skipBody_of_isBody h line rest

/-- A text in form is passed over. -/
theorem passes_of_isBody {b : List Char} (h : IsBody b) : Passes ('"' :: (b ++ ['"'])) := by
  refine .of_skipStart rfl (by decide) fun c rest line _ hblanks ↦ ?_
  obtain ⟨line', htext⟩ := passesKey_of_isBody h rest line
  refine ⟨line', ?_⟩
  rw [skipStart, hblanks]
  show (none, ·) <$> skipText _ = _
  rw [htext]
  rfl

theorem passesKey_quote (s : String) : PassesKey (s.toList.flatMap escape ++ ['"']) :=
  passesKey_of_isBody (encodes_flatMap_escape s.toList).isBody

theorem passes_quote (s : String) : Passes (quote s) :=
  passes_of_isBody (encodes_flatMap_escape s.toList).isBody

/-- A numeral is passed over. -/
theorem skipNumber_append {n : Numeral} {t rest : List Char} (h : NumeralText n t)
    (hrest : Delimits rest) (line : ℕ) : skipNumber ⟨t ++ rest, line⟩ = .ok ⟨rest, line⟩ := by
  rw [skipNumber, numeral_append h hrest]
  rfl

theorem passes_numeral {n : Numeral} {t : List Char} (h : NumeralText n t) : Passes t := by
  obtain ⟨d, ds, rfl, hd⟩ := h.exists_cons
  refine .of_skipStart (isBlank_of_isDigit hd) ?_ fun c rest line hrest hblanks ↦ ⟨line, ?_⟩
  · rintro rfl
    exact absurd hd (by decide)
  · have hnumber := skipNumber_append h hrest line
    rw [List.cons_append] at hnumber
    rw [skipStart, hblanks]
    split
    case h_9 h =>
      cases h
      rw [if_pos hd, hnumber]
      rfl
    all_goals next h => cases h <;> exact absurd hd (by decide)

theorem passes_minus {n : Numeral} {t : List Char} (h : NumeralText n t) : Passes ('-' :: t) :=
  .of_skipStart rfl (by decide) fun c rest line hrest hblanks ↦ ⟨line, by
    rw [skipStart, hblanks]
    show (none, ·) <$> skipNumber _ = _
    rw [skipNumber_append h hrest]
    rfl⟩

theorem passes_decimal (n : ℕ) : Passes (decimal n).toList := by
  rw [decimal, String.toList_ofList]
  exact passes_numeral (Numeral.numeralText_toDigits n)

end Reader

/-! ### Written values -/

section Written

open Reader

variable {l : Layout} {level : ℕ}

/-- A written list is passed over if its elements are. -/
theorem passes_write_list (hl : l.IsBlank) {xs : List Json}
    (h : ∀ x ∈ xs, Passes (x.write l (level + 1))) : Passes ((list xs).write l level) := by
  obtain ⟨u, htext, hu⟩ : ∃ u, (list xs).write l level = '[' :: u ∧
      Enclosed ']' (fun t (_ : Json) ↦ Passes t) true xs u :=
    exists_write_list_eq hl (List.forall₂_same.2 h)
  rw [htext]
  exact .list hu

/-- A written object is passed over if the values of its members are. -/
theorem passes_write_object (hl : l.IsBlank) {ms : List (String × Json)}
    (h : ∀ m ∈ ms, Passes (m.2.write l (level + 1))) : Passes ((object ms).write l level) := by
  obtain ⟨u, htext, hu⟩ : ∃ u, (object ms).write l level = '\x7b' :: u ∧
      Enclosed '\x7d' (Member (fun k (_ : String) ↦ PassesKey k) fun v (_ : Json) ↦ Passes v) true
        ms u :=
    exists_write_object_eq hl
      (List.forall₂_same.2 fun m hm ↦ ⟨passesKey_quote m.1, h m hm⟩)
  rw [htext]
  exact .object hu

end Written

end Provenance.Json
