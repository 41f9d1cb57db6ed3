import Provenance.Log
import Provenance.Proofs.Json.Reading

/-!
# The form of texts and numerals

Texts and numerals are the tokens that have a form of their own. `Encodes` says which characters
stand between the quotes of a text, with its escapes, and `NumeralText` what a numeral looks like.
Neither mentions a reader.

The readers take these forms and no others: a text is decoded exactly to the characters that it
encodes (`Reader.readsKey_of_encodes`, `Reader.exists_encodes_of_textRest_eq_ok`), and what is
passed over as a text is a text in form (`Reader.skipBody_of_isBody`,
`Reader.exists_isBody_of_skipText_eq_ok`). A numeral is read up to what delimits it, and what has
been read is a numeral (`Reader.numeral_append`, `Reader.exists_of_numeral_eq_ok`).
-/

namespace Provenance.Json

/-! ### Texts -/

/-- What may stand between quotes. -/
inductive IsBody : List Char → Prop
  /-- Nothing. -/
  | nil : IsBody []
  /-- A character that stands for itself. -/
  | plain {c : Char} {b : List Char} : ¬ c < ' ' → c ≠ '"' → c ≠ '\\' → IsBody b → IsBody (c :: b)
  /-- A letter behind a backslash. -/
  | short {e c : Char} {b : List Char} : longForm? e = some c → IsBody b → IsBody ('\\' :: e :: b)
  /-- Four hexadecimal digits; they may be half of a surrogate pair. -/
  | hex {w x y z : Char} {n : ℕ} {b : List Char} : hexUnit? w x y z = some n → IsBody b →
    IsBody ('\\' :: 'u' :: w :: x :: y :: z :: b)

/-- What stands between quotes encodes characters. Half of a surrogate pair encodes none. -/
inductive Encodes : List Char → List Char → Prop
  /-- Nothing. -/
  | nil : Encodes [] []
  /-- A character that stands for itself. -/
  | plain {c : Char} {b s : List Char} : ¬ c < ' ' → c ≠ '"' → c ≠ '\\' → Encodes b s →
    Encodes (c :: b) (c :: s)
  /-- A letter behind a backslash. -/
  | short {e c : Char} {b s : List Char} : longForm? e = some c → Encodes b s →
    Encodes ('\\' :: e :: b) (c :: s)
  /-- A character of the basic plane. -/
  | hex {w x y z : Char} {n : ℕ} {b s : List Char} : hexUnit? w x y z = some n →
    isHighSurrogate n = false → isLowSurrogate n = false → Encodes b s →
    Encodes ('\\' :: 'u' :: w :: x :: y :: z :: b) (Char.ofNat n :: s)
  /-- A character beyond the basic plane. -/
  | pair {w x y z w' x' y' z' : Char} {high low : ℕ} {b s : List Char} :
    hexUnit? w x y z = some high → isHighSurrogate high = true →
    hexUnit? w' x' y' z' = some low → isLowSurrogate low = true → Encodes b s →
    Encodes ('\\' :: 'u' :: w :: x :: y :: z :: '\\' :: 'u' :: w' :: x' :: y' :: z' :: b)
      (surrogatePair high low :: s)

theorem Encodes.isBody {b s : List Char} (h : Encodes b s) : IsBody b := by
  induction h with
  | nil => exact .nil
  | plain hc hquote hbackslash _ ih => exact .plain hc hquote hbackslash ih
  | short he _ ih => exact .short he ih
  | hex hn _ _ _ ih => exact .hex hn ih
  | pair hhigh _ hlow _ _ ih => exact .hex hhigh (.hex hlow ih)

/-- A letter with a meaning behind a backslash does not announce hexadecimal digits. -/
theorem ne_u_of_longForm? {e c : Char} (h : longForm? e = some c) : e ≠ 'u' := by
  rintro rfl
  exact absurd h (by simp [longForm?])

/-- No unit is both halves of a surrogate pair. -/
theorem isLowSurrogate_of_isHighSurrogate {n : ℕ} (h : isHighSurrogate n = true) :
    isLowSurrogate n = false := by
  simp only [isHighSurrogate, Bool.and_eq_true, decide_eq_true_eq] at h
  simp [isLowSurrogate]
  omega

namespace Reader

variable {line : ℕ} {b s done rest : List Char}

/-- A text is decoded to the characters that it encodes. -/
theorem textBody_of_encodes (h : Encodes b s) (line : ℕ) (done rest : List Char) :
    textBody line none done (b ++ '"' :: rest) =
      .ok (String.ofList (done.reverse ++ s), ⟨rest, line⟩) := by
  induction h generalizing done with
  | nil => rw [List.nil_append, textBody, List.append_nil]
  | plain hc hquote hbackslash _ ih =>
    rw [List.cons_append, textBody, if_neg hc, ih]
    · simp
    all_goals simp [hquote, hbackslash]
  | short he _ ih =>
    have hu := ne_u_of_longForm? he
    rw [List.cons_append, List.cons_append, textBody, he]
    · simp [ih]
    all_goals simp [hu]
  | hex hn hhigh hlow _ ih =>
    simp only [List.cons_append]
    rw [textBody, hn]
    simp [hhigh, hlow, ih]
  | pair hn hhigh hn' hlow _ ih =>
    simp only [List.cons_append]
    rw [textBody, hn]
    simp only [isLowSurrogate_of_isHighSurrogate hhigh, hhigh, if_true, Bool.false_eq_true,
      if_false]
    rw [textBody, hn']
    simp [hlow, ih]

/-- What a text goes on with: behind the first half of a surrogate pair with the second one. -/
def Continues : Option ℕ → List Char → List Char → Prop
  | none, b, s => Encodes b s
  | some high, b, s => ∃ w x y z low b' s', hexUnit? w x y z = some low ∧
    isLowSurrogate low = true ∧ Encodes b' s' ∧ b = '\\' :: 'u' :: w :: x :: y :: z :: b' ∧
    s = surrogatePair high low :: s'

/-- What is decoded encodes the characters that come out, and ends with a quote. -/
theorem exists_continues_of_textBody_eq_ok {high? : Option ℕ} {t : String} {c : Cursor}
    (h : textBody line high? done rest = .ok (t, c)) :
    ∃ b s, Continues high? b s ∧ rest = b ++ '"' :: c.rest ∧ t = String.ofList (done.reverse ++ s)
    := by
  fun_induction textBody line high? done rest with
  | case1 done rest =>
    cases h
    exact ⟨[], [], .nil, rfl, by rw [List.append_nil]⟩
  | case4 done w x y z rest n hn _ hhigh ih =>
    obtain ⟨b, s, hb, rfl, rfl⟩ := ih h
    obtain ⟨w', x', y', z', low, b, s, hlow, hislow, hb, rfl, rfl⟩ := hb
    exact ⟨_, _, .pair hn hhigh hlow hislow hb, rfl, rfl⟩
  | case5 done w x y z rest n hn hlow hhigh ih =>
    obtain ⟨b, s, hb, rfl, rfl⟩ := ih h
    exact ⟨_, _, .hex hn (Bool.eq_false_iff.2 hhigh) (Bool.eq_false_iff.2 hlow) hb, rfl, by simp⟩
  | case7 done e rest _ _ c' he ih =>
    obtain ⟨b, s, hb, rfl, rfl⟩ := ih h
    exact ⟨_, _, .short he hb, rfl, by simp⟩
  | case12 done c' rest hquote _ _ hescape hend hc ih =>
    obtain ⟨b, s, hb, rfl, rfl⟩ := ih h
    have hbackslash : c' ≠ '\\' := fun hc' ↦ by
      cases b with
      | nil => exact hescape _ _ hc' rfl
      | cons e b => exact hescape _ _ hc' rfl
    exact ⟨_, _, .plain hc hquote hbackslash hb, rfl, by simp⟩
  | case14 high done w x y z rest low hn hlow ih =>
    obtain ⟨b, s, hb, rfl, rfl⟩ := ih h
    exact ⟨_, _, ⟨w, x, y, z, low, b, s, hn, hlow, hb, rfl, rfl⟩, rfl, by simp⟩
  | _ => exact absurd h (by simp)

/-- A text is read behind its opening quote to what it encodes. -/
theorem readsKey_of_encodes {b : List Char} {s : String} (h : Encodes b s.toList) :
    textRest.ReadsKey (b ++ ['"']) s := by
  intro rest line
  refine ⟨line, ?_⟩
  rw [textRest, List.append_assoc]
  show textBody line none [] (b ++ '"' :: rest) = _
  rw [textBody_of_encodes h, List.reverse_nil, List.nil_append, String.ofList_toList]

/-- What is read behind an opening quote encodes the text that is returned. -/
theorem exists_encodes_of_textRest_eq_ok {c c' : Cursor} {s : String}
    (h : textRest c = .ok (s, c')) :
    ∃ b, Encodes b s.toList ∧ c.rest = b ++ '"' :: c'.rest := by
  obtain ⟨b, s, hb, hrest, rfl⟩ := exists_continues_of_textBody_eq_ok h
  exact ⟨b, by rw [String.toList_ofList]; exact hb, hrest⟩

/-- A text in form is passed over. -/
theorem skipBody_of_isBody (h : IsBody b) (line : ℕ) (rest : List Char) :
    skipBody line (b ++ '"' :: rest) = .ok ⟨rest, line⟩ := by
  induction h with
  | nil => rw [List.nil_append, skipBody]
  | plain hc hquote hbackslash _ ih =>
    rw [List.cons_append, skipBody, if_neg hc, ih]
    all_goals simp [hquote, hbackslash]
  | short he _ ih =>
    have hu := ne_u_of_longForm? he
    rw [List.cons_append, List.cons_append, skipBody, he]
    · exact ih
    all_goals simp [hu]
  | hex hn _ ih =>
    simp only [List.cons_append]
    rw [skipBody, hn]
    exact ih

/-- What is passed over as a text is in form. -/
theorem exists_isBody_of_skipText_eq_ok {c c' : Cursor} (h : skipText c = .ok c') :
    ∃ b, IsBody b ∧ c.rest = b ++ '"' :: c'.rest := by
  rw [skipText] at h
  generalize c.rest = rest at h ⊢
  fun_induction skipBody c.line rest with
  | case1 rest =>
    cases h
    exact ⟨[], .nil, rfl⟩
  | case3 w x y z rest n hn ih =>
    obtain ⟨b, hb, rfl⟩ := ih h
    exact ⟨_, .hex hn hb, rfl⟩
  | case5 e rest _ _ c' he ih =>
    obtain ⟨b, hb, rfl⟩ := ih h
    exact ⟨_, .short he hb, rfl⟩
  | case10 c' rest hquote _ _ hescape _ hc ih =>
    obtain ⟨b, hb, rfl⟩ := ih h
    have hbackslash : c' ≠ '\\' := fun hc' ↦ by
      cases b with
      | nil => exact hescape _ _ hc' rfl
      | cons e b => exact hescape _ _ hc' rfl
    exact ⟨_, .plain hc hquote hbackslash hb, rfl⟩
  | _ => exact absurd h (by simp)

end Reader

/-! ### Numerals -/

/-- Digits, and one at least. -/
def AreDigits (ds : List Char) : Prop := ds ≠ [] ∧ ∀ d ∈ ds, d.isDigit = true

/-- Digits of which a leading zero stands alone. -/
def IsWhole (ds : List Char) : Prop := AreDigits ds ∧ ∀ d more, ds ≠ '0' :: d :: more

/-- The text of a fraction, or none. -/
inductive FractionText : Option (List Char) → List Char → Prop
  | none : FractionText none []
  | some {ds : List Char} : AreDigits ds → FractionText (some ds) ('.' :: ds)

/-- The text of an exponent, or none. -/
inductive ExponentText : Option (Bool × List Char) → List Char → Prop
  | none : ExponentText none []
  | unsigned {e : Char} {ds : List Char} : e = 'e' ∨ e = 'E' → AreDigits ds →
    ExponentText (some (false, ds)) (e :: ds)
  | plus {e : Char} {ds : List Char} : e = 'e' ∨ e = 'E' → AreDigits ds →
    ExponentText (some (false, ds)) (e :: '+' :: ds)
  | minus {e : Char} {ds : List Char} : e = 'e' ∨ e = 'E' → AreDigits ds →
    ExponentText (some (true, ds)) (e :: '-' :: ds)

/-- The text of a numeral behind its sign. -/
inductive NumeralText : Numeral → List Char → Prop
  | mk {whole f e : List Char} {fraction : Option (List Char)}
    {exponent : Option (Bool × List Char)} : IsWhole whole → FractionText fraction f →
    ExponentText exponent e → NumeralText ⟨whole, fraction, exponent⟩ (whole ++ (f ++ e))

/-- A numeral starts with a digit. -/
theorem NumeralText.exists_cons {n : Numeral} {t : List Char} (h : NumeralText n t) :
    ∃ d ds, t = d :: ds ∧ d.isDigit = true := by
  obtain @⟨whole, f, e, _, _, ⟨⟨hne, hds⟩, -⟩, -, -⟩ := h
  obtain ⟨d, ds, rfl⟩ := List.exists_cons_of_ne_nil hne
  exact ⟨d, ds ++ (f ++ e), rfl, hds d List.mem_cons_self⟩

/-- The text does not go on with a digit. -/
def EndsDigits (rest : List Char) : Prop := ∀ x ∈ rest.head?, x.isDigit = false

theorem endsDigits_cons {x : Char} (hx : x.isDigit = false) (rest : List Char) :
    EndsDigits (x :: rest) := by
  intro y hy
  obtain rfl : x = y := by simpa using hy
  exact hx

theorem Delimits.endsDigits {rest : List Char} (h : Delimits rest) : EndsDigits rest :=
  fun x hx ↦ (h x hx).1

theorem ExponentText.endsDigits {exponent : Option (Bool × List Char)} {e rest : List Char}
    (h : ExponentText exponent e) (hrest : Delimits rest) : EndsDigits (e ++ rest) := by
  cases h with
  | none => exact hrest.endsDigits
  | unsigned he | plus he | minus he =>
    obtain rfl | rfl := he <;> exact endsDigits_cons (by decide) _

theorem FractionText.endsDigits {fraction : Option (List Char)} {f rest : List Char}
    (h : FractionText fraction f) (hrest : EndsDigits rest) : EndsDigits (f ++ rest) := by
  cases h with
  | none => exact hrest
  | some => exact endsDigits_cons (by decide) _

namespace Reader

variable {ds t rest : List Char} {cut : Cause} {c c' : Cursor}

/-- Digits are read up to the next character that is none. -/
theorem digits_append (hds : ∀ d ∈ ds, d.isDigit = true) (hrest : EndsDigits rest) (line : ℕ) :
    digits ⟨ds ++ rest, line⟩ = (ds, ⟨rest, line⟩) := by
  have hstop : rest.takeWhile Char.isDigit = [] ∧ rest.dropWhile Char.isDigit = rest := by
    cases rest with
    | nil => exact ⟨rfl, rfl⟩
    | cons x rest =>
      have hx : x.isDigit = false := hrest x rfl
      simp [hx]
  rw [digits, List.takeWhile_append_of_pos hds, List.dropWhile_append_of_pos hds, hstop.1, hstop.2,
    List.append_nil]

theorem wholePart_append (h : IsWhole ds) (hrest : EndsDigits rest) (cut : Cause) (line : ℕ) :
    wholePart cut ⟨ds ++ rest, line⟩ = .ok (ds, ⟨rest, line⟩) := by
  obtain ⟨⟨hne, hds⟩, hzero⟩ := h
  rw [wholePart, digits_append hds hrest]
  split
  · next h => exact absurd (congrArg Prod.fst h) hne
  · next h => exact absurd (congrArg Prod.fst h) hne
  · next h => exact absurd (congrArg Prod.fst h) (hzero _ _)
  · next h => rw [← h]

/-- A numeral that goes on neither with a digit nor with a point has no fraction left. -/
theorem fractionPart_append {fraction : Option (List Char)} {f : List Char}
    (h : FractionText fraction f) (hrest : EndsDigits rest) (hpoint : ∀ x ∈ rest.head?, x ≠ '.')
    (cut : Cause) (line : ℕ) :
    fractionPart cut ⟨f ++ rest, line⟩ = .ok (fraction, ⟨rest, line⟩) := by
  cases h with
  | none =>
    rw [List.nil_append, fractionPart]
    split
    · next h =>
      cases h
      exact absurd rfl (hpoint '.' rfl)
    · rfl
  | @some ds hds =>
    rw [List.cons_append, fractionPart]
    simp only [digits_append hds.2 hrest]
    obtain ⟨d, ds, rfl⟩ := List.exists_cons_of_ne_nil hds.1
    rfl

/-- What the digits of an exponent make of it. -/
theorem exponentPart_append {exponent : Option (Bool × List Char)} {e : List Char}
    (h : ExponentText exponent e) (hrest : Delimits rest) (cut : Cause) (line : ℕ) :
    exponentPart cut ⟨e ++ rest, line⟩ = .ok (exponent, ⟨rest, line⟩) := by
  cases h with
  | none =>
    cases rest with
    | nil => rfl
    | cons x rest =>
      obtain ⟨-, -, he, hE⟩ := hrest x rfl
      simp [exponentPart, he, hE]
  | @unsigned e ds he hds =>
    obtain ⟨d, ds, rfl⟩ := List.exists_cons_of_ne_nil hds.1
    have hplus : d ≠ '+' := by rintro rfl; exact absurd (hds.2 '+' List.mem_cons_self) (by decide)
    have hminus : d ≠ '-' := by rintro rfl; exact absurd (hds.2 '-' List.mem_cons_self) (by decide)
    have hdigits := digits_append hds.2 hrest.endsDigits line
    rw [List.cons_append] at hdigits
    simp [exponentPart, he, hplus, hminus, hdigits]
  | @plus e ds he hds =>
    obtain ⟨d, ds, rfl⟩ := List.exists_cons_of_ne_nil hds.1
    have hdigits := digits_append hds.2 hrest.endsDigits line
    rw [List.cons_append] at hdigits
    simp [exponentPart, he, hdigits]
  | @minus e ds he hds =>
    obtain ⟨d, ds, rfl⟩ := List.exists_cons_of_ne_nil hds.1
    have hdigits := digits_append hds.2 hrest.endsDigits line
    rw [List.cons_append] at hdigits
    simp [exponentPart, he, hdigits]

/-- A numeral is read up to what delimits it. -/
theorem numeral_append {n : Numeral} (h : NumeralText n t) (hrest : Delimits rest) (cut : Cause)
    (line : ℕ) : numeral cut ⟨t ++ rest, line⟩ = .ok (n, ⟨rest, line⟩) := by
  obtain @⟨whole, f, e, fraction, exponent, hwhole, hfraction, hexponent⟩ := h
  have hends := hexponent.endsDigits hrest
  have hpoint : ∀ x ∈ (e ++ rest).head?, x ≠ '.' := by
    cases hexponent with
    | none => exact fun x hx ↦ (hrest x hx).2.1
    | unsigned he | plus he | minus he =>
      obtain rfl | rfl := he <;> simp
  simp only [numeral, List.append_assoc, wholePart_append hwhole (hfraction.endsDigits hends),
    fractionPart_append hfraction hends hpoint, exponentPart_append hexponent hrest, bind,
    Except.bind]
  rfl

/-! What has been read is a numeral. -/

/-- Digits have been read if the reader neither stopped at the end nor at another character. -/
theorem areDigits_of_digits_eq (h : digits c = (ds, c'))
    (hnil : ∀ line, ds = [] → c' = ⟨[], line⟩ → False)
    (hcons : ∀ x more line, ds = [] → c' = ⟨x :: more, line⟩ → False) :
    AreDigits ds ∧ c.rest = ds ++ c'.rest := by
  obtain ⟨rest, line⟩ := c'
  have hne : ds ≠ [] := fun hds ↦ by
    cases rest with
    | nil => exact hnil line hds rfl
    | cons x more => exact hcons x more line hds rfl
  obtain ⟨rfl, hrest⟩ := Prod.mk.inj h
  cases hrest
  exact ⟨⟨hne, List.all_eq_true.1 List.all_takeWhile⟩, List.takeWhile_append_dropWhile.symm⟩

theorem isWhole_of_wholePart_eq_ok (h : wholePart cut c = .ok (ds, c')) :
    IsWhole ds ∧ c.rest = ds ++ c'.rest := by
  rw [wholePart] at h
  split at h
  · exact absurd h (by simp)
  · exact absurd h (by simp)
  · exact absurd h (by simp [Cursor.stop])
  · next hnil hcons hzero hdigits =>
    cases h
    obtain ⟨hds, hrest⟩ := areDigits_of_digits_eq hdigits hnil hcons
    exact ⟨⟨hds, hzero⟩, hrest⟩

theorem exists_of_fractionPart_eq_ok {fraction : Option (List Char)}
    (h : fractionPart cut c = .ok (fraction, c')) :
    ∃ f, FractionText fraction f ∧ c.rest = f ++ c'.rest := by
  rw [fractionPart] at h
  split at h
  · next rest hpoint =>
    split at h
    · exact absurd h (by simp)
    · exact absurd h (by simp)
    · next hnil hcons hdigits =>
      cases h
      obtain ⟨hds, hrest⟩ := areDigits_of_digits_eq hdigits hnil hcons
      exact ⟨_, .some hds, hpoint.trans (congrArg ('.' :: ·) hrest)⟩
  · cases h
    exact ⟨[], .none, rfl⟩

theorem exists_of_exponentPart_eq_ok {exponent : Option (Bool × List Char)}
    (h : exponentPart cut c = .ok (exponent, c')) :
    ∃ e, ExponentText exponent e ∧ c.rest = e ++ c'.rest := by
  rw [exponentPart] at h
  split at h
  · cases h
    exact ⟨[], .none, rfl⟩
  · next e rest hrest =>
    split at h
    · next he =>
      split at h
      next isNegative unsigned hsign =>
      split at h
      · exact absurd h (by simp)
      · exact absurd h (by simp)
      · next hnil hcons hdigits =>
        cases h
        obtain ⟨hds, hunsigned⟩ := areDigits_of_digits_eq hdigits hnil hcons
        -- The sign is read off the text in front of the digits.
        split at hsign
        all_goals
          cases hsign
          rw [hrest]
        · exact ⟨_, .plus he hds, congrArg (e :: '+' :: ·) hunsigned⟩
        · exact ⟨_, .minus he hds, congrArg (e :: '-' :: ·) hunsigned⟩
        · exact ⟨_, .unsigned he hds, congrArg (e :: ·) hunsigned⟩
    · cases h
      exact ⟨[], .none, rfl⟩

/-- What has been read as a numeral is one. -/
theorem exists_of_numeral_eq_ok {n : Numeral} (h : numeral cut c = .ok (n, c')) :
    ∃ t, NumeralText n t ∧ c.rest = t ++ c'.rest := by
  obtain ⟨⟨whole, c₁⟩, hwhole, h⟩ := exists_of_bind_eq_ok h
  obtain ⟨⟨fraction, c₂⟩, hfraction, h⟩ := exists_of_bind_eq_ok h
  obtain ⟨⟨exponent, c₃⟩, hexponent, h⟩ := exists_of_bind_eq_ok h
  cases h
  obtain ⟨hwhole, h₁⟩ := isWhole_of_wholePart_eq_ok hwhole
  obtain ⟨f, hfraction, h₂⟩ := exists_of_fractionPart_eq_ok hfraction
  obtain ⟨e, hexponent, h₃⟩ := exists_of_exponentPart_eq_ok hexponent
  refine ⟨_, .mk hwhole hfraction hexponent, ?_⟩
  rw [h₁, h₂, h₃, List.append_assoc, List.append_assoc]

end Reader

end Provenance.Json
