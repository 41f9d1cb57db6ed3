import Provenance.Proofs.Json.Tokens

/-!
# Scalars are read as they are written

What `escape` writes for the characters of a text encodes them (`encodes_flatMap_escape`), so a
written text is decoded to what it was. The digits of a natural number are a numeral, since they
have no leading zero, and they are gathered without overflow if the number is below `2 ^ 64`
(`Reader.number_toDigits`). Conversely, what is read as a natural number are its digits and nothing
else (`Reader.rest_eq_of_number_eq_ok`).
-/

namespace Provenance.Json

/-! ### Escapes -/

/-- A letter behind a backslash stands for the character that it is the short form of. -/
theorem longForm?_of_shortForm? {c letter : Char} (h : shortForm? c = some letter) :
    longForm? letter = some c := by
  rw [shortForm?.eq_def] at h
  split at h <;> cases h <;> rfl

/-- The two hexadecimal digits of a control character. -/
theorem hexUnit?_digitChar {n : ℕ} (h : n < 32) :
    hexUnit? '0' '0' (Nat.digitChar (n / 16)) (Nat.digitChar (n % 16)) = some n := by
  have hall : ∀ n < 32,
      hexUnit? '0' '0' (Nat.digitChar (n / 16)) (Nat.digitChar (n % 16)) = some n := by decide
  exact hall n h

theorem shortForm?_quote : shortForm? '"' = some '"' := rfl

theorem shortForm?_backslash : shortForm? '\\' = some '\\' := rfl

/-- What is written for a character encodes it. -/
theorem encodes_escape_append (c : Char) {b s : List Char} (h : Encodes b s) :
    Encodes (escape c ++ b) (c :: s) := by
  rw [escape]
  cases hshort : shortForm? c with
  | some letter => exact .short (longForm?_of_shortForm? hshort) h
  | none =>
    by_cases hc : c < ' '
    · have hlt : c.toNat < 32 := hc
      have hlow : isLowSurrogate c.toNat = false := by simp [isLowSurrogate]; omega
      have hhigh : isHighSurrogate c.toNat = false := by simp [isHighSurrogate]; omega
      have hhex := Encodes.hex (hexUnit?_digitChar hlt) hhigh hlow h
      rw [Char.ofNat_toNat] at hhex
      simp only [if_pos hc]
      exact hhex
    · have hquote : c ≠ '"' := by rintro rfl; simp [shortForm?_quote] at hshort
      have hbackslash : c ≠ '\\' := by rintro rfl; simp [shortForm?_backslash] at hshort
      simp only [if_neg hc]
      exact .plain hc hquote hbackslash h

theorem encodes_flatMap_escape (s : List Char) : Encodes (s.flatMap escape) s := by
  induction s with
  | nil => exact .nil
  | cons c s ih => exact encodes_escape_append c ih

namespace Reader

/-! ### Texts -/

/-- A quoted text without its opening quote is read back. -/
theorem readsKey_quote (s : String) : textRest.ReadsKey (s.toList.flatMap escape ++ ['"']) s :=
  readsKey_of_encodes (encodes_flatMap_escape s.toList)

/-- A text that is taken behind its opening quote is found with the quote. -/
theorem ReadsKey.look {t : List Char} {s : String} (h : textRest.ReadsKey t s) :
    Reads look ('"' :: t) (.text s) := by
  refine .of_skipBlanks rfl (by decide) fun {c rest line} hskip _ ↦ ?_
  obtain ⟨line', hread⟩ := h rest line
  refine ⟨line', ?_⟩
  rw [Reader.look, hskip]
  simp [Reader.map, hread, bind, Except.bind, pure, Except.pure]

/-- A reader that expects what is found takes its text. -/
theorem Reads.expect {α : Type} {take : Found → Except Cause α} {t : List Char} {found : Found}
    {a : α} (h : Reads look t found) (htake : take found = .ok a) : (expect take).Reads t a :=
  Reads.bind h fun c ↦ by simp only [htake]; rfl

theorem ReadsKey.textAs {t : List Char} {s : String} (h : textRest.ReadsKey t s) (wanted : Wanted) :
    Reads (textAs wanted) ('"' :: t) s :=
  h.look.expect rfl

theorem reads_quote (s : String) : Reads text (quote s) s := (readsKey_quote s).textAs .text

/-! ### Words -/

/-- The word of a switch is found. -/
theorem look_flag (b : Bool) (l : Layout) (level : ℕ) :
    Reads look ((Json.flag b).write l level) (.flag b) := by
  cases b with
  | true =>
    rw [write]
    exact .of_skipBlanks rfl (by decide) fun {c rest line} hskip _ ↦
      ⟨line, by rw [look, hskip]; rfl⟩
  | false =>
    rw [write]
    exact .of_skipBlanks rfl (by decide) fun {c rest line} hskip _ ↦
      ⟨line, by rw [look, hskip]; rfl⟩

/-- The word `null` is found. -/
theorem look_null (l : Layout) (level : ℕ) : Reads look (Json.null.write l level) .null := by
  rw [write]
  exact .of_skipBlanks rfl (by decide) fun {c rest line} hskip _ ↦
    ⟨line, by rw [look, hskip]; rfl⟩

end Reader

/-! ### Numerals -/

/-- A digit is the one of its value. -/
theorem digitChar_of_isDigit {d : Char} (hd : d.isDigit = true) :
    Nat.digitChar (d.toNat - '0'.toNat) = d := by
  obtain ⟨hlow, hhigh⟩ : 48 ≤ d.toNat ∧ d.toNat ≤ 57 := Char.isDigit_iff_toNat.1 hd
  have hvalue : d.toNat - '0'.toNat = d.toNat - 48 := rfl
  rw [hvalue, ← Char.toNat_inj, Nat.toNat_digitChar_of_lt_ten (by omega)]
  omega

/-- The value of a digit is below ten, and zero for the first digit only. -/
theorem sub_lt_ten_of_isDigit {d : Char} (hd : d.isDigit = true) :
    d.toNat - '0'.toNat < 10 ∧ (d ≠ '0' → 0 < d.toNat - '0'.toNat) := by
  obtain ⟨hlow, hhigh⟩ : 48 ≤ d.toNat ∧ d.toNat ≤ 57 := Char.isDigit_iff_toNat.1 hd
  have hzero : '0'.toNat = 48 := rfl
  refine ⟨by omega, fun hne ↦ ?_⟩
  have hne' : d.toNat ≠ '0'.toNat := fun h ↦ hne (Char.toNat_inj.1 h)
  omega

namespace Numeral

/-- Appending digits makes a number no smaller. -/
theorem le_ofDigitChars (n : ℕ) (ds : List Char) : n ≤ Nat.ofDigitChars 10 ds n := by
  rw [Nat.ofDigitChars_eq_ofDigitChars_zero]
  have hpow : 0 < 10 ^ ds.length := Nat.pow_pos (by decide)
  exact Nat.le_add_right_of_le (Nat.le_mul_of_pos_left n hpow)

/-- Digits are gathered to the number that they spell, if that is below `2 ^ 64`. -/
theorem gather_eq {n : ℕ} {ds : List Char} (h : Nat.ofDigitChars 10 ds n < UInt64.size) :
    gather n ds = (Nat.ofDigitChars 10 ds n, []) := by
  induction ds generalizing n with
  | nil => rw [gather, Nat.ofDigitChars_nil]
  | cons d ds ih =>
    rw [Nat.ofDigitChars_cons, Nat.mul_comm] at h ⊢
    have hnext : n * 10 + digitValue d < UInt64.size :=
      Nat.lt_of_le_of_lt (le_ofDigitChars _ ds) h
    rw [gather, if_pos hnext]
    exact ih h

/-- The digits of a positive number do not start with zero. -/
theorem head?_toDigits_ne {n : ℕ} (hn : 0 < n) : (Nat.toDigits 10 n).head? ≠ some '0' := by
  induction n using Nat.base_induction 10 (by decide) with
  | single d hd =>
    rw [Nat.toDigits_of_lt_base hd]
    have hall : ∀ d < 10, 0 < d → [Nat.digitChar d].head? ≠ some '0' := by decide
    exact hall d hd hn
  | digit m d hd hm ih =>
    obtain ⟨x, xs, hxs⟩ := List.exists_cons_of_ne_nil (Nat.toDigits_ne_nil (n := m) (b := 10))
    rw [← Nat.toDigits_append_toDigits (by decide) hm hd, hxs]
    rw [hxs] at ih
    exact ih hm

/-- A leading zero stands alone. -/
theorem toDigits_ne_zero_cons (n : ℕ) (d : Char) (ds : List Char) :
    Nat.toDigits 10 n ≠ '0' :: d :: ds := by
  intro h
  rcases Nat.eq_zero_or_pos n with rfl | hn
  · rw [Nat.toDigits_zero] at h
    exact absurd h (by simp)
  · exact head?_toDigits_ne hn (by rw [h]; rfl)

theorem isWhole_toDigits (n : ℕ) : IsWhole (Nat.toDigits 10 n) :=
  ⟨⟨Nat.toDigits_ne_nil, fun _ ↦ Nat.isDigit_of_mem_toDigits (by decide) (by decide)⟩,
    toDigits_ne_zero_cons n⟩

/-- Digits behind those of a positive number are the last digits of the number that they make. -/
theorem toDigits_append {n : ℕ} (hn : 0 < n) {ds : List Char}
    (hds : ∀ d ∈ ds, d.isDigit = true) :
    Nat.toDigits 10 n ++ ds = Nat.toDigits 10 (Nat.ofDigitChars 10 ds n) := by
  induction ds generalizing n with
  | nil => rw [List.append_nil, Nat.ofDigitChars_nil]
  | cons d ds ih =>
    obtain ⟨hd, hds⟩ := List.forall_mem_cons.1 hds
    obtain ⟨hlt, -⟩ := sub_lt_ten_of_isDigit hd
    have hnext : Nat.toDigits 10 n ++ [d] = Nat.toDigits 10 (10 * n + (d.toNat - '0'.toNat)) := by
      rw [← Nat.toDigits_append_toDigits (by decide) hn hlt, Nat.toDigits_of_lt_base hlt,
        digitChar_of_isDigit hd]
    rw [Nat.ofDigitChars_cons, ← ih (by omega) hds, ← hnext, List.append_assoc,
      List.singleton_append]

/-- Whole digits are those of the number that they spell. -/
theorem toDigits_ofDigitChars {ds : List Char} (h : IsWhole ds) :
    Nat.toDigits 10 (Nat.ofDigitChars 10 ds 0) = ds := by
  obtain ⟨⟨hne, hds⟩, hzero⟩ := h
  obtain ⟨d, ds, rfl⟩ := List.exists_cons_of_ne_nil hne
  obtain ⟨hd, hds⟩ := List.forall_mem_cons.1 hds
  obtain ⟨hlt, hpos⟩ := sub_lt_ten_of_isDigit hd
  have hfirst : Nat.toDigits 10 (d.toNat - '0'.toNat) = [d] := by
    rw [Nat.toDigits_of_lt_base hlt, digitChar_of_isDigit hd]
  rw [Nat.ofDigitChars_cons, Nat.mul_zero, Nat.zero_add]
  rcases ds with - | ⟨e, ds⟩
  · exact hfirst
  · have hd0 : d ≠ '0' := by
      rintro rfl
      exact hzero _ _ rfl
    rw [← toDigits_append (hpos hd0) hds, hfirst, List.singleton_append]

/-- What is gathered from digits, none of which is left over, is the number that they spell. -/
theorem eq_ofDigitChars_of_gather_eq {n m : ℕ} {ds : List Char} (h : gather n ds = (m, [])) :
    m = Nat.ofDigitChars 10 ds n := by
  induction ds generalizing n with
  | nil => rw [Nat.ofDigitChars_nil, (Prod.mk.inj h).1]
  | cons d ds ih =>
    rw [gather] at h
    split at h
    · rw [ih h, Nat.ofDigitChars_cons, Nat.mul_comm, digitValue]
    · exact absurd (Prod.mk.inj h).2 (List.cons_ne_nil _ _)

/-- A numeral stands for a natural number only without sign, point and exponent. -/
theorem eq_of_value?_eq_natural {isNegative : Bool} {n : Numeral} {m : ℕ}
    (h : n.value? isNegative = some (.natural m)) :
    isNegative = false ∧ n.fraction = none ∧ n.exponent = none ∧ gather 0 n.whole = (m, []) := by
  rw [value?] at h
  rcases hinteger : n.integer? isNegative with - | x
  · rw [hinteger] at h
    obtain ⟨y, -, hy⟩ := Option.map_eq_some_iff.1 h
    exact absurd hy (by simp)
  · rw [hinteger] at h
    obtain rfl : x = .natural m := Option.some.inj h
    rw [integer?] at hinteger
    split at hinteger
    · next hfraction hexponent hgather =>
      split at hinteger
      · next hsign =>
        obtain rfl := Number.natural.inj (Option.some.inj hinteger)
        exact ⟨by simpa using hsign, hfraction, hexponent, hgather⟩
      · split at hinteger <;> exact absurd hinteger (by simp)
    · exact absurd hinteger (by simp)

/-- The digits of a natural number are a numeral without point and exponent. -/
theorem numeralText_toDigits (n : ℕ) :
    NumeralText ⟨Nat.toDigits 10 n, none, none⟩ (Nat.toDigits 10 n) := by
  have h : NumeralText ⟨Nat.toDigits 10 n, none, none⟩ (Nat.toDigits 10 n ++ ([] ++ [])) :=
    .mk (isWhole_toDigits n) .none .none
  rwa [List.append_nil, List.append_nil] at h

end Numeral

namespace Reader

variable {rest : List Char}

/-- A natural number below `2 ^ 64` is read from its digits. -/
theorem number_toDigits {n : ℕ} (hn : n < UInt64.size) (hrest : Delimits rest) (line : ℕ) :
    number false ⟨Nat.toDigits 10 n ++ rest, line⟩ = .ok (.natural n, ⟨rest, line⟩) := by
  have hgather : Numeral.gather 0 (Nat.toDigits 10 n) = (n, []) := by
    rw [Numeral.gather_eq (by rwa [Nat.ofDigitChars_ten_toDigits]), Nat.ofDigitChars_ten_toDigits]
  have hvalue : Numeral.value? false ⟨Nat.toDigits 10 n, none, none⟩ = some (.natural n) := by
    rw [Numeral.value?, Numeral.integer?, hgather]
    rfl
  simp only [number, numeral_append (Numeral.numeralText_toDigits n) hrest, bind, Except.bind,
    hvalue]
  rfl

/-- A natural number that is read stands in front of the rest, in its digits. -/
theorem rest_eq_of_number_eq_ok {isNegative : Bool} {n : ℕ} {c c' : Cursor}
    (h : number isNegative c = .ok (.natural n, c')) :
    isNegative = false ∧ c.rest = Nat.toDigits 10 n ++ c'.rest := by
  obtain ⟨⟨m, c₁⟩, hnumeral, h⟩ := exists_of_bind_eq_ok h
  simp only at h
  split at h
  · next hvalue =>
    cases h
    obtain ⟨hsign, hfraction, hexponent, hgather⟩ := Numeral.eq_of_value?_eq_natural hvalue
    obtain ⟨t, ht, hrest⟩ := exists_of_numeral_eq_ok hnumeral
    obtain @⟨whole, f, e, fraction, exponent, hwhole, hf, he⟩ := ht
    obtain rfl : fraction = none := hfraction
    obtain rfl : exponent = none := hexponent
    cases hf
    cases he
    refine ⟨hsign, ?_⟩
    rw [Numeral.eq_ofDigitChars_of_gather_eq hgather, Numeral.toDigits_ofDigitChars hwhole, hrest,
      List.append_nil, List.append_nil]
  · exact absurd h (by simp [Cursor.stop])

/-- A digit is no blank. -/
theorem isBlank_of_isDigit {d : Char} (hd : d.isDigit = true) : isBlank d = false := by
  refine Bool.eq_false_iff.2 fun h ↦ ?_
  rw [(isDelimiter_of_isBlank h).1] at hd
  exact Bool.false_ne_true hd

/-- A digit is the start of a number, and of nothing else. -/
theorem look_digit {c : Cursor} {d : Char} {line : ℕ} (hd : d.isDigit = true)
    (hskip : c.skipBlanks = ⟨d :: rest, line⟩) :
    look c = (number false).map Found.number ⟨d :: rest, line⟩ := by
  rw [look, hskip]
  split
  case h_9 h =>
    cases h
    rw [if_pos hd]
  all_goals next h => cases h <;> exact absurd hd (by decide)

/-- The text of a natural number starts with a digit. -/
theorem exists_decimal_eq (n : ℕ) :
    ∃ d ds, (decimal n).toList = d :: ds ∧ d.isDigit = true := by
  obtain ⟨d, ds, hds⟩ : ∃ d ds, (decimal n).toList = d :: ds := by
    rw [decimal, String.toList_ofList]
    exact List.exists_cons_of_ne_nil Nat.toDigits_ne_nil
  exact ⟨d, ds, hds, isDigit_of_mem_decimal (hds ▸ List.mem_cons_self)⟩

/-- A natural number below the bound of a reader is read from its digits. -/
theorem reads_decimal {n bound : ℕ} (wanted : Wanted) (hn : n < bound)
    (hbound : bound ≤ UInt64.size) : (below bound wanted).Reads (decimal n).toList n := by
  obtain ⟨d, ds, hds, hd⟩ := exists_decimal_eq n
  have hne : d ≠ ']' := by
    rintro rfl
    exact absurd hd (by decide)
  rw [hds]
  refine .of_skipBlanks (isBlank_of_isDigit hd) hne fun {c rest line} hskip hrest ↦ ⟨line, ?_⟩
  have hnumber : number false ⟨d :: (ds ++ rest), line⟩ = .ok (.natural n, ⟨rest, line⟩) := by
    rw [← List.cons_append, ← hds, decimal, String.toList_ofList]
    exact number_toDigits (Nat.lt_of_lt_of_le hn hbound) hrest line
  rw [below, expect, look_digit hd hskip, Reader.map, hnumber]
  simp [hn, bind, Except.bind, pure, Except.pure]

theorem reads_word (w : UInt32) : word.Reads (decimal w.toNat).toList w := by
  have h := (reads_decimal .word w.toNat_lt (by decide)).map UInt32.ofNat
  rwa [UInt32.ofNat_toNat] at h

theorem reads_size {n : ℕ} (hn : n < UInt64.size) : size.Reads (decimal n).toList n :=
  reads_decimal .size hn (Nat.le_refl _)

/-- A digit stands for itself inside quotes. -/
theorem escape_of_isDigit {d : Char} (hd : d.isDigit = true) : escape d = [d] := by
  have hall : ∀ k < 10, escape (Nat.digitChar k) = [Nat.digitChar k] := by decide
  rw [← digitChar_of_isDigit hd]
  exact hall _ (sub_lt_ten_of_isDigit hd).1

theorem flatMap_escape_of_isDigit {ds : List Char} (hds : ∀ d ∈ ds, d.isDigit = true) :
    ds.flatMap escape = ds := by
  induction ds with
  | nil => rfl
  | cons d ds ih =>
    obtain ⟨hd, hds⟩ := List.forall_mem_cons.1 hds
    rw [List.flatMap_cons, escape_of_isDigit hd, ih hds]
    rfl

/-- A word in quotes is read as a key. -/
theorem readsKey_word (w : UInt32) :
    wordKey.ReadsKey ((decimal w.toNat).toList.flatMap escape ++ ['"']) w := by
  have hescape : (decimal w.toNat).toList.flatMap escape = (decimal w.toNat).toList :=
    flatMap_escape_of_isDigit fun _ ↦ isDigit_of_mem_decimal
  intro rest line
  obtain ⟨d, ds, hds, hd⟩ := exists_decimal_eq w.toNat
  obtain ⟨line', hword⟩ :=
    (reads_word w).reads line blank_nil (delimits_cons (x := '"') (by decide) rest)
  rw [hds] at hword
  refine ⟨line', ?_⟩
  rw [wordKey, hescape, hds]
  simp only [List.nil_append, List.cons_append, List.append_assoc] at hword ⊢
  simp [hd, hword, bind, Except.bind, pure, Except.pure]

end Reader

end Provenance.Json
