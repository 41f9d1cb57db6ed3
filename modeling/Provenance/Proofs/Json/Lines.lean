import Provenance.Proofs.Json.Schema

/-!
# Lines of faults

A reader counts the ends of lines that it passes. So the line of a fault is the line of a place in
the text: one more than the ends of lines in front of it (`Reader.CountsLines.line_of_parse`).

Readers are made of readers, and what is known of one is whether it ends behind the place where it
starts with the lines between counted, or stops on the line of such a place (`Cursor.Counts`). This
passes through every way to put readers together, and what a reader passes without counting holds no
end of a line.
-/

namespace Provenance.Json

/-- The line behind the given characters of a text. -/
def lineBehind (cs : List Char) : Nat := cs.count '\n' + 1

/-! ### Places behind a place -/

namespace Cursor

/-- One place is behind another in the same text, and the lines between them are counted. -/
def Reaches (c c' : Cursor) : Prop :=
  ∃ passed, c.rest = passed ++ c'.rest ∧ c'.line = passed.count '\n' + c.line

/-- What reading from a place on comes to: it ends behind the place, or stops on a line behind it.
The first argument says where it has ended. -/
def Counts {β : Type} (place : β → Cursor) (c : Cursor) : Except Fault β → Prop
  | .ok b => c.Reaches (place b)
  | .error e => ∃ c', c.Reaches c' ∧ e.line = c'.line

variable {β γ : Type} {place : β → Cursor} {place' : γ → Cursor} {c c' c'' : Cursor}

theorem Reaches.refl (c : Cursor) : c.Reaches c := ⟨[], rfl, (Nat.zero_add _).symm⟩

theorem Reaches.trans (h : c.Reaches c') (h' : c'.Reaches c'') : c.Reaches c'' := by
  obtain ⟨passed, hrest, hline⟩ := h
  obtain ⟨passed', hrest', hline'⟩ := h'
  refine ⟨passed ++ passed', by rw [hrest, hrest', List.append_assoc], ?_⟩
  rw [hline', hline, List.count_append]
  omega

theorem reaches_append {passed : List Char} (h : '\n' ∉ passed) (rest : List Char) (line : Nat) :
    Reaches ⟨passed ++ rest, line⟩ ⟨rest, line⟩ :=
  ⟨passed, rfl, by rw [List.count_eq_zero.2 h, Nat.zero_add]⟩

theorem reaches_cons {x : Char} (h : x ≠ '\n') (rest : List Char) (line : Nat) :
    Reaches ⟨x :: rest, line⟩ ⟨rest, line⟩ := by
  have hx : '\n' ∉ [x] := by simpa using h.symm
  exact reaches_append hx rest line

theorem reaches_lineAfter (x : Char) (rest : List Char) (line : Nat) :
    Reaches ⟨x :: rest, line⟩ ⟨rest, lineAfter x line⟩ := by
  refine ⟨[x], rfl, ?_⟩
  by_cases hx : x = '\n' <;> simp [lineAfter, hx, Nat.add_comm]

theorem reaches_skipBlanks (c : Cursor) : c.Reaches c.skipBlanks := by
  obtain ⟨rest, line⟩ := c
  show Reaches ⟨rest, line⟩ (dropBlanks rest line)
  fun_induction dropBlanks rest line with
  | case1 line => exact .refl _
  | case2 x rest line _ ih => exact (reaches_lineAfter x rest line).trans ih
  | case3 x rest line _ => exact .refl _

theorem Reaches.counts (h : c.Reaches c') {r : Except Fault β} (hr : c'.Counts place r) :
    c.Counts place r := by
  cases r with
  | ok b => exact h.trans hr
  | error e =>
    obtain ⟨c'', hreach, hline⟩ := hr
    exact ⟨c'', h.trans hreach, hline⟩

theorem Counts.bind {r : Except Fault β} {f : β → Except Fault γ} (h : c.Counts place r)
    (hf : ∀ b, (place b).Counts place' (f b)) : c.Counts place' (r >>= f) := by
  cases r with
  | ok b => exact Reaches.counts h (hf b)
  | error e => exact h

theorem Counts.map {r : Except Fault β} {f : β → γ} (h : c.Counts place r)
    (hf : ∀ b, place' (f b) = place b) : c.Counts place' (f <$> r) := by
  cases r with
  | ok b => exact (congrArg c.Reaches (hf b)).mpr h
  | error e => exact h

theorem counts_ok (b : β) : (place b).Counts place (.ok b) := .refl _

theorem counts_stop (c : Cursor) (cause : Cause) : c.Counts place (c.stop cause) :=
  ⟨c, .refl c, rfl⟩

theorem counts_stopPast (c : Cursor) (cause : Cause) : c.Counts place (c.stopPast cause) := by
  obtain ⟨rest, line⟩ := c
  cases rest with
  | nil => exact ⟨_, .refl _, rfl⟩
  | cons x rest => exact ⟨_, reaches_lineAfter x rest line, rfl⟩

end Cursor

namespace Reader

open Cursor

variable {α β : Type}

/-- The reader counts the lines of what it reads. -/
def CountsLines (read : Reader α) : Prop := ∀ c : Cursor, c.Counts Prod.snd (read c)

/-- **The line of a fault.** A reader that counts lines stops on the line of a place in the text. -/
theorem CountsLines.line_of_parse {read : Reader α} (h : read.CountsLines) {text : String}
    {e : Fault} (he : read.parse text = .error e) :
    ∃ front behind, text.toList = front ++ behind ∧ e.line = lineBehind front := by
  have hcounts := h (start text)
  obtain ⟨c, ⟨front, hfront, hline⟩, hfault⟩ : ∃ c, (start text).Reaches c ∧ e.line = c.line := by
    obtain hread | ⟨⟨a, c⟩, hread, hend⟩ := eq_error_or_of_bind_eq_error he
    · rwa [hread] at hcounts
    · rw [hread] at hcounts
      dsimp only at hend
      split at hend
      · cases hend
      · cases hend
        exact ⟨_, Reaches.trans hcounts (reaches_skipBlanks c), rfl⟩
  exact ⟨front, c.rest, hfront, hfault.trans hline⟩

theorem CountsLines.map {read : Reader α} (h : read.CountsLines) (f : α → β) :
    (read.map f).CountsLines :=
  fun c ↦ (h c).bind fun _ ↦ counts_ok _

/-! ### Words and numbers -/

theorem counts_spell {letters : List Char} (h : '\n' ∉ letters) (c : Cursor) :
    c.Counts id (spell letters c) := by
  fun_induction spell letters c with
  | case1 c => exact counts_ok c
  | case2 more y rest line ih =>
    exact (reaches_cons (List.ne_of_not_mem_cons h).symm _ _).counts
      (ih (List.not_mem_of_not_mem_cons h))
  | case3 x more y rest line hy => exact counts_stopPast ⟨y :: rest, line⟩ _
  | case4 x more line => exact counts_stop ⟨[], line⟩ _

theorem counts_word {x : Char} {letters : List Char} (h : '\n' ∉ x :: letters) (a : α)
    (rest : List Char) (line : Nat) :
    Cursor.Counts Prod.snd ⟨x :: rest, line⟩ ((a, ·) <$> spell letters ⟨rest, line⟩) :=
  (reaches_cons (List.ne_of_not_mem_cons h).symm _ _).counts
    ((counts_spell (List.not_mem_of_not_mem_cons h) _).map fun _ ↦ rfl)

theorem reaches_digits (c : Cursor) : c.Reaches (digits c).2 := by
  have hdigits : '\n' ∉ c.rest.takeWhile Char.isDigit :=
    fun h ↦ absurd (List.all_eq_true.1 List.all_takeWhile _ h) (by decide)
  have hreach := reaches_append hdigits (c.rest.dropWhile Char.isDigit) c.line
  rwa [List.takeWhile_append_dropWhile] at hreach

theorem counts_wholePart (cut : Cause) (c : Cursor) : c.Counts Prod.snd (wholePart cut c) := by
  rw [wholePart]
  refine (reaches_digits c).counts ?_
  generalize digits c = p
  split
  · exact counts_stop ⟨[], _⟩ _
  · exact counts_stopPast ⟨_ :: _, _⟩ _
  · exact counts_stop _ _
  · exact counts_ok _

/-- Where digits are due, the reader stops at the end of the text or behind another character. -/
theorem counts_digitsDue (cut : Cause) (f : List Char → β) (c : Cursor) :
    c.Counts Prod.snd (match digits c with
      | ([], ⟨[], line⟩) => .error ⟨cut, line⟩
      | ([], ⟨x :: _, line⟩) => .error ⟨.badNumber, lineAfter x line⟩
      | (ds, c) => .ok (f ds, c)) := by
  refine (reaches_digits c).counts ?_
  generalize digits c = p
  split
  · exact counts_stop ⟨[], _⟩ _
  · exact counts_stopPast ⟨_ :: _, _⟩ _
  · exact counts_ok _

theorem counts_fractionPart (cut : Cause) (c : Cursor) :
    c.Counts Prod.snd (fractionPart cut c) := by
  obtain ⟨rest, line⟩ := c
  unfold fractionPart
  split
  · next rest hpoint =>
    cases hpoint
    exact (reaches_cons (by decide) _ _).counts (counts_digitsDue cut some ⟨rest, line⟩)
  · exact counts_ok _

theorem counts_exponentPart (cut : Cause) (c : Cursor) :
    c.Counts Prod.snd (exponentPart cut c) := by
  obtain ⟨rest, line⟩ := c
  unfold exponentPart
  split
  · exact counts_ok _
  · next e rest hrest =>
    cases hrest
    split
    · next he =>
      split
      next isNegative unsigned hsign =>
      have hreach : Reaches ⟨e :: rest, line⟩ ⟨unsigned, line⟩ := by
        have he' : e ≠ '\n' := by
          rintro rfl
          exact absurd he (by decide)
        refine (reaches_cons he' _ _).trans ?_
        split at hsign
        all_goals cases hsign
        · exact reaches_cons (by decide) _ _
        · exact reaches_cons (by decide) _ _
        · exact .refl _
      exact hreach.counts
        (counts_digitsDue cut (fun ds ↦ some (isNegative, ds)) ⟨unsigned, line⟩)
    · exact counts_ok _

theorem countsLines_numeral (cut : Cause) : (numeral cut).CountsLines :=
  fun c ↦ (counts_wholePart cut c).bind fun _ ↦ (counts_fractionPart cut _).bind fun _ ↦
    (counts_exponentPart cut _).bind fun _ ↦ counts_ok _

theorem countsLines_number (isNegative : Bool) : (number isNegative).CountsLines := by
  refine fun c ↦ (countsLines_numeral _ c).bind fun p ↦ ?_
  dsimp only
  split
  · exact counts_ok _
  · exact counts_stop _ _

theorem counts_skipNumber (c : Cursor) : c.Counts id (skipNumber c) :=
  (countsLines_numeral _ c).map fun _ ↦ rfl

/-! ### Texts -/

variable {place : β → Cursor}

theorem ne_newline_of_longForm? {x y : Char} (h : longForm? x = some y) : x ≠ '\n' := by
  rintro rfl
  cases h

theorem ne_newline_of_hexDigit? {x : Char} {n : Nat} (h : hexDigit? x = some n) : x ≠ '\n' := by
  rintro rfl
  cases h

/-- The end of a line is a control character. -/
theorem ne_newline_of_not_lt {x : Char} (h : ¬ x < ' ') : x ≠ '\n' := by
  rintro rfl
  exact h (by decide)

theorem reaches_hexUnit {w x y z : Char} {n : Nat} (h : hexUnit? w x y z = some n)
    (rest : List Char) (line : Nat) :
    Reaches ⟨'\\' :: 'u' :: w :: x :: y :: z :: rest, line⟩ ⟨rest, line⟩ := by
  simp only [hexUnit?, bind, Option.bind_eq_some_iff] at h
  obtain ⟨_, hw, _, hx, _, hy, _, hz, -⟩ := h
  have hpassed : '\n' ∉ ['\\', 'u', w, x, y, z] := by
    simp [(ne_newline_of_hexDigit? hw).symm, (ne_newline_of_hexDigit? hx).symm,
      (ne_newline_of_hexDigit? hy).symm, (ne_newline_of_hexDigit? hz).symm]
  exact reaches_append hpassed rest line

theorem exists_reaches_lineWithin (bytes : Nat) (rest : List Char) (line : Nat) :
    ∃ c, Reaches ⟨rest, line⟩ c ∧ lineWithin bytes line rest = c.line := by
  fun_induction lineWithin bytes line rest with
  | case1 line => exact ⟨_, .refl _, rfl⟩
  | case2 line x rest => exact ⟨_, .refl _, rfl⟩
  | case3 bytes line x rest _ ih =>
    obtain ⟨c, hreach, hline⟩ := ih
    exact ⟨c, (reaches_lineAfter x rest line).trans hreach, hline⟩

theorem counts_hexFault (rest : List Char) (line : Nat) :
    Cursor.Counts place ⟨rest, line⟩ (.error (hexFault rest line)) := by
  simp only [hexFault]
  split
  · exact exists_reaches_lineWithin _ rest line
  · exact exists_reaches_lineWithin 4 rest line

/-- Where an escape turns out bad, its backslash and its letter have been passed. -/
theorem counts_badHex (rest : List Char) (line : Nat) :
    Cursor.Counts place ⟨'\\' :: 'u' :: rest, line⟩ (.error (hexFault rest line)) :=
  ((reaches_cons (by decide) _ _).trans (reaches_cons (by decide) _ _)).counts
    (counts_hexFault rest line)

theorem counts_textBody (line : Nat) (high? : Option Nat) (done rest : List Char) :
    Cursor.Counts Prod.snd ⟨rest, line⟩ (textBody line high? done rest) := by
  fun_induction textBody line high? done rest with
  | case1 done rest => exact reaches_cons (by decide) _ _
  | case2 | case6 | case13 | case16 => exact counts_badHex _ _
  | case3 done w x y z rest n hn _ => exact (reaches_hexUnit hn _ _).counts (counts_stop ⟨_, _⟩ _)
  | case4 done w x y z rest n hn _ _ ih | case5 done w x y z rest n hn _ _ ih =>
    exact (reaches_hexUnit hn _ _).counts ih
  | case7 done e rest _ _ c he ih =>
    exact ((reaches_cons (by decide) _ _).trans
      (reaches_cons (ne_newline_of_longForm? he) _ _)).counts ih
  | case8 done e rest =>
    exact (reaches_cons (by decide) _ _).counts (counts_stopPast ⟨e :: rest, line⟩ _)
  | case9 | case10 | case18 | case19 => exact counts_stop ⟨_, line⟩ _
  | case11 | case20 => exact counts_stopPast ⟨_ :: _, line⟩ _
  | case12 done c rest _ _ _ _ _ hc ih =>
    exact (reaches_cons (ne_newline_of_not_lt hc) _ _).counts ih
  | case14 high done w x y z rest n hn _ ih => exact (reaches_hexUnit hn _ _).counts ih
  | case15 high done w x y z rest n hn _ =>
    exact (reaches_hexUnit hn _ _).counts (counts_stop ⟨_, _⟩ _)
  | case17 high done e rest =>
    exact (reaches_cons (by decide) _ _).counts (counts_stopPast ⟨e :: rest, line⟩ _)

theorem countsLines_textRest : textRest.CountsLines := fun c ↦ counts_textBody c.line none [] c.rest

theorem counts_skipBody (line : Nat) (rest : List Char) :
    Cursor.Counts id ⟨rest, line⟩ (skipBody line rest) := by
  fun_induction skipBody line rest with
  | case1 rest => exact reaches_cons (by decide) _ _
  | case2 | case4 => exact counts_badHex _ _
  | case3 w x y z rest n hn ih => exact (reaches_hexUnit hn _ _).counts ih
  | case5 e rest _ _ c he ih =>
    exact ((reaches_cons (by decide) _ _).trans
      (reaches_cons (ne_newline_of_longForm? he) _ _)).counts ih
  | case6 e rest =>
    exact (reaches_cons (by decide) _ _).counts (counts_stopPast ⟨e :: rest, line⟩ _)
  | case7 | case8 | case9 => exact counts_stop ⟨_, line⟩ _
  | case10 c rest _ _ _ _ _ hc ih => exact (reaches_cons (ne_newline_of_not_lt hc) _ _).counts ih

theorem counts_skipText (c : Cursor) : c.Counts id (skipText c) := counts_skipBody c.line c.rest

/-! ### Scalars -/

theorem countsLines_look : look.CountsLines := by
  intro c
  unfold look
  refine (reaches_skipBlanks c).counts ?_
  generalize c.skipBlanks = c
  split
  · exact counts_stop ⟨[], _⟩ _
  · exact counts_word (by decide) _ _ _
  · exact counts_word (by decide) _ _ _
  · exact counts_word (by decide) _ _ _
  · exact (reaches_cons (by decide) _ _).counts ((countsLines_number true).map _ _)
  · exact (reaches_cons (by decide) _ _).counts (countsLines_textRest.map _ _)
  · exact counts_ok _
  · exact counts_ok _
  · split
    · exact (countsLines_number false).map _ _
    · exact counts_stop ⟨_, _⟩ _

theorem countsLines_expect (take : Found → Except Cause α) : (expect take).CountsLines := by
  refine fun c ↦ (countsLines_look c).bind fun p ↦ ?_
  dsimp only
  split
  · exact counts_ok _
  · exact counts_stop _ _

theorem countsLines_textAs (wanted : Wanted) : (textAs wanted).CountsLines := countsLines_expect _

theorem countsLines_flag : flag.CountsLines := countsLines_expect _

theorem CountsLines.option {read : Reader α} (h : read.CountsLines) :
    (option read).CountsLines := by
  intro c
  unfold Reader.option
  refine (reaches_skipBlanks c).counts ?_
  generalize c.skipBlanks = c
  split
  · exact counts_word (by decide) _ _ _
  · exact h.map _ _

/-! ### Lists and objects -/

theorem countsLines_nextElement (isFirst : Bool) : (nextElement isFirst).CountsLines := by
  intro c
  unfold nextElement
  refine (reaches_skipBlanks c).counts ?_
  generalize c.skipBlanks = c
  split
  · exact counts_stop ⟨[], _⟩ _
  · next x rest line =>
    split
    · exact counts_ok _
    · split
      · exact counts_ok _
      · split
        · next hcomma =>
          subst hcomma
          refine (reaches_cons (by decide) _ _).counts ((reaches_skipBlanks _).counts ?_)
          generalize Cursor.skipBlanks ⟨rest, line⟩ = c
          split
          · exact counts_stop ⟨[], _⟩ _
          · exact counts_stop ⟨_, _⟩ _
          · exact .refl _
        · exact counts_stop ⟨_, _⟩ _

theorem CountsLines.elements {read : Reader α} (h : read.CountsLines) (steps : Nat)
    (isFirst : Bool) : (elements read steps isFirst).CountsLines := by
  induction steps generalizing isFirst with
  | zero => exact fun c ↦ counts_stop c _
  | succ steps ih =>
    refine fun c ↦ (countsLines_nextElement isFirst c).bind fun ⟨more, c⟩ ↦ ?_
    cases more with
    | true => exact (h c).bind fun _ ↦ (ih false _).bind fun _ ↦ counts_ok _
    | false => exact counts_ok _

theorem counts_endList (c : Cursor) : c.Counts id (endList c) := by
  unfold endList
  refine (reaches_skipBlanks c).counts ?_
  generalize c.skipBlanks = c
  split
  · exact counts_stop ⟨[], _⟩ _
  · exact reaches_cons (by decide) _ _
  · refine (reaches_cons (by decide) _ _).counts ((reaches_skipBlanks _).counts ?_)
    generalize Cursor.skipBlanks _ = c
    split
    · exact counts_stop ⟨_, _⟩ _
    · exact counts_stop _ _
  · exact counts_stop _ _

theorem CountsLines.list {read : Reader α} (h : read.CountsLines) : (list read).CountsLines := by
  intro c
  unfold Reader.list
  refine (reaches_skipBlanks c).counts ?_
  generalize c.skipBlanks = c
  split
  · exact (reaches_cons (by decide) _ _).counts <| (h.elements _ true _).bind fun _ ↦
      (counts_endList _).bind fun _ ↦ counts_ok _
  · exact countsLines_expect _ _

theorem countsLines_nextKey (isFirst : Bool) : (nextKey isFirst).CountsLines := by
  intro c
  unfold nextKey
  refine (reaches_skipBlanks c).counts ?_
  generalize c.skipBlanks = c
  split
  · exact counts_stop ⟨[], _⟩ _
  · next x rest line =>
    split
    · exact counts_ok _
    · split
      · split
        · next hquote =>
          subst hquote
          exact reaches_cons (by decide) _ _
        · exact counts_stop ⟨_, _⟩ _
      · split
        · next hcomma =>
          subst hcomma
          refine (reaches_cons (by decide) _ _).counts ((reaches_skipBlanks _).counts ?_)
          generalize Cursor.skipBlanks ⟨rest, line⟩ = c
          split
          · exact counts_stop ⟨[], _⟩ _
          · exact reaches_cons (by decide) _ _
          · exact counts_stop ⟨_, _⟩ _
          · exact counts_stop _ _
        · exact counts_stop ⟨_, _⟩ _

theorem counts_endObject (c : Cursor) : c.Counts id (endObject c) := by
  unfold endObject
  refine (reaches_skipBlanks c).counts ?_
  generalize c.skipBlanks = c
  split
  · exact counts_stop ⟨[], _⟩ _
  · exact reaches_cons (by decide) _ _
  · exact counts_stop ⟨_, _⟩ _
  · exact counts_stop _ _

/-! ### Values that are passed over -/

theorem counts_skipColon (c : Cursor) : c.Counts id (skipColon c) := by
  unfold skipColon
  refine (reaches_skipBlanks c).counts ?_
  generalize c.skipBlanks = c
  split
  · exact reaches_cons (by decide) _ _
  · exact counts_stop ⟨[], _⟩ _
  · exact counts_stop _ _

theorem counts_skipKey (bracket : Bracket) (c : Cursor) : c.Counts id (skipKey bracket c) := by
  cases bracket with
  | list => exact counts_ok _
  | object =>
    rw [skipKey]
    refine (reaches_skipBlanks c).counts ?_
    generalize c.skipBlanks = c
    split
    · exact (reaches_cons (by decide) _ _).counts ((counts_skipText _).bind counts_skipColon)
    · exact counts_stop ⟨[], _⟩ _
    · exact counts_stop _ _

theorem counts_skipStart (c : Cursor) : c.Counts Prod.snd (skipStart c) := by
  unfold skipStart
  refine (reaches_skipBlanks c).counts ?_
  generalize c.skipBlanks = c
  split
  · exact counts_stop ⟨[], _⟩ _
  · exact counts_word (by decide) _ _ _
  · exact counts_word (by decide) _ _ _
  · exact counts_word (by decide) _ _ _
  · exact (reaches_cons (by decide) _ _).counts ((counts_skipNumber _).map fun _ ↦ rfl)
  · exact (reaches_cons (by decide) _ _).counts ((counts_skipText _).map fun _ ↦ rfl)
  · exact reaches_cons (by decide) _ _
  · exact reaches_cons (by decide) _ _
  · split
    · exact (counts_skipNumber _).map fun _ ↦ rfl
    · exact counts_stop ⟨_, _⟩ _

theorem Bracket.closing_ne_newline (bracket : Bracket) : bracket.closing ≠ '\n' := by
  cases bracket <;> decide

theorem counts_skipSteps (steps : Nat) (due : Due) (brackets : List Bracket) (c : Cursor) :
    c.Counts id (skipSteps steps due brackets c) := by
  induction steps generalizing due brackets c with
  | zero => exact counts_stop _ _
  | succ steps ih =>
    cases due with
    | value =>
      rw [skipSteps]
      refine (counts_skipStart c).bind fun p ↦ ?_
      split
      · exact ih _ _ _
      · exact ih _ _ _
    | element =>
      cases brackets with
      | nil => exact counts_ok _
      | cons b brackets =>
        rw [skipSteps]
        refine (reaches_skipBlanks c).counts ?_
        generalize c.skipBlanks = c
        split
        · exact counts_stop ⟨[], _⟩ _
        · split
          · next hclosing =>
            subst hclosing
            exact (reaches_cons b.closing_ne_newline _ _).counts (ih _ _ _)
          · exact (counts_skipKey b _).bind fun _ ↦ ih _ _ _
    | sequel =>
      cases brackets with
      | nil => exact counts_ok _
      | cons b brackets =>
        rw [skipSteps]
        refine (reaches_skipBlanks c).counts ?_
        generalize c.skipBlanks = c
        split
        · exact counts_stop ⟨[], _⟩ _
        · split
          · next hcomma =>
            subst hcomma
            exact (reaches_cons (by decide) _ _).counts ((counts_skipKey b _).bind fun _ ↦ ih _ _ _)
          · split
            · next hclosing =>
              subst hclosing
              exact (reaches_cons b.closing_ne_newline _ _).counts (ih _ _ _)
            · exact counts_stop ⟨_, _⟩ _

theorem counts_skipValue (c : Cursor) : c.Counts id (skipValue c) := counts_skipSteps _ _ _ c

end Reader

/-! ### Records -/

namespace Fields

open Cursor Reader

variable {τ δ : Type}

/-- The readers of all fields count lines. -/
inductive CountLines : {τ δ : Type} → Fields τ δ → Prop
  | done : CountLines .done
  | field {α β γ : Type} {key : String} {read : Reader α} {default : Option α}
    {rest : Fields β γ} : read.CountsLines → CountLines rest →
    CountLines (.field key read default rest)

theorem CountLines.assign {fields : Fields τ δ} (h : fields.CountLines) {key : String} {values : δ}
    {c : Cursor} {r : Except Fault (δ × Cursor)} (hr : fields.assign key values c = some r) :
    c.Counts Prod.snd r := by
  induction h with
  | done => cases hr
  | field hread _ ih =>
    obtain ⟨value, values⟩ := values
    unfold Fields.assign at hr
    split at hr
    · split at hr
      · cases hr
        exact (reaches_skipBlanks c).counts (counts_stop _ _)
      · cases hr
        exact (counts_skipColon c).bind fun c ↦ (hread c).bind fun _ ↦ counts_ok _
    · obtain ⟨r', hr', rfl⟩ := Option.map_eq_some_iff.1 hr
      exact (ih hr').map fun _ ↦ rfl

theorem CountLines.inOrder {fields : Fields τ δ} (h : fields.CountLines) (short : Nat → Cause)
    (n : Nat) (isFirst : Bool) : Reader.CountsLines (fields.inOrder short n isFirst) := by
  induction h generalizing n isFirst with
  | done => exact fun c ↦ .refl c
  | @field _ _ _ _ _ default _ hread _ ih =>
    refine fun c ↦ (countsLines_nextElement isFirst c).bind fun ⟨more, c⟩ ↦ ?_
    cases more with
    | true => exact (hread c).bind fun _ ↦ (ih _ _ _).bind fun _ ↦ counts_ok _
    | false =>
      cases default with
      | some a => exact (ih _ _ c).bind fun _ ↦ counts_ok _
      | none => exact counts_stop c _

theorem CountLines.members {fields : Fields τ δ} (h : fields.CountLines) (steps : Nat)
    (isFirst : Bool) (values : δ) : Reader.CountsLines (fields.members steps isFirst values) := by
  induction steps generalizing isFirst values with
  | zero => exact fun c ↦ counts_stop c _
  | succ steps ih =>
    refine fun c ↦ (countsLines_nextKey isFirst c).bind fun ⟨more, c⟩ ↦ ?_
    cases more with
    | true =>
      refine (countsLines_textRest c).bind fun ⟨key, c⟩ ↦ ?_
      dsimp only
      split
      · next hassign => exact (h.assign hassign).bind fun _ ↦ ih _ _ _
      · exact (counts_skipColon c).bind fun _ ↦ (counts_skipValue _).bind fun _ ↦ ih _ _ _
    | false => exact counts_ok _

theorem CountLines.record {fields : Fields τ δ} (h : fields.CountLines) (kind : String) :
    Reader.CountsLines (fields.record kind) := by
  intro c
  unfold Fields.record
  refine (reaches_skipBlanks c).counts ?_
  generalize c.skipBlanks = c
  split
  · exact (reaches_cons (by decide) _ _).counts <| (h.inOrder _ _ _ _).bind fun _ ↦
      (counts_endList _).bind fun _ ↦ counts_ok _
  · refine (reaches_cons (by decide) _ _).counts <| (h.members _ _ _ _).bind fun _ ↦
      (counts_endObject _).bind fun _ ↦ ?_
    split
    · exact counts_ok _
    · exact counts_stop _ _
  · exact countsLines_expect _ _

end Fields

end Provenance.Json
