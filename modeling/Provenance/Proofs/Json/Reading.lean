import Mathlib.Data.Nat.Notation
import Provenance.Json.Reader

/-!
# What readers make of a text

`Reader.Reads` says that a reader takes a text for a value, whatever blanks stand in front of it and
whatever follows. Lists and objects are built from it: `Enclosed` describes what stands between a
pair of brackets, and a reader of lists or objects takes an enclosed text if it takes the elements.

A value may be followed by anything but the continuation of a numeral (`Delimits`). Lines are of no
account here, they only show in faults.
-/

namespace Provenance.Json

variable {α β κ : Type}

/-! ### Blanks and delimiters -/

/-- A text of blanks. -/
def Blank (b : List Char) : Prop := ∀ x ∈ b, isBlank x = true

theorem blank_nil : Blank [] := fun _ h ↦ absurd h List.not_mem_nil

theorem Blank.cons {x : Char} {b : List Char} (hx : isBlank x = true) (hb : Blank b) :
    Blank (x :: b) :=
  List.forall_mem_cons.2 ⟨hx, hb⟩

theorem Blank.append {b b' : List Char} (hb : Blank b) (hb' : Blank b') : Blank (b ++ b') :=
  List.forall_mem_append.2 ⟨hb, hb'⟩

/-- A numeral does not go on with the character. -/
def IsDelimiter (x : Char) : Prop := x.isDigit = false ∧ x ≠ '.' ∧ x ≠ 'e' ∧ x ≠ 'E'

instance (x : Char) : Decidable (IsDelimiter x) :=
  inferInstanceAs (Decidable (x.isDigit = false ∧ x ≠ '.' ∧ x ≠ 'e' ∧ x ≠ 'E'))

/-- A numeral in front of the text ends there. -/
def Delimits (rest : List Char) : Prop := ∀ x ∈ rest.head?, IsDelimiter x

theorem delimits_nil : Delimits [] := fun _ h ↦ absurd h (by simp)

theorem delimits_cons {x : Char} (hx : IsDelimiter x) (rest : List Char) :
    Delimits (x :: rest) := by
  intro y hy
  obtain rfl : x = y := by simpa using hy
  exact hx

theorem isDelimiter_of_isBlank {x : Char} (hx : isBlank x = true) : IsDelimiter x := by
  simp only [isBlank, Bool.or_eq_true, decide_eq_true_eq] at hx
  rcases hx with ((rfl | rfl) | rfl) | rfl <;> decide

/-- Blanks delimit, and so they do in front of what delimits. -/
theorem Blank.delimits {b rest : List Char} (hb : Blank b) (hrest : Delimits rest) :
    Delimits (b ++ rest) := by
  cases b with
  | nil => exact hrest
  | cons x b => exact delimits_cons (isDelimiter_of_isBlank (hb x List.mem_cons_self)) _

/-- Blanks in front of a text are passed over. -/
theorem exists_skipBlanks_append {b : List Char} (hb : Blank b) (rest : List Char) (line : ℕ) :
    ∃ line', Cursor.skipBlanks ⟨b ++ rest, line⟩ = Cursor.skipBlanks ⟨rest, line'⟩ := by
  induction b generalizing line with
  | nil => exact ⟨line, rfl⟩
  | cons x b ih =>
    obtain ⟨hx, hb⟩ := List.forall_mem_cons.1 hb
    obtain ⟨line', h⟩ := ih hb (lineAfter x line)
    refine ⟨line', Eq.trans ?_ h⟩
    simp [Cursor.skipBlanks, dropBlanks, hx]

/-- Blanks are passed over up to the first character that is none. -/
theorem exists_skipBlanks_eq {b : List Char} (hb : Blank b) {x : Char} (hx : isBlank x = false)
    (rest : List Char) (line : ℕ) :
    ∃ line', Cursor.skipBlanks ⟨b ++ x :: rest, line⟩ = ⟨x :: rest, line'⟩ := by
  obtain ⟨line', h⟩ := exists_skipBlanks_append hb (x :: rest) line
  exact ⟨line', h.trans (by simp [Cursor.skipBlanks, dropBlanks, hx])⟩

namespace Reader

/-! ### Reading one value -/

/-- The text of a value starts neither with a blank nor with the end of a list. -/
def Opens (t : List Char) : Prop := ∃ x u, t = x :: u ∧ isBlank x = false ∧ x ≠ ']'

/-- The reader takes the text for the value, behind any blanks and in front of anything that does
not go on with a numeral. -/
structure Reads (read : Reader α) (t : List Char) (a : α) : Prop where
  /-- The text starts as values do. -/
  opens : Opens t
  /-- The reader stops behind the text. -/
  reads : ∀ {b rest : List Char} (line : ℕ), Blank b → Delimits rest →
    ∃ line', read ⟨b ++ (t ++ rest), line⟩ = .ok (a, ⟨rest, line'⟩)

/-- A reader takes a text if it does so once the blanks in front have been passed over. -/
theorem Reads.of_skipBlanks {read : Reader α} {x : Char} {t : List Char} {a : α}
    (hx : isBlank x = false) (hne : x ≠ ']')
    (h : ∀ {c : Cursor} {rest : List Char} {line : ℕ}, c.skipBlanks = ⟨x :: (t ++ rest), line⟩ →
      Delimits rest → ∃ line', read c = .ok (a, ⟨rest, line'⟩)) :
    read.Reads (x :: t) a := by
  refine ⟨⟨x, t, rfl, hx, hne⟩, fun {b rest} line hb hrest ↦ ?_⟩
  obtain ⟨line', hskip⟩ := exists_skipBlanks_eq hb hx (t ++ rest) line
  exact h hskip hrest

/-- The reader of a key takes the text, closing quote included, for the key. It starts right behind
the opening quote. -/
def ReadsKey (key : Reader κ) (t : List Char) (k : κ) : Prop :=
  ∀ (rest : List Char) (line : ℕ), ∃ line', key ⟨t ++ rest, line⟩ = .ok (k, ⟨rest, line'⟩)

/-- What is made of a value without reading on is made of its text. -/
theorem Reads.bind {read : Reader α} {t : List Char} {a : α} (h : read.Reads t a)
    {next : α × Cursor → Except Fault (β × Cursor)} {b : β}
    (hnext : ∀ c, next (a, c) = .ok (b, c)) : Reads (fun c ↦ read c >>= next) t b := by
  refine ⟨h.opens, fun line hb hrest ↦ ?_⟩
  obtain ⟨line', hread⟩ := h.reads line hb hrest
  exact ⟨line', by rw [hread]; exact hnext _⟩

theorem Reads.map {read : Reader α} {t : List Char} {a : α} (h : read.Reads t a) (f : α → β) :
    (read.map f).Reads t (f a) :=
  Reads.bind h fun _ ↦ rfl

/-- A text that a reader takes for a value is parsed to it, with any blanks around it. -/
theorem Reads.parse {read : Reader α} {t : List Char} {a : α} (h : read.Reads t a)
    {b b' : List Char} (hb : Blank b) (hb' : Blank b') :
    read.parse (String.ofList (b ++ (t ++ b'))) = .ok a := by
  have hdelimits : Delimits b' := by simpa using hb'.delimits delimits_nil
  obtain ⟨line, hread⟩ := h.reads 1 hb hdelimits
  obtain ⟨line', hend⟩ := exists_skipBlanks_append hb' [] line
  rw [List.append_nil] at hend
  rw [Reader.parse, Cursor.start, String.toList_ofList, hread]
  show (if (Cursor.skipBlanks ⟨b', line⟩).rest.isEmpty then Except.ok a
    else (Cursor.skipBlanks ⟨b', line⟩).stop .trailingCharacters) = .ok a
  rw [hend]
  rfl

/-! ### Between brackets -/

/-- What stands behind an opening bracket, the closing one included: elements with commas between
them and blanks around them. The flag says whether the first comma is still to come, that is,
whether nothing has been read behind the bracket. -/
inductive Enclosed (close : Char) (Item : List Char → α → Prop) :
    Bool → List α → List Char → Prop
  /-- The end. -/
  | last {isFirst : Bool} {b : List Char} : Blank b → Enclosed close Item isFirst [] (b ++ [close])
  /-- The first element. -/
  | first {b t u : List Char} {a : α} {as : List α} : Blank b → Item t a →
    Enclosed close Item false as u → Enclosed close Item true (a :: as) (b ++ (t ++ u))
  /-- A further element. -/
  | next {b b' t u : List Char} {a : α} {as : List α} : Blank b → Blank b' → Item t a →
    Enclosed close Item false as u →
      Enclosed close Item false (a :: as) (b ++ ',' :: (b' ++ (t ++ u)))

/-- A member of an object: a key in quotes, a colon and a value. -/
inductive Member (Key : List Char → κ → Prop) (Value : List Char → α → Prop) :
    List Char → κ × α → Prop
  | mk {key b b' t : List Char} {k : κ} {a : α} : Key key k → Blank b → Blank b' → Value t a →
    Member Key Value ('"' :: (key ++ (b ++ ':' :: (b' ++ t)))) (k, a)

namespace Enclosed

variable {close : Char} {Item : List Char → α → Prop} {isFirst : Bool} {as : List α} {u : List Char}

/-- What follows an element delimits it. -/
theorem delimits (h : Enclosed close Item false as u) (hclose : IsDelimiter close)
    (rest : List Char) : Delimits (u ++ rest) := by
  cases h with
  | last hb =>
    rw [List.append_assoc]
    exact hb.delimits (delimits_cons hclose _)
  | next hb =>
    rw [List.append_assoc]
    exact hb.delimits (delimits_cons (by decide) _)

/-- There are no more elements than characters, since every further element has a comma. -/
theorem length_le (h : Enclosed close Item isFirst as u) :
    as.length + (if isFirst then 0 else 1) ≤ u.length := by
  induction h with
  | last hb => split <;> simp
  | first hb ha hrest ih => simp at ih ⊢; omega
  | next hb hb' ha hrest ih => simp at ih ⊢; omega

/-- The characters bound the steps that a reader needs. -/
theorem length_lt (h : Enclosed close Item true as u) (rest : List Char) :
    as.length < (u ++ rest).length + 1 := by
  have hle := h.length_le
  rw [if_pos rfl] at hle
  rw [List.length_append]
  omega

end Enclosed

/-! ### Lists -/

section List

variable {read : Reader α} {isFirst : Bool} {as : List α} {u : List Char}

/-- At the end of a list there is no next element. -/
theorem nextElement_last {Item : List Char → α → Prop} (h : Enclosed ']' Item isFirst [] u)
    (rest : List Char) (line : ℕ) :
    ∃ line', nextElement isFirst ⟨u ++ rest, line⟩ = .ok (false, ⟨']' :: rest, line'⟩) := by
  cases h with
  | @last _ b hb =>
    obtain ⟨line', hskip⟩ := exists_skipBlanks_eq hb (x := ']') rfl rest line
    exact ⟨line', by simp [nextElement, hskip]⟩

/-- Before the end of a list the reader moves on to the next element. -/
theorem nextElement_cons {Item : List Char → α → Prop} (hopens : ∀ t a, Item t a → Opens t)
    {a : α} (h : Enclosed ']' Item isFirst (a :: as) u) :
    ∃ t more, Item t a ∧ Enclosed ']' Item false as more ∧ ∀ (rest : List Char) (line : ℕ),
      ∃ line', nextElement isFirst ⟨u ++ rest, line⟩ =
        .ok (true, ⟨t ++ (more ++ rest), line'⟩) := by
  cases h with
  | @first b t more _ _ hb ha hmore =>
    obtain ⟨x, t, rfl, hx, hne⟩ := hopens t a ha
    refine ⟨x :: t, more, ha, hmore, fun rest line ↦ ?_⟩
    obtain ⟨line', hskip⟩ := exists_skipBlanks_eq hb hx (t ++ (more ++ rest)) line
    exact ⟨line', by simp [nextElement, hskip, hne]⟩
  | @next b b' t more _ _ hb hb' ha hmore =>
    obtain ⟨x, t, rfl, hx, hne⟩ := hopens t a ha
    refine ⟨x :: t, more, ha, hmore, fun rest line ↦ ?_⟩
    obtain ⟨line', hcomma⟩ :=
      exists_skipBlanks_eq hb (x := ',') rfl (b' ++ x :: (t ++ (more ++ rest))) line
    obtain ⟨line'', hskip⟩ := exists_skipBlanks_eq hb' hx (t ++ (more ++ rest)) line'
    exact ⟨line'', by simp [nextElement, hcomma, hskip, hne]⟩

/-- All elements are read, up to the closing bracket. Each takes one step of the reader, and its end
one more. -/
theorem elements_of_enclosed (h : Enclosed ']' read.Reads isFirst as u) {steps : ℕ}
    (hsteps : as.length < steps) (rest : List Char) (line : ℕ) :
    ∃ line', elements read steps isFirst ⟨u ++ rest, line⟩ = .ok (as, ⟨']' :: rest, line'⟩) := by
  induction as generalizing isFirst u steps line with
  | nil =>
    obtain ⟨steps, rfl⟩ := Nat.exists_eq_add_one.2 (Nat.zero_lt_of_lt hsteps)
    obtain ⟨line', hnext⟩ := nextElement_last h rest line
    exact ⟨line', by rw [elements, hnext]; rfl⟩
  | cons a as ih =>
    obtain ⟨steps, rfl⟩ := Nat.exists_eq_add_one.2 (Nat.zero_lt_of_lt hsteps)
    obtain ⟨t, more, ha, hmore, hnext⟩ := nextElement_cons (fun _ _ ↦ Reads.opens) h
    obtain ⟨line₁, hnext⟩ := hnext rest line
    obtain ⟨line₂, hread⟩ := ha.reads line₁ blank_nil (hmore.delimits (by decide) rest)
    obtain ⟨line₃, hrest⟩ := ih hmore (Nat.lt_of_succ_lt_succ hsteps) line₂
    rw [List.nil_append] at hread
    refine ⟨line₃, ?_⟩
    simp [elements, hnext, hread, hrest, bind, Except.bind, pure, Except.pure]

/-- A list is read from the texts of its elements. -/
theorem Reads.list (h : Enclosed ']' read.Reads true as u) : (list read).Reads ('[' :: u) as := by
  refine .of_skipBlanks rfl (by decide) fun {c rest line} hskip _ ↦ ?_
  obtain ⟨line', hread⟩ := elements_of_enclosed h (h.length_lt rest) rest line
  refine ⟨line', ?_⟩
  rw [Reader.list, hskip]
  show listRest read ⟨u ++ rest, line⟩ = _
  rw [listRest, hread]
  rfl

end List

/-! ### Objects -/

section Object

variable {Key : List Char → κ → Prop} {Value : List Char → α → Prop} {isFirst : Bool}
  {ps : List (κ × α)} {u : List Char}

/-- At the end of an object there is no next key. -/
theorem nextKey_last (h : Enclosed '\x7d' (Member Key Value) isFirst [] u) (rest : List Char)
    (line : ℕ) :
    ∃ line', nextKey isFirst ⟨u ++ rest, line⟩ = .ok (false, ⟨'\x7d' :: rest, line'⟩) := by
  cases h with
  | @last _ b hb =>
    obtain ⟨line', hskip⟩ := exists_skipBlanks_eq hb (x := '\x7d') rfl rest line
    exact ⟨line', by simp [nextKey, hskip]⟩

/-- Before the end of an object the reader moves on to the next key. -/
theorem nextKey_cons {p : κ × α} (h : Enclosed '\x7d' (Member Key Value) isFirst (p :: ps) u) :
    ∃ key b b' t more, Key key p.1 ∧ Blank b ∧ Blank b' ∧ Value t p.2 ∧
      Enclosed '\x7d' (Member Key Value) false ps more ∧ ∀ (rest : List Char) (line : ℕ),
        ∃ line', nextKey isFirst ⟨u ++ rest, line⟩ =
          .ok (true, ⟨key ++ (b ++ ':' :: (b' ++ (t ++ (more ++ rest)))), line'⟩) := by
  cases h with
  | @first gap _ more _ _ hgap hp hmore =>
    obtain @⟨key, b, b', t, k, a, hk, hb, hb', ha⟩ := hp
    refine ⟨key, b, b', t, more, hk, hb, hb', ha, hmore, fun rest line ↦ ?_⟩
    obtain ⟨line', hskip⟩ := exists_skipBlanks_eq hgap (x := '"') rfl
      (key ++ (b ++ ':' :: (b' ++ (t ++ (more ++ rest))))) line
    exact ⟨line', by simp [nextKey, hskip]⟩
  | @next gap gap' _ more _ _ hgap hgap' hp hmore =>
    obtain @⟨key, b, b', t, k, a, hk, hb, hb', ha⟩ := hp
    refine ⟨key, b, b', t, more, hk, hb, hb', ha, hmore, fun rest line ↦ ?_⟩
    obtain ⟨line', hcomma⟩ := exists_skipBlanks_eq hgap (x := ',') rfl
      (gap' ++ '"' :: (key ++ (b ++ ':' :: (b' ++ (t ++ (more ++ rest)))))) line
    obtain ⟨line'', hskip⟩ := exists_skipBlanks_eq hgap' (x := '"') rfl
      (key ++ (b ++ ':' :: (b' ++ (t ++ (more ++ rest))))) line'
    exact ⟨line'', by simp [nextKey, hcomma, hskip]⟩

/-- The colon of a member is passed over. -/
theorem exists_skipColon_eq {b : List Char} (hb : Blank b) (rest : List Char) (line : ℕ) :
    ∃ line', skipColon ⟨b ++ ':' :: rest, line⟩ = .ok ⟨rest, line'⟩ := by
  obtain ⟨line', hskip⟩ := exists_skipBlanks_eq hb (x := ':') rfl rest line
  exact ⟨line', by rw [skipColon, hskip]; rfl⟩

end Object

section Pairs

variable {key : Reader κ} {value : Reader α} {isFirst : Bool} {ps : List (κ × α)} {u : List Char}

/-- All members are read, up to the closing bracket. -/
theorem pairs_of_enclosed (h : Enclosed '\x7d' (Member (ReadsKey key) value.Reads) isFirst ps u)
    {steps : ℕ} (hsteps : ps.length < steps) (rest : List Char) (line : ℕ) :
    ∃ line', pairs key value steps isFirst ⟨u ++ rest, line⟩ =
      .ok (ps, ⟨'\x7d' :: rest, line'⟩) := by
  induction ps generalizing isFirst u steps line with
  | nil =>
    obtain ⟨steps, rfl⟩ := Nat.exists_eq_add_one.2 (Nat.zero_lt_of_lt hsteps)
    obtain ⟨line', hnext⟩ := nextKey_last h rest line
    exact ⟨line', by rw [pairs, hnext]; rfl⟩
  | cons p ps ih =>
    obtain ⟨steps, rfl⟩ := Nat.exists_eq_add_one.2 (Nat.zero_lt_of_lt hsteps)
    obtain ⟨kt, b, b', t, more, hk, hb, hb', ha, hmore, hnext⟩ := nextKey_cons h
    obtain ⟨line₁, hnext⟩ := hnext rest line
    obtain ⟨line₂, hkey⟩ := hk (b ++ ':' :: (b' ++ (t ++ (more ++ rest)))) line₁
    obtain ⟨line₃, hcolon⟩ := exists_skipColon_eq hb (b' ++ (t ++ (more ++ rest))) line₂
    obtain ⟨line₄, hvalue⟩ := ha.reads line₃ hb' (hmore.delimits (by decide) rest)
    obtain ⟨line₅, hrest⟩ := ih hmore (Nat.lt_of_succ_lt_succ hsteps) line₄
    refine ⟨line₅, ?_⟩
    simp [pairs, hnext, hkey, hcolon, hvalue, hrest, bind, Except.bind, pure, Except.pure]

/-- A table is read from the texts of its members; of equal keys the last counts. -/
theorem Reads.table {ps : List (UInt32 × α)}
    (h : Enclosed '\x7d' (Member (ReadsKey wordKey) value.Reads) true ps u) :
    (table value).Reads ('\x7b' :: u) (Table.ofList ps) := by
  refine .of_skipBlanks rfl (by decide) fun {c rest line} hskip _ ↦ ?_
  obtain ⟨line', hread⟩ := pairs_of_enclosed h (h.length_lt rest) rest line
  refine ⟨line', ?_⟩
  rw [Reader.table, hskip]
  show (pairsRest wordKey value).map Table.ofList ⟨u ++ rest, line⟩ = _
  rw [Reader.map, pairsRest, hread]
  rfl

end Pairs

end Reader

end Provenance.Json
