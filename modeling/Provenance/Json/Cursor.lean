import Provenance.Json.Fault

/-!
# Reading positions

A cursor is what is left of a text, together with the number of the current line. A reader takes a
cursor and either returns a value with the cursor behind it or stops with a fault. Blanks are passed
over before a token and never after it, so the line of a fault is the line of the token that is at
fault.
-/

namespace Provenance.Json

/-- What is left of a text. -/
structure Cursor where
  /-- The characters not yet read. -/
  rest : List Char
  /-- The line of the first of them; lines count from one. -/
  line : Nat
deriving DecidableEq, Inhabited

/-- Reads a value. -/
abbrev Reader (α : Type) := Cursor → Except Fault (α × Cursor)

/-- The line behind a character on a given line. -/
def lineAfter (c : Char) (line : Nat) : Nat := if c = '\n' then line + 1 else line

/-- The characters that may stand between tokens. -/
def isBlank (c : Char) : Bool := c = ' ' || c = '\n' || c = '\t' || c = '\r'

/-- Passes over blanks. -/
def dropBlanks : List Char → Nat → Cursor
  | [], line => ⟨[], line⟩
  | c :: rest, line => if isBlank c then dropBlanks rest (lineAfter c line) else ⟨c :: rest, line⟩

namespace Cursor

/-- The start of a text. -/
def start (text : String) : Cursor := ⟨text.toList, 1⟩

/-- Passes over blanks. -/
def skipBlanks (c : Cursor) : Cursor := dropBlanks c.rest c.line

/-- Stops here. -/
def stop {α : Type} (c : Cursor) (cause : Cause) : Except Fault α := .error ⟨cause, c.line⟩

/-- Stops behind the next character, if there is one. -/
def stopPast {α : Type} (c : Cursor) (cause : Cause) : Except Fault α :=
  match c.rest with
  | [] => .error ⟨cause, c.line⟩
  | x :: _ => .error ⟨cause, lineAfter x c.line⟩

end Cursor

namespace Reader

variable {α β : Type}

/-- Changes the value that is read. -/
def map (f : α → β) (read : Reader α) : Reader β := fun c ↦ do
  let (a, c) ← read c
  return (f a, c)

/-- Reads a whole text: behind the value there are blanks only. -/
def parse (read : Reader α) (text : String) : Except Fault α := do
  let (a, c) ← read (.start text)
  let c := c.skipBlanks
  if c.rest.isEmpty then return a else c.stop .trailingCharacters

/-- Reads the letters of a word. -/
def spell : List Char → Cursor → Except Fault Cursor
  | [], c => .ok c
  | x :: more, ⟨y :: rest, line⟩ =>
    if y = x then spell more ⟨rest, line⟩ else .error ⟨.misspelled, lineAfter y line⟩
  | _ :: _, ⟨[], line⟩ => .error ⟨.endOfValue, line⟩

end Reader

end Provenance.Json
