import Provenance.Json.Cursor

/-!
# Reading texts

Both readers here start behind the opening quote. `textBody` decodes a text; `skipText` passes over
one and checks its form only, so it accepts half a surrogate pair, which stands for no character.

An escape `\u` takes the next four bytes, whatever they are: where they are not hexadecimal digits
the escape is bad, and where the text has fewer than four bytes left it is cut off.
-/

namespace Provenance.Json

/-! ### Escapes -/

/-- The character that a letter behind a backslash stands for. -/
def longForm? : Char → Option Char
  | '"' => some '"'
  | '\\' => some '\\'
  | '/' => some '/'
  | 'b' => some '\x08'
  | 'f' => some '\x0c'
  | 'n' => some '\n'
  | 'r' => some '\r'
  | 't' => some '\t'
  | _ => none

/-- The value of a hexadecimal digit in either case. -/
def hexDigit? (c : Char) : Option Nat :=
  if c.isDigit then some (c.toNat - '0'.toNat)
  else if 'a' ≤ c ∧ c ≤ 'f' then some (c.toNat - 'a'.toNat + 10)
  else if 'A' ≤ c ∧ c ≤ 'F' then some (c.toNat - 'A'.toNat + 10)
  else none

/-- The sixteen bits that four hexadecimal digits spell. -/
def hexUnit? (a b c d : Char) : Option Nat := do
  return (((← hexDigit? a) * 16 + (← hexDigit? b)) * 16 + (← hexDigit? c)) * 16 + (← hexDigit? d)

/-- The first half of a surrogate pair. -/
def isHighSurrogate (n : Nat) : Bool := 0xD800 ≤ n && n ≤ 0xDBFF

/-- The second half of a surrogate pair. -/
def isLowSurrogate (n : Nat) : Bool := 0xDC00 ≤ n && n ≤ 0xDFFF

/-- The character of a surrogate pair. -/
def surrogatePair (high low : Nat) : Char :=
  Char.ofNat (0x10000 + (high - 0xD800) * 0x400 + (low - 0xDC00))

/-- The line behind the first bytes of a text. -/
def lineWithin (bytes : Nat) (line : Nat) : List Char → Nat
  | [] => line
  | c :: rest => if bytes = 0 then line else lineWithin (bytes - c.utf8Size) (lineAfter c line) rest

/-- The fault of an escape that is followed by something else than four hexadecimal digits. -/
def hexFault (rest : List Char) (line : Nat) : Fault :=
  let size := (String.ofList rest).utf8ByteSize
  if size < 4 then ⟨.endOfText, lineWithin size line rest⟩ else ⟨.badEscape, lineWithin 4 line rest⟩

namespace Reader

/-! ### Decoding -/

/-- Decodes a text up to its closing quote. The first argument is the first half of a surrogate pair
that has just been read, the second holds the characters read so far, the last one first. -/
def textBody (line : Nat) : Option Nat → List Char → List Char → Except Fault (String × Cursor)
  | none, done, '"' :: rest => .ok (String.ofList done.reverse, ⟨rest, line⟩)
  | none, done, '\\' :: 'u' :: a :: b :: c :: d :: rest =>
    match hexUnit? a b c d with
    | none => .error (hexFault (a :: b :: c :: d :: rest) line)
    | some n =>
      if isLowSurrogate n then .error ⟨.loneSurrogate, line⟩
      else if isHighSurrogate n then textBody line (some n) done rest
      else textBody line none (Char.ofNat n :: done) rest
  | none, _, '\\' :: 'u' :: rest => .error (hexFault rest line)
  | none, done, '\\' :: e :: rest =>
    match longForm? e with
    | some c => textBody line none (c :: done) rest
    | none => .error ⟨.badEscape, lineAfter e line⟩
  | none, _, ['\\'] => .error ⟨.endOfText, line⟩
  | none, _, [] => .error ⟨.endOfText, line⟩
  | none, done, c :: rest =>
    if c < ' ' then .error ⟨.controlCharacter, lineAfter c line⟩
    else textBody line none (c :: done) rest
  | some high, done, '\\' :: 'u' :: a :: b :: c :: d :: rest =>
    match hexUnit? a b c d with
    | none => .error (hexFault (a :: b :: c :: d :: rest) line)
    | some low =>
      if isLowSurrogate low then textBody line none (surrogatePair high low :: done) rest
      else .error ⟨.loneSurrogate, line⟩
  | some _, _, '\\' :: 'u' :: rest => .error (hexFault rest line)
  | some _, _, '\\' :: e :: _ => .error ⟨.endOfEscape, lineAfter e line⟩
  | some _, _, ['\\'] => .error ⟨.endOfText, line⟩
  | some _, _, [] => .error ⟨.endOfText, line⟩
  | some _, _, c :: _ => .error ⟨.endOfEscape, lineAfter c line⟩

/-- Reads a text behind its opening quote. -/
def textRest : Reader String := fun c ↦ textBody c.line none [] c.rest

/-! ### Skipping -/

/-- Passes over a text up to its closing quote. -/
def skipBody (line : Nat) : List Char → Except Fault Cursor
  | '"' :: rest => .ok ⟨rest, line⟩
  | '\\' :: 'u' :: a :: b :: c :: d :: rest =>
    match hexUnit? a b c d with
    | none => .error (hexFault (a :: b :: c :: d :: rest) line)
    | some _ => skipBody line rest
  | '\\' :: 'u' :: rest => .error (hexFault rest line)
  | '\\' :: e :: rest =>
    match longForm? e with
    | some _ => skipBody line rest
    | none => .error ⟨.badEscape, lineAfter e line⟩
  | ['\\'] => .error ⟨.endOfText, line⟩
  | [] => .error ⟨.endOfText, line⟩
  | c :: rest => if c < ' ' then .error ⟨.controlCharacter, line⟩ else skipBody line rest

/-- Passes over a text behind its opening quote. -/
def skipText (c : Cursor) : Except Fault Cursor := skipBody c.line c.rest

end Reader

end Provenance.Json
