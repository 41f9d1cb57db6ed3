import Provenance.Number

/-!
# JSON values and their text

A value is written in one of two layouts. The compact layout has no blanks; the pretty layout puts
every element on a line of its own, indented by two blanks for each level, and leaves empty lists
and objects closed. One function writes both: a layout says what stands in the places where blanks
are free.

In a text only quotes, backslashes and the control characters below the blank are escaped.
-/

namespace Provenance

/-- A JSON value. Members of an object keep their order. -/
inductive Json where
  | null
  | flag (value : Bool)
  | number (value : Number)
  | text (value : String)
  | list (items : List Json)
  | object (members : List (String × Json))
deriving Inhabited

namespace Json

/-- A natural number as a value. -/
def natural (n : Nat) : Json := .number (.natural n)

/-- An offset, line or column as a value. -/
def word (w : UInt32) : Json := natural w.toNat

/-- A value that may be missing. -/
def option {α : Type} (f : α → Json) : Option α → Json
  | none => null
  | some a => f a

/-! ### Layouts -/

/-- What stands where blanks are free. -/
structure Layout where
  /-- What comes before an element or a closing bracket at a level. -/
  gap : Nat → List Char
  /-- What comes between the key and the value of a member. -/
  colon : List Char

namespace Layout

/-- No blanks. -/
def compact : Layout := ⟨fun _ ↦ [], [':']⟩

/-- One element to a line. -/
def pretty : Layout := ⟨fun level ↦ '\n' :: List.replicate (2 * level) ' ', [':', ' ']⟩

end Layout

/-! ### Texts -/

/-- The letter that follows the backslash where a character has a short form. -/
def shortForm? : Char → Option Char
  | '"' => some '"'
  | '\\' => some '\\'
  | '\x08' => some 'b'
  | '\x0c' => some 'f'
  | '\n' => some 'n'
  | '\r' => some 'r'
  | '\t' => some 't'
  | _ => none

/-- A character inside quotes. -/
def escape (c : Char) : List Char :=
  match shortForm? c with
  | some letter => ['\\', letter]
  | none =>
    if c < ' ' then
      ['\\', 'u', '0', '0', Nat.digitChar (c.toNat / 16), Nat.digitChar (c.toNat % 16)]
    else [c]

/-- A text between quotes. -/
def quote (s : String) : List Char := '"' :: (s.toList.flatMap escape ++ ['"'])

/-! ### Values -/

mutual

/-- Writes a value at a level. -/
def write (l : Layout) (level : Nat) : Json → List Char
  | null => ['n', 'u', 'l', 'l']
  | flag true => ['t', 'r', 'u', 'e']
  | flag false => ['f', 'a', 'l', 's', 'e']
  | number n => n.text.toList
  | text s => quote s
  | list [] => ['[', ']']
  | list (x :: rest) =>
    '[' :: (l.gap (level + 1) ++ write l (level + 1) x ++ writeItems l level rest)
  | object [] => ['\x7b', '\x7d']
  | object ((k, x) :: rest) =>
    '\x7b' :: (l.gap (level + 1) ++ quote k ++ l.colon ++ write l (level + 1) x
      ++ writeMembers l level rest)

/-- Writes the further elements of a list at a level, and its end. -/
def writeItems (l : Layout) (level : Nat) : List Json → List Char
  | [] => l.gap level ++ [']']
  | x :: rest => ',' :: (l.gap (level + 1) ++ write l (level + 1) x ++ writeItems l level rest)

/-- Writes the further members of an object at a level, and its end. -/
def writeMembers (l : Layout) (level : Nat) : List (String × Json) → List Char
  | [] => l.gap level ++ ['\x7d']
  | (k, x) :: rest =>
    ',' :: (l.gap (level + 1) ++ quote k ++ l.colon ++ write l (level + 1) x
      ++ writeMembers l level rest)

end

/-- The text without blanks. -/
def compact (x : Json) : String := String.ofList (x.write .compact 0)

/-- The text with one element to a line. -/
def pretty (x : Json) : String := String.ofList (x.write .pretty 0)

/-! ### Instances -/

example : (object [("a", list [natural 1, null]), ("b", list [])]).compact =
    "\x7b\"a\":[1,null],\"b\":[]\x7d" := by decide +kernel

example : (object [("a", list [natural 1]), ("b", object [])]).pretty =
    "\x7b\n  \"a\": [\n    1\n  ],\n  \"b\": \x7b\x7d\n\x7d" := by decide +kernel

-- Short forms, hexadecimal forms, and a slash that stands for itself.
example : (text "\n\x1f/").compact = "\"\\n\\u001f/\"" := by decide +kernel

end Json

end Provenance
