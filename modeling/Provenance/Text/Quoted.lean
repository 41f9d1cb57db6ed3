import Provenance.Text.Unprintable

/-!
# Quoted text

Text quoted for a reader stands between double quotes. Quotes and backslashes inside are marked by a
backslash; a few control characters have short names; other characters that would not show as
themselves are given by the hexadecimal number of their code point.
-/

namespace Provenance.Quoted

/-- The letter that follows the backslash where a character has a short form. -/
def shortForm? : Char → Option Char
  | '\x00' => some '0'
  | '\t' => some 't'
  | '\n' => some 'n'
  | '\r' => some 'r'
  | '"' => some '"'
  | '\\' => some '\\'
  | _ => none

/-- A character inside quotes. -/
def escape (c : Char) : List Char :=
  match shortForm? c with
  | some letter => ['\\', letter]
  | none =>
    if Unprintable.holds c then
      '\\' :: 'u' :: '\x7b' :: (Nat.toDigits 16 c.toNat ++ ['\x7d'])
    else [c]

/-- The text between quotes. -/
def encode (s : String) : String := String.ofList ('"' :: (s.toList.flatMap escape ++ ['"']))

/-- A list of quoted texts between brackets. -/
def encodeList (l : List String) : String := "[" ++ ", ".intercalate (l.map encode) ++ "]"

/-! ### Instances -/

-- Short forms, and a single quote that stands for itself.
example : encode "a\t\"'" = "\"a\\t\\\"'\"" := by decide +kernel

-- The delete character has no short form, and an accent that joins the letter before it does not
-- stand alone.
example : encode "\x7f\u0301" = "\"\\u\x7b7f\x7d\\u\x7b301\x7d\"" := by decide +kernel

example : encodeList ["a", "b"] = "[\"a\", \"b\"]" := by decide +kernel

end Provenance.Quoted
