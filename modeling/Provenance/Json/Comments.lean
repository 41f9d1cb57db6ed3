/-!
# Comments in JSON text

A text with comments is JSON text in which `//` starts a comment up to the end of its line and `/*`
starts one up to the next `*/`; inside a text between quotes neither does. `uncomment` leaves
comments out and keeps all other characters, the end of the line behind a line comment among them.
Nothing takes the place of a comment.

A comment or a text that is not closed reaches to the end.
-/

namespace Provenance.Json

/-- The kinds of places in a text with comments. -/
inductive Zone where
  /-- Outside texts and comments. -/
  | plain
  /-- Inside a text between quotes. -/
  | quoted
  /-- Inside a comment that ends with its line. -/
  | lineComment
  /-- Inside a comment that ends with `*/`. -/
  | blockComment
deriving DecidableEq, Inhabited

/-- Leaves comments out of a text that starts in a zone. -/
def uncommentFrom : Zone → List Char → List Char
  | _, [] => []
  | .plain, '"' :: rest => '"' :: uncommentFrom .quoted rest
  | .plain, '/' :: '/' :: rest => uncommentFrom .lineComment rest
  | .plain, '/' :: '*' :: rest => uncommentFrom .blockComment rest
  | .plain, c :: rest => c :: uncommentFrom .plain rest
  | .quoted, '"' :: rest => '"' :: uncommentFrom .plain rest
  | .quoted, '\\' :: c :: rest => '\\' :: c :: uncommentFrom .quoted rest
  | .quoted, c :: rest => c :: uncommentFrom .quoted rest
  | .lineComment, '\n' :: rest => '\n' :: uncommentFrom .plain rest
  | .lineComment, _ :: rest => uncommentFrom .lineComment rest
  | .blockComment, '*' :: '/' :: rest => uncommentFrom .plain rest
  | .blockComment, _ :: rest => uncommentFrom .blockComment rest

/-- Leaves comments out of a text. -/
def uncomment (text : String) : String := String.ofList (uncommentFrom .plain text.toList)

end Provenance.Json
