import Provenance.Json
import Provenance.Json.Skip
import Provenance.Table

/-!
# Readers of typed values

A typed reader asks for a value of one kind. It looks at what the text has (`Reader.look`), which
reads a scalar to its end and only recognises an opening bracket, and either takes it or says what
was found and what was wanted. A text with several faults is thus refused for the first one in
reading order.
-/

namespace Provenance.Json.Reader

variable {α : Type}

/-! ### Scalars -/

/-- Reads a scalar, or recognises an opening bracket and stays in front of it. -/
def look : Reader Found := fun c ↦
  match c.skipBlanks with
  | ⟨[], line⟩ => .error ⟨.endOfValue, line⟩
  | ⟨'n' :: rest, line⟩ => (Found.null, ·) <$> spell ['u', 'l', 'l'] ⟨rest, line⟩
  | ⟨'t' :: rest, line⟩ => (Found.flag true, ·) <$> spell ['r', 'u', 'e'] ⟨rest, line⟩
  | ⟨'f' :: rest, line⟩ => (Found.flag false, ·) <$> spell ['a', 'l', 's', 'e'] ⟨rest, line⟩
  | ⟨'-' :: rest, line⟩ => (number true).map Found.number ⟨rest, line⟩
  | ⟨'"' :: rest, line⟩ => textRest.map Found.text ⟨rest, line⟩
  | ⟨'[' :: rest, line⟩ => .ok (.list, ⟨'[' :: rest, line⟩)
  | ⟨'\x7b' :: rest, line⟩ => .ok (.object, ⟨'\x7b' :: rest, line⟩)
  | ⟨d :: rest, line⟩ =>
    if d.isDigit then (number false).map Found.number ⟨d :: rest, line⟩
    else .error ⟨.valueDue, line⟩

/-- Takes what is found, or stops behind it. -/
def expect (take : Found → Except Cause α) : Reader α := fun c ↦ do
  let (found, c) ← look c
  match take found with
  | .ok a => return (a, c)
  | .error cause => c.stop cause

/-- Refuses what is found. -/
def refuse (wanted : Wanted) : Reader α := expect fun found ↦ .error (.wrongType found wanted)

/-- Reads a text, and calls it by the given name if it is missing. -/
def textAs (wanted : Wanted) : Reader String := expect fun
  | .text s => .ok s
  | found => .error (.wrongType found wanted)

/-- Reads a text. -/
def text : Reader String := textAs .text

/-- Reads a path. -/
def path : Reader String := textAs .path

/-- Reads `true` or `false`. -/
def flag : Reader Bool := expect fun
  | .flag b => .ok b
  | found => .error (.wrongType found .flag)

/-- Reads `null`. -/
def null : Reader Unit := expect fun
  | .null => .ok ()
  | found => .error (.wrongType found .null)

/-- Reads a natural number below a bound. -/
def below (bound : Nat) (wanted : Wanted) : Reader Nat := expect fun
  | .number (.natural n) =>
    if n < bound then .ok n else .error (.wrongValue (.number (.natural n)) wanted)
  | .number (.negative n) => .error (.wrongValue (.number (.negative n)) wanted)
  | found => .error (.wrongType found wanted)

/-- Reads a number of 32 bits. -/
def word : Reader UInt32 := (below UInt32.size .word).map UInt32.ofNat

/-- Reads a number of 64 bits. -/
def size : Reader Nat := below UInt64.size .size

/-- Reads `null` as no value. -/
def option (read : Reader α) : Reader (Option α) := fun c ↦
  match c.skipBlanks with
  | ⟨'n' :: rest, line⟩ => (none, ·) <$> spell ['u', 'l', 'l'] ⟨rest, line⟩
  | c => read.map some c

/-! ### Lists -/

/-- Moves on to the next element of a list, or up to its closing bracket. The argument says whether
the element would be the first. -/
def nextElement (isFirst : Bool) : Reader Bool := fun c ↦
  match c.skipBlanks with
  | ⟨[], line⟩ => .error ⟨.endOfList, line⟩
  | ⟨x :: rest, line⟩ =>
    if x = ']' then .ok (false, ⟨x :: rest, line⟩)
    else if isFirst then .ok (true, ⟨x :: rest, line⟩)
    else if x = ',' then
      match Cursor.skipBlanks ⟨rest, line⟩ with
      | ⟨[], line⟩ => .error ⟨.endOfValue, line⟩
      | ⟨']' :: _, line⟩ => .error ⟨.trailingComma, line⟩
      | c => .ok (true, c)
    else .error ⟨.listGoesOn, line⟩

/-- Reads the elements of a list up to its closing bracket. Every element takes a character, which
bounds their number. -/
def elements (read : Reader α) : Nat → Bool → Reader (List α)
  | 0, _, c => c.stop .endOfList
  | steps + 1, isFirst, c => do
    let (more, c) ← nextElement isFirst c
    if more then
      let (a, c) ← read c
      let (rest, c) ← elements read steps false c
      return (a :: rest, c)
    else return ([], c)

/-- Passes over the end of a list. -/
def endList (c : Cursor) : Except Fault Cursor :=
  match c.skipBlanks with
  | ⟨[], line⟩ => .error ⟨.endOfList, line⟩
  | ⟨']' :: rest, line⟩ => .ok ⟨rest, line⟩
  | ⟨',' :: rest, line⟩ =>
    match Cursor.skipBlanks ⟨rest, line⟩ with
    | ⟨']' :: _, line⟩ => .error ⟨.trailingComma, line⟩
    | c => c.stop .trailingCharacters
  | c => c.stop .trailingCharacters

/-- Reads a list behind its opening bracket. -/
def listRest (read : Reader α) : Reader (List α) := fun c ↦ do
  let (items, c) ← elements read (c.rest.length + 1) true c
  return (items, ← endList c)

/-- Reads a list. -/
def list (read : Reader α) : Reader (List α) := fun c ↦
  match c.skipBlanks with
  | ⟨'[' :: rest, line⟩ => listRest read ⟨rest, line⟩
  | c => refuse .list c

/-! ### Objects -/

/-- Moves on behind the opening quote of the next key of an object, or up to its closing bracket.
The argument says whether the key would be the first. -/
def nextKey (isFirst : Bool) : Reader Bool := fun c ↦
  match c.skipBlanks with
  | ⟨[], line⟩ => .error ⟨.endOfObject, line⟩
  | ⟨x :: rest, line⟩ =>
    if x = '\x7d' then .ok (false, ⟨x :: rest, line⟩)
    else if isFirst then
      if x = '"' then .ok (true, ⟨rest, line⟩) else .error ⟨.keyDue, line⟩
    else if x = ',' then
      match Cursor.skipBlanks ⟨rest, line⟩ with
      | ⟨[], line⟩ => .error ⟨.endOfValue, line⟩
      | ⟨'"' :: rest, line⟩ => .ok (true, ⟨rest, line⟩)
      | ⟨'\x7d' :: _, line⟩ => .error ⟨.trailingComma, line⟩
      | c => c.stop .keyDue
    else .error ⟨.objectGoesOn, line⟩

/-- Reads the members of an object up to its closing bracket, keys by one reader and values by
another. -/
def pairs {κ : Type} (key : Reader κ) (value : Reader α) : Nat → Bool → Reader (List (κ × α))
  | 0, _, c => c.stop .endOfObject
  | steps + 1, isFirst, c => do
    let (more, c) ← nextKey isFirst c
    if more then
      let (k, c) ← key c
      let (a, c) ← value (← skipColon c)
      let (rest, c) ← pairs key value steps false c
      return ((k, a) :: rest, c)
    else return ([], c)

/-- Passes over the end of an object. -/
def endObject (c : Cursor) : Except Fault Cursor :=
  match c.skipBlanks with
  | ⟨[], line⟩ => .error ⟨.endOfObject, line⟩
  | ⟨'\x7d' :: rest, line⟩ => .ok ⟨rest, line⟩
  | ⟨',' :: _, line⟩ => .error ⟨.trailingComma, line⟩
  | c => c.stop .trailingCharacters

/-- Reads the members of an object behind its opening bracket. -/
def pairsRest {κ : Type} (key : Reader κ) (value : Reader α) : Reader (List (κ × α)) := fun c ↦ do
  let (members, c) ← pairs key value (c.rest.length + 1) true c
  return (members, ← endObject c)

/-- Reads a number of 32 bits in quotes, behind the opening one. -/
def wordKey : Reader UInt32 := fun c ↦
  match c.rest with
  | [] => c.stop .numericKeyDue
  | x :: _ =>
    if x = '-' ∨ x.isDigit then do
      let (w, c) ← word c
      match c.rest with
      | '"' :: rest => return (w, ⟨rest, c.line⟩)
      | _ => c.stopPast .quoteDue
    else c.stop .numericKeyDue

/-- Reads an object whose keys are numbers as a table; of equal keys the last counts. -/
def table (value : Reader α) : Reader (Table UInt32 α) := fun c ↦
  match c.skipBlanks with
  | ⟨'\x7b' :: rest, line⟩ => (pairsRest wordKey value).map Table.ofList ⟨rest, line⟩
  | c => refuse .object c

/-! ### Names -/

/-- Reads one of a few names behind its opening quote; each stands for a value. -/
def name (known : List (String × α)) : Reader α := fun c ↦ do
  let (s, c) ← textRest c
  match known.lookup s with
  | some a => return (a, c)
  | none => c.stop (.unknownVariant s (known.map Prod.fst))

/-- Reads a choice: a name, or an object with the name as its only key and the value `null`. An
object without keys chooses nothing. -/
def choice (known : List (String × α)) : Reader α := fun c ↦
  match c.skipBlanks with
  | ⟨[], line⟩ => .error ⟨.endOfValue, line⟩
  | ⟨'"' :: rest, line⟩ => name known ⟨rest, line⟩
  | ⟨'\x7b' :: rest, line⟩ => do
    let (isKey, c) ← nextKey true ⟨rest, line⟩
    if isKey then
      let (a, c) ← name known c
      let ((), c) ← null (← skipColon c)
      match c.skipBlanks with
      | ⟨[], line⟩ => .error ⟨.endOfObject, line⟩
      | ⟨'\x7d' :: rest, line⟩ => return (a, ⟨rest, line⟩)
      | c => c.stop .valueDue
    else c.stop .valueDue
  | c => c.stop .valueDue

/-! ### Values of any kind -/

/-- The greatest depth of brackets in a value of any kind. -/
def maxDepth : Nat := 127

/-- Reads a value of any kind, and its elements with the given reader. Without one there must be no
brackets. -/
def anyWith (element : Option (Reader Json)) : Reader Json := fun c ↦ do
  let (found, c) ← look c
  match found, element with
  | .null, _ => return (.null, c)
  | .flag b, _ => return (.flag b, c)
  | .number n, _ => return (.number n, c)
  | .text s, _ => return (.text s, c)
  | .list, none | .object, none => c.stop .tooDeep
  | .list, some read => (listRest read).map Json.list ⟨c.rest.tail, c.line⟩
  | .object, some read => (pairsRest textRest read).map Json.object ⟨c.rest.tail, c.line⟩

/-- Reads a value of any kind whose brackets are no deeper than the given number. -/
def anyWithin : Nat → Reader Json
  | 0 => anyWith none
  | depth + 1 => anyWith (some (anyWithin depth))

/-- Reads a value of any kind. -/
def any : Reader Json := anyWithin maxDepth

end Provenance.Json.Reader
