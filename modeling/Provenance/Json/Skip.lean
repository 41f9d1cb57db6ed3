import Provenance.Json.Numeral
import Provenance.Json.Text

/-!
# Passing over values

A value that nobody asks for is passed over. Its form is checked, at any depth: the brackets that
are open are kept in a list, so depth costs no more than length. Inside such a value a comma always
announces another element, so a comma before a closing bracket is met by the complaint that a value
or a key is due.
-/

namespace Provenance.Json.Reader

/-- An open bracket. -/
inductive Bracket where
  | list
  | object
deriving DecidableEq, Inhabited

namespace Bracket

/-- The fault of a text that ends between the elements. -/
def cutOff : Bracket → Cause
  | list => .endOfList
  | object => .endOfObject

/-- The fault of an element that is followed neither by a comma nor by the end. -/
def goesOn : Bracket → Cause
  | list => .listGoesOn
  | object => .objectGoesOn

/-- The closing bracket. -/
def closing : Bracket → Char
  | list => ']'
  | object => '\x7d'

end Bracket

/-- What comes next inside a value that is passed over. -/
inductive Due where
  /-- A value. -/
  | value
  /-- The first element after an opening bracket, or the closing one. -/
  | element
  /-- What follows a value. -/
  | sequel
deriving DecidableEq, Inhabited

/-- Passes over a colon. -/
def skipColon (c : Cursor) : Except Fault Cursor :=
  match c.skipBlanks with
  | ⟨':' :: rest, line⟩ => .ok ⟨rest, line⟩
  | ⟨[], line⟩ => .error ⟨.endOfObject, line⟩
  | c => c.stop .colonDue

/-- Passes over the key of a member and the colon behind it; in a list there is nothing to pass
over. -/
def skipKey : Bracket → Cursor → Except Fault Cursor
  | .list, c => .ok c
  | .object, c =>
    match c.skipBlanks with
    | ⟨'"' :: rest, line⟩ => do skipColon (← skipText ⟨rest, line⟩)
    | ⟨[], line⟩ => .error ⟨.endOfObject, line⟩
    | c => c.stop .keyDue

/-- Passes over the start of a value: all of it, or its opening bracket. -/
def skipStart (c : Cursor) : Except Fault (Option Bracket × Cursor) :=
  match c.skipBlanks with
  | ⟨[], line⟩ => .error ⟨.endOfValue, line⟩
  | ⟨'n' :: rest, line⟩ => (none, ·) <$> spell ['u', 'l', 'l'] ⟨rest, line⟩
  | ⟨'t' :: rest, line⟩ => (none, ·) <$> spell ['r', 'u', 'e'] ⟨rest, line⟩
  | ⟨'f' :: rest, line⟩ => (none, ·) <$> spell ['a', 'l', 's', 'e'] ⟨rest, line⟩
  | ⟨'-' :: rest, line⟩ => (none, ·) <$> skipNumber ⟨rest, line⟩
  | ⟨'"' :: rest, line⟩ => (none, ·) <$> skipText ⟨rest, line⟩
  | ⟨'[' :: rest, line⟩ => .ok (some .list, ⟨rest, line⟩)
  | ⟨'\x7b' :: rest, line⟩ => .ok (some .object, ⟨rest, line⟩)
  | ⟨d :: rest, line⟩ =>
    if d.isDigit then (none, ·) <$> skipNumber ⟨d :: rest, line⟩ else .error ⟨.valueDue, line⟩

/-- Passes over what is due inside the open brackets, innermost first. Every step but the last takes
a character, which bounds their number. -/
def skipSteps : Nat → Due → List Bracket → Cursor → Except Fault Cursor
  | 0, _, _, c => c.stop .endOfValue
  | steps + 1, .value, brackets, c => do
    match ← skipStart c with
    | (none, c) => skipSteps steps .sequel brackets c
    | (some b, c) => skipSteps steps .element (b :: brackets) c
  | _ + 1, _, [], c => .ok c
  | steps + 1, .element, b :: brackets, c => do
    match c.skipBlanks with
    | ⟨[], line⟩ => .error ⟨b.cutOff, line⟩
    | ⟨x :: rest, line⟩ =>
      if x = b.closing then skipSteps steps .sequel brackets ⟨rest, line⟩
      else skipSteps steps .value (b :: brackets) (← skipKey b ⟨x :: rest, line⟩)
  | steps + 1, .sequel, b :: brackets, c => do
    match c.skipBlanks with
    | ⟨[], line⟩ => .error ⟨b.cutOff, line⟩
    | ⟨x :: rest, line⟩ =>
      if x = ',' then skipSteps steps .value (b :: brackets) (← skipKey b ⟨rest, line⟩)
      else if x = b.closing then skipSteps steps .sequel brackets ⟨rest, line⟩
      else .error ⟨b.goesOn, line⟩

/-- Passes over a value. -/
def skipValue (c : Cursor) : Except Fault Cursor := skipSteps (2 * c.rest.length + 2) .value [] c

end Provenance.Json.Reader
