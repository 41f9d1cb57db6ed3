import Provenance.Json.Reader

/-!
# Readers of records

A record has a fixed list of fields, some of which have a default. In a text it is an object or a
list.

* In an object the fields stand in any order. A key that is no field's is passed over with its
  value, a key that comes twice is refused at the second, and a field without default that did not
  come is missed at the end.
* In a list the fields stand in their order and without keys. Fields with a default may be left out
  at the end.

`Fields` describes the fields once; both forms, and the defaults, follow from it.
-/

namespace Provenance.Json

/-- Fields that read a product of values; the second type holds the values that have come so far. -/
inductive Fields : Type → Type → Type 1 where
  /-- No fields. -/
  | done : Fields Unit Unit
  /-- One field before others. -/
  | field {α β γ : Type} (key : String) (read : Reader α) (default : Option α) (rest : Fields β γ) :
    Fields (α × β) (Option α × γ)

namespace Fields

/-- The number of fields. -/
def count : {τ δ : Type} → Fields τ δ → Nat
  | _, _, .done => 0
  | _, _, .field _ _ _ rest => rest.count + 1

/-- No value has come. -/
def blank : {τ δ : Type} → Fields τ δ → δ
  | _, _, .done => ()
  | _, _, .field _ _ _ rest => (none, rest.blank)

/-- The values once all have come, or the first field that is missed. -/
def complete : {τ δ : Type} → Fields τ δ → δ → Except String τ
  | _, _, .done, () => .ok ()
  | _, _, .field key _ default rest, (value, values) =>
    match value.or default with
    | some a => (a, ·) <$> rest.complete values
    | none => .error key

/-- Reads the colon and the value that follow a key; no result if the key is no field's. A repeated
field is refused in front of the colon. -/
def assign (key : String) :
    {τ δ : Type} → Fields τ δ → δ → Cursor → Option (Except Fault (δ × Cursor))
  | _, _, .done, (), _ => none
  | _, _, .field k read _ rest, (value, values), c =>
    if k = key then
      match value with
      | some _ => some (c.skipBlanks.stop (.duplicateField key))
      | none => some do
        let (a, c) ← read (← Reader.skipColon c)
        return ((some a, values), c)
    else (rest.assign key values c).map fun r ↦ r.map fun (values, c) ↦ ((value, values), c)

/-- Reads the fields from the elements of a list. The first argument is the cause if the list is too
short. -/
def inOrder (short : Nat → Cause) : {τ δ : Type} → Fields τ δ → Nat → Bool → Reader τ
  | _, _, .done, _, _, c => .ok ((), c)
  | _, _, .field _ read default rest, n, isFirst, c => do
    let (more, c) ← Reader.nextElement isFirst c
    if more then
      let (a, c) ← read c
      let (b, c) ← rest.inOrder short (n + 1) false c
      return ((a, b), c)
    else
      match default with
      | some a =>
        let (b, c) ← rest.inOrder short (n + 1) isFirst c
        return ((a, b), c)
      | none => c.stop (short n)

/-- Reads the members of an object up to its closing bracket. -/
def members {τ δ : Type} (fields : Fields τ δ) : Nat → Bool → δ → Reader δ
  | 0, _, _, c => c.stop .endOfObject
  | steps + 1, isFirst, values, c => do
    let (more, c) ← Reader.nextKey isFirst c
    if more then
      let (key, c) ← Reader.textRest c
      match fields.assign key values c with
      | some result =>
        let (values, c) ← result
        members fields steps false values c
      | none => members fields steps false values (← Reader.skipValue (← Reader.skipColon c))
    else return (values, c)

/-- Reads a record of the given kind. -/
def record {τ δ : Type} (kind : String) (fields : Fields τ δ) : Reader τ := fun c ↦
  match c.skipBlanks with
  | ⟨'[' :: rest, line⟩ => do
    let (t, c) ← fields.inOrder (fun n ↦ .wrongLength n kind fields.count) 0 true ⟨rest, line⟩
    return (t, ← Reader.endList c)
  | ⟨'\x7b' :: rest, line⟩ => do
    let (values, c) ← fields.members (rest.length + 1) true fields.blank ⟨rest, line⟩
    let c ← Reader.endObject c
    match fields.complete values with
    | .ok t => return (t, c)
    | .error key => c.stop (.missingField key)
  | c => Reader.refuse (.record kind) c

end Fields

end Provenance.Json
