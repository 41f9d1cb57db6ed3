import Provenance.Json.Cursor

/-!
# Reading numbers

A numeral has whole digits without a leading zero, and may have digits behind a point and an
exponent. One without point and exponent stands for a whole number if that fits into 64 bits; every
other numeral stands for a floating point number, as does minus zero.

Digits are gathered into a whole number below `2 ^ 64`. Whole digits beyond it count as zeros,
digits behind the point beyond it are dropped, and what remains is scaled by its power of ten.
-/

namespace Provenance.Json

/-- The parts of a numeral behind its sign. -/
structure Numeral where
  /-- The digits before the point. -/
  whole : List Char
  /-- The digits behind the point, if there is one. -/
  fraction : Option (List Char)
  /-- The sign and the digits of the exponent, if there is one. -/
  exponent : Option (Bool × List Char)
deriving DecidableEq, Inhabited

namespace Numeral

/-! ### Value -/

/-- The value of a decimal digit. -/
def digitValue (d : Char) : Nat := d.toNat - '0'.toNat

/-- Appends digits to a whole number as long as it stays below `2 ^ 64`, and returns the digits left
over. -/
def gather : Nat → List Char → Nat × List Char
  | n, [] => (n, [])
  | n, d :: rest =>
    let next := n * 10 + digitValue d
    if next < UInt64.size then gather next rest else (n, d :: rest)

/-- The number that digits spell. -/
def ofDigits (digits : List Char) : Nat := digits.foldl (fun n d ↦ n * 10 + digitValue d) 0

/-- The written exponent; no exponent is as good as zero. -/
def shift (n : Numeral) : Int :=
  match n.exponent with
  | none => 0
  | some (false, digits) => ofDigits digits
  | some (true, digits) => -ofDigits digits

/-- The floating point value, if it is finite. -/
def real? (n : Numeral) : Option Binary64 :=
  let (whole, surplus) := gather 0 n.whole
  let fraction := n.fraction.getD []
  let (digits, dropped) := gather whole fraction
  Binary64.ofDecimal? digits (surplus.length - (fraction.length - dropped.length : Nat) + n.shift)

/-- The whole number, if the numeral stands for one. -/
def integer? (isNegative : Bool) (n : Numeral) : Option Number :=
  match n.fraction, n.exponent, gather 0 n.whole with
  | none, none, (m, []) =>
    if !isNegative then some (.natural m)
    else if 0 < m ∧ m ≤ 1 <<< 63 then some (.negative m)
    else none
  | _, _, _ => none

/-- The number that a numeral stands for, if it is in range. -/
def value? (isNegative : Bool) (n : Numeral) : Option Number :=
  (n.integer? isNegative).orElse fun _ ↦ n.real?.map (.real isNegative)

end Numeral

namespace Reader

/-! ### Form -/

/-- Reads the digits up to the next character that is none. -/
def digits (c : Cursor) : List Char × Cursor :=
  (c.rest.takeWhile Char.isDigit, ⟨c.rest.dropWhile Char.isDigit, c.line⟩)

/-- Reads the exponent, if there is one. The first argument is the fault of a numeral that is cut
off. -/
def exponentPart (cut : Cause) (c : Cursor) : Except Fault (Option (Bool × List Char) × Cursor) :=
  match c.rest with
  | [] => .ok (none, c)
  | e :: rest =>
    if e = 'e' ∨ e = 'E' then
      let (isNegative, unsigned) : Bool × List Char :=
        match rest with
        | '+' :: rest => (false, rest)
        | '-' :: rest => (true, rest)
        | rest => (false, rest)
      match digits ⟨unsigned, c.line⟩ with
      | ([], ⟨[], line⟩) => .error ⟨cut, line⟩
      | ([], ⟨x :: _, line⟩) => .error ⟨.badNumber, lineAfter x line⟩
      | (ds, c) => .ok (some (isNegative, ds), c)
    else .ok (none, c)

/-- Reads the point and the digits behind it, if there are any. -/
def fractionPart (cut : Cause) (c : Cursor) : Except Fault (Option (List Char) × Cursor) :=
  match c.rest with
  | '.' :: rest =>
    match digits ⟨rest, c.line⟩ with
    | ([], ⟨[], line⟩) => .error ⟨cut, line⟩
    | ([], ⟨x :: _, line⟩) => .error ⟨.badNumber, lineAfter x line⟩
    | (ds, c) => .ok (some ds, c)
  | _ => .ok (none, c)

/-- Reads the whole digits. A leading zero stands alone. -/
def wholePart (cut : Cause) (c : Cursor) : Except Fault (List Char × Cursor) :=
  match digits c with
  | ([], ⟨[], line⟩) => .error ⟨cut, line⟩
  | ([], ⟨x :: _, line⟩) => .error ⟨.badNumber, lineAfter x line⟩
  | ('0' :: _ :: _, c) => c.stop .badNumber
  | (ds, c) => .ok (ds, c)

/-- Reads a numeral behind its sign. -/
def numeral (cut : Cause) : Reader Numeral := fun c ↦ do
  let (whole, c) ← wholePart cut c
  let (fraction, c) ← fractionPart cut c
  let (exponent, c) ← exponentPart cut c
  return (⟨whole, fraction, exponent⟩, c)

/-- Reads a number behind its sign. -/
def number (isNegative : Bool) : Reader Number := fun c ↦ do
  let (n, c) ← numeral .endOfValue c
  match n.value? isNegative with
  | some x => return (x, c)
  | none => c.stop .numberOutOfRange

/-- Passes over a number behind its sign. -/
def skipNumber (c : Cursor) : Except Fault Cursor := (·.2) <$> numeral .badNumber c

end Reader

end Provenance.Json
