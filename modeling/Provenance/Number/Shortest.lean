import Provenance.Number.Binary64

/-!
# The fewest digits that read back

Many decimals round to the same binary number. `Binary64.shortest` finds one with as few digits as
possible, and among those the nearest: it looks at the grids of decimals with one digit, two digits
and so on, and takes the first grid on which a neighbour of the number still rounds to it. Seventeen
digits always suffice.
-/

namespace Provenance.Binary64

/-- The decimal `digits * 10 ^ exponent`. -/
structure Decimal where
  /-- The digits, read as one whole number. -/
  digits : Nat
  /-- The power of ten of the last digit. -/
  exponent : Int
deriving DecidableEq, Inhabited

/-- The greatest `e` such that a positive number is at least `10 ^ e`. -/
def log10 (x : Binary64) : Int :=
  let (num, den) := x.ratio
  if den ≤ num then (Nat.toDigits 10 (num / den)).length - 1
  else -(Nat.toDigits 10 ((den + num - 1) / num - 1)).length

/-- The distance between neighbouring numbers shrinks below this one. -/
def isNarrowBelow (x : Binary64) : Bool := x.mantissa = 1 <<< 52 ∧ x.exponent ≠ minExponent

/-- The decimal `digits * 10 ^ e` rounds to the number: it lies between the midpoints towards the
two neighbours, which count when the mantissa is even. Both sides are quarter units, cleared of
denominators. -/
def admits (x : Binary64) (e : Int) (digits : Nat) : Bool :=
  let unit (quarters : Nat) := quarters <<< (x.exponent - 2).toNat * Nat.pow 10 (-e).toNat
  let value := (digits * Nat.pow 10 e.toNat) <<< (2 - x.exponent).toNat
  let low := unit (if x.isNarrowBelow then 4 * x.mantissa - 1 else 4 * x.mantissa - 2)
  let high := unit (4 * x.mantissa + 2)
  if x.mantissa % 2 = 0 then low ≤ value ∧ value ≤ high else low < value ∧ value < high

/-- The nearest decimal on the grid of step `10 ^ e` that rounds to the number, if there is one. -/
def onGrid? (x : Binary64) (e : Int) : Option Decimal :=
  let num := x.ratio.1 * Nat.pow 10 (-e).toNat
  let den := x.ratio.2 * Nat.pow 10 e.toNat
  let below := num / den
  match x.admits e below, x.admits e (below + 1) with
  | true, true => some ⟨nearest num den, e⟩
  | true, false => some ⟨below, e⟩
  | false, true => some ⟨below + 1, e⟩
  | false, false => none

/-- The decimal with the fewest digits that rounds to a positive number. -/
def shortest (x : Binary64) : Decimal :=
  let grids := (List.range 17).map fun (n : Nat) ↦ x.log10 - n
  (grids.findSome? x.onGrid?).getD ⟨0, 0⟩

/-- The power of ten of the first digit. -/
def Decimal.leading (d : Decimal) : Int := d.exponent + (Nat.toDigits 10 d.digits).length - 1

end Provenance.Binary64
