/-!
# Binary floating point in exact arithmetic

The finite nonnegative numbers of the 64-bit binary format are the `m * 2 ^ q` with `m` below `2 ^
53` and `q` between `-1074` and `971`. Every operation here is exact on natural numbers up to one
final rounding to the nearest such number, a tie going to the even `m`, so it can be evaluated and
reasoned about without any machine arithmetic.

## Reading a decimal

`Binary64.ofDecimal?` reads a decimal in the quick way: the digits are rounded first, and multiplied
or divided by a rounded power of ten afterwards. The outcome can differ from the nearest number in
its last bit.
-/

namespace Provenance

/-- The number `mantissa * 2 ^ exponent`. -/
structure Binary64 where
  /-- The whole part, below `2 ^ 53`. -/
  mantissa : Nat
  /-- The power of two. -/
  exponent : Int
deriving DecidableEq, Inhabited

namespace Binary64

/-- The least exponent. -/
def minExponent : Int := -1074

/-- The greatest exponent. -/
def maxExponent : Int := 971

/-- Zero. -/
def zero : Binary64 := ⟨0, minExponent⟩

/-- Numerator and denominator of the value. -/
def ratio (x : Binary64) : Nat × Nat := (x.mantissa <<< x.exponent.toNat, 1 <<< (-x.exponent).toNat)

/-! ### Rounding a quotient -/

/-- The quotient is at least `2 ^ e`. -/
def twoPowLE (e : Int) (num den : Nat) : Bool := den <<< e.toNat ≤ num <<< (-e).toNat

/-- The greatest `e` such that the positive quotient is at least `2 ^ e`. The logarithms of its two
terms leave two candidates. -/
def log2Ratio (num den : Nat) : Int :=
  let e : Int := num.log2 - den.log2
  if twoPowLE e num den then e else e - 1

/-- The whole number nearest to a quotient; a tie goes to the even one. -/
def nearest (num den : Nat) : Nat :=
  let k := num / den
  let twice := 2 * (num % den)
  if den < twice ∨ (den = twice ∧ k % 2 = 1) then k + 1 else k

/-- The number nearest to a quotient with positive denominator, if it is finite. -/
def ofRatio? (num den : Nat) : Option Binary64 :=
  if num = 0 then some zero
  else
    let q := max (log2Ratio num den - 52) minExponent
    let m := nearest (num <<< (-q).toNat) (den <<< q.toNat)
    let x : Binary64 := if m = 1 <<< 53 then ⟨1 <<< 52, q + 1⟩ else ⟨m, q⟩
    if x.exponent ≤ maxExponent then some x else none

/-! ### Reading a decimal -/

/-- The product, if it is finite. -/
def mul? (x y : Binary64) : Option Binary64 :=
  ofRatio? (x.ratio.1 * y.ratio.1) (x.ratio.2 * y.ratio.2)

/-- The quotient by a positive number, if it is finite. -/
def div? (x y : Binary64) : Option Binary64 :=
  ofRatio? (x.ratio.1 * y.ratio.2) (x.ratio.2 * y.ratio.1)

/-- The greatest power of ten that is a single factor. -/
def maxPower : Nat := 308

/-- The number nearest to a power of ten. -/
def tenPow? (n : Nat) : Option Binary64 := ofRatio? (Nat.pow 10 n) 1

/-- Multiplies by a power of ten, in several steps where one factor is not enough. -/
def scaleTen? (x : Binary64) (e : Int) : Option Binary64 :=
  if e.natAbs ≤ maxPower then
    if 0 ≤ e then do x.mul? (← tenPow? e.natAbs) else do x.div? (← tenPow? e.natAbs)
  else if x.mantissa = 0 then some x
  else if 0 ≤ e then none
  else do
    let y ← x.div? (← tenPow? maxPower)
    scaleTen? y (e + maxPower)
termination_by e.natAbs
decreasing_by
  simp only [maxPower] at *
  omega

/-- The number written `significand * 10 ^ exponent`, if it is finite. -/
def ofDecimal? (significand : Nat) (exponent : Int) : Option Binary64 := do
  (← ofRatio? significand 1).scaleTen? exponent

end Binary64

end Provenance
