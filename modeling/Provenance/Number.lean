import Provenance.Number.Shortest
import Provenance.Text.Wording

/-!
# Numbers as texts spell them

A number is a natural number, a negative whole number, or a binary floating point number. The text
of a floating point number has the fewest digits that read back.
-/

namespace Provenance

/-- A number. -/
inductive Number where
  /-- A whole number, zero or above. -/
  | natural (n : Nat)
  /-- The whole number `-n` below zero. -/
  | negative (n : Nat)
  /-- A floating point number with its sign; zero has both signs. -/
  | real (isNegative : Bool) (magnitude : Binary64)
deriving DecidableEq, Inhabited

/-- Where the text of a floating point number avoids an exponent. -/
structure RealStyle where
  /-- The least power of ten of a first digit that is written out. -/
  least : Int
  /-- The greatest power of ten of a first digit that is written out. -/
  greatest : Int

namespace Number

/-- Numbers from `0.00001` up to sixteen digits before the point are written out; others have an
exponent, whose sign is always written. -/
def style : RealStyle := ⟨-5, 15⟩

/-- The digits without the zeros at their end. -/
def significant (digits : Nat) : List Char :=
  ((Nat.toDigits 10 digits).reverse.dropWhile (· = '0')).reverse

/-- The text of a positive number whose digits start at the power `e` of ten. -/
def positional (style : RealStyle) (digits : List Char) (e : Int) : String :=
  if style.least ≤ e ∧ e ≤ style.greatest then
    if e < 0 then String.ofList ('0' :: '.' :: (List.replicate (-e - 1).toNat '0' ++ digits))
    else
      let whole := (digits ++ List.replicate (e.toNat + 1 - digits.length) '0').take (e.toNat + 1)
      let rest := digits.drop (e.toNat + 1)
      String.ofList (whole ++ '.' :: (if rest.isEmpty then ['0'] else rest))
  else
    let point := if digits.length = 1 then [] else '.' :: digits.drop 1
    String.ofList (digits.take 1 ++ point ++ ['e', if 0 ≤ e then '+' else '-']) ++ decimal e.natAbs

/-- The text of a nonnegative floating point number. -/
def realText (x : Binary64) : String :=
  if x.mantissa = 0 then "0.0"
  else
    let d := x.shortest
    positional style (significant d.digits) d.leading

/-- The text of a number. -/
def text : Number → String
  | natural n => decimal n
  | negative n => "-" ++ decimal n
  | real isNegative x => (if isNegative then "-" else "") ++ realText x

/-! ### Instances -/

-- Whole values keep one digit behind the point.
example : realText ⟨1 <<< 52, -52⟩ = "1.0" := by decide +kernel

-- The last number that is written out, and the first with an exponent.
example : realText ⟨0x11C37937E07FFF, 1⟩ = "9999999999999998.0" := by decide +kernel

example : realText ⟨0x11C37937E08000, 1⟩ = "1e+16" := by decide +kernel

-- The same at the lower end.
example : realText ⟨0x14F8B588E368F1, -69⟩ = "0.00001" := by decide +kernel

example : text (.real true ⟨1, -1074⟩) = "-5e-324" := by decide +kernel

end Number

end Provenance
