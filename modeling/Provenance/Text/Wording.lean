/-!
# Numbers and names in texts

Texts write numbers in base ten and names between backticks.
-/

namespace Provenance

/-- A numeral in base ten, without leading zeros. -/
def decimal (n : Nat) : String := String.ofList (Nat.toDigits 10 n)

theorem isDigit_of_mem_decimal {n : Nat} {d : Char} (h : d ∈ (decimal n).toList) :
    d.isDigit = true := by
  rw [decimal, String.toList_ofList] at h
  exact Nat.isDigit_of_mem_toDigits (by decide) (by decide) h

/-- A number can be read off its numeral. -/
theorem decimal_inj {m n : Nat} : decimal m = decimal n ↔ m = n := by
  constructor
  · intro h
    have hdigits : Nat.toDigits 10 m = Nat.toDigits 10 n := String.ofList_injective h
    rw [← Nat.ofDigitChars_ten_toDigits (n := m), hdigits, Nat.ofDigitChars_ten_toDigits]
  · rintro rfl
    rfl

/-- A name between backticks. -/
def ticked (name : String) : String := "`" ++ name ++ "`"

end Provenance
