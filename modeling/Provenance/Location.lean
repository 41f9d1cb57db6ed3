import Provenance.Text.Wording

/-!
# Source locations

A location is a line and a column of a named source file. Locations are ordered by file, then line,
then column; files compare by code points, which is also the order of their UTF-8 bytes.
-/

namespace Provenance

/-- A place in a source file. -/
structure Location where
  /-- The name of the file. -/
  file : String
  /-- The line. -/
  line : UInt32
  /-- The column. -/
  col : UInt32
deriving DecidableEq, Inhabited

namespace Location

/-- Locations compare by file, then line, then column. -/
instance : Ord Location where
  compare :=
    compareLex (compareOn Location.file)
      (compareLex (compareOn Location.line) (compareOn Location.col))

instance : Std.TransOrd Location :=
  inferInstanceAs (Std.TransCmp
    (compareLex (compareOn Location.file)
      (compareLex (compareOn Location.line) (compareOn Location.col))))

instance : Std.LawfulEqOrd Location where
  compare_self := Std.ReflOrd.compare_self
  eq_of_compare {a b} h := by
    obtain ⟨hfile, hrest⟩ := Ordering.then_eq_eq.1 h
    obtain ⟨hline, hcol⟩ := Ordering.then_eq_eq.1 hrest
    obtain ⟨file, line, col⟩ := a
    obtain rfl : file = b.file := Std.LawfulEqCmp.eq_of_compare hfile
    obtain rfl : line = b.line := Std.LawfulEqCmp.eq_of_compare hline
    obtain rfl : col = b.col := Std.LawfulEqCmp.eq_of_compare hcol
    rfl

/-- The first location stands no later than the second. -/
def isLE (a b : Location) : Bool := (compare a b).isLE

theorem isLE_trans {a b c : Location} (hab : a.isLE b = true) (hbc : b.isLE c = true) :
    a.isLE c = true :=
  Std.TransCmp.isLE_trans hab hbc

theorem isLE_refl (a : Location) : a.isLE a = true := by rw [isLE, Std.compare_self]; rfl

theorem eq_of_isLE_of_isLE {a b : Location} (hab : a.isLE b = true) (hba : b.isLE a = true) :
    a = b :=
  Std.LawfulEqCmp.eq_of_compare (Std.OrientedCmp.isLE_antisymm hab hba)

theorem isLE_total (a b : Location) : (a.isLE b || b.isLE a) = true := by
  have hswap : compare b a = (compare a b).swap := Std.OrientedCmp.eq_swap
  rw [isLE, isLE, hswap]
  cases compare a b <;> rfl

/-- The text `file:line:col`. -/
def text (l : Location) : String :=
  l.file ++ ":" ++ decimal l.line.toNat ++ ":" ++ decimal l.col.toNat

end Location

end Provenance
