import Mathlib.Data.List.Basic
import Provenance.Location

/-!
# Decoding locations

A location is written as the name of its file and two numerals, with separators between them. The
name is free text: it may be empty, or have separators and digits of its own, and look like a written
location itself. The numerals have digits only. So the last two separators of the text are those
that were put in, and what stands before them is the name (`named_inj`). A written location can hence
be decoded (`Location.text_inj`).
-/

namespace Provenance

/-! ### Separators -/

section Separator

variable {α : Type} [DecidableEq α] {c : α} {x y u v : List α}

/-- What stands before the first separator can be told from what stands behind it. -/
theorem append_cons_inj_of_not_mem_left (hx : c ∉ x) (hy : c ∉ y) :
    x ++ c :: u = y ++ c :: v ↔ x = y ∧ u = v := by
  constructor
  · intro h
    have hstop : ∀ {z : List α} (w : List α), c ∉ z → (z ++ c :: w).takeWhile (· ≠ c) = z := by
      intro z w hz
      have hall : ∀ d ∈ z, decide (d ≠ c) = true := fun d hd ↦
        decide_eq_true fun hdc ↦ hz (hdc ▸ hd)
      rw [List.takeWhile_append_of_pos hall]
      simp
    have hxy : x = y := by rw [← hstop u hx, h, hstop v hy]
    subst hxy
    exact ⟨rfl, List.cons.inj (List.append_cancel_left h) |>.2⟩
  · rintro ⟨rfl, rfl⟩
    rfl

/-- What stands behind the last separator can be told from what stands before it. -/
theorem append_cons_inj_of_not_mem_right (hu : c ∉ u) (hv : c ∉ v) :
    x ++ c :: u = y ++ c :: v ↔ x = y ∧ u = v := by
  have hreverse : x ++ c :: u = y ++ c :: v ↔
      u.reverse ++ c :: x.reverse = v.reverse ++ c :: y.reverse := by
    rw [← List.reverse_inj]
    simp
  rw [hreverse, append_cons_inj_of_not_mem_left (mt List.mem_reverse.1 hu)
    (mt List.mem_reverse.1 hv), List.reverse_inj, List.reverse_inj, and_comm]

end Separator

/-! ### Names with numerals behind them -/

theorem not_mem_decimal {c : Char} (hc : c.isDigit = false) (n : ℕ) : c ∉ (decimal n).toList := by
  intro h
  rw [isDigit_of_mem_decimal h] at hc
  exact absurd hc (by decide)

/-- Numerals of the same digits are those of the same word. -/
theorem toList_decimal_inj {w w' : UInt32} :
    (decimal w.toNat).toList = (decimal w'.toNat).toList ↔ w = w' := by
  rw [String.toList_inj, decimal_inj, UInt32.toNat_inj]

/-- **A name with two numerals behind it can be decoded**, whatever the name is: its own separators
all stand before the last two. -/
theorem named_inj {c : Char} (hc : c.isDigit = false) {name name' : List Char}
    {v v' w w' : UInt32} :
    name ++ c :: ((decimal v.toNat).toList ++ c :: (decimal w.toNat).toList) =
        name' ++ c :: ((decimal v'.toNat).toList ++ c :: (decimal w'.toNat).toList) ↔
      name = name' ∧ v = v' ∧ w = w' := by
  have hmem : ∀ n, c ∉ (decimal n).toList := not_mem_decimal hc
  rw [← List.cons_append, ← List.append_assoc, ← List.cons_append, ← List.append_assoc,
    append_cons_inj_of_not_mem_right (hmem _) (hmem _),
    append_cons_inj_of_not_mem_right (hmem _) (hmem _), toList_decimal_inj, toList_decimal_inj,
    and_assoc]

namespace Location

theorem toList_text (a : Location) :
    a.text.toList = a.file.toList ++ ':' :: ((decimal a.line.toNat).toList ++
      ':' :: (decimal a.col.toNat).toList) := by
  simp [text]

/-- **Locations can be told apart by their texts**, whatever their files are called. -/
theorem text_inj {a b : Location} : a.text = b.text ↔ a = b := by
  rw [← String.toList_inj, toList_text, toList_text, named_inj rfl, String.toList_inj,
    Location.mk.injEq]

-- The name of a file may look like a location.
example : (⟨"a:1:2", 3, 4⟩ : Location).text = "a:1:2:3:4" := by decide +kernel

end Location

end Provenance
