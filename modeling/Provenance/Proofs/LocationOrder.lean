import Mathlib.Data.String.Basic
import Provenance.Location

/-!
# Files are ordered by their bytes

Locations compare files by code points. This module says that the bytes of the encoded names give
the same order (`utf8_lt_iff`), so that the order of locations can be read as one of bytes, lines
and columns (`Location.isLE_iff`). It is a linear order (`Location.compare_isLinear`), on which
sorting and the canonical form of maps rest.

**Why bytes suffice.** A character takes one to four bytes. A longer encoding begins with a greater
byte, and an encoding of several bytes lists the digits of its character in base 64, the highest
first. So two different characters part **inside** their encodings, whatever follows
(`encodeChar_append_lt`): neither encoding is the beginning of the other one.
-/

namespace Provenance

/-! ### Characters -/

/-- Numbers are ordered like their digits in base 64. -/
theorem digits_lt_of_lt {m n : ℕ} (h : m < n) :
    m / 262144 < n / 262144 ∨ m / 262144 = n / 262144 ∧
      (m / 4096 % 64 < n / 4096 % 64 ∨ m / 4096 % 64 = n / 4096 % 64 ∧
        (m / 64 % 64 < n / 64 % 64 ∨ m / 64 % 64 = n / 64 % 64 ∧ m % 64 < n % 64)) := by
  omega

/-- **A smaller character has the smaller encoding**, whatever comes behind the two. -/
theorem encodeChar_append_lt {c d : Char} (h : c < d) (u v : List UInt8) :
    String.utf8EncodeChar c ++ u < String.utf8EncodeChar d ++ v := by
  have hlt : c.val.toNat < d.val.toNat := h
  have hmax : d.val.toNat < 0x110000 := by
    rcases d.valid with hd | ⟨-, hd⟩ <;> omega
  have hdigits := digits_lt_of_lt hlt
  -- One case for each pair of lengths: the first bytes differ or else the digits decide.
  unfold String.utf8EncodeChar
  dsimp only
  split_ifs <;>
    simp (disch := omega) only [List.cons_append, List.cons_lt_cons_iff, UInt8.lt_iff_toNat_lt,
      ← UInt8.toNat_inj, UInt8.toNat_ofNat', Nat.mod_eq_of_lt, Nat.add_lt_add_iff_right,
      Nat.add_right_cancel_iff] <;>
    omega

/-! ### Texts -/

/-- The bytes of a text. -/
def utf8 (s : String) : List UInt8 := s.toUTF8.data.toList

theorem utf8_eq_flatMap (s : String) : utf8 s = s.toList.flatMap String.utf8EncodeChar := by
  obtain ⟨l, rfl⟩ := s.exists_eq_ofList
  rw [utf8, String.toUTF8_eq_toByteArray, String.toByteArray_ofList, String.toList_ofList,
    List.utf8Encode, List.toList_data_toByteArray]

/-- A text can be told from its bytes. -/
theorem utf8_inj {s t : String} : utf8 s = utf8 t ↔ s = t := by
  rw [utf8, utf8, Array.toList_inj, ← ByteArray.ext_iff, String.toUTF8_eq_toByteArray,
    String.toUTF8_eq_toByteArray, String.toByteArray_inj]

theorem flatMap_encodeChar_lt {cs ds : List Char} (h : cs < ds) :
    cs.flatMap String.utf8EncodeChar < ds.flatMap String.utf8EncodeChar := by
  induction cs generalizing ds with
  | nil =>
    match ds with
    | [] => exact absurd h (List.lt_irrefl [])
    | d :: ds =>
      rcases hbytes : (d :: ds).flatMap String.utf8EncodeChar with - | ⟨b, bs⟩
      · exact absurd hbytes (by simp)
      · exact List.nil_lt_cons b bs
  | cons c cs ih =>
    match ds with
    | [] => exact absurd h (List.not_lt_nil _)
    | d :: ds =>
      rw [List.flatMap_cons, List.flatMap_cons]
      rcases List.cons_lt_cons_iff.1 h with hlt | ⟨rfl, hlt⟩
      · exact encodeChar_append_lt hlt _ _
      · exact List.append_left_lt (ih hlt)

/-- **Texts are ordered like their bytes.** -/
theorem utf8_lt_iff {s t : String} : utf8 s < utf8 t ↔ s < t := by
  have hmono : ∀ {s t : String}, s < t → utf8 s < utf8 t := by
    intro s t h
    rw [utf8_eq_flatMap, utf8_eq_flatMap]
    exact flatMap_encodeChar_lt (String.lt_iff_toList_lt.1 h)
  refine ⟨fun h ↦ ?_, hmono⟩
  by_contra hle
  rcases lt_or_eq_of_le (not_lt.1 hle) with hts | rfl
  · exact List.lt_asymm h (hmono hts)
  · exact List.lt_irrefl _ h

theorem utf8_le_iff {s t : String} : utf8 s ≤ utf8 t ↔ s ≤ t := by
  rw [← List.not_lt, utf8_lt_iff, not_lt]

/-- The code points of a text. -/
def codePoints (s : String) : List ℕ := s.toList.map Char.toNat

theorem codePoints_inj {s t : String} : codePoints s = codePoints t ↔ s = t := by
  rw [codePoints, codePoints, (List.map_injective_iff.2 fun _ _ ↦ Char.toNat_inj.1).eq_iff,
    String.toList_inj]

/-- Texts are ordered like their code points. -/
theorem codePoints_lt_iff {s t : String} : codePoints s < codePoints t ↔ s < t := by
  have hmono : StrictMono codePoints := fun s t h ↦
    List.map_lt (fun _ _ hlt ↦ hlt) (String.lt_iff_toList_lt.1 h)
  exact hmono.lt_iff_lt

/-! ### Locations -/

namespace Location

/-- The first location does not come after the second: files by their bytes, then lines, then
columns. -/
def NotAfter (a b : Location) : Prop :=
  utf8 a.file < utf8 b.file ∨
    utf8 a.file = utf8 b.file ∧ (a.line < b.line ∨ a.line = b.line ∧ a.col ≤ b.col)

/-- **Locations are ordered by bytes, lines and columns.** -/
theorem isLE_iff {a b : Location} : a.isLE b = true ↔ a.NotAfter b := by
  show ((compare a.file b.file).then
    ((compare a.line b.line).then (compare a.col b.col))).isLE = true ↔ _
  rw [Ordering.isLE_then_iff_or, Ordering.isLE_then_iff_or, compare_lt_iff_lt,
    Std.LawfulEqCmp.compare_eq_iff_eq, Std.compare_eq_lt, Std.LawfulEqCmp.compare_eq_iff_eq,
    Std.isLE_compare, NotAfter, utf8_lt_iff, utf8_inj]

/-- The first location comes before the second: files by their bytes, then lines, then columns. -/
def Precedes (a b : Location) : Prop :=
  utf8 a.file < utf8 b.file ∨
    utf8 a.file = utf8 b.file ∧ (a.line < b.line ∨ a.line = b.line ∧ a.col < b.col)

/-- One location is less than another if it comes before it. -/
theorem compare_eq_lt_iff {a b : Location} : compare a b = .lt ↔ a.Precedes b := by
  show (compare a.file b.file).then
    ((compare a.line b.line).then (compare a.col b.col)) = .lt ↔ _
  rw [Ordering.then_eq_lt, Ordering.then_eq_lt, compare_lt_iff_lt,
    Std.LawfulEqCmp.compare_eq_iff_eq, Std.compare_eq_lt, Std.LawfulEqCmp.compare_eq_iff_eq,
    Std.compare_eq_lt, Precedes, utf8_lt_iff, utf8_inj]

theorem compare_eq_gt_iff {a b : Location} : compare a b = .gt ↔ b.Precedes a := by
  rw [← compare_eq_lt_iff, Std.OrientedCmp.gt_iff_lt]

theorem compare_eq_eq_iff {a b : Location} :
    compare a b = .eq ↔ a.file = b.file ∧ a.line = b.line ∧ a.col = b.col := by
  rw [Std.LawfulEqCmp.compare_eq_iff_eq, Location.mk.injEq]

theorem Precedes.trans {a b c : Location} (hab : a.Precedes b) (hbc : b.Precedes c) :
    a.Precedes c :=
  compare_eq_lt_iff.1 (Std.TransCmp.lt_trans (compare_eq_lt_iff.2 hab) (compare_eq_lt_iff.2 hbc))

/-- **The order of locations is linear.** A comparison says which of two locations comes before the
other, by bytes, lines and columns, or that their fields are equal, and only one of the three is so.
Turned around it gives the opposite answer, and coming before is transitive. It makes no difference
for files whether bytes or code points are compared. -/
theorem compare_isLinear (a b c : Location) :
    (compare a b = .lt ↔ a.Precedes b) ∧
    (compare a b = .eq ↔ a.file = b.file ∧ a.line = b.line ∧ a.col = b.col) ∧
    (compare a b = .gt ↔ b.Precedes a) ∧
    (a.Precedes b ∧ a ≠ b ∧ ¬ b.Precedes a ∨
      ¬ a.Precedes b ∧ a = b ∧ ¬ b.Precedes a ∨
      ¬ a.Precedes b ∧ a ≠ b ∧ b.Precedes a) ∧
    compare b a = (compare a b).swap ∧
    (a.Precedes b → b.Precedes c → a.Precedes c) ∧
    (utf8 a.file < utf8 b.file ↔ codePoints a.file < codePoints b.file) ∧
    (utf8 a.file = utf8 b.file ↔ codePoints a.file = codePoints b.file) := by
  refine ⟨compare_eq_lt_iff, compare_eq_eq_iff, compare_eq_gt_iff, ?_, Std.OrientedCmp.eq_swap,
    Precedes.trans, utf8_lt_iff.trans codePoints_lt_iff.symm, utf8_inj.trans codePoints_inj.symm⟩
  have heq : a = b ↔ compare a b = .eq := Std.LawfulEqCmp.compare_eq_iff_eq.symm
  rw [← compare_eq_lt_iff, ← compare_eq_gt_iff, ne_eq, heq]
  cases compare a b <;> decide

/-- Files whose names take one, three and four bytes. A comparison of sixteen bit units would turn
the last two around. -/
theorem compare_isLinear_widths :
    let a : Location := ⟨"~", 9, 9⟩
    let b : Location := ⟨"\uffff", 2, 0⟩
    let c : Location := ⟨"😀", 1, 7⟩
    a.Precedes b ∧ b.Precedes c ∧ a.Precedes c := by
  intro a b c
  have hab : compare a b = .lt := by decide +kernel
  have hbc : compare b c = .lt := by decide +kernel
  have hb := (compare_isLinear a b c).1.1 hab
  have hc := (compare_isLinear b c a).1.1 hbc
  obtain ⟨-, -, -, -, -, htrans, -⟩ := compare_isLinear a b c
  exact ⟨hb, hc, htrans hb hc⟩

end Location

end Provenance
