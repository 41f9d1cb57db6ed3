import Provenance.Proofs.Translation

/-!
# Moves of a span compose

`Span.shift?` is a **partial action** of the distances on the spans (`Span.shift?_isAction`). It has
no answer exactly when one of the two ends would not be an offset, and where it has one, the range
is the same as before, only further up. Two moves in a row are one move by the sum of the distances,
and they fail together.

**Why they fail together.** The ends that are checked are both ends, whichever is the greater one:
`Span.fits_and_fits_shift_iff` needs no order between them, so it holds of spans that cover nothing
too. If the distances have no sum, then the second move fails for every span, since the first one
has taken the ends at least as far as its distance.
-/

namespace Provenance

namespace Span

variable {s : Span} {o a b : Offset}

/-! ### One move -/

namespace Fits

/-- A move keeps the number of offsets in the range. -/
theorem size_shift (h : s.Fits a) : (s.shift a).size = s.size := by
  simp only [size, isEmpty_iff, UInt32.lt_iff_toNat_lt, h.toNat_first, h.toNat_last]
  split <;> split <;> omega

theorem covers_shift_add_iff (h : s.Fits a) (hsum : o.toNat + a.toNat < Offset.count) :
    (s.shift a).Covers (o + a) ↔ s.Covers o := by
  simp only [Covers, UInt32.le_iff_toNat_le, h.toNat_first, h.toNat_last,
    Offset.toNat_add_of_lt hsum, Nat.add_le_add_iff_right]

/-- The range holds an offset exactly if the moved range holds the moved offset. In particular, an
offset of the range can be moved. -/
theorem covers_iff_exists (h : s.Fits a) :
    s.Covers o ↔ ∃ p, o.add? a = some p ∧ (s.shift a).Covers p := by
  constructor
  · intro ho
    have hsum : o.toNat + a.toNat < Offset.count := by
      have hle := UInt32.le_iff_toNat_le.1 ho.2
      have hlast := h.2
      omega
    exact ⟨o + a, Offset.add?_eq_some_iff.2 ⟨hsum, rfl⟩, (h.covers_shift_add_iff hsum).2 ho⟩
  · rintro ⟨p, hp, hcovers⟩
    obtain ⟨hsum, rfl⟩ := Offset.add?_eq_some_iff.1 hp
    exact (h.covers_shift_add_iff hsum).1 hcovers

/-- Below the distance of a move there is nothing of the moved range. -/
theorem not_covers_shift (h : s.Fits a) (hlt : o < a) : ¬ (s.shift a).Covers o := by
  intro ho
  exact UInt32.not_le.2 hlt (h.covers_shift_iff.1 ho).1

end Fits

/-- A move fails exactly if one of the ends would not be an offset. -/
theorem shift?_eq_none_iff_count_le :
    s.shift? a = none ↔
      Offset.count ≤ s.first.toNat + a.toNat ∨ Offset.count ≤ s.last.toNat + a.toNat := by
  rw [shift?_eq_none_iff, Fits, Classical.not_and_iff_not_or_not, Nat.not_lt, Nat.not_lt]

/-! ### Two moves -/

theorem shift_shift (s : Span) (a b : Offset) : (s.shift a).shift b = s.shift (a + b) := by
  simp only [shift, UInt32.add_assoc]

/-- **Two moves fit exactly if the distances have a sum and the move by it fits.** -/
theorem fits_and_fits_shift_iff :
    s.Fits a ∧ (s.shift a).Fits b ↔
      a.toNat + b.toNat < Offset.count ∧ s.Fits (a + b) := by
  constructor
  · rintro ⟨ha, hfirst, hlast⟩
    rw [ha.toNat_first] at hfirst
    rw [ha.toNat_last] at hlast
    have hsum : a.toNat + b.toNat < Offset.count := by omega
    refine ⟨hsum, ?_⟩
    rw [Fits, Offset.toNat_add_of_lt hsum]
    omega
  · rintro ⟨hsum, hfirst, hlast⟩
    rw [Offset.toNat_add_of_lt hsum] at hfirst hlast
    have ha : s.Fits a := ⟨by omega, by omega⟩
    refine ⟨ha, ?_⟩
    rw [Fits, ha.toNat_first, ha.toNat_last]
    omega

/-- Two moves in a row are one move by the sum of the distances, and fail where it fails. -/
theorem shift?_bind_shift? (s : Span) (a b : Offset) :
    ((s.shift? a).bind fun t ↦ t.shift? b) = (a.add? b).bind fun c ↦ s.shift? c := by
  refine Option.ext fun t ↦ ?_
  simp only [Option.bind_eq_some_iff, shift?_eq_some_iff, Offset.add?_eq_some_iff]
  constructor
  · rintro ⟨_, ⟨ha, rfl⟩, hb, rfl⟩
    obtain ⟨hsum, hfits⟩ := fits_and_fits_shift_iff.1 ⟨ha, hb⟩
    exact ⟨_, ⟨hsum, rfl⟩, hfits, shift_shift s a b⟩
  · rintro ⟨_, ⟨hsum, rfl⟩, hfits, rfl⟩
    obtain ⟨ha, hb⟩ := fits_and_fits_shift_iff.2 ⟨hsum, hfits⟩
    exact ⟨_, ⟨ha, rfl⟩, hb, (shift_shift s a b).symm⟩

/-- Every span can be moved by nothing, and stays where it is. -/
theorem shift?_zero (s : Span) : s.shift? 0 = some s := by
  refine shift?_eq_some_iff.2 ⟨⟨s.first.toNat_lt, s.last.toNat_lt⟩, ?_⟩
  rw [shift, UInt32.add_zero, UInt32.add_zero]

/-- **Moving is a partial action.** A move by a distance fails exactly if the first or the last
offset, taken up by it, would not be an offset. Otherwise the location and the number of offsets
stay, the moved range holds exactly the moved offsets of the range, and it holds none below the
distance. A move by nothing changes nothing. To move by one distance and then by another is to move
by their sum: it fails exactly if they have no sum or the move by the sum fails, and otherwise it
gives the same span. -/
theorem shift?_isAction (s : Span) (a b : Offset) :
    (s.shift? a = none ↔
      Offset.count ≤ s.first.toNat + a.toNat ∨ Offset.count ≤ s.last.toNat + a.toNat) ∧
    (∀ t, s.shift? a = some t →
      t.location = s.location ∧ t.size = s.size ∧
        (∀ o, s.Covers o ↔ ∃ p, o.add? a = some p ∧ t.Covers p) ∧ ∀ p < a, ¬ t.Covers p) ∧
    s.shift? 0 = some s ∧
    ((s.shift? a).bind fun t ↦ t.shift? b) = (a.add? b).bind fun c ↦ s.shift? c := by
  refine ⟨shift?_eq_none_iff_count_le, ?_, shift?_zero s, shift?_bind_shift? s a b⟩
  intro t ht
  obtain ⟨hfits, rfl⟩ := shift?_eq_some_iff.1 ht
  exact ⟨location_shift s a, hfits.size_shift, fun o ↦ hfits.covers_iff_exists,
    fun p hlt ↦ hfits.not_covers_shift hlt⟩

/-- A range that is turned around, so that its first offset is the one that a move takes out of the
offsets. It has room for two moves that just fit, and then for none. -/
theorem shift?_isAction_inverted :
    let s : Span := ⟨⟨"a", 1, 0⟩, 9, 4⟩
    let t : Span := ⟨⟨"a", 1, 0⟩, 0xFFFFFFF9, 0xFFFFFFF4⟩
    s.shift? 0xFFFFFFF0 = some t ∧ t.size = s.size ∧
      (t.shift? 6).isSome ∧ t.shift? 6 = s.shift? 0xFFFFFFF6 ∧ t.shift? 7 = none := by
  intro s t
  have ht : s.shift? 0xFFFFFFF0 = some t := by decide +kernel
  have hsum : (0xFFFFFFF0 : Offset).add? 6 = some 0xFFFFFFF6 := by decide +kernel
  obtain ⟨-, hkept, -, hsix⟩ := shift?_isAction s 0xFFFFFFF0 6
  rw [ht, hsum, Option.bind_some, Option.bind_some] at hsix
  obtain ⟨hseven, -⟩ := shift?_isAction t 7 0
  exact ⟨ht, (hkept t ht).2.1, by decide +kernel, hsix, hseven.2 (.inl (by decide))⟩

end Span

end Provenance
