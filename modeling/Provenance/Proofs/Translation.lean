import Mathlib.Data.List.Basic
import Provenance.Proofs.ReverseIndex

/-!
# Moving spans and their maps

`Span.shift?` has an answer exactly when both ends of the moved range are offsets
(`Span.shift?_eq_some_iff`), and then the answer is `Span.shift`, which is total. The rest of the
theory moves spans with the latter and carries `Span.Fits` beside it.

**Moving a map.** A move keeps locations, so it commutes with sorting without any condition
(`Span.sort_map_shift`). That is why a built map answers a moved offset with the number it had
before the move (`SourceMap.indexAt?_ofSpans_map_shift`). Only there is it needed that the spans
fit: a wrapped span would cover other offsets. `SourceMap.ofSpans_translated` says both of spans
that are moved by `Span.shift?`.
-/

namespace Provenance

/-- A number is an offset exactly when some offset is that number. -/
theorem Offset.ofNat?_eq_some_iff {n : ℕ} {o : Offset} : ofNat? n = some o ↔ n = o.toNat := by
  rw [ofNat?]
  split
  · next h =>
    rw [Option.some_inj]
    constructor
    · rintro rfl
      exact (UInt32.toNat_ofNat_of_lt' h).symm
    · rintro rfl
      exact UInt32.ofNat_toNat
  · next h =>
    refine ⟨fun hnone ↦ absurd hnone (by simp), fun hn ↦ absurd ?_ h⟩
    rw [hn]
    exact o.toNat_lt

/-- A sum that is an offset does not wrap around. -/
theorem Offset.toNat_add_of_lt {a b : Offset} (h : a.toNat + b.toNat < count) :
    (a + b).toNat = a.toNat + b.toNat := by
  rw [UInt32.toNat_add]
  exact Nat.mod_eq_of_lt h

/-- Two offsets have a sum exactly when it is one. -/
theorem Offset.add?_eq_some_iff {a b c : Offset} :
    a.add? b = some c ↔ a.toNat + b.toNat < Offset.count ∧ c = a + b := by
  rw [add?, ofNat?]
  split
  · next h =>
    have hadd : UInt32.ofNat (a.toNat + b.toNat) = a + b := by
      rw [UInt32.ofNat_add, UInt32.ofNat_toNat, UInt32.ofNat_toNat]
    rw [hadd, Option.some_inj]
    exact ⟨fun hc ↦ ⟨h, hc.symm⟩, fun hc ↦ hc.2.symm⟩
  · next h => simp [h]

namespace Span

/-- Both ends of the range stay offsets when they are moved up by a distance. -/
def Fits (s : Span) (distance : Offset) : Prop :=
  s.first.toNat + distance.toNat < Offset.count ∧ s.last.toNat + distance.toNat < Offset.count

instance (s : Span) (distance : Offset) : Decidable (s.Fits distance) :=
  inferInstanceAs (Decidable (_ ∧ _))

/-- The span moved up by a distance. Of use where the span fits; elsewhere an end wraps around. -/
def shift (s : Span) (distance : Offset) : Span :=
  { s with first := s.first + distance, last := s.last + distance }

@[simp] theorem location_shift (s : Span) (d : Offset) : (s.shift d).location = s.location := rfl

/-- A span moves exactly when it fits. -/
theorem shift?_eq_some_iff {s t : Span} {d : Offset} :
    s.shift? d = some t ↔ s.Fits d ∧ t = s.shift d := by
  simp only [shift?, Option.bind_eq_bind, Option.bind_eq_some_iff, Option.pure_def,
    Option.some_inj, Offset.add?_eq_some_iff]
  constructor
  · rintro ⟨first, ⟨hfirst, rfl⟩, last, ⟨hlast, rfl⟩, rfl⟩
    exact ⟨⟨hfirst, hlast⟩, rfl⟩
  · rintro ⟨⟨hfirst, hlast⟩, rfl⟩
    exact ⟨_, ⟨hfirst, rfl⟩, _, ⟨hlast, rfl⟩, rfl⟩

theorem shift?_eq_none_iff {s : Span} {d : Offset} : s.shift? d = none ↔ ¬ s.Fits d := by
  rw [Option.eq_none_iff_forall_ne_some]
  constructor
  · intro h hfits
    exact h _ (shift?_eq_some_iff.2 ⟨hfits, rfl⟩)
  · intro h t ht
    exact h (shift?_eq_some_iff.1 ht).1

/-- Spans move together exactly when all of them fit. -/
theorem mapM_shift?_eq_some_iff {spans moved : List Span} {d : Offset} :
    (spans.mapM fun s ↦ s.shift? d) = some moved ↔
      (∀ s ∈ spans, s.Fits d) ∧ moved = spans.map (·.shift d) := by
  induction spans generalizing moved with
  | nil => simp [eq_comm]
  | cons s rest ih =>
    rw [List.mapM_cons]
    simp only [Option.bind_eq_bind, Option.bind_eq_some_iff, Option.pure_def, Option.some_inj,
      shift?_eq_some_iff, ih, List.forall_mem_cons, List.map_cons]
    constructor
    · rintro ⟨_, ⟨hs, rfl⟩, _, ⟨hrest, rfl⟩, rfl⟩
      exact ⟨⟨hs, hrest⟩, rfl⟩
    · rintro ⟨⟨hs, hrest⟩, rfl⟩
      exact ⟨_, ⟨hs, rfl⟩, _, ⟨hrest, rfl⟩, rfl⟩

namespace Fits

variable {s : Span} {d : Offset}

theorem toNat_first (h : s.Fits d) : (s.shift d).first.toNat = s.first.toNat + d.toNat :=
  Offset.toNat_add_of_lt h.1

theorem toNat_last (h : s.Fits d) : (s.shift d).last.toNat = s.last.toNat + d.toNat :=
  Offset.toNat_add_of_lt h.2

/-- A moved span covers the moved offsets. -/
theorem covers_shift_iff (h : s.Fits d) {o : Offset} :
    (s.shift d).Covers o ↔ d ≤ o ∧ s.Covers (o - d) := by
  rw [Covers, Covers]
  simp only [UInt32.le_iff_toNat_le, h.toNat_first, h.toNat_last]
  constructor
  · rintro ⟨hfirst, hlast⟩
    have hle : d ≤ o := UInt32.le_iff_toNat_le.2 (by omega)
    have hsub := UInt32.toNat_sub_of_le o d hle
    omega
  · rintro ⟨hdo, hfirst, hlast⟩
    have hsub := UInt32.toNat_sub_of_le o d (UInt32.le_iff_toNat_le.2 hdo)
    omega

end Fits

/-- A move keeps locations, so it keeps the order. -/
theorem sort_map_shift (spans : List Span) (d : Offset) :
    sort (spans.map (·.shift d)) = (sort spans).map (·.shift d) := by
  have hle : ∀ s ∈ spans, ∀ t ∈ spans, s.isLE t = (s.shift d).isLE (t.shift d) :=
    fun _ _ _ _ ↦ rfl
  exact (List.map_mergeSort hle).symm

end Span

namespace SourceMap

variable {spans : List Span} {d : Offset}

/-- **Moved spans answer moved offsets with the same number**, and offsets below the move not at
all. -/
theorem indexAt?_ofSpans_map_shift (hfits : ∀ s ∈ spans, s.Fits d) (o : Offset) :
    (ofSpans (spans.map (·.shift d))).indexAt? o =
      if d ≤ o then (ofSpans spans).indexAt? (o - d) else none := by
  split
  · next hle =>
    have hcovers : ∀ {j : ℕ} {s : Span}, (Span.sort spans)[j]? = some s →
        ((s.shift d).Covers o ↔ s.Covers (o - d)) := by
      intro j s hs
      have hmem : s ∈ spans := Span.mem_sort.1 (List.mem_of_getElem? hs)
      rw [(hfits s hmem).covers_shift_iff]
      exact and_iff_right hle
    refine Option.ext fun i ↦ ?_
    rw [indexAt?_ofSpans_eq_some_iff, indexAt?_ofSpans_eq_some_iff, Span.sort_map_shift]
    simp only [List.getElem?_map, Option.map_eq_some_iff]
    constructor
    · rintro ⟨⟨_, ⟨s, hs, rfl⟩, ho⟩, hmax⟩
      refine ⟨⟨s, hs, (hcovers hs).1 ho⟩, fun j t ht hto ↦ ?_⟩
      exact hmax j _ ⟨t, ht, rfl⟩ ((hcovers ht).2 hto)
    · rintro ⟨⟨s, hs, ho⟩, hmax⟩
      refine ⟨⟨_, ⟨s, hs, rfl⟩, (hcovers hs).2 ho⟩, ?_⟩
      rintro j _ ⟨t, ht, rfl⟩ hto
      exact hmax j t ht ((hcovers ht).1 hto)
  · next hlt =>
    rw [indexAt?_ofSpans_eq_none_iff]
    rintro _ hmem ho
    obtain ⟨s, hs, rfl⟩ := List.mem_map.1 hmem
    exact hlt ((hfits s hs).covers_shift_iff.1 ho).1

/-- The span that speaks for a moved offset is the moved one. -/
theorem spanAt?_ofSpans_map_shift (hfits : ∀ s ∈ spans, s.Fits d) (o : Offset) :
    (ofSpans (spans.map (·.shift d))).spanAt? o =
      if d ≤ o then ((ofSpans spans).spanAt? (o - d)).map (·.shift d) else none := by
  rw [spanAt?, spanAt?, indexAt?_ofSpans_map_shift hfits]
  split
  · cases (ofSpans spans).indexAt? (o - d) with
    | none => rfl
    | some i =>
      show (Span.sort (spans.map (·.shift d)))[i]? = ((Span.sort spans)[i]?).map (·.shift d)
      rw [Span.sort_map_shift, List.getElem?_map]
  · rfl

/-- **Placement is a translation.** If no end of a span leaves the range of offsets when it is moved
by a distance, then all spans can be moved by it. The map of the moved spans lists the spans of the
original map, each moved, in the same order. A moved offset has the number there that the offset has
in the original map, and offsets below the distance have none. -/
theorem ofSpans_translated {spans : List Span} {d : Offset}
    (h : ∀ s ∈ spans, s.first.toNat + d.toNat < Offset.count ∧
      s.last.toNat + d.toNat < Offset.count) :
    ∃ moved, (spans.mapM fun s ↦ s.shift? d) = some moved ∧
      ((ofSpans spans).spans.mapM fun s ↦ s.shift? d) = some (ofSpans moved).spans ∧
      ∀ o, (ofSpans moved).indexAt? o =
        if d ≤ o then (ofSpans spans).indexAt? (o - d) else none := by
  refine ⟨spans.map (·.shift d), Span.mapM_shift?_eq_some_iff.2 ⟨h, rfl⟩, ?_,
    indexAt?_ofSpans_map_shift h⟩
  have hsorted : ∀ s ∈ (ofSpans spans).spans, s.Fits d :=
    fun s hs ↦ h s (Span.mem_sort.1 hs)
  exact Span.mapM_shift?_eq_some_iff.2 ⟨hsorted, Span.sort_map_shift spans d⟩

/-- Two spans that overlap, listed against their order, and between them one that covers nothing. -/
def brim : List Span :=
  [⟨⟨"b", 2, 0⟩, 3, 5⟩, ⟨⟨"a", 1, 0⟩, 5, 2⟩, ⟨⟨"a", 1, 0⟩, 0, 4⟩]

/-- Moved up until the last offset is covered, they answer as before, and nothing wraps around. -/
theorem ofSpans_translated_brim :
    (∀ s ∈ brim, s.first.toNat + (0xFFFFFFFA : Offset).toNat < Offset.count ∧
      s.last.toNat + (0xFFFFFFFA : Offset).toNat < Offset.count) ∧
    ∃ moved, (brim.mapM fun s ↦ s.shift? 0xFFFFFFFA) = some moved ∧
      (ofSpans moved).indexAt? 0xFFFFFFFF = (ofSpans brim).indexAt? 5 ∧
      (ofSpans moved).indexAt? 0xFFFFFFFA = (ofSpans brim).indexAt? 0 ∧
      (ofSpans moved).indexAt? 3 = none := by
  have hfits : ∀ s ∈ brim, s.first.toNat + (0xFFFFFFFA : Offset).toNat < Offset.count ∧
      s.last.toNat + (0xFFFFFFFA : Offset).toNat < Offset.count := by decide
  obtain ⟨moved, hmoved, -, hindex⟩ := ofSpans_translated hfits
  refine ⟨hfits, moved, hmoved, ?_, ?_, ?_⟩
  · exact (hindex _).trans (if_pos (by decide))
  · exact (hindex _).trans (if_pos (by decide))
  · exact (hindex _).trans (if_neg (by decide))

end SourceMap

end Provenance
