import Mathlib.Data.List.Basic
import Provenance.Program
import Provenance.Proofs.RecorderRun

/-!
# Layouts

A text that is written fragment by fragment has each fragment at some *place*: the number of bytes
before its code. This module is about such placed fragments alone, before it is said which ones an
emission places.

* `IsLayout`: placed fragments lie in a text in order and not over each other, each as its bytes. It
  stays true whatever is appended, and it is what a reader of the text can check.
* `Laid`: the text is what the placed fragments leave, with nothing but separators and marks between
  them. It is read from the end, as emission goes, and implies `IsLayout` by induction.
* `Placed.steps`: what is done with a recorder meanwhile. What these steps place in the end is
  computed from the law of runs (`copies_steps_concat`); under distinct names it is each span once
  (`copies_steps_of_nodup`).
-/

namespace Provenance

/-! ### Placed fragments -/

/-- A fragment and the number of bytes before its code in some text. -/
structure Placed where
  /-- The fragment. -/
  fragment : Fragment
  /-- The number of bytes before its code. -/
  place : Offset
deriving DecidableEq

namespace Placed

/-- The number of bytes before the end of the code. -/
def stop (q : Placed) : ℕ := q.place.toNat + q.fragment.size

/-- The offset belongs to the code. -/
def Holds (q : Placed) (o : Offset) : Prop := q.place ≤ o ∧ o.toNat < q.stop

instance (q : Placed) (o : Offset) : Decidable (q.Holds o) := inferInstanceAs (Decidable (_ ∧ _))

/-- The spans of the fragment, moved to its place. -/
def spans (q : Placed) : List Span := q.fragment.spans.map (·.shift q.place)

/-- What emission does with a recorder: it records the spans of the fragment, then places it. -/
def steps (q : Placed) : List Recorder.Step :=
  q.fragment.spans.map (.record q.fragment.name) ++ [.place q.fragment.name q.place]

end Placed

/-- Placed fragments lie in a text in order, not over each other, each where its code is. -/
structure IsLayout (placed : List Placed) (text : String) : Prop where
  /-- No fragment begins before the earlier ones end. -/
  ordered : placed.Pairwise fun a b ↦ a.stop ≤ b.place.toNat
  /-- No fragment ends behind the text. -/
  within : ∀ q ∈ placed, q.stop ≤ text.utf8ByteSize
  /-- Between its place and its end are the bytes of its code. -/
  bytes : ∀ q ∈ placed,
    text.toByteArray.extract q.place.toNat q.stop = q.fragment.code.toByteArray

/-- Text behind a layout does not disturb it. -/
theorem IsLayout.append {placed : List Placed} {text : String} (h : IsLayout placed text)
    (more : String) : IsLayout placed (text ++ more) where
  ordered := h.ordered
  within q hq := by
    rw [String.utf8ByteSize_append]
    exact (h.within q hq).trans (Nat.le_add_right _ _)
  bytes q hq := by
    have hnone : more.toByteArray.extract (q.place.toNat - text.toByteArray.size)
        (q.stop - text.toByteArray.size) = .empty := by
      rw [String.size_toByteArray, Nat.sub_eq_zero_of_le (h.within q hq),
        ByteArray.extract_eq_empty_iff]
      exact (Nat.min_le_left _ _).trans (Nat.zero_le _)
    rw [String.toByteArray_append, ByteArray.extract_append, h.bytes q hq, hnone,
      ByteArray.append_empty]

/-- A fragment behind a layout joins it. -/
theorem IsLayout.concat {placed : List Placed} {text : String} (h : IsLayout placed text)
    {q : Placed} (hq : text.utf8ByteSize = q.place.toNat) :
    IsLayout (placed ++ [q]) (text ++ q.fragment.code) where
  ordered := by
    refine List.pairwise_append.2 ⟨h.ordered, List.pairwise_singleton _ _, fun a ha b hb ↦ ?_⟩
    rw [List.mem_singleton.1 hb, ← hq]
    exact h.within a ha
  within a ha := by
    rcases List.mem_append.1 ha with ha | ha
    · exact (h.append _).within a ha
    · rw [List.mem_singleton.1 ha, Placed.stop, ← hq, String.utf8ByteSize_append, Fragment.size]
  bytes a ha := by
    rcases List.mem_append.1 ha with ha | ha
    · exact (h.append _).bytes a ha
    · rw [List.mem_singleton.1 ha, Placed.stop, ← hq, Fragment.size, String.toByteArray_append]
      exact ByteArray.extract_append_eq_right rfl rfl

/-- A moved span covers the bytes that it covered in the code. -/
theorem IsLayout.extract_shift {placed : List Placed} {text : String} (h : IsLayout placed text)
    {q : Placed} (hq : q ∈ placed) {s : Span} (hfits : s.Fits q.place)
    (hlast : s.last.toNat < q.fragment.size) :
    text.toByteArray.extract (s.shift q.place).first.toNat ((s.shift q.place).last.toNat + 1) =
      q.fragment.code.toByteArray.extract s.first.toNat (s.last.toNat + 1) := by
  have hmin : min (q.place.toNat + (s.last.toNat + 1)) q.stop =
      q.place.toNat + (s.last.toNat + 1) := Nat.min_eq_left (by rw [Placed.stop]; omega)
  rw [← h.bytes q hq, ByteArray.extract_extract, hmin, hfits.toNat_first, hfits.toNat_last]
  congr 1 <;> omega

/-- **No offset lies in the code of two placed fragments.** -/
theorem not_holds_of_ordered {placed : List Placed} {q : Placed}
    (h : (placed ++ [q]).Pairwise fun a b ↦ a.stop ≤ b.place.toNat) {o : Offset}
    (hq : q.Holds o) : ∀ a ∈ placed, ¬ a.Holds o := by
  intro a ha hholds
  have hstop := (List.pairwise_append.1 h).2.2 a ha q List.mem_cons_self
  have hplace := UInt32.le_iff_toNat_le.1 hq.1
  have hbefore := hholds.2
  omega

/-! ### Texts written fragment by fragment -/

/-- The text that fragments leave when they are written one after another, each behind the separator
and the mark that it asks for. -/
inductive Laid (flags : Flags) : List Placed → String → Prop
  | blank : Laid flags [] ""
  | concat {placed : List Placed} {code : String} {q : Placed} (h : Laid flags placed code)
    (hq : (separated code ++ q.fragment.opening flags).utf8ByteSize = q.place.toNat) :
    Laid flags (placed ++ [q]) (separated code ++ q.fragment.opening flags ++ q.fragment.code)

/-- The last fragment stands behind what the others leave. -/
theorem Laid.exists_of_concat {flags : Flags} {placed : List Placed} {q : Placed} {code : String}
    (h : Laid flags (placed ++ [q]) code) :
    ∃ before, Laid flags placed before ∧
      (separated before ++ q.fragment.opening flags).utf8ByteSize = q.place.toNat ∧
      code = separated before ++ q.fragment.opening flags ++ q.fragment.code := by
  generalize hall : placed ++ [q] = all at h
  cases h with
  | blank => exact absurd hall (by simp)
  | @concat _ before _ hlaid hq =>
    obtain ⟨rfl, hlast⟩ := List.append_inj' hall rfl
    obtain rfl := List.singleton_inj.1 hlast
    exact ⟨before, hlaid, hq, rfl⟩

/-- A separator only appends. -/
theorem exists_separated_eq (code : String) : ∃ more, separated code = code ++ more := by
  rw [separated]
  split
  · exact ⟨"", (String.append_empty).symm⟩
  · exact ⟨separator, rfl⟩

/-- Getters only append. -/
theorem exists_foldl_appendGetter_eq (getters : List String) (code : String) :
    ∃ more, getters.foldl appendGetter code = code ++ more := by
  induction getters generalizing code with
  | nil => exact ⟨"", (String.append_empty).symm⟩
  | cons name rest ih =>
    obtain ⟨sep, hsep⟩ := exists_separated_eq code
    obtain ⟨more, hmore⟩ := ih (appendGetter code name)
    refine ⟨sep ++ getterText name ++ more, ?_⟩
    rw [List.foldl_cons, hmore, appendGetter, hsep]
    simp only [String.append_assoc]

/-- **What is laid is a layout.** -/
theorem Laid.isLayout {flags : Flags} {placed : List Placed} {code : String}
    (h : Laid flags placed code) : IsLayout placed code := by
  induction h with
  | blank => exact ⟨.nil, by simp, by simp⟩
  | @concat placed code q _ hq ih =>
    obtain ⟨sep, hsep⟩ := exists_separated_eq code
    rw [hsep] at hq ⊢
    exact ((ih.append sep).append (q.fragment.opening flags)).concat hq

/-- Getters behind it do not disturb it. -/
theorem Laid.isLayout_getters {flags : Flags} {placed : List Placed} {code : String}
    (h : Laid flags placed code) (getters : List String) :
    IsLayout placed (getters.foldl appendGetter code) := by
  obtain ⟨more, hmore⟩ := exists_foldl_appendGetter_eq getters code
  rw [hmore]
  exact h.isLayout.append more

/-! ### What the steps of placed fragments place -/

/-- What is recorded under a name are the spans of its placed fragments. -/
theorem recordsOf_steps (name : String) (placed : List Placed) :
    Recorder.recordsOf name (placed.flatMap Placed.steps) =
      placed.flatMap fun q ↦ if q.fragment.name = name then q.fragment.spans else [] := by
  induction placed using List.reverseRecOn with
  | nil => rfl
  | append_singleton placed q ih =>
    rw [List.flatMap_append, List.flatMap_append, List.flatMap_singleton, List.flatMap_singleton,
      ← ih, Placed.steps, ← List.append_assoc, Recorder.recordsOf_concat,
      Recorder.recordsOf_append_record]
    exact List.append_nil _

/-- The last placement copies the earlier records under its name, then those of its own. -/
theorem copies_steps_concat (placed : List Placed) (q : Placed) :
    Recorder.copies ((placed ++ [q]).flatMap Placed.steps) =
      Recorder.copies (placed.flatMap Placed.steps) ++
        (Recorder.recordsOf q.fragment.name (placed.flatMap Placed.steps) ++
          q.fragment.spans).map (·.shift q.place) := by
  rw [List.flatMap_append, List.flatMap_singleton, Placed.steps, ← List.append_assoc,
    Recorder.copies_concat, Recorder.copies_append_record]
  show _ ++ (Recorder.recordsOf q.fragment.name _).map _ = _
  rw [Recorder.recordsOf_append_record, if_pos rfl]

/-- **Under distinct names every fragment is copied once.** -/
theorem copies_steps_of_nodup {placed : List Placed}
    (h : (placed.map fun q ↦ q.fragment.name).Nodup) :
    Recorder.copies (placed.flatMap Placed.steps) = placed.flatMap Placed.spans := by
  induction placed using List.reverseRecOn with
  | nil => rfl
  | append_singleton placed q ih =>
    rw [List.map_append, List.map_singleton, List.nodup_append] at h
    obtain ⟨hplaced, -, hne⟩ := h
    have hnone : Recorder.recordsOf q.fragment.name (placed.flatMap Placed.steps) = [] := by
      rw [recordsOf_steps, List.flatMap_eq_nil_iff]
      intro a ha
      exact if_neg (hne _ (List.mem_map_of_mem ha) _ List.mem_cons_self)
    rw [copies_steps_concat, hnone, ih hplaced, List.flatMap_append, List.flatMap_singleton]
    rfl

end Provenance
