import Mathlib.Data.List.Flatten
import Provenance.Proofs.Rejection

/-!
# What features change in a map

Features decide which fragments are emitted and what stands between them, so they move everything
in the text. This module says what they leave alone. A map is read here without its offsets: each
span counts as its location together with the bytes that it covers (`Program.coverage`).

* The coverage of a compiled program is made of the fragments that are let through, and of nothing
  else: the coverages of their codes, one behind the other and sorted (`coverage_compile`).
* More features let more fragments through, in the same order, and **a stable sort keeps sublists**
  (`sublist_mergeSort_of_sublist`). So more features add to the coverage and do nothing else to it.
* With fewer features the text is no longer (`utf8ByteSize_fragmentText_le`), so what compiles with
  more of them compiles with fewer. The offsets of the two texts have nothing to do with each other.
-/

namespace Provenance

/-! ### Sorting sublists -/

section Sorting

variable {α : Type} {le : α → α → Bool} {xs ys : List α}

/-- The first element of a list is sorted in between the later ones that are below it and those that
are not. -/
theorem mergeSort_cons_eq (htrans : ∀ a b c, le a b = true → le b c = true → le a c = true)
    (htotal : ∀ a b, (le a b || le b a) = true) (a : α) (xs : List α) :
    (a :: xs).mergeSort le =
      (xs.mergeSort le).filter (fun b ↦ !le a b) ++ a :: (xs.mergeSort le).filter (le a ·) := by
  obtain ⟨below, above, hcons, hxs, hbelow⟩ := List.mergeSort_cons htrans htotal a xs
  have hsorted := List.pairwise_mergeSort htrans htotal (a :: xs)
  rw [hcons] at hsorted
  have habove : ∀ b ∈ above, le a b = true :=
    (List.pairwise_cons.1 (List.pairwise_append.1 hsorted).2.1).1
  have hleft : (below ++ above).filter (fun b ↦ !le a b) = below := by
    rw [List.filter_append, List.filter_eq_self.2 hbelow,
      List.filter_eq_nil_iff.2 fun b hb ↦ by simp [habove b hb], List.append_nil]
  have hright : (below ++ above).filter (le a ·) = above := by
    rw [List.filter_append, List.filter_eq_self.2 habove,
      List.filter_eq_nil_iff.2 fun b hb ↦ by simpa using hbelow b hb, List.nil_append]
  rw [hcons, hxs, hleft, hright]

/-- **A stable sort keeps sublists.** -/
theorem sublist_mergeSort_of_sublist
    (htrans : ∀ a b c, le a b = true → le b c = true → le a c = true)
    (htotal : ∀ a b, (le a b || le b a) = true) (h : xs.Sublist ys) :
    (xs.mergeSort le).Sublist (ys.mergeSort le) := by
  induction h with
  | slnil => exact List.Sublist.refl _
  | @cons xs ys a _ ih =>
    obtain ⟨below, above, hcons, hys, -⟩ := List.mergeSort_cons htrans htotal a ys
    rw [hys] at ih
    rw [hcons]
    exact ih.trans ((List.sublist_cons_self a above).append_left below)
  | @cons_cons xs ys a _ ih =>
    rw [mergeSort_cons_eq htrans htotal a xs, mergeSort_cons_eq htrans htotal a ys]
    exact (ih.filter _).append ((ih.filter _).cons_cons a)

end Sorting

/-! ### Coverage -/

/-- A location and the bytes that are attributed to it. -/
abbrev Coverage := Location × ByteArray

/-- What a span covers of a text. -/
def Span.coverage (text : String) (s : Span) : Coverage :=
  (s.location, text.toByteArray.extract s.first.toNat (s.last.toNat + 1))

/-- What the spans of a program cover, in the order of the map. -/
def Program.coverage (p : Program) : List Coverage := p.map.spans.map (Span.coverage p.text)

/-- What the spans of a fragment cover of its code. -/
def Fragment.coverage (f : Fragment) : List Coverage := f.spans.map (Span.coverage f.code)

namespace Coverage

/-- Sorts by location; what has one location stays in order. -/
def sort (l : List Coverage) : List Coverage := l.mergeSort fun a b ↦ a.1.isLE b.1

theorem sort_sublist {l m : List Coverage} (h : l.Sublist m) : (sort l).Sublist (sort m) :=
  sublist_mergeSort_of_sublist (fun _ _ _ ↦ Location.isLE_trans)
    (fun a b ↦ Location.isLE_total a.1 b.1) h

/-- Spans are sorted as what they cover. -/
theorem map_sort (text : String) (spans : List Span) :
    (Span.sort spans).map (Span.coverage text) = sort (spans.map (Span.coverage text)) :=
  List.map_mergeSort fun _ _ _ _ ↦ rfl

end Coverage

/-- The spans of a placed fragment cover in the text what they cover in the code. -/
theorem IsLayout.map_coverage_spans {c : Catalogue} {placed : List Placed} {text : String}
    (h : IsLayout placed text) {q : Placed} (hq : q ∈ placed) (hvalid : q.Valid c) :
    q.spans.map (Span.coverage text) = q.fragment.coverage := by
  rw [Placed.spans, List.map_map, Fragment.coverage]
  refine List.map_congr_left fun s hs ↦ ?_
  have hlast := ((Fragment.fault?_eq_none_iff.1 hvalid.sound).2 s hs).2
  show (s.location, text.toByteArray.extract _ _) = (s.location, _)
  rw [h.extract_shift hq (hvalid.fits s hs) hlast]

namespace Catalogue

variable {c : Catalogue} {flags flags' : Flags} {name basename : String} {p p' : Program}

/-- **The coverage of a compiled program is that of the fragments let through.** -/
theorem coverage_compile (h : (c.compile flags name basename).result = .ok p) :
    p.coverage = Coverage.sort ((c.emitted flags).flatMap Fragment.coverage) := by
  rw [result_compile] at h
  obtain ⟨placed, -, hnames, hvalid, -, -, hlayout, hmap⟩ := exists_placed_of_emit h
  have hnodup : (placed.map fun q ↦ q.fragment.name).Nodup := by
    rw [hnames]
    exact c.nodup_functions flags name
  have hplaced : (placed.flatMap Placed.spans).map (Span.coverage p.text) =
      (c.emitted flags).flatMap Fragment.coverage := by
    rw [List.map_flatMap, ← map_fragment_eq_emitted hvalid hnames, List.flatMap_map]
    exact List.flatMap_congr fun q hq ↦ hlayout.map_coverage_spans hq (hvalid q hq)
  rw [Program.coverage, hmap, copies_steps_of_nodup hnodup, ← hplaced]
  exact Coverage.map_sort p.text _

/-! ### More features -/

/-- More features let more fragments through. -/
theorem emitted_sublist (hle : ∀ f, flags.enabled f = true → flags'.enabled f = true) :
    (c.emitted flags).Sublist (c.emitted flags') := by
  refine List.monotone_filter_right _ fun f hf ↦ ?_
  rw [Fragment.isEmitted] at hf ⊢
  cases hkind : f.kind.feature? with
  | none => rfl
  | some feature =>
    rw [hkind] at hf
    exact hle feature hf

/-- Which fragments are let through depends on two features only. -/
theorem emitted_congr (hdebug : flags.enabled .debug = flags'.enabled .debug)
    (hexternal : flags.enabled .external = flags'.enabled .external) :
    c.emitted flags = c.emitted flags' := by
  refine List.filter_congr fun f _ ↦ ?_
  rw [Fragment.isEmitted, Fragment.isEmitted]
  cases f.kind with
  | normal => rfl
  | debug => exact hdebug
  | external => exact hexternal

/-! ### Shorter texts -/

theorem utf8ByteSize_separated_le {code code' : String}
    (h : code.utf8ByteSize ≤ code'.utf8ByteSize) :
    (separated code).utf8ByteSize ≤ (separated code').utf8ByteSize := by
  by_cases hblank : code = ""
  · rw [separated, if_pos hblank]
    exact h.trans (utf8ByteSize_le_separated code')
  · have hblank' : code' ≠ "" := by
      rintro rfl
      exact hblank (String.utf8ByteSize_eq_zero_iff.1 (Nat.le_zero.1 h))
    rw [separated, separated, if_neg hblank, if_neg hblank', String.utf8ByteSize_append,
      String.utf8ByteSize_append]
    exact Nat.add_le_add_right h _

theorem utf8ByteSize_opening_le
    (hinline : flags.enabled .inline = true → flags'.enabled .inline = true) (f : Fragment) :
    (f.opening flags).utf8ByteSize ≤ (f.opening flags').utf8ByteSize := by
  rw [Fragment.opening, Fragment.opening]
  by_cases h : f.isInlined flags = true
  · have h' : f.isInlined flags' = true := by
      rw [Fragment.isInlined, Bool.and_eq_true] at h ⊢
      exact ⟨h.1, hinline h.2⟩
    rw [if_pos h, if_pos h']
  · rw [if_neg h]
    exact Nat.zero_le _

/-- With fewer features a shorter text stays shorter. -/
theorem utf8ByteSize_appendNamed_le
    (hinline : flags.enabled .inline = true → flags'.enabled .inline = true) {code code' : String}
    (h : code.utf8ByteSize ≤ code'.utf8ByteSize) (n : String) :
    (c.appendNamed flags code n).utf8ByteSize ≤ (c.appendNamed flags' code' n).utf8ByteSize := by
  rw [appendNamed, appendNamed]
  split
  · exact h
  · next f _ =>
    have hsep := utf8ByteSize_separated_le h
    have hopening := utf8ByteSize_opening_le hinline f
    simp only [String.utf8ByteSize_append]
    omega

/-- **Fewer names and fewer features leave no longer text.** -/
theorem utf8ByteSize_fragmentText_le
    (hinline : flags.enabled .inline = true → flags'.enabled .inline = true)
    {names names' : List String} (hnames : names.Sublist names') :
    (c.fragmentText flags names).utf8ByteSize ≤ (c.fragmentText flags' names').utf8ByteSize := by
  -- Whatever has been written before, as long as it is no longer.
  suffices h : ∀ code code' : String, code.utf8ByteSize ≤ code'.utf8ByteSize →
      (names.foldl (c.appendNamed flags) code).utf8ByteSize ≤
        (names'.foldl (c.appendNamed flags') code').utf8ByteSize from h "" "" le_rfl
  induction hnames with
  | slnil => exact fun code code' h ↦ h
  | @cons names names' n _ ih =>
    intro code code' h
    refine ih code _ (h.trans ?_)
    exact utf8ByteSize_le_foldl_appendNamed c flags' [n] code'
  | @cons_cons names names' n _ ih =>
    intro code code' h
    exact ih _ _ (utf8ByteSize_appendNamed_le hinline h n)

/-- The text of a compiled program is at least that of its fragments. -/
theorem utf8ByteSize_fragmentText_le_text (h : (c.compile flags name basename).result = .ok p) :
    (c.fragmentText flags (c.interface flags name).functions).utf8ByteSize ≤
      p.text.utf8ByteSize := by
  rw [result_compile] at h
  have htext := h
  rw [result_emit] at htext
  cases hd : (c.emitFragments flags (c.interface flags name).functions).result with
  | error e =>
    rw [hd] at htext
    exact absurd htext (by simp [Except.map])
  | ok d =>
    rw [hd] at htext
    have hp := Except.ok.inj htext
    obtain ⟨more, hmore⟩ := exists_foldl_appendGetter_eq (c.interface flags name).getters d.code
    rw [← code_of_emitFragments hd, ← hp]
    simp [Program.text, hmore]

/-- **What compiles with more features compiles with fewer.** -/
theorem exists_compile_eq_ok_of_le
    (hle : ∀ f, flags.enabled f = true → flags'.enabled f = true)
    (h : (c.compile flags' name basename).result = .ok p')
    (htext : p'.text.utf8ByteSize < Offset.count) :
    ∃ p, (c.compile flags name basename).result = .ok p := by
  have hsub := emitted_sublist (c := c) hle
  have hshort' := lt_of_le_of_lt (utf8ByteSize_fragmentText_le_text h) htext
  have hshort : (c.fragmentText flags (c.interface flags name).functions).utf8ByteSize <
      Offset.count :=
    lt_of_le_of_lt (utf8ByteSize_fragmentText_le (hle .inline) (hsub.map Fragment.name)) hshort'
  rw [result_compile] at h
  have hsound := forall_sound_functions_iff.1 ((exists_emit_eq_ok_iff hshort').1 ⟨p', h⟩)
  rw [result_compile, exists_emit_eq_ok_iff hshort, forall_sound_functions_iff]
  exact fun f hf ↦ hsound f (hsub.subset hf)

/-- **Features only add.** Let every feature that is on under some flags be on under others. If a
program with a text short enough for offsets is compiled under the latter, one is compiled under the
former, and what its spans cover, span by span in the order of the map, is a sublist of what they
cover under the latter.

Under flags that agree on debugging and external fragments, what the spans cover is the same. So
marks for inlining and getters move spans, and do nothing else to them. -/
theorem compile_coverage (c : Catalogue) (flags flags' : Flags) (name basename : String) :
    (∀ p', (∀ f, flags.enabled f = true → flags'.enabled f = true) →
      (c.compile flags' name basename).result = .ok p' → p'.text.utf8ByteSize < Offset.count →
        ∃ p, (c.compile flags name basename).result = .ok p ∧
          p.coverage.Sublist p'.coverage) ∧
    ∀ p p', flags.enabled .debug = flags'.enabled .debug →
      flags.enabled .external = flags'.enabled .external →
      (c.compile flags name basename).result = .ok p →
      (c.compile flags' name basename).result = .ok p' → p.coverage = p'.coverage := by
  refine ⟨fun p' hle hp' htext ↦ ?_, fun p p' hdebug hexternal hp hp' ↦ ?_⟩
  · obtain ⟨p, hp⟩ := exists_compile_eq_ok_of_le hle hp' htext
    refine ⟨p, hp, ?_⟩
    rw [coverage_compile hp, coverage_compile hp']
    exact Coverage.sort_sublist ((emitted_sublist hle).flatMap _)
  · rw [coverage_compile hp, coverage_compile hp', emitted_congr hdebug hexternal]

/-- Flags for debugging, inlining and a getter. -/
def instrumented : Flags := Flags.empty.enableAll [.debug, .inline, .ipfsAbiGetter]

/-- Under these flags the catalogue has one more fragment, in between the two others, and all
fragments stand elsewhere. With inlining alone they stand elsewhere and cover the same. -/
theorem compile_coverage_counter :
    ∃ p p' p'', (counter.compile .empty "Counter" "out").result = .ok p ∧
      (counter.compile instrumented "Counter" "out").result = .ok p' ∧
      (counter.compile (Flags.empty.enable .inline) "Counter" "out").result = .ok p'' ∧
      p.coverage.Sublist p'.coverage ∧ p.coverage = p''.coverage := by
  obtain ⟨hmore, -⟩ := compile_coverage counter .empty instrumented "Counter" "out"
  obtain ⟨-, hsame⟩ := compile_coverage counter .empty (Flags.empty.enable .inline) "Counter" "out"
  obtain ⟨p', hp'⟩ := Logged.exists_result_eq_ok
    (x := counter.compile instrumented "Counter" "out") (by decide +kernel)
  obtain ⟨p'', hp''⟩ := Logged.exists_result_eq_ok
    (x := counter.compile (Flags.empty.enable .inline) "Counter" "out") (by decide +kernel)
  have hle : ∀ f, Flags.empty.enabled f = true → instrumented.enabled f = true := by
    intro f
    cases f <;> decide +kernel
  have htext : p'.text.utf8ByteSize < Offset.count := by
    have hsize : (counter.compile instrumented "Counter" "out").result.toOption.map
        (fun p ↦ p.text.utf8ByteSize) = some 78 := by decide +kernel
    rw [hp'] at hsize
    have hbytes : p'.text.utf8ByteSize = 78 := Option.some.inj hsize
    rw [hbytes]
    decide
  obtain ⟨p, hp, hsub⟩ := hmore p' hle hp' htext
  exact ⟨p, p', p'', hp, hp', hp'', hsub,
    hsame p p'' (by decide +kernel) (by decide +kernel) hp hp''⟩

end Catalogue

end Provenance
