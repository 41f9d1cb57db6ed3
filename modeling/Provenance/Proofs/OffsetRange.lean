import Provenance.Proofs.Rejection

/-!
# Emission stays among the offsets

A recorder moves spans without looking at them, so a placement overflows if a span recorded under
the name ends too far up. That no emission of a short enough text comes to this rests on three facts
from different places:

* a fragment is placed only after it has passed its check;
* what is recorded under a name are spans of one fragment, those of earlier occurrences included
  (`Catalogue.mem_spans_of_mem_recordedFor`), so they have all passed the check against its code;
* the text that is being written only grows, so behind a place there is room for the code
  (`Catalogue.utf8ByteSize_appendNamed_le_fragmentText`).

What one step moves, and where it ends, is said by `Catalogue.exists_moved_of_emitFragment`;
`Catalogue.emit_stays_in_range` says it of every step of an emission, together with the outcome of
the whole.
-/

namespace Provenance

namespace Catalogue

variable {c : Catalogue} {flags : Flags} {name : String}

/-- What a step of emission moves if it writes the fragment: all that has been recorded under the
name by then, its own spans included. -/
def pending (d : Draft) (f : Fragment) : List Span :=
  (d.recorder.recordAll f.name f.spans).recordedFor f.name

/-- A step writes a fragment behind a draft at a place, and adds the pending spans moved to it. -/
structure Writes (c : Catalogue) (flags : Flags) (d : Draft) (name : String) (q : Placed)
    (d' : Draft) : Prop where
  /-- The fragment is the one that the name stands for. -/
  known : c.find? name = some q.fragment
  /-- Its place is the number of bytes before its code. -/
  place : (separated d.code ++ q.fragment.opening flags).utf8ByteSize = q.place.toNat
  /-- Its code is appended. -/
  code : d'.code = separated d.code ++ q.fragment.opening flags ++ q.fragment.code
  /-- What is pending is moved without overflow. -/
  fits : ∀ s ∈ pending d q.fragment, s.Fits q.place
  /-- That is all that is added. -/
  placed : d'.recorder.placed =
    d.recorder.placed ++ (pending d q.fragment).map (·.shift q.place)

/-! ### One step -/

/-- The text up to a name and its fragment is no longer than the whole text. -/
theorem utf8ByteSize_appendNamed_le_fragmentText (c : Catalogue) (flags : Flags)
    (before after : List String) (name : String) :
    (c.appendNamed flags (c.fragmentText flags before) name).utf8ByteSize ≤
      (c.fragmentText flags (before ++ name :: after)).utf8ByteSize := by
  rw [fragmentText, fragmentText, List.foldl_append, List.foldl_cons]
  exact utf8ByteSize_le_foldl_appendNamed c flags after _

/-- Spans are recorded before they are placed. -/
theorem placed_recordAll (r : Recorder) (fragment : String) (spans : List Span) :
    (r.recordAll fragment spans).placed = r.placed := by
  induction spans generalizing r with
  | nil => rfl
  | cons s rest ih => exact ih (r.record fragment s)

/-- **What a step moves.** Every span that is moved has passed the check against the code of the
fragment that is written, and moved it ends before the text does. -/
theorem exists_moved_of_emitFragment {d d' : Draft} {placed : List Placed}
    (hd : d.Emitted c flags placed) (h : (c.emitFragment flags d name).result = .ok d') :
    ∃ q : Placed, c.Writes flags d name q d' ∧ ∀ s ∈ pending d q.fragment,
      q.fragment.spanFault? s = none ∧ (s.shift q.place).last.toNat < d'.code.utf8ByteSize := by
  obtain ⟨q, r, hknown, hfault, hplace, hr, rfl⟩ := emitFragment_eq_ok_iff.1 h
  obtain rfl : q.fragment.name = name := name_of_find? hknown
  obtain ⟨hfits, rfl⟩ := Recorder.place?_eq_some_iff.1 hr
  have hplaced := placed_recordAll d.recorder q.fragment.name q.fragment.spans
  refine ⟨q, ⟨hknown, hplace, rfl, hfits, congrArg (· ++ _) hplaced⟩, fun s hs ↦ ?_⟩
  have hmem := mem_spans_of_mem_recordedFor hd (mem_of_find? hknown) hs
  have hbounds := (Fragment.fault?_eq_none_iff.1 hfault).2 s hmem
  refine ⟨Fragment.spanFault?_eq_none_iff.2 hbounds, ?_⟩
  rw [String.utf8ByteSize_append, hplace, (hfits s hs).toNat_last, Nat.add_comm]
  exact Nat.add_lt_add_left hbounds.2 _

/-! ### Emissions -/

/-- Nothing that is wrong with a name is an overflow. -/
theorem Offence.ne_offsetOverflow {e : BuildFault} (h : c.Offence name e) :
    e ≠ .offsetOverflow := by
  cases h <;> simp

/-- **No overflow.** If the text of the fragments that are asked for is short enough for offsets, no
emission overflows, whatever the spans of the manifest and however often a fragment is named.

A step of it stops before anything is moved, because something is wrong with the name, or it writes
the fragment. Then every span that is moved has passed the check against the code of this fragment,
and moved it ends within the text as it is with the code appended. -/
theorem emit_stays_in_range (c : Catalogue) (flags : Flags) (i : Interface) (basename : String)
    (htext : (c.fragmentText flags i.functions).utf8ByteSize < Offset.count) :
    (c.emit flags i basename).result ≠ .error .offsetOverflow ∧
    ∀ (before after : List String) (name : String) (d : Draft),
      i.functions = before ++ name :: after → (c.emitFragments flags before).result = .ok d →
      (∃ e, c.Offence name e ∧ (c.emitFragment flags d name).result = .error e) ∨
      ∃ (d' : Draft) (q : Placed), (c.emitFragment flags d name).result = .ok d' ∧
        c.Writes flags d name q d' ∧ ∀ s ∈ pending d q.fragment,
          q.fragment.spanFault? s = none ∧
          (s.shift q.place).last.toNat < d'.code.utf8ByteSize := by
  constructor
  · intro hoverflow
    obtain ⟨_, _, _, -, -, hoffence⟩ := (emit_eq_error_iff htext).1 hoverflow
    exact hoffence.ne_offsetOverflow rfl
  · intro before after name d hnames hd
    have hroom : (c.appendNamed flags d.code name).utf8ByteSize < Offset.count := by
      rw [code_of_emitFragments hd]
      rw [hnames] at htext
      exact lt_of_le_of_lt
        (utf8ByteSize_appendNamed_le_fragmentText c flags before after name) htext
    obtain ⟨placed, -, hemitted⟩ := exists_emitted_of_emitFragments hd
    cases hname : c.offence? name with
    | some e =>
      exact .inl ⟨e, offence?_eq_some_iff.1 hname, emitFragment_eq_error hroom hname⟩
    | none =>
      obtain ⟨d', hd'⟩ := exists_emitFragment_eq_ok hemitted hroom (offence?_eq_none_iff.1 hname)
      obtain ⟨q, hwrites, hmoved⟩ := exists_moved_of_emitFragment hemitted hd'
      exact .inr ⟨d', q, hd', hwrites, hmoved⟩

/-- A catalogue with a span that overflows at any place but the first, and one that ends with its
code. -/
def brimming : Catalogue where
  manifest :=
    { name := "Brimming"
      fragments := [
        ⟨"tight", "abc", .normal, true, [⟨⟨"a.tact", 1, 0⟩, 0, 2⟩]⟩,
        ⟨"wild", "abc", .normal, false, [⟨⟨"a.tact", 2, 0⟩, 4294967295, 4294967295⟩]⟩] }
  nodup := by decide
  unreserved := by decide

/-- The first fragment is named twice, so its second placement moves two copies of its span, to the
end of the text. The other fragment is refused before it is placed. -/
theorem emit_stays_in_range_brimming :
    (brimming.emit .empty ⟨"Brimming", ["tight", "tight", "wild"], []⟩ "out").result ≠
        .error .offsetOverflow ∧
      ∃ d d' q, (brimming.emitFragments .empty ["tight"]).result = .ok d ∧
        brimming.Writes .empty d "tight" q d' ∧ (pending d q.fragment).length = 2 ∧
        ∀ s ∈ pending d q.fragment, (s.shift q.place).last.toNat < d'.code.utf8ByteSize := by
  obtain ⟨hresult, hsteps⟩ := emit_stays_in_range brimming .empty
    ⟨"Brimming", ["tight", "tight", "wild"], []⟩ "out" (by decide +kernel)
  have hd : (brimming.emitFragments .empty ["tight"]).result =
      .ok ⟨"abc", ⟨[("tight", brimming.fragments[0].spans)], brimming.fragments[0].spans⟩⟩ := by
    decide +kernel
  have hname : brimming.offence? "tight" = none := by decide +kernel
  obtain ⟨e, he, -⟩ | ⟨d', q, -, hwrites, hmoved⟩ := hsteps ["tight"] ["wild"] "tight" _ rfl hd
  · exact absurd (hname.symm.trans (offence?_eq_some_iff.2 he)) (by simp)
  · have hfragment : q.fragment = brimming.fragments[0] :=
      Option.some.inj (hwrites.known.symm.trans (by decide +kernel))
    refine ⟨hresult, _, d', q, hd, hwrites, ?_, fun s hs ↦ (hmoved s hs).2⟩
    rw [hfragment]
    decide +kernel

end Catalogue

end Provenance
