import Mathlib.Data.List.Basic
import Provenance.Proofs.Faithfulness

/-!
# Which interfaces are refused

An interface asks for fragments by name. As long as what is written stays among the offsets, only
two things can be wrong with a name: no fragment has it, or its fragment has a span that does not
lie in the code. This module says so of whole emissions, in both directions.

* `Catalogue.Offence` is what is wrong with a name, said of the manifest and the name alone.
* `Catalogue.fragmentText` is the text of the fragments of some names, which need not be known. It
  serves to say that the text is short enough before it is clear whether there is one.

## A step and a run

A name without offence is written (`exists_emitFragment_eq_ok`), and one with an offence stops the
emission with it (`emitFragment_eq_error`). That a written fragment can be placed is not obvious for
repeated names: then the spans of all its occurrences are moved at once. They are spans of one
fragment, so all of them lie in its code, and the code ends within the text.

Along the names this gives `emitFragments_of_findSome?`: the first offence is the outcome.
-/

namespace Provenance

/-! ### Offences -/

namespace Fragment

/-- The span lies in the code of the fragment. -/
def Bounds (f : Fragment) (s : Span) : Prop := s.first ≤ s.last ∧ s.last.toNat < f.size

instance (f : Fragment) (s : Span) : Decidable (f.Bounds s) := inferInstanceAs (Decidable (_ ∧ _))

/-- A span that lies in the code can be moved to a place behind which the code ends among the
offsets. -/
theorem Bounds.fits {f : Fragment} {s : Span} (h : f.Bounds s) {place : Offset}
    (hplace : place.toNat + f.size < Offset.count) : s.Fits place := by
  obtain ⟨hle, hlast⟩ := h
  have hfirst := UInt32.le_iff_toNat_le.1 hle
  exact ⟨by omega, by omega⟩

theorem spanFault?_eq_some_iff {f : Fragment} {s : Span} {e : BuildFault} :
    f.spanFault? s = some e ↔
      s.last < s.first ∧ e = .invertedSpan f.name s ∨
        s.first ≤ s.last ∧ f.size ≤ s.last.toNat ∧ e = .spanOutOfBounds f.name s.last f.size := by
  rw [spanFault?, Span.isEmpty]
  by_cases hlast : s.last < s.first
  · simp [hlast, UInt32.not_le.2 hlast, eq_comm]
  · have hle := UInt32.not_lt.1 hlast
    by_cases hsize : f.size ≤ s.last.toNat
    · simp [hlast, hle, hsize, eq_comm]
    · simp [hlast, hsize]

end Fragment

namespace Catalogue

/-- What is wrong with a name: no fragment has it, or the first span of its fragment that does not
lie in the code is inverted, or else ends too late. -/
inductive Offence (c : Catalogue) : String → BuildFault → Prop
  | unknown {name : String} (h : ∀ f ∈ c.fragments, f.name ≠ name) :
    Offence c name (.unknownFragment name)
  | inverted {f : Fragment} {s : Span} {before after : List Span} (hf : f ∈ c.fragments)
    (hspans : f.spans = before ++ s :: after) (hbefore : ∀ t ∈ before, f.Bounds t)
    (hs : s.last < s.first) : Offence c f.name (.invertedSpan f.name s)
  | outOfBounds {f : Fragment} {s : Span} {before after : List Span} (hf : f ∈ c.fragments)
    (hspans : f.spans = before ++ s :: after) (hbefore : ∀ t ∈ before, f.Bounds t)
    (hs : s.first ≤ s.last) (hsize : f.size ≤ s.last.toNat) :
    Offence c f.name (.spanOutOfBounds f.name s.last f.size)

/-- Nothing is wrong with a name: it is that of a fragment whose spans lie in its code. -/
def Sound (c : Catalogue) (name : String) : Prop :=
  ∃ f ∈ c.fragments, f.name = name ∧ ∀ s ∈ f.spans, f.Bounds s

/-- What is wrong with a name, as emission finds out. -/
def offence? (c : Catalogue) (name : String) : Option BuildFault :=
  match c.find? name with
  | none => some (.unknownFragment name)
  | some f => f.spans.findSome? f.spanFault?

variable {c : Catalogue} {flags : Flags} {name : String} {names : List String}

theorem find?_eq_none_iff : c.find? name = none ↔ ∀ f ∈ c.fragments, f.name ≠ name := by
  simp [find?]

theorem offence?_of_mem {f : Fragment} (hf : f ∈ c.fragments) :
    c.offence? f.name = f.spans.findSome? f.spanFault? := by
  rw [offence?, find?_name hf]

/-- **Emission finds exactly the offences.** -/
theorem offence?_eq_some_iff {e : BuildFault} : c.offence? name = some e ↔ c.Offence name e := by
  constructor
  · intro h
    rw [offence?] at h
    split at h
    · next hfind =>
      obtain rfl := Option.some.inj h
      exact .unknown (find?_eq_none_iff.1 hfind)
    · next f hfind =>
      obtain ⟨before, s, after, hspans, hs, hbefore⟩ := List.findSome?_eq_some_iff.1 h
      have hbounds : ∀ t ∈ before, f.Bounds t := fun t ht ↦
        Fragment.spanFault?_eq_none_iff.1 (hbefore t ht)
      obtain rfl : f.name = name := name_of_find? hfind
      rcases Fragment.spanFault?_eq_some_iff.1 hs with ⟨hlast, rfl⟩ | ⟨hle, hsize, rfl⟩
      · exact .inverted (mem_of_find? hfind) hspans hbounds hlast
      · exact .outOfBounds (mem_of_find? hfind) hspans hbounds hle hsize
  · intro h
    cases h with
    | unknown h => rw [offence?, find?_eq_none_iff.2 h]
    | @inverted f s before after hf hspans hbefore hs =>
      rw [offence?_of_mem hf]
      exact List.findSome?_eq_some_iff.2 ⟨before, s, after, hspans,
        Fragment.spanFault?_eq_some_iff.2 (.inl ⟨hs, rfl⟩),
        fun t ht ↦ Fragment.spanFault?_eq_none_iff.2 (hbefore t ht)⟩
    | @outOfBounds f s before after hf hspans hbefore hs hsize =>
      rw [offence?_of_mem hf]
      exact List.findSome?_eq_some_iff.2 ⟨before, s, after, hspans,
        Fragment.spanFault?_eq_some_iff.2 (.inr ⟨hs, hsize, rfl⟩),
        fun t ht ↦ Fragment.spanFault?_eq_none_iff.2 (hbefore t ht)⟩

/-- **Emission finds nothing exactly where nothing is wrong.** -/
theorem offence?_eq_none_iff : c.offence? name = none ↔ c.Sound name := by
  rw [offence?]
  constructor
  · intro h
    split at h
    · exact absurd h (by simp)
    · next f hfind =>
      refine ⟨f, mem_of_find? hfind, name_of_find? hfind, fun s hs ↦ ?_⟩
      exact Fragment.spanFault?_eq_none_iff.1 (List.findSome?_eq_none_iff.1 h s hs)
  · rintro ⟨f, hf, rfl, hspans⟩
    rw [find?_name hf]
    refine List.findSome?_eq_none_iff.2 fun s hs ↦ ?_
    exact Fragment.spanFault?_eq_none_iff.2 (hspans s hs)

/-! ### The text of some names -/

/-- Appends the fragment of a name to a text, if there is one. -/
def appendNamed (c : Catalogue) (flags : Flags) (code name : String) : String :=
  match c.find? name with
  | none => code
  | some f => separated code ++ f.opening flags ++ f.code

/-- The text that the fragments of some names leave. -/
def fragmentText (c : Catalogue) (flags : Flags) (names : List String) : String :=
  names.foldl (c.appendNamed flags) ""

theorem utf8ByteSize_le_separated (code : String) :
    code.utf8ByteSize ≤ (separated code).utf8ByteSize := by
  obtain ⟨more, hmore⟩ := exists_separated_eq code
  rw [hmore, String.utf8ByteSize_append]
  exact Nat.le_add_right _ _

theorem utf8ByteSize_le_foldl_appendNamed (c : Catalogue) (flags : Flags) (names : List String)
    (code : String) :
    code.utf8ByteSize ≤ (names.foldl (c.appendNamed flags) code).utf8ByteSize := by
  induction names generalizing code with
  | nil => exact le_rfl
  | cons name rest ih =>
    refine le_trans ?_ (ih (c.appendNamed flags code name))
    rw [appendNamed]
    split
    · exact le_rfl
    · have hsep := utf8ByteSize_le_separated code
      rw [String.utf8ByteSize_append, String.utf8ByteSize_append]
      omega

/-! ### A step -/

theorem appendNamed_name {f : Fragment} (hf : f ∈ c.fragments) (code : String) :
    c.appendNamed flags code f.name = separated code ++ f.opening flags ++ f.code := by
  rw [appendNamed, find?_name hf]

/-- A fragment is no longer than a text that it is appended to. -/
theorem size_le_appendNamed {f : Fragment} (hf : f ∈ c.fragments) (code : String) :
    f.size ≤ (c.appendNamed flags code f.name).utf8ByteSize := by
  rw [appendNamed_name hf, String.utf8ByteSize_append, Fragment.size]
  exact Nat.le_add_left _ _

/-- What is written is the fragment that was asked for. -/
theorem code_of_emitFragment {d d' : Draft} (h : (c.emitFragment flags d name).result = .ok d') :
    d'.code = c.appendNamed flags d.code name := by
  obtain ⟨q, r, hfind, -, -, -, rfl⟩ := emitFragment_eq_ok_iff.1 h
  rw [appendNamed, hfind]

/-- What emission has recorded under the name of a fragment are spans of this fragment. -/
theorem mem_spans_of_mem_recordsOf {placed : List Placed} (hplaced : ∀ q ∈ placed, q.Valid c)
    {f : Fragment} (hf : f ∈ c.fragments) {s : Span}
    (hs : s ∈ Recorder.recordsOf f.name (placed.flatMap Placed.steps)) : s ∈ f.spans := by
  rw [recordsOf_steps, List.mem_flatMap] at hs
  obtain ⟨q, hq, hs⟩ := hs
  split at hs
  · next hname =>
    have hknown := (hplaced q hq).known
    rw [hname, find?_name hf, Option.some_inj] at hknown
    rwa [hknown]
  · exact absurd hs List.not_mem_nil

/-- So are the spans that a step moves: those recorded before and those it has just recorded. -/
theorem mem_spans_of_mem_recordedFor {d : Draft} {placed : List Placed}
    (hd : d.Emitted c flags placed) {f : Fragment} (hf : f ∈ c.fragments) {s : Span}
    (hs : s ∈ (d.recorder.recordAll f.name f.spans).recordedFor f.name) : s ∈ f.spans := by
  rw [(hd.recorder.recordAll f.name f.spans).recordedFor, Recorder.recordsOf_append_record,
    if_pos rfl] at hs
  rcases List.mem_append.1 hs with hs | hs
  · exact mem_spans_of_mem_recordsOf hd.valid hf hs
  · exact hs

/-- **A name with an offence stops the emission with it.** -/
theorem emitFragment_eq_error {d : Draft}
    (htext : (c.appendNamed flags d.code name).utf8ByteSize < Offset.count) {e : BuildFault}
    (he : c.offence? name = some e) : (c.emitFragment flags d name).result = .error e := by
  rw [offence?] at he
  rw [emitFragment]
  cases hfind : c.find? name with
  | none =>
    rw [hfind] at he
    obtain rfl := Option.some.inj he
    rfl
  | some f =>
    rw [hfind] at he
    obtain rfl := name_of_find? hfind
    have hsize := lt_of_le_of_lt (size_le_appendNamed (mem_of_find? hfind) _) htext
    have hfault : f.fault? = some e := by
      rw [Fragment.fault?, if_pos hsize]
      exact he
    simp only [hfault, Logged.result_fail]

/-- **A name without offence is written**, if the text stays short enough. -/
theorem exists_emitFragment_eq_ok {d : Draft} {placed : List Placed}
    (hd : d.Emitted c flags placed)
    (htext : (c.appendNamed flags d.code name).utf8ByteSize < Offset.count)
    (hname : c.Sound name) : ∃ d', (c.emitFragment flags d name).result = .ok d' := by
  obtain ⟨f, hf, rfl, hspans⟩ := hname
  have hsize := lt_of_le_of_lt (size_le_appendNamed hf _) htext
  rw [appendNamed_name hf, String.utf8ByteSize_append] at htext
  obtain ⟨place, hplace⟩ : ∃ place : Offset,
      (separated d.code ++ f.opening flags).utf8ByteSize = place.toNat := by
    refine ⟨UInt32.ofNat _, (UInt32.toNat_ofNat_of_lt' ?_).symm⟩
    exact lt_of_le_of_lt (Nat.le_add_right _ _) htext
  -- All records under the name lie in the code, which ends within the text.
  have hfits : ∀ s ∈ (d.recorder.recordAll f.name f.spans).recordedFor f.name, s.Fits place :=
    fun s hs ↦ (hspans s (mem_spans_of_mem_recordedFor hd hf hs)).fits (hplace ▸ htext)
  exact ⟨_, emitFragment_eq_ok_iff.2 ⟨⟨f, place⟩, _, find?_name hf,
    Fragment.fault?_eq_none_iff.2 ⟨hsize, hspans⟩, hplace,
    Recorder.place?_eq_some_iff.2 ⟨hfits, rfl⟩, rfl⟩⟩

/-! ### A run -/

/-- **The text of a draft.** What is written are the fragments that were asked for. -/
theorem code_of_emitFragments {d : Draft} (h : (c.emitFragments flags names).result = .ok d) :
    d.code = c.fragmentText flags names := by
  rw [emitFragments, Logged.result_foldlM] at h
  show d.code = names.foldl (c.appendNamed flags) Draft.blank.code
  generalize Draft.blank = start at h ⊢
  induction names generalizing start with
  | nil =>
    obtain rfl := Except.ok.inj h
    rfl
  | cons name rest ih =>
    rw [List.foldlM_cons] at h
    cases hd : (c.emitFragment flags start name).result with
    | error e =>
      rw [hd] at h
      exact absurd h (by simp [bind, Except.bind])
    | ok d' =>
      rw [hd] at h
      rw [List.foldl_cons, ← code_of_emitFragment hd]
      exact ih d' h

/-- **The first offence is the outcome of an emission**; without one there is a draft. -/
theorem emitFragments_of_findSome?
    (htext : (c.fragmentText flags names).utf8ByteSize < Offset.count) :
    (∀ e, names.findSome? c.offence? = some e →
      (c.emitFragments flags names).result = .error e) ∧
    (names.findSome? c.offence? = none → ∃ d, (c.emitFragments flags names).result = .ok d) := by
  rw [emitFragments, Logged.result_foldlM]
  -- The induction goes along the names still to be written, from any draft.
  suffices h : ∀ (d : Draft) (placed : List Placed), d.Emitted c flags placed →
      (names.foldl (c.appendNamed flags) d.code).utf8ByteSize < Offset.count →
      (∀ e, names.findSome? c.offence? = some e →
        names.foldlM (fun d name ↦ (c.emitFragment flags d name).result) d = .error e) ∧
      (names.findSome? c.offence? = none →
        ∃ d', names.foldlM (fun d name ↦ (c.emitFragment flags d name).result) d = .ok d') from
    h .blank [] emitted_blank htext
  clear htext
  induction names with
  | nil =>
    intro d placed _ _
    exact ⟨fun e he ↦ absurd he (by simp), fun _ ↦ ⟨d, rfl⟩⟩
  | cons name rest ih =>
    intro d placed hd htext
    rw [List.foldl_cons] at htext
    have hshort := lt_of_le_of_lt (utf8ByteSize_le_foldl_appendNamed c flags rest _) htext
    rw [List.findSome?_cons, List.foldlM_cons]
    cases hname : c.offence? name with
    | some fault =>
      rw [emitFragment_eq_error hshort hname]
      exact ⟨fun e he ↦ by rw [← Option.some.inj he]; rfl, fun hnone ↦ absurd hnone (by simp)⟩
    | none =>
      obtain ⟨d', hd'⟩ := exists_emitFragment_eq_ok hd hshort (offence?_eq_none_iff.1 hname)
      obtain ⟨q, -, hemitted⟩ := emitted_of_emitFragment hd hd'
      rw [← code_of_emitFragment hd'] at htext
      rw [hd']
      exact ih d' _ hemitted htext

/-! ### Programs -/

/-- The check of a fragment does not ask whether it is there. -/
theorem fault?_ne_unknownFragment (f : Fragment) (missing : String) :
    f.fault? ≠ some (.unknownFragment missing) := by
  rw [Fragment.fault?]
  split
  · intro h
    obtain ⟨s, -, hs⟩ := List.exists_of_findSome?_eq_some h
    rcases Fragment.spanFault?_eq_some_iff.1 hs with ⟨-, he⟩ | ⟨-, -, he⟩
    · exact absurd he (by simp)
    · exact absurd he (by simp)
  · simp

/-- A step fails because the fragment is not there, because it does not pass its check, or because
it cannot be placed. -/
theorem emitFragment_error_cases {d : Draft} {e : BuildFault}
    (h : (c.emitFragment flags d name).result = .error e) :
    (c.find? name = none ∧ e = .unknownFragment name) ∨
      ∃ f, c.find? name = some f ∧ (f.fault? = some e ∨ f.fault? = none ∧ e = .offsetOverflow) := by
  rw [emitFragment] at h
  split at h
  · next hfind => exact .inl ⟨hfind, (Except.error.inj h).symm⟩
  · next f hfind =>
    refine .inr ⟨f, hfind, ?_⟩
    split at h
    · next fault hfault => exact .inl (by rw [hfault, Except.error.inj h])
    · next hfault =>
      refine .inr ⟨hfault, ?_⟩
      simp only at h
      split at h
      · exact (Except.error.inj h).symm
      · next place _ =>
        rw [Logged.result_bind, Logged.result_record] at h
        cases hr : (d.recorder.recordAll name f.spans).place? name place with
        | none =>
          rw [hr] at h
          exact (Except.error.inj h).symm
        | some r => exact absurd h (by simp [hr, Except.bind])

/-- A step that fails for want of a fragment has looked for one that is not there. -/
theorem find?_eq_none_of_emitFragment {d : Draft} {missing : String}
    (h : (c.emitFragment flags d name).result = .error (.unknownFragment missing)) :
    c.find? name = none := by
  rcases emitFragment_error_cases h with ⟨hfind, -⟩ | ⟨f, -, hfault | ⟨-, he⟩⟩
  · exact hfind
  · exact absurd hfault (fault?_ne_unknownFragment f missing)
  · exact absurd he (by simp)

/-- So does a whole emission. -/
theorem exists_find?_eq_none_of_emitFragments {missing : String}
    (h : (c.emitFragments flags names).result = .error (.unknownFragment missing)) :
    ∃ name ∈ names, c.find? name = none := by
  rw [emitFragments, Logged.result_foldlM] at h
  generalize Draft.blank = d at h
  induction names generalizing d with
  | nil => exact absurd h (by simp [pure, Except.pure])
  | cons name rest ih =>
    rw [List.foldlM_cons] at h
    cases hd : (c.emitFragment flags d name).result with
    | ok d' =>
      rw [hd] at h
      obtain ⟨n, hn, hnone⟩ := ih d' h
      exact ⟨n, List.mem_cons_of_mem _ hn, hnone⟩
    | error e =>
      rw [hd] at h
      obtain rfl := Except.error.inj h
      exact ⟨name, List.mem_cons_self, find?_eq_none_of_emitFragment hd⟩

/-- The fragments that the flags let through are known. -/
theorem find?_ne_none_of_mem_functions (hname : name ∈ (c.interface flags basename).functions) :
    c.find? name ≠ none := by
  obtain ⟨f, hf, rfl⟩ := List.mem_map.1 hname
  rw [find?_name (List.mem_filter.1 hf).1]
  simp

/-- A compiled interface is sound exactly if the spans of all fragments let through lie in their
code. -/
theorem forall_sound_functions_iff :
    (∀ n ∈ (c.interface flags name).functions, c.Sound n) ↔
      ∀ f ∈ c.emitted flags, ∀ s ∈ f.spans, f.Bounds s := by
  constructor
  · intro h f hf
    obtain ⟨g, hg, hname, hspans⟩ := h f.name (List.mem_map_of_mem hf)
    have hfind := find?_name hg
    rw [hname, find?_name (List.mem_filter.1 hf).1, Option.some_inj] at hfind
    rwa [hfind]
  · intro h n hn
    obtain ⟨f, hf, rfl⟩ := List.mem_map.1 hn
    exact ⟨f, (List.mem_filter.1 hf).1, rfl, h f hf⟩

/-- Emission succeeds exactly if nothing is wrong with any name. -/
theorem exists_emit_eq_ok_iff {i : Interface} {basename : String}
    (htext : (c.fragmentText flags i.functions).utf8ByteSize < Offset.count) :
    (∃ p, (c.emit flags i basename).result = .ok p) ↔ ∀ n ∈ i.functions, c.Sound n := by
  obtain ⟨herror, hok⟩ := emitFragments_of_findSome? htext
  rw [result_emit]
  constructor
  · rintro ⟨p, hp⟩ n hn
    by_contra hnot
    rw [← offence?_eq_none_iff] at hnot
    cases hfirst : i.functions.findSome? c.offence? with
    | none => exact hnot (List.findSome?_eq_none_iff.1 hfirst n hn)
    | some e =>
      rw [herror e hfirst] at hp
      exact absurd hp (by simp [Except.map])
  · intro h
    have hnone : i.functions.findSome? c.offence? = none :=
      List.findSome?_eq_none_iff.2 fun n hn ↦ offence?_eq_none_iff.2 (h n hn)
    obtain ⟨d, hd⟩ := hok hnone
    rw [hd]
    exact ⟨_, rfl⟩

/-- Emission fails with the offence of the first name with which something is wrong. -/
theorem emit_eq_error_iff {i : Interface} {basename : String}
    (htext : (c.fragmentText flags i.functions).utf8ByteSize < Offset.count) {e : BuildFault} :
    (c.emit flags i basename).result = .error e ↔
      ∃ before name after, i.functions = before ++ name :: after ∧
        (∀ n ∈ before, c.Sound n) ∧ c.Offence name e := by
  obtain ⟨herror, hok⟩ := emitFragments_of_findSome? htext
  have hfirst : i.functions.findSome? c.offence? = some e ↔
      ∃ before name after, i.functions = before ++ name :: after ∧
        (∀ n ∈ before, c.Sound n) ∧ c.Offence name e := by
    rw [List.findSome?_eq_some_iff]
    simp only [offence?_eq_some_iff, offence?_eq_none_iff, and_comm]
  rw [← hfirst, result_emit]
  cases hfind : i.functions.findSome? c.offence? with
  | none =>
    obtain ⟨d, hd⟩ := hok hfind
    rw [hd]
    simp [Except.map]
  | some fault =>
    rw [herror fault hfind]
    simp [Except.map]

/-- **When emission fails.** Let the text that is asked for be short enough for offsets; then so are
the codes in it. An interface is emitted exactly if each of its names is that of a fragment whose
spans lie in its code. Otherwise the first other name decides: the fault is that it is unknown, or
else the first bad span of its fragment.

Compiling therefore never misses a fragment, and the spans of fragments that the flags hold back do
not matter. -/
theorem emission_outcome (c : Catalogue) (flags : Flags) (basename : String) :
    (∀ i : Interface, (c.fragmentText flags i.functions).utf8ByteSize < Offset.count →
      ((∃ p, (c.emit flags i basename).result = .ok p) ↔ ∀ n ∈ i.functions, c.Sound n) ∧
      ∀ e, (c.emit flags i basename).result = .error e ↔
        ∃ before name after, i.functions = before ++ name :: after ∧
          (∀ n ∈ before, c.Sound n) ∧ c.Offence name e) ∧
    ∀ name,
      (∀ missing, (c.compile flags name basename).result ≠ .error (.unknownFragment missing)) ∧
      ((c.fragmentText flags (c.interface flags name).functions).utf8ByteSize < Offset.count →
        ((∃ p, (c.compile flags name basename).result = .ok p) ↔
          ∀ f ∈ c.emitted flags, ∀ s ∈ f.spans, f.Bounds s)) := by
  refine ⟨fun i htext ↦ ⟨exists_emit_eq_ok_iff htext, fun e ↦ emit_eq_error_iff htext⟩,
    fun name ↦ ⟨fun missing hmissing ↦ ?_, fun htext ↦ ?_⟩⟩
  · rw [result_compile, result_emit] at hmissing
    cases hd : (c.emitFragments flags (c.interface flags name).functions).result with
    | ok d =>
      rw [hd] at hmissing
      exact absurd hmissing (by simp [Except.map])
    | error e =>
      rw [hd] at hmissing
      obtain rfl := Except.error.inj hmissing
      obtain ⟨n, hn, hnone⟩ := exists_find?_eq_none_of_emitFragments hd
      exact find?_ne_none_of_mem_functions hn hnone
  · rw [result_compile, exists_emit_eq_ok_iff htext, forall_sound_functions_iff]

/-- A catalogue with bad spans in fragments that are held back without features: in one the second
span ends too late and the third is inverted, in the other the only span is inverted. -/
def faulty : Catalogue where
  manifest :=
    { name := "Faulty"
      fragments := [
        ⟨"good", "abc", .normal, false, [⟨⟨"a.tact", 1, 0⟩, 0, 2⟩]⟩,
        ⟨"late", "abc", .debug, false,
          [⟨⟨"a.tact", 2, 0⟩, 0, 2⟩, ⟨⟨"a.tact", 2, 1⟩, 1, 3⟩, ⟨⟨"a.tact", 2, 2⟩, 2, 1⟩]⟩,
        ⟨"inverted", "abcdef", .external, true, [⟨⟨"a.tact", 3, 0⟩, 4, 2⟩]⟩] }
  nodup := by decide
  unreserved := by decide

/-- Of several faults the first is reported, and none is while the fragments are held back. -/
theorem emission_outcome_faulty :
    (faulty.emit .empty ⟨"Faulty", ["good", "late", "missing", "inverted"], []⟩ "out").result =
        .error (.spanOutOfBounds "late" 3 3) ∧
      ∃ p, (faulty.compile .empty "Faulty" "out").result = .ok p := by
  obtain ⟨hemit, hcompile⟩ := emission_outcome faulty .empty "out"
  constructor
  · refine ((hemit _ (by decide +kernel)).2 _).2
      ⟨["good"], "late", ["missing", "inverted"], rfl, ?_, ?_⟩
    · simp only [List.forall_mem_singleton]
      exact ⟨_, List.mem_cons_self, rfl, by decide⟩
    · have hspans : faulty.fragments[1].spans =
          [⟨⟨"a.tact", 2, 0⟩, 0, 2⟩] ++ ⟨⟨"a.tact", 2, 1⟩, 1, 3⟩ :: [⟨⟨"a.tact", 2, 2⟩, 2, 1⟩] :=
        rfl
      exact .outOfBounds (f := faulty.fragments[1]) (by decide) hspans (by decide) (by decide)
        (by decide)
  · exact ((hcompile "Faulty").2 (by decide +kernel)).2 (by decide +kernel)

end Catalogue

end Provenance
