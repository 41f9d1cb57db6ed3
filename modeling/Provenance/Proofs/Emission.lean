import Provenance.Proofs.Layout

/-!
# What emission writes

Emission works on a draft: a text that grows and a recorder that is fed along. This module says once
what a step can do and what a whole emission therefore leaves behind.

* **A step** (`Catalogue.emitFragment_eq_ok_iff`) looks its fragment up, checks it, and places it
  behind everything written so far.
* **A draft** (`Draft.Emitted`) stands for a list of placed fragments. Its text is what they leave
  (`Laid`), and its recorder has run the steps that they stand for (`Placed.steps`), so that
  everything known about runs of recorders applies.
* **A program** (`Catalogue.exists_placed_of_emit`) is a draft with getters behind. They have no
  steps, so its map knows nothing of them.
-/

namespace Provenance

/-! ### One step -/

namespace Fragment

theorem spanFault?_eq_none_iff {f : Fragment} {s : Span} :
    f.spanFault? s = none ↔ s.first ≤ s.last ∧ s.last.toNat < f.size := by
  rw [spanFault?, Span.isEmpty]
  by_cases hlast : s.last < s.first
  · simp [hlast, UInt32.not_le]
  · by_cases hsize : f.size ≤ s.last.toNat
    · simp [hlast, hsize, Nat.not_lt.2 hsize]
    · simp [hlast, hsize, UInt32.not_lt.1 hlast, Nat.not_le.1 hsize]

/-- A fragment passes its check exactly when its size is an offset and every span of it ends within
its code and not before it begins. -/
theorem fault?_eq_none_iff {f : Fragment} :
    f.fault? = none ↔
      f.size < Offset.count ∧ ∀ s ∈ f.spans, s.first ≤ s.last ∧ s.last.toNat < f.size := by
  rw [fault?]
  split
  · next hsize =>
    rw [List.findSome?_eq_none_iff]
    simp only [spanFault?_eq_none_iff, hsize, true_and]
  · next hsize => simp [hsize]

end Fragment

namespace Catalogue

variable {c : Catalogue} {flags : Flags} {name : String}

theorem name_of_find? {f : Fragment} (h : c.find? name = some f) : f.name = name := by
  simpa using List.find?_some h

theorem mem_of_find? {f : Fragment} (h : c.find? name = some f) : f ∈ c.fragments :=
  List.mem_of_find?_eq_some h

/-- Names are distinct, so a fragment is found under its name. -/
theorem find?_name {f : Fragment} (h : f ∈ c.fragments) : c.find? f.name = some f := by
  cases hfind : c.find? f.name with
  | none =>
    have hne := List.find?_eq_none.1 hfind f h
    exact absurd (decide_eq_true rfl) hne
  | some g =>
    have hname : g.name = f.name := name_of_find? hfind
    rw [List.inj_on_of_nodup_map c.nodup (mem_of_find? hfind) h hname]

/-- **A step of emission.** It succeeds exactly when the fragment is known and passes its check,
when the number of bytes before its code is an offset, and when its spans can be placed there. -/
theorem emitFragment_eq_ok_iff {d d' : Draft} :
    (c.emitFragment flags d name).result = .ok d' ↔
      ∃ (q : Placed) (r : Recorder), c.find? name = some q.fragment ∧ q.fragment.fault? = none ∧
        (separated d.code ++ q.fragment.opening flags).utf8ByteSize = q.place.toNat ∧
        (d.recorder.recordAll name q.fragment.spans).place? name q.place = some r ∧
        d' = ⟨separated d.code ++ q.fragment.opening flags ++ q.fragment.code, r⟩ := by
  rw [emitFragment]
  constructor
  · intro h
    split at h
    · exact absurd h (by simp)
    · next f hf =>
      split at h
      · exact absurd h (by simp)
      · next hfault =>
        simp only at h
        split at h
        · exact absurd h (by simp)
        · next place hplace =>
          rw [Logged.result_bind, Logged.result_record] at h
          cases hr : (d.recorder.recordAll name f.spans).place? name place with
          | none =>
            rw [hr] at h
            exact absurd h (by simp [Except.bind])
          | some r =>
            rw [hr] at h
            have hd' : d' = ⟨separated d.code ++ f.opening flags ++ f.code, r⟩ := by
              simpa [Except.bind, eq_comm] using h
            exact ⟨⟨f, place⟩, r, hf, hfault, Offset.ofNat?_eq_some_iff.1 hplace, hr, hd'⟩
  · rintro ⟨q, r, hf, hfault, hplace, hr, rfl⟩
    simp only [hf, hfault, Offset.ofNat?_eq_some_iff.2 hplace, Logged.result_bind,
      Logged.result_record, Except.bind, hr, Logged.result_pure]

end Catalogue

/-! ### The invariant -/

/-- A fragment of a catalogue that has passed its check, at a place to which its spans can be
moved. -/
structure Placed.Valid (c : Catalogue) (q : Placed) : Prop where
  /-- The fragment is the one that its name stands for. -/
  known : c.find? q.fragment.name = some q.fragment
  /-- It has passed its check. -/
  sound : q.fragment.fault? = none
  /-- Its spans stay offsets. -/
  fits : ∀ s ∈ q.fragment.spans, s.Fits q.place

/-- A draft stands for placed fragments. -/
structure Draft.Emitted (c : Catalogue) (flags : Flags) (d : Draft) (placed : List Placed) :
    Prop where
  /-- Each of them is valid. -/
  valid : ∀ q ∈ placed, q.Valid c
  /-- The text is what they leave. -/
  laid : Laid flags placed d.code
  /-- The recorder has run their steps. -/
  recorder : d.recorder.Follows (placed.flatMap Placed.steps)

namespace Catalogue

variable {c : Catalogue} {flags : Flags} {names : List String} {name : String}

theorem emitted_blank : Draft.blank.Emitted c flags [] where
  valid := by simp
  laid := .blank
  recorder := Recorder.follows_empty

/-- **A step adds its fragment at the end.** -/
theorem emitted_of_emitFragment {d d' : Draft} {placed : List Placed}
    (h : d.Emitted c flags placed) (hd : (c.emitFragment flags d name).result = .ok d') :
    ∃ q : Placed, q.fragment.name = name ∧ d'.Emitted c flags (placed ++ [q]) := by
  obtain ⟨q, r, hfind, hfault, hplace, hr, rfl⟩ := emitFragment_eq_ok_iff.1 hd
  obtain rfl : q.fragment.name = name := name_of_find? hfind
  have hrecorded := h.recorder.recordAll q.fragment.name q.fragment.spans
  have hfits : ∀ s ∈ q.fragment.spans, s.Fits q.place := by
    intro s hs
    refine (Recorder.place?_eq_some_iff.1 hr).1 s ?_
    rw [hrecorded.recordedFor, Recorder.recordsOf_append_record, if_pos rfl]
    exact List.mem_append_right _ hs
  refine ⟨q, rfl, ?_, h.laid.concat hplace, ?_⟩
  · exact List.forall_mem_append.2 ⟨h.valid, List.forall_mem_singleton.2 ⟨hfind, hfault, hfits⟩⟩
  · rw [List.flatMap_append, List.flatMap_singleton, Placed.steps, ← List.append_assoc]
    exact hrecorded.place hr

/-- **A whole emission leaves a draft that stands for the fragments that were asked for.** -/
theorem exists_emitted_of_emitFragments {d : Draft}
    (h : (c.emitFragments flags names).result = .ok d) :
    ∃ placed : List Placed, placed.map (fun q ↦ q.fragment.name) = names ∧
      d.Emitted c flags placed := by
  rw [emitFragments, Logged.result_foldlM] at h
  induction names using List.reverseRecOn generalizing d with
  | nil =>
    obtain rfl : Draft.blank = d := Except.ok.inj h
    exact ⟨[], rfl, emitted_blank⟩
  | append_singleton names name ih =>
    simp only [List.foldlM_append, List.foldlM_cons, List.foldlM_nil, bind_pure] at h
    cases hnames : names.foldlM (fun d name ↦ (c.emitFragment flags d name).result) .blank with
    | error e =>
      rw [hnames] at h
      exact absurd h (by simp [bind, Except.bind])
    | ok d₀ =>
      rw [hnames] at h
      obtain ⟨placed, hplaced, hd₀⟩ := ih hnames
      obtain ⟨q, hq, hemitted⟩ := emitted_of_emitFragment hd₀ h
      exact ⟨placed ++ [q], by rw [List.map_append, hplaced, List.map_singleton, hq], hemitted⟩

/-- Valid fragments are those that their names stand for. -/
theorem map_some_fragment {placed : List Placed} (hvalid : ∀ q ∈ placed, q.Valid c) :
    (placed.map Placed.fragment).map some =
      (placed.map fun q ↦ q.fragment.name).map c.find? := by
  rw [List.map_map, List.map_map]
  exact List.map_congr_left fun q hq ↦ (hvalid q hq).known.symm

/-! ### Programs -/

/-- A program is the draft of its fragments with the getters behind. -/
theorem result_emit (c : Catalogue) (flags : Flags) (i : Interface) (basename : String) :
    (c.emit flags i basename).result = (c.emitFragments flags i.functions).result.map fun d ↦
      { entrypoint := basename ++ ".code.fc"
        files := [⟨basename ++ ".code.fc", i.getters.foldl appendGetter d.code⟩,
          ⟨basename ++ ".abi", i.toJson.pretty⟩]
        abi := i.toJson.pretty
        map := d.recorder.toSourceMap } := by
  rw [emit, Logged.result_bind]
  cases (c.emitFragments flags i.functions).result <;> rfl

/-- Compiling is emitting the interface that the flags decide on. -/
theorem result_compile (c : Catalogue) (flags : Flags) (name basename : String) :
    (c.compile flags name basename).result =
      (c.emit flags (c.interface flags name) basename).result := by
  simp only [compile, Logged.result_bind, Logged.result_record, Except.bind]
  cases (c.emit flags (c.interface flags name) basename).result <;> rfl

end Catalogue

/-- The text that runs: the content of the file that the program names. -/
def Program.text (p : Program) : String :=
  ((p.files.find? fun f ↦ f.name = p.entrypoint).map OutputFile.content).getD ""

/-- **An emitted program**: its text are the fragments of its interface with the getters behind, so
they are a layout of it, and its map is made of what the steps of these fragments place. -/
theorem Catalogue.exists_placed_of_emit {c : Catalogue} {flags : Flags} {i : Interface}
    {basename : String} {p : Program} (h : (c.emit flags i basename).result = .ok p) :
    ∃ (placed : List Placed) (code : String),
      placed.map (fun q ↦ q.fragment.name) = i.functions ∧ (∀ q ∈ placed, q.Valid c) ∧
      Laid flags placed code ∧ p.text = i.getters.foldl appendGetter code ∧
      IsLayout placed p.text ∧
      p.map = SourceMap.ofSpans (Recorder.copies (placed.flatMap Placed.steps)) := by
  rw [result_emit] at h
  cases hd : (c.emitFragments flags i.functions).result with
  | error e =>
    rw [hd] at h
    exact absurd h (by simp [Except.map])
  | ok d =>
    rw [hd] at h
    have hp := Except.ok.inj h
    obtain ⟨placed, hplaced, hemitted⟩ := exists_emitted_of_emitFragments hd
    have htext : p.text = i.getters.foldl appendGetter d.code := by
      rw [← hp]
      simp [Program.text]
    refine ⟨placed, d.code, hplaced, hemitted.valid, hemitted.laid, htext, ?_, ?_⟩
    · rw [htext]
      exact hemitted.laid.isLayout_getters i.getters
    · rw [← hp]
      show SourceMap.ofSpans d.recorder.placed = _
      rw [hemitted.recorder.placed]

end Provenance
