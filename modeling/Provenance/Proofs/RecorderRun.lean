import Mathlib.Data.List.Basic
import Provenance.Proofs.Translation
import Provenance.Recorder

/-!
# Runs of a recorder

A recorder is used step by step, records and placements in any order. This module says what a whole
run leaves behind, as a function of its **history**: the list of its steps.

* `Recorder.recordsOf`: what the history records for a fragment;
* `Recorder.names`: the fragments that it records for, with repetitions;
* `Recorder.copies`: what the history places. A placement copies what was recorded for its fragment
  **before** it, so every step is read together with the steps before it.

## One invariant

`Recorder.Follows` ties the three views of a recorder to these three functions at once. A step keeps
it (`Follows.of_step?`), and under it a step fails exactly when it is a placement that moves some
span out of range (`Follows.step?_eq_none_iff`). What a run does is then an induction on the history,
which grows at its end.
-/

namespace Provenance

namespace Recorder

/-! ### What a history says -/

/-- The span that a step records for a fragment. -/
def Step.recordOf? (fragment : String) : Step → Option Span
  | .record name s => if name = fragment then some s else none
  | .place _ _ => none

/-- The fragment that a step records for. -/
def Step.name? : Step → Option String
  | .record name _ => some name
  | .place _ _ => none

/-- The spans that a history records for a fragment, in order. -/
def recordsOf (fragment : String) (history : List Step) : List Span :=
  history.filterMap (Step.recordOf? fragment)

/-- The fragments that a history records for, once for each record. -/
def names (history : List Step) : List String := history.filterMap Step.name?

/-- What a step places after a history: what was recorded for its fragment, moved to its place. -/
def Step.copies (history : List Step) : Step → List Span
  | .record _ _ => []
  | .place fragment start => (recordsOf fragment history).map (·.shift start)

/-- What a history places: step by step, what each of them places after those before it. -/
def copies (history : List Step) : List Span :=
  history.zipIdx.flatMap fun (step, k) ↦ step.copies (history.take k)

/-- A step moves some span out of range: it places a fragment for which a span was recorded that
does not fit at the place. -/
def Step.Overflows (history : List Step) : Step → Prop
  | .record _ _ => False
  | .place fragment start => ∃ s ∈ recordsOf fragment history, ¬ s.Fits start

/-! ### One more step -/

theorem recordsOf_concat (fragment : String) (history : List Step) (step : Step) :
    recordsOf fragment (history ++ [step]) =
      recordsOf fragment history ++ (step.recordOf? fragment).toList := by
  rw [recordsOf, List.filterMap_append]
  cases h : step.recordOf? fragment <;> simp [recordsOf, h]

theorem names_concat (history : List Step) (step : Step) :
    names (history ++ [step]) = names history ++ step.name?.toList := by
  rw [names, List.filterMap_append]
  cases h : step.name? <;> simp [names, h]

/-- What earlier steps place does not depend on later ones. -/
theorem copies_concat (history : List Step) (step : Step) :
    copies (history ++ [step]) = copies history ++ step.copies history := by
  have hearlier : history.zipIdx.flatMap (fun p ↦ p.1.copies ((history ++ [step]).take p.2)) =
      copies history := by
    refine List.flatMap_congr fun ⟨s, k⟩ hmem ↦ ?_
    have hk : k < history.length := (List.mem_zipIdx' hmem).1
    rw [List.take_append_of_le_length hk.le]
  rw [copies, List.zipIdx_append, List.flatMap_append, hearlier]
  simp

/-! ### The invariant -/

/-- A recorder stands as a history leaves it. -/
structure Follows (r : Recorder) (history : List Step) : Prop where
  /-- Every fragment has its records, in order. -/
  recordedFor : ∀ fragment, r.recordedFor fragment = recordsOf fragment history
  /-- The fragments stand in the order of their first records. -/
  fragments : r.fragments = (names history).eraseDups
  /-- The placed spans are the copies, in order. -/
  placed : r.placed = copies history

theorem follows_empty : empty.Follows [] where
  recordedFor _ := rfl
  fragments := rfl
  placed := rfl

/-- A record adds its fragment at the end, unless it is there already. -/
theorem map_fst_append (fragment : String) (s : Span) (l : List (String × List Span)) :
    (append fragment s l).map Prod.fst =
      if fragment ∈ l.map Prod.fst then l.map Prod.fst else l.map Prod.fst ++ [fragment] := by
  induction l with
  | nil => rfl
  | cons p rest ih =>
    obtain ⟨name, spans⟩ := p
    rw [append]
    by_cases hname : name = fragment
    · simp [hname]
    · rw [if_neg hname, List.map_cons, List.map_cons, ih]
      by_cases hmem : fragment ∈ rest.map Prod.fst
      · rw [if_pos hmem, if_pos (List.mem_cons_of_mem _ hmem)]
      · have hnot : fragment ∉ name :: rest.map Prod.fst := by
          simp [hmem, Ne.symm hname]
        rw [if_neg hmem, if_neg hnot]
        rfl

theorem eraseDups_concat (l : List String) (a : String) :
    (l ++ [a]).eraseDups = if a ∈ l.eraseDups then l.eraseDups else l.eraseDups ++ [a] := by
  rw [List.eraseDups_append]
  by_cases h : a ∈ l
  · simp [h, List.removeAll, List.mem_eraseDups]
  · simp [h, List.removeAll, List.mem_eraseDups, List.eraseDups_cons]

/-- A placement succeeds exactly when all spans of its fragment fit, and adds them at the end. -/
theorem place?_eq_some_iff {r r' : Recorder} {fragment : String} {start : Offset} :
    r.place? fragment start = some r' ↔
      (∀ s ∈ r.recordedFor fragment, s.Fits start) ∧
        r' = { r with placed := r.placed ++ (r.recordedFor fragment).map (·.shift start) } := by
  simp only [place?, Option.bind_eq_bind, Option.bind_eq_some_iff, Option.pure_def,
    Option.some_inj, Span.mapM_shift?_eq_some_iff]
  constructor
  · rintro ⟨_, ⟨hfits, rfl⟩, rfl⟩
    exact ⟨hfits, rfl⟩
  · rintro ⟨hfits, rfl⟩
    exact ⟨_, ⟨hfits, rfl⟩, rfl⟩

namespace Follows

variable {r r' : Recorder} {history : List Step} {step : Step}

/-- A record keeps the invariant. -/
theorem record (h : r.Follows history) (fragment : String) (s : Span) :
    (r.record fragment s).Follows (history ++ [.record fragment s]) where
  recordedFor name := by
    rw [recordedFor_record, h.recordedFor, recordsOf_concat]
    show _ ++ (if name = fragment then [s] else []) =
      _ ++ (if fragment = name then some s else none).toList
    by_cases hname : name = fragment
    · simp [hname]
    · simp [hname, Ne.symm hname]
  fragments := by
    rw [names_concat]
    show (append fragment s r.recorded).map Prod.fst = (names history ++ [fragment]).eraseDups
    rw [map_fst_append, eraseDups_concat, ← h.fragments]
    rfl
  placed := by
    rw [copies_concat]
    show r.placed = copies history ++ []
    rw [h.placed, List.append_nil]

/-- A placement that succeeds keeps the invariant. -/
theorem place (h : r.Follows history) {fragment : String} {start : Offset}
    (hr : r.place? fragment start = some r') :
    r'.Follows (history ++ [.place fragment start]) := by
  obtain ⟨-, rfl⟩ := place?_eq_some_iff.1 hr
  refine ⟨fun name ↦ ?_, ?_, ?_⟩
  · rw [recordsOf_concat]
    show r.recordedFor name = recordsOf name history ++ []
    rw [h.recordedFor, List.append_nil]
  · rw [names_concat]
    show r.fragments = (names history ++ []).eraseDups
    rw [h.fragments, List.append_nil]
  · rw [copies_concat, h.recordedFor, h.placed]
    rfl

/-- **A step keeps the invariant.** -/
theorem of_step? (h : r.Follows history) (hr : r.step? step = some r') :
    r'.Follows (history ++ [step]) := by
  cases step with
  | record fragment s =>
    obtain rfl := Option.some_inj.1 hr
    exact h.record fragment s
  | place fragment start => exact h.place hr

/-- **A step fails exactly when it moves a span out of range.** -/
theorem step?_eq_none_iff (h : r.Follows history) :
    r.step? step = none ↔ step.Overflows history := by
  cases step with
  | record fragment s => exact ⟨fun hnone ↦ absurd hnone (by simp [step?]), False.elim⟩
  | place fragment start =>
    show r.place? fragment start = none ↔ ∃ s ∈ recordsOf fragment history, ¬ s.Fits start
    rw [← h.recordedFor, Option.eq_none_iff_forall_ne_some]
    constructor
    · intro hnone
      by_contra hall
      push Not at hall
      exact hnone _ (place?_eq_some_iff.2 ⟨hall, rfl⟩)
    · rintro ⟨s, hs, hnot⟩ r' hr
      exact hnot ((place?_eq_some_iff.1 hr).1 s hs)

end Follows

/-! ### Several records at once -/

theorem recordsOf_append_record (fragment name : String) (history : List Step)
    (spans : List Span) :
    recordsOf fragment (history ++ spans.map (.record name)) =
      recordsOf fragment history ++ if name = fragment then spans else [] := by
  rw [recordsOf, List.filterMap_append, List.filterMap_map]
  refine congrArg _ ?_
  show spans.filterMap (fun s ↦ if name = fragment then some s else none) = _
  split
  · exact List.filterMap_some
  · simp

/-- Records place nothing. -/
theorem copies_append_record (name : String) (history : List Step) (spans : List Span) :
    copies (history ++ spans.map (.record name)) = copies history := by
  induction spans using List.reverseRecOn with
  | nil => simp
  | append_singleton spans s ih =>
    rw [List.map_append, ← List.append_assoc, List.map_singleton, copies_concat, ih]
    exact List.append_nil _

/-- Recording one after another keeps the invariant. -/
theorem Follows.recordAll {r : Recorder} {history : List Step} (h : r.Follows history)
    (fragment : String) (spans : List Span) :
    (r.recordAll fragment spans).Follows (history ++ spans.map (.record fragment)) := by
  induction spans generalizing r history with
  | nil =>
    rw [List.map_nil, List.append_nil]
    exact h
  | cons s rest ih =>
    rw [List.map_cons, List.append_cons]
    exact ih (h.record fragment s)

/-! ### Whole runs -/

theorem run?_concat (r : Recorder) (history : List Step) (step : Step) :
    r.run? (history ++ [step]) = (r.run? history).bind fun r' ↦ r'.step? step := by
  rw [run?, List.foldlM_append]
  show (r.run? history).bind (fun r' ↦ [step].foldlM step? r') = _
  simp

/-- **A run leaves what its history says.** -/
theorem Follows.of_run? {history : List Step} :
    ∀ {r : Recorder}, empty.run? history = some r → r.Follows history := by
  induction history using List.reverseRecOn with
  | nil =>
    intro r h
    obtain rfl := Option.some_inj.1 h
    exact follows_empty
  | append_singleton history step ih =>
    intro r h
    rw [run?_concat, Option.bind_eq_some_iff] at h
    obtain ⟨r', hr', hstep⟩ := h
    exact (ih hr').of_step? hstep

/-- What holds of every step and the steps before it, read off a history that grows at its end. -/
theorem forall_getElem?_concat {p : List Step → Step → Prop} {history : List Step} {last : Step} :
    (∀ (k : ℕ) (step : Step), (history ++ [last])[k]? = some step →
        p ((history ++ [last]).take k) step) ↔
      (∀ (k : ℕ) (step : Step), history[k]? = some step → p (history.take k) step) ∧
        p history last := by
  constructor
  · intro h
    refine ⟨fun k step hstep ↦ ?_, ?_⟩
    · have hk : k < history.length := (List.getElem?_eq_some_iff.1 hstep).1
      have hk' := h k step (by rw [List.getElem?_append_left hk, hstep])
      rwa [List.take_append_of_le_length hk.le] at hk'
    · have hlast := h history.length last (by simp)
      rwa [List.take_left' rfl] at hlast
  · rintro ⟨hhistory, hlast⟩ k step hstep
    rcases Nat.lt_or_ge k history.length with hk | hk
    · rw [List.getElem?_append_left hk] at hstep
      rw [List.take_append_of_le_length hk.le]
      exact hhistory k step hstep
    · rw [List.getElem?_append_right hk, List.getElem?_singleton] at hstep
      obtain ⟨hzero, hsome⟩ := Option.ite_none_right_eq_some.1 hstep
      obtain rfl := Option.some_inj.1 hsome
      rwa [show k = history.length by omega, List.take_left' rfl]

/-- **A run succeeds exactly when no step of it moves a span out of range.** -/
theorem isSome_run?_iff {history : List Step} :
    (empty.run? history).isSome = true ↔
      ∀ (k : ℕ) (step : Step), history[k]? = some step →
        ¬ step.Overflows (history.take k) := by
  induction history using List.reverseRecOn with
  | nil => simp [run?]
  | append_singleton history last ih =>
    rw [run?_concat, forall_getElem?_concat (p := fun before step ↦ ¬ step.Overflows before), ← ih]
    cases hr : empty.run? history with
    | none => simp
    | some r =>
      rw [Option.bind_some, Option.isSome_iff_ne_none]
      have hlast : r.step? last = none ↔ last.Overflows history :=
        (Follows.of_run? hr).step?_eq_none_iff
      simp [hlast]

/-- **Run law.** A run gets past its first `n` steps exactly when none of them places a fragment
with a span that leaves the range of offsets. A run that ends has recorded for every fragment what
its steps recorded, in order; it knows each fragment once, in the order of first records; and it has
placed, for each placement in turn, what was recorded for its fragment before it, moved to its
place. Its source map is built from these placed spans. -/
theorem run?_law (steps : List Step) :
    (∀ n, (empty.run? (steps.take n)).isSome = true ↔
      ∀ (k : ℕ) (step : Step), k < n → steps[k]? = some step →
        ¬ step.Overflows (steps.take k)) ∧
    ∀ r, empty.run? steps = some r →
      (∀ fragment, r.recordedFor fragment = recordsOf fragment steps) ∧
      r.fragments = (names steps).eraseDups ∧
      r.placed = copies steps ∧
      r.toSourceMap = SourceMap.ofSpans (copies steps) ∧
      r.sorted = (SourceMap.ofSpans (copies steps)).spans := by
  refine ⟨fun n ↦ ?_, fun r hr ↦ ?_⟩
  · rw [isSome_run?_iff]
    constructor
    · intro h k step hk hstep
      have hk' := h k step (by rw [List.getElem?_take_of_lt hk, hstep])
      rwa [List.take_take, Nat.min_eq_left hk.le] at hk'
    · intro h k step hstep
      have hk : k < n := by
        by_contra hge
        rw [List.getElem?_take_eq_none (by omega)] at hstep
        exact absurd hstep (by simp)
      rw [List.getElem?_take_of_lt hk] at hstep
      rw [List.take_take, Nat.min_eq_left hk.le]
      exact h k step hk hstep
  · have hfollows := Follows.of_run? hr
    refine ⟨hfollows.recordedFor, hfollows.fragments, hfollows.placed, ?_, ?_⟩
    · rw [toSourceMap, hfollows.placed]
    · rw [sorted, hfollows.placed]
      rfl

/-- A fragment that is placed, recorded for again, and placed again; between them a placement of a
fragment without records. -/
def interleaved : List Step :=
  [.record "f" ⟨⟨"a", 1, 0⟩, 0, 1⟩, .place "f" 10, .record "f" ⟨⟨"a", 2, 0⟩, 2, 3⟩,
    .place "g" 50, .place "f" 100]

/-- What is recorded after a placement is in the next one only. -/
theorem run?_law_interleaved :
    ∃ r, empty.run? interleaved = some r ∧
      r.placed =
        [⟨⟨"a", 1, 0⟩, 10, 11⟩, ⟨⟨"a", 1, 0⟩, 100, 101⟩, ⟨⟨"a", 2, 0⟩, 102, 103⟩] := by
  obtain ⟨r, hr⟩ := Option.isSome_iff_exists.1
    (show (empty.run? interleaved).isSome = true by decide)
  obtain ⟨-, -, hplaced, -⟩ := (run?_law interleaved).2 r hr
  refine ⟨r, hr, ?_⟩
  rw [hplaced]
  decide

end Recorder

end Provenance
