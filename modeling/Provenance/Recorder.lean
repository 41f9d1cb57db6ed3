import Provenance.SourceMap

/-!
# Recording spans before their place is known

While a fragment of output is produced its final place is still open, so its spans are recorded
against the fragment's name with offsets that count from the fragment's start. Once the place is
known the fragment is *placed*: copies of the spans recorded so far, moved to the place, join the
placed spans.

Placing does not use records up. A fragment may be placed twice, and spans recorded after a
placement are in the next one only. A fragment without records is placed without effect.
-/

namespace Provenance

/-- Spans recorded by fragment, and spans placed in the output. -/
structure Recorder where
  /-- The spans of each fragment in the order of recording; fragments in the order of their first
  record. -/
  recorded : List (String × List Span)
  /-- The placed spans in the order of placement. -/
  placed : List Span
deriving DecidableEq

namespace Recorder

/-- Nothing recorded, nothing placed. -/
def empty : Recorder := ⟨[], []⟩

/-- Appends a span to the records of a fragment, at the end of the list if the fragment is new. -/
def append (fragment : String) (s : Span) : List (String × List Span) → List (String × List Span)
  | [] => [(fragment, [s])]
  | (name, spans) :: rest =>
    if name = fragment then (name, spans ++ [s]) :: rest
    else (name, spans) :: append fragment s rest

/-- Records a span for a fragment. -/
def record (r : Recorder) (fragment : String) (s : Span) : Recorder :=
  { r with recorded := append fragment s r.recorded }

theorem lookup_append (fragment : String) (s : Span) (l : List (String × List Span))
    (name : String) :
    ((append fragment s l).lookup name).getD [] =
      (l.lookup name).getD [] ++ if name = fragment then [s] else [] := by
  induction l with
  | nil =>
    rw [append, List.lookup_cons]
    by_cases h : name = fragment
    · simp [h]
    · simp [beq_false_of_ne h, h]
  | cons p rest ih =>
    obtain ⟨first, spans⟩ := p
    rw [append]
    split
    · next hfirst =>
      rw [List.lookup_cons, List.lookup_cons, hfirst]
      by_cases h : name = fragment
      · simp [h]
      · simp [beq_false_of_ne h, h]
    · next hfirst =>
      rw [List.lookup_cons, List.lookup_cons]
      by_cases h : name = first
      · simp [h, hfirst]
      · simpa [beq_false_of_ne h] using ih

/-- Records spans for a fragment, one after another. -/
def recordAll (r : Recorder) (fragment : String) (spans : List Span) : Recorder :=
  spans.foldl (fun r s ↦ r.record fragment s) r

/-- The spans recorded for a fragment. -/
def recordedFor (r : Recorder) (fragment : String) : List Span :=
  (r.recorded.lookup fragment).getD []

/-- A record joins the end of the records of its fragment and leaves the others alone. -/
theorem recordedFor_record (r : Recorder) (fragment : String) (s : Span) (name : String) :
    (r.record fragment s).recordedFor name =
      r.recordedFor name ++ if name = fragment then [s] else [] :=
  lookup_append fragment s r.recorded name

/-- The fragments with records. -/
def fragments (r : Recorder) : List String := r.recorded.map Prod.fst

/-- Places a fragment, if none of its spans leaves the range of offsets. -/
def place? (r : Recorder) (fragment : String) (place : Offset) : Option Recorder := do
  let moved ← (r.recordedFor fragment).mapM fun s ↦ s.shift? place
  return { r with placed := r.placed ++ moved }

/-- One use of a recorder. -/
inductive Step where
  /-- Records a span for a fragment. -/
  | record (fragment : String) (span : Span)
  /-- Places a fragment. -/
  | place (fragment : String) (place : Offset)
deriving DecidableEq, Inhabited

/-- Carries out a step. -/
def step? (r : Recorder) : Step → Option Recorder
  | .record fragment s => some (r.record fragment s)
  | .place fragment place => r.place? fragment place

/-- Carries out steps, one after another. -/
def run? (r : Recorder) (steps : List Step) : Option Recorder := steps.foldlM step? r

/-- The placed spans in the order of their locations. -/
def sorted (r : Recorder) : List Span := Span.sort r.placed

/-- The source map of the placed spans. -/
def toSourceMap (r : Recorder) : SourceMap := SourceMap.ofSpans r.placed

end Recorder

end Provenance
