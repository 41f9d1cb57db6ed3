import Provenance.Span
import Provenance.Table

/-!
# Source maps

A source map lists spans and knows, for output offsets, the number of the span that speaks for them.

## Which span speaks for an offset

`SourceMap.ofSpans` sorts the spans by location and lets each of them take its offsets in that
order. A later span overrides an earlier one, so an offset belongs to the last sorted span that
covers it, and an offset that no span covers has no number.

A map read from text need not arise that way: its spans may stand in any order and its index may
name spans that do not exist. `SourceMap.IsBuilt` tells the two apart by rebuilding.
-/

namespace Provenance

/-- Spans with an index from offsets to span numbers. -/
structure SourceMap where
  /-- The spans; their numbers count from zero. -/
  spans : List Span
  /-- The number of the span that speaks for an offset. -/
  index : Table Offset Nat
deriving DecidableEq

namespace SourceMap

/-- The pairs of an offset and a span number that the spans assign, in the order of the spans. -/
def assignments (spans : List Span) : List (Offset × Nat) :=
  spans.zipIdx.flatMap fun (s, i) ↦ s.offsets.map fun o ↦ (o, i)

/-- The map of spans that are listed in any order. -/
def ofSpans (spans : List Span) : SourceMap :=
  let sorted := Span.sort spans
  ⟨sorted, Table.ofList (assignments sorted)⟩

/-- The number of spans. -/
def size (m : SourceMap) : Nat := m.spans.length

/-- The map has no spans. -/
def isEmpty (m : SourceMap) : Bool := m.spans.isEmpty

/-! ### Lookup -/

/-- The number of the span that speaks for an offset. -/
def indexAt? (m : SourceMap) (o : Offset) : Option Nat := m.index.find? o

/-- The span that speaks for an offset. -/
def spanAt? (m : SourceMap) (o : Offset) : Option Span := do m.spans[← m.indexAt? o]?

/-- The location that an offset comes from. -/
def locationAt? (m : SourceMap) (o : Offset) : Option Location := (m.spanAt? o).map Span.location

/-! ### Rebuilding -/

/-- The map is the one that its own spans build. -/
def IsBuilt (m : SourceMap) : Prop := ofSpans m.spans = m

instance (m : SourceMap) : Decidable m.IsBuilt := inferInstanceAs (Decidable (ofSpans m.spans = m))

end SourceMap

end Provenance
