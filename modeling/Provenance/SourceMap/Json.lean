import Provenance.Json.Record
import Provenance.SourceMap

/-!
# Source maps as JSON

A source map is an object with its spans under `locations` and its index under `correspondence`. The
keys of the index are offsets in quotes, in ascending order, and its values are numbers of spans.
Reading checks the form only: whatever spans and index a text holds, they become the map.
-/

namespace Provenance

/-! ### Writing -/

/-- A location as an object. -/
def Location.toJson (l : Location) : Json :=
  .object [("file", .text l.file), ("line", .word l.line), ("col", .word l.col)]

/-- A span as an object. -/
def Span.toJson (s : Span) : Json :=
  .object [("loc", s.location.toJson), ("start", .word s.first), ("end", .word s.last)]

namespace SourceMap

/-- The spans as a list. -/
def spansJson (m : SourceMap) : Json := .list (m.spans.map Span.toJson)

/-- The index as an object. -/
def indexJson (m : SourceMap) : Json :=
  .object (m.index.entries.map fun (o, i) ↦ (decimal o.toNat, .natural i))

/-- The map as an object. -/
def toJson (m : SourceMap) : Json :=
  .object [("locations", m.spansJson), ("correspondence", m.indexJson)]

end SourceMap

/-! ### Reading -/

/-- Reads a location. -/
def Location.reader : Json.Reader Location :=
  (Json.Fields.record "Location"
    (.field "file" .text none (.field "line" .word none (.field "col" .word none .done)))).map
    fun (file, line, col, ()) ↦ { file, line, col }

/-- Reads a span. -/
def Span.reader : Json.Reader Span :=
  (Json.Fields.record "Entry"
    (.field "loc" Location.reader none
      (.field "start" .word none (.field "end" .word none .done)))).map
    fun (location, first, last, ()) ↦ { location, first, last }

/-- Reads a source map. -/
def SourceMap.reader : Json.Reader SourceMap :=
  (Json.Fields.record "SourceMap"
    (.field "locations" (.list Span.reader) none
      (.field "correspondence" (.table .size) none .done))).map
    fun (spans, index, ()) ↦ { spans, index }

/-- The source map that a text holds. -/
def SourceMap.ofText (text : String) : Except Json.Fault SourceMap := SourceMap.reader.parse text

end Provenance
