import Provenance.SourceMap.Json

/-!
# Reports

A report says which locations the text of a program comes from, answers lookups of offsets, and
lists the files that were written. It has three forms: text for people, JSON, and records of
tab-separated fields, one to a line.

All three give a lookup the same answer. Names are written as they are; in records nothing marks a
tab or the end of a line inside a name.
-/

namespace Provenance

/-- The answer to a lookup of an offset. -/
structure Lookup where
  /-- The offset that was asked for. -/
  offset : Offset
  /-- The number of the span that speaks for it. -/
  index : Option Nat
  /-- The location it comes from. -/
  location : Option Location
deriving DecidableEq, Inhabited

namespace Lookup

/-- Looks an offset up. -/
def resolve (m : SourceMap) (o : Offset) : Lookup := ⟨o, m.indexAt? o, m.locationAt? o⟩

/-- An answer as a value. -/
def toJson (l : Lookup) : Json :=
  .object [("offset", .word l.offset), ("index", .option .natural l.index),
    ("location", .option Location.toJson l.location)]

end Lookup

/-- What a run has to say. -/
structure Report where
  /-- The name of the file that is run. -/
  entrypoint : String
  /-- Where its text comes from. -/
  map : SourceMap
  /-- The answers to the lookups, in the order of asking. -/
  lookups : List Lookup
  /-- The paths of the files that were written. -/
  written : List String
deriving DecidableEq

/-- The forms of a report. -/
inductive Format where
  /-- For people. -/
  | human
  /-- JSON. -/
  | json
  /-- Tab-separated records. -/
  | machine
deriving DecidableEq, Inhabited

namespace Report

/-! ### For people -/

/-- The least number of characters of a range. -/
def rangeWidth : Nat := 12

/-- The range of a span, with blanks before it. -/
def range (s : Span) : String :=
  let text := decimal s.first.toNat ++ "..=" ++ decimal s.last.toNat
  "".pushn ' ' (rangeWidth - text.length) ++ text

/-- The line of a span. -/
def spanLine (s : Span) : String := "  " ++ range s ++ " -> " ++ s.location.text ++ "\n"

/-- The line of a lookup. -/
def lookupLine (l : Lookup) : String :=
  "lookup " ++ decimal l.offset.toNat ++ " -> " ++
    (match l.location, l.index with
    | some location, some index => location.text ++ " (#" ++ decimal index ++ ")"
    | _, _ => "unmapped") ++ "\n"

/-- The report for people. -/
def human (r : Report) : String :=
  r.entrypoint ++ ": " ++ decimal r.map.size ++ " locations, " ++ decimal r.map.index.size
    ++ " mapped offsets\n"
    ++ String.join (r.map.spans.map spanLine)
    ++ (if r.lookups.isEmpty then "" else "\n")
    ++ String.join (r.lookups.map lookupLine)
    ++ String.join (r.written.map fun path ↦ "wrote " ++ path ++ "\n")

/-! ### JSON -/

/-- The report as a value. -/
def toJson (r : Report) : Json :=
  .object [("entrypoint", .text r.entrypoint), ("locations", r.map.spansJson),
    ("correspondence", r.map.indexJson), ("lookups", .list (r.lookups.map Lookup.toJson))]

/-! ### Records -/

/-- A record of fields. -/
def tabbed (fields : List String) : String := "\t".intercalate fields ++ "\n"

/-- The record of a numbered span. -/
def spanRecord (s : Span) (n : Nat) : String :=
  tabbed ["location", decimal n, decimal s.first.toNat, decimal s.last.toNat, s.location.file,
    decimal s.location.line.toNat, decimal s.location.col.toNat]

/-- The record of a lookup. -/
def lookupRecord (l : Lookup) : String :=
  tabbed ["lookup", decimal l.offset.toNat, (l.index.map decimal).getD "-"]

/-- The report as records. -/
def machine (r : Report) : String :=
  String.join (r.map.spans.zipIdx.map fun (s, n) ↦ spanRecord s n)
    ++ String.join (r.lookups.map lookupRecord)

/-- The text of a report. -/
def text (r : Report) : Format → String
  | .human => r.human
  | .json => r.toJson.pretty
  | .machine => r.machine

end Report

end Provenance
