import Provenance.Catalogue
import Provenance.Log
import Provenance.Recorder

/-!
# Emitting programs

A program is emitted in two steps. The first decides on its interface: which fragments and which
getters it has (`Catalogue.interface`). The second writes the text of an interface
(`Catalogue.emit`): fragments, then getters, with a blank line before each unless nothing has been
written yet.

## Where fragments land

A fragment is placed at the number of bytes written before its code, behind the separator and the
mark for inlining. Its spans are checked against its code first, so a placed span covers bytes of
that code and of nothing else. Separators, marks and getters have no spans.

An interface may name a fragment more than once. Its spans are then recorded again before each
placement, and each placement places all that have been recorded by then.
-/

namespace Provenance

/-- What a program offers. -/
structure Interface where
  /-- The name of the program. -/
  name : String
  /-- The names of the fragments, in the order of their emission. -/
  functions : List String
  /-- The names of the getters behind the fragments. -/
  getters : List String
deriving DecidableEq, Inhabited

/-- An interface as a value. -/
def Interface.toJson (i : Interface) : Json :=
  .object [("name", .text i.name), ("functions", .list (i.functions.map .text)),
    ("getters", .list (i.getters.map .text))]

/-- A file to be written. -/
structure OutputFile where
  /-- Its name, below the output directory. -/
  name : String
  /-- Its text. -/
  content : String
deriving DecidableEq, Inhabited

/-- An emitted program. -/
structure Program where
  /-- The name of the file that is run. -/
  entrypoint : String
  /-- All files. -/
  files : List OutputFile
  /-- The text of the interface. -/
  abi : String
  /-- Where the text of the first file comes from. -/
  map : SourceMap
deriving DecidableEq

/-- A program as a value. -/
def Program.toJson (p : Program) : Json :=
  let file (f : OutputFile) : Json := .object [("name", .text f.name), ("code", .text f.content)]
  .object
    [("output", .object
      [("entrypoint", .text p.entrypoint), ("files", .list (p.files.map file)),
        ("abi", .text p.abi)]),
    ("locations", p.map.toJson)]

/-! ### Pieces of text -/

/-- What stands between the pieces of a program. -/
def separator : String := "\n\n"

/-- The text with a separator behind it, unless it is empty. -/
def separated (code : String) : String := if code = "" then code else code ++ separator

/-- The mark of a fragment that is inlined. -/
def inlineMark : String := "inline "

/-- What stands directly before the code of a fragment. -/
def Fragment.opening (f : Fragment) (flags : Flags) : String :=
  if f.isInlined flags then inlineMark else ""

/-- The text of a getter, which does nothing. -/
def getterText (name : String) : String := "_ " ++ name ++ "() method_id \x7b\n\x7d"

/-- Appends a getter to a text. -/
def appendGetter (code name : String) : String := separated code ++ getterText name

/-! ### Checking spans -/

namespace Fragment

/-- What is wrong with a span of a fragment. -/
def spanFault? (f : Fragment) (s : Span) : Option BuildFault :=
  if s.isEmpty then some (.invertedSpan f.name s)
  else if f.size ≤ s.last.toNat then some (.spanOutOfBounds f.name s.last f.size)
  else none

/-- What is wrong with a fragment: its text has more bytes than there are offsets, or else its first
bad span. -/
def fault? (f : Fragment) : Option BuildFault :=
  if f.size < Offset.count then f.spans.findSome? f.spanFault? else some .offsetOverflow

end Fragment

/-! ### Emission -/

/-- The text written so far, and the spans recorded and placed so far. -/
structure Draft where
  /-- The text. -/
  code : String
  /-- The spans. -/
  recorder : Recorder
deriving DecidableEq

/-- Nothing written. -/
def Draft.blank : Draft := ⟨"", .empty⟩

/-- The record that a placement leaves. -/
def Recorder.notice (r : Recorder) (fragment : String) (place : Offset) : String :=
  match r.recordedFor fragment with
  | [] => "no entries recorded for fragment " ++ ticked fragment
  | spans =>
    "resolving " ++ decimal spans.length ++ " entries of " ++ ticked fragment ++ " at offset "
      ++ decimal place.toNat

namespace Catalogue

/-- The interface of a program under given flags. -/
def interface (c : Catalogue) (flags : Flags) (name : String) : Interface :=
  ⟨name, (c.emitted flags).map Fragment.name, Getter.enabled flags⟩

/-- Writes the fragment of a name. -/
def emitFragment (c : Catalogue) (flags : Flags) (d : Draft) (name : String) :
    Logged BuildFault Draft :=
  match c.find? name with
  | none => .fail (.unknownFragment name)
  | some f =>
    match f.fault? with
    | some fault => .fail fault
    | none =>
      let recorder := d.recorder.recordAll name f.spans
      let code := separated d.code ++ f.opening flags
      match Offset.ofNat? code.utf8ByteSize with
      | none => .fail .offsetOverflow
      | some place => do
        .record .trace .recording (recorder.notice name place)
        match recorder.place? name place with
        | none => .fail .offsetOverflow
        | some recorder => return ⟨code ++ f.code, recorder⟩

/-- Writes fragments, one after another. -/
def emitFragments (c : Catalogue) (flags : Flags) (names : List String) : Logged BuildFault Draft :=
  names.foldlM (c.emitFragment flags) .blank

/-- Writes the program of an interface. -/
def emit (c : Catalogue) (flags : Flags) (i : Interface) (basename : String) :
    Logged BuildFault Program := do
  let d ← c.emitFragments flags i.functions
  let code := i.getters.foldl appendGetter d.code
  let entrypoint := basename ++ ".code.fc"
  let abi := i.toJson.pretty
  .record .debug .emission
    ("emitted " ++ decimal code.utf8ByteSize ++ " bytes for " ++ ticked i.name ++ " from "
      ++ decimal i.functions.length ++ " fragments")
  return {
    entrypoint
    files := [⟨entrypoint, code⟩, ⟨basename ++ ".abi", abi⟩]
    abi
    map := d.recorder.toSourceMap }

/-- Decides on the interface of a program and writes it. -/
def compile (c : Catalogue) (flags : Flags) (name basename : String) :
    Logged BuildFault Program := do
  .record .debug .pipeline ("creating ABI for " ++ ticked name)
  let i := c.interface flags name
  .record .debug .pipeline ("writing program " ++ ticked basename)
  let p ← c.emit flags i basename
  .record .debug .pipeline
    (ticked basename ++ ": " ++ decimal p.files.length ++ " files, " ++ decimal p.map.size
      ++ " source locations")
  return p

end Catalogue

end Provenance
