import Provenance.Flags
import Provenance.SourceMap.Json

/-!
# Manifests

A manifest describes a program as a list of fragments in the order of their emission. A fragment
carries its code and the spans that were recorded while the code was made, with offsets that count
from the start of the code.

Fragments of two kinds are emitted only if a feature is on. A fragment that may be inlined is marked
for it if the feature for that is on.
-/

namespace Provenance

/-- When a fragment is emitted. -/
inductive Kind where
  /-- Always. -/
  | normal
  /-- With the feature `debug`. -/
  | debug
  /-- With the feature `external`. -/
  | external
deriving DecidableEq, Inhabited

namespace Kind

/-- The kinds by name. -/
def names : List (String × Kind) := [("normal", normal), ("debug", debug), ("external", external)]

/-- The feature that a kind asks for. -/
def feature? : Kind → Option Feature
  | normal => none
  | debug => some .debug
  | external => some .external

end Kind

/-- A piece of program text. -/
structure Fragment where
  /-- The name of the fragment. -/
  name : String
  /-- Its text. -/
  code : String
  /-- When it is emitted. -/
  kind : Kind
  /-- Whether it may be marked for inlining. -/
  inlinable : Bool
  /-- Where its text comes from; offsets count from the start of the text. -/
  spans : List Span
deriving DecidableEq, Inhabited

namespace Fragment

/-- The fragment is emitted under given flags. -/
def isEmitted (f : Fragment) (flags : Flags) : Bool := f.kind.feature?.all flags.enabled

/-- The fragment is marked for inlining under given flags. -/
def isInlined (f : Fragment) (flags : Flags) : Bool := f.inlinable && flags.enabled .inline

/-- The number of bytes of the text. -/
def size (f : Fragment) : Nat := f.code.utf8ByteSize

end Fragment

/-- A program as a list of fragments. -/
structure Manifest where
  /-- The name of the program. -/
  name : String
  /-- The fragments in the order of their emission. -/
  fragments : List Fragment
deriving DecidableEq, Inhabited

/-! ### Reading -/

/-- Reads a fragment. -/
def Fragment.reader : Json.Reader Fragment :=
  (Json.Fields.record "Fragment"
    (.field "name" .text none
      (.field "code" .text none
        (.field "kind" (.choice Kind.names) (some .normal)
          (.field "inline" .flag (some false)
            (.field "entries" (.list Span.reader) (some []) .done)))))).map
    fun (name, code, kind, inlinable, spans, ()) ↦ { name, code, kind, inlinable, spans }

namespace Manifest

/-- Reads a manifest. -/
def reader : Json.Reader Manifest :=
  (Json.Fields.record "FragmentManifest"
    (.field "name" .text none (.field "fragments" (.list Fragment.reader) (some []) .done))).map
    fun (name, fragments, ()) ↦ { name, fragments }

/-- The manifest that a text holds. -/
def ofText (text : String) : Except Json.Fault Manifest := reader.parse text

end Manifest

end Provenance
