import Provenance.Span

/-!
# Faults of building a program

What can be wrong with fragments, with the list of fragments to emit, and with the size of the
output.
-/

namespace Provenance

/-- Why a program cannot be built. -/
inductive BuildFault where
  /-- A fragment is asked for that the manifest does not have. -/
  | unknownFragment (name : String)
  /-- A fragment has a span whose last offset lies below its first. -/
  | invertedSpan (fragment : String) (span : Span)
  /-- A fragment has a span that ends behind its text, which has the given number of bytes. -/
  | spanOutOfBounds (fragment : String) (last : Offset) (size : Nat)
  /-- Two fragments have the same name. -/
  | duplicateFragment (name : String)
  /-- A fragment has the name of a generated getter. -/
  | reservedName (name : String)
  /-- An offset does not fit into a word. -/
  | offsetOverflow
deriving DecidableEq, Inhabited

namespace BuildFault

/-- What is said of a fault. -/
def message : BuildFault → String
  | unknownFragment name => "unknown fragment " ++ ticked name
  | invertedSpan fragment s =>
    "fragment " ++ ticked fragment ++ " has an inverted entry for " ++ s.location.text ++ ": "
      ++ decimal s.first.toNat ++ "..=" ++ decimal s.last.toNat
  | spanOutOfBounds fragment last size =>
    "fragment " ++ ticked fragment ++ " has an entry ending at " ++ decimal last.toNat
      ++ ", past its code length " ++ decimal size
  | duplicateFragment name => "duplicate fragment name " ++ ticked name
  | reservedName name => "fragment name " ++ ticked name ++ " is reserved for a generated getter"
  | offsetOverflow => "attempt to add with overflow"

end BuildFault

end Provenance
