import Provenance.Flags
import Provenance.Json.Record

/-!
# Settings as JSON

A switch is `true` or `false`, a text is a text and a cleared setting is `null`. What a setting is
shows in the kind of its JSON value alone, so a text that reads `true` is no switch. A value of
another kind is refused without regard to where it stands, after all of it has been read.
-/

namespace Provenance.Setting

/-- A setting as a value. -/
def toJson : Setting → Json
  | switch on => .flag on
  | text value => .text value
  | cleared => .null

/-- The setting that a value stands for. -/
def ofJson? : Json → Option Setting
  | .flag on => some (switch on)
  | .text value => some (text value)
  | .null => some cleared
  | _ => none

theorem ofJson?_toJson (s : Setting) : ofJson? s.toJson = some s := by cases s <;> rfl

/-- The fault of a value that is no setting. -/
def fault : Json.Fault := ⟨.noVariant "FeatureValue", 0⟩

/-- Reads a setting. -/
def reader : Json.Reader Setting := fun c ↦ do
  let (x, c) ← Json.Reader.any c
  match ofJson? x with
  | some s => return (s, c)
  | none => .error fault

/-- The setting that a text holds. -/
def ofText (text : String) : Except Json.Fault Setting := reader.parse text

end Provenance.Setting
