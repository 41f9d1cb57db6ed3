import Provenance.Table

/-!
# Features and flags

Five features of code generation are known by name. Which of them are on is kept in a store of
*flags*: a table from keys to settings in which the last write under a key counts. Keys need not
name a known feature, and settings need not be switches; a feature is on exactly when its key holds
the switch `true`.

A store is a table, so two stores are equal exactly when they hold the same settings under the same
keys.
-/

namespace Provenance

/-- A feature of code generation. -/
inductive Feature where
  | inline
  | debug
  | external
  | ipfsAbiGetter
  | interfacesGetter
deriving DecidableEq, Inhabited

namespace Feature

/-- All features. -/
def all : List Feature := [inline, debug, external, ipfsAbiGetter, interfacesGetter]

/-- The key of a feature. -/
def key : Feature → String
  | inline => "inline"
  | debug => "debug"
  | external => "external"
  | ipfsAbiGetter => "ipfsAbiGetter"
  | interfacesGetter => "interfacesGetter"

/-- The feature with a given key. -/
def ofKey? (key : String) : Option Feature := all.find? fun f ↦ f.key = key

theorem ofKey?_key (f : Feature) : ofKey? f.key = some f := by cases f <;> rfl

/-- What is said of a key that is no feature's. -/
def unknownMessage (key : String) : String :=
  "unknown feature `" ++ key ++ "` (expected one of: "
    ++ ", ".intercalate (all.map Feature.key) ++ ")"

end Feature

/-- What a flag can hold. -/
inductive Setting where
  /-- A switch, on or off. -/
  | switch (on : Bool)
  /-- Some text. -/
  | text (value : String)
  /-- Nothing, by an explicit write. -/
  | cleared
deriving DecidableEq, Inhabited

/-- Only a switch that is on counts. -/
def Setting.isOn (s : Setting) : Bool := s = .switch true

/-- A store of flags. -/
structure Flags where
  /-- The settings by key. -/
  settings : Table String Setting
deriving DecidableEq, Inhabited

namespace Flags

/-- No flags. -/
def empty : Flags := ⟨.empty⟩

/-- The setting under a key. -/
def get? (s : Flags) (key : String) : Option Setting := s.settings.find? key

/-- Writes a setting. -/
def set (s : Flags) (key : String) (value : Setting) : Flags := ⟨s.settings.insert key value⟩

/-- The last write under a key counts, and other keys keep their settings. -/
@[simp] theorem get?_set (s : Flags) (key : String) (value : Setting) (k : String) :
    (s.set key value).get? k = if k == key then some value else s.get? k :=
  Table.find?_insert s.settings key value k

/-- Switches a key on. -/
def switchOn (s : Flags) (key : String) : Flags := s.set key (.switch true)

/-- Switches a feature on. -/
def enable (s : Flags) (f : Feature) : Flags := s.switchOn f.key

/-- Switches features on, one after another. -/
def enableAll (s : Flags) (features : List Feature) : Flags := features.foldl enable s

/-- The key holds a switch that is on. -/
def isOn (s : Flags) (key : String) : Bool := (s.get? key).any Setting.isOn

/-- The feature is on. -/
def enabled (s : Flags) (f : Feature) : Bool := s.isOn f.key

/-- The keys that are on, ascending. -/
def enabledKeys (s : Flags) : List String :=
  (s.settings.entries.filter fun p ↦ p.2.isOn).map Prod.fst

end Flags

end Provenance
