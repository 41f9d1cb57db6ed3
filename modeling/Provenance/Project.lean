import Provenance.Flags
import Provenance.Json.Comments
import Provenance.Json.Record

/-!
# Project configurations

A configuration lists projects, each with the options it is compiled with. An option that is set to
`true` switches a feature on; an option that is left out or set to `false` does nothing. A
configuration is JSON text with comments.
-/

namespace Provenance

/-- Options that are not stable yet. -/
structure Experimental where
  /-- Mark functions for inlining. -/
  inline : Option Bool
deriving DecidableEq, Inhabited

/-- The options of a project. -/
structure Options where
  /-- Emit code for debugging. -/
  debug : Option Bool
  /-- Emit handlers of external messages. -/
  external : Option Bool
  /-- Emit the getter of the interface description. -/
  ipfsAbiGetter : Option Bool
  /-- Emit the getter of the supported interfaces. -/
  interfacesGetter : Option Bool
  /-- Options that are not stable yet. -/
  experimental : Option Experimental
deriving DecidableEq, Inhabited

namespace Options

/-- No option is set. -/
def unset : Options := ⟨none, none, none, none, none⟩

/-- What the options say of a feature. -/
def get (o : Options) : Feature → Option Bool
  | .debug => o.debug
  | .external => o.external
  | .ipfsAbiGetter => o.ipfsAbiGetter
  | .interfacesGetter => o.interfacesGetter
  | .inline => o.experimental.bind Experimental.inline

/-- The order in which options are looked at. -/
def order : List Feature := [.debug, .external, .ipfsAbiGetter, .interfacesGetter, .inline]

/-- The features that are switched on. -/
def features (o : Options) : List Feature := order.filter fun f ↦ o.get f = some true

/-- The flags with the features that are switched on. -/
def flags (o : Options) : Flags := Flags.empty.enableAll o.features

end Options

/-- One project. -/
structure Project where
  /-- The name by which it is asked for. -/
  name : String
  /-- The path of its source. -/
  path : String
  /-- The directory of its output. -/
  output : String
  /-- The options it is compiled with. -/
  options : Options
deriving DecidableEq, Inhabited

/-- A project configuration. -/
structure Configuration where
  /-- The projects. -/
  projects : List Project
deriving DecidableEq, Inhabited

namespace Configuration

/-- The first project of a name. -/
def find? (c : Configuration) (name : String) : Option Project :=
  c.projects.find? fun p ↦ p.name = name

/-- What is said of a name that is no project's. -/
def unknownMessage (name : String) : String := "no project named `" ++ name ++ "` in configuration"

end Configuration

/-! ### Reading -/

/-- Reads unstable options. -/
def Experimental.reader : Json.Reader Experimental :=
  (Json.Fields.record "ExperimentalOptions" (.field "inline" (.option .flag) (some none) .done)).map
    fun (inline, ()) ↦ { inline }

/-- Reads options. -/
def Options.reader : Json.Reader Options :=
  (Json.Fields.record "ProjectOptions"
    (.field "debug" (.option .flag) (some none)
      (.field "external" (.option .flag) (some none)
        (.field "ipfsAbiGetter" (.option .flag) (some none)
          (.field "interfacesGetter" (.option .flag) (some none)
            (.field "experimental" (.option Experimental.reader) (some none) .done)))))).map
    fun (debug, external, ipfsAbiGetter, interfacesGetter, experimental, ()) ↦
      { debug, external, ipfsAbiGetter, interfacesGetter, experimental }

/-- Reads a project. -/
def Project.reader : Json.Reader Project :=
  (Json.Fields.record "Project"
    (.field "name" .text none
      (.field "path" .path none
        (.field "output" .path none
          (.field "options" Options.reader (some .unset) .done))))).map
    fun (name, path, output, options, ()) ↦ { name, path, output, options }

namespace Configuration

/-- Reads a configuration. -/
def reader : Json.Reader Configuration :=
  (Json.Fields.record "ProjectConfig"
    (.field "projects" (.list Project.reader) (some []) .done)).map
    fun (projects, ()) ↦ { projects }

/-- The configuration that a text with comments holds. Lines are those of the text without comments.
-/
def ofText (text : String) : Except Json.Fault Configuration := reader.parse (Json.uncomment text)

/-- What is said of a text that holds no configuration. -/
def faultMessage (f : Json.Fault) : String := "failed to parse project configuration: " ++ f.message

end Configuration

end Provenance
