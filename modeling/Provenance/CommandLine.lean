import Provenance.Flags
import Provenance.Log
import Provenance.Report

/-!
# Command lines

A command line names a manifest and sets options. An option is written `--name value` or
`--name=value`; a separate value must not start with a hyphen, except that a hyphen alone is a value
like any other. Behind `--` every argument is plain.

## When a value is looked at

The value of an option is checked when the next argument that means something has been recognised,
or at the end. So an unknown argument is reported even if the value before it is bad, while help is
only shown if all values before it are good.

Two options may be repeated, and keep their values in order; the others may not.
-/

namespace Provenance

/-- What a command line asks for. -/
structure Arguments where
  /-- The path of the manifest. -/
  manifest : String
  /-- The path of the project configuration. -/
  config : Option String
  /-- The project whose options count; without it, the one named like the program. -/
  project : Option String
  /-- Features to switch on. -/
  features : List Feature
  /-- The form of the report. -/
  format : Format
  /-- Offsets to look up. -/
  lookups : List Offset
  /-- The directory to write to. -/
  outDir : Option String
  /-- The name of the written files without their endings; without it, the name of the program. -/
  basename : Option String
  /-- The least urgent level that is logged, if any. -/
  logLevel : Option Level
deriving DecidableEq, Inhabited

namespace CommandLine

/-- Why a command line asks for no run. -/
inductive Stop where
  /-- The manifest is missing, or a project is named without a configuration. -/
  | missingArgument
  /-- There is no such option, or one plain argument too many. -/
  | unknownArgument
  /-- An option has no value, or none of its few values. -/
  | invalidValue
  /-- The value of an option cannot be read. -/
  | unreadableValue
  /-- An option is repeated that may not be. -/
  | repeatedOption
  /-- A value is given to a switch. -/
  | surplusValue
  /-- Help is asked for. -/
  | help
  /-- The version is asked for. -/
  | version
deriving DecidableEq, Inhabited

/-- The options that take a value. -/
inductive Key where
  | config
  | project
  | feature
  | output
  | lookup
  | outDir
  | basename
  | logLevel
deriving DecidableEq, Inhabited

namespace Key

/-- All options. -/
def all : List Key := [config, project, feature, output, lookup, outDir, basename, logLevel]

/-- The name of an option. -/
def name : Key → String
  | config => "config"
  | project => "project"
  | feature => "feature"
  | output => "output"
  | lookup => "lookup"
  | outDir => "out-dir"
  | basename => "basename"
  | logLevel => "log-level"

/-- The option of a name. -/
def ofName? (name : String) : Option Key := all.find? fun k ↦ k.name = name

end Key

/-! ### Values -/

/-- The forms of a report by name. -/
def formats : List (String × Format) := [("human", .human), ("json", .json), ("machine", .machine)]

/-- The levels of logging by name. -/
def levels : List (String × Option Level) :=
  ("OFF", none) :: Level.all.map fun level ↦ (level.name, some level)

/-- The number that decimal digits spell, if there are any. -/
def digits? (ds : List Char) : Option Nat :=
  if ds.isEmpty || !ds.all Char.isDigit then none
  else some (ds.foldl (fun n d ↦ n * 10 + (d.toNat - '0'.toNat)) 0)

/-- The offset that a numeral with or without a sign spells. -/
def offset? (value : String) : Option Offset := do
  match value.toList with
  | '+' :: ds => Offset.ofNat? (← digits? ds)
  | '-' :: ds => if (← digits? ds) = 0 then some 0 else none
  | ds => Offset.ofNat? (← digits? ds)

/-- The level of logging that a name in either case spells. -/
def level? (value : String) : Option (Option Level) := levels.lookup (value.map Char.toUpper)

/-! ### Collecting options -/

/-- What the arguments so far have set. -/
structure Draft where
  manifest : Option String
  config : Option String
  project : Option String
  features : List Feature
  format : Option Format
  lookups : List Offset
  outDir : Option String
  basename : Option String
  logLevel : Option (Option Level)
deriving DecidableEq, Inhabited

namespace Draft

/-- Nothing is set. -/
def blank : Draft := ⟨none, none, none, [], none, [], none, none, none⟩

/-- The value of an option that has none yet. -/
def once {α : Type} (old : Option α) (value : Option α) (fault : Stop) : Except Stop (Option α) :=
  match old, value with
  | some _, _ => .error .repeatedOption
  | none, some a => .ok (some a)
  | none, none => .error fault

/-- Sets an option. -/
def set (d : Draft) (key : Key) (value : String) : Except Stop Draft :=
  match key with
  | .config => do return { d with config := ← once d.config (some value) .invalidValue }
  | .project => do return { d with project := ← once d.project (some value) .invalidValue }
  | .outDir => do return { d with outDir := ← once d.outDir (some value) .invalidValue }
  | .basename => do return { d with basename := ← once d.basename (some value) .invalidValue }
  | .output => do return { d with format := ← once d.format (formats.lookup value) .invalidValue }
  | .logLevel => do return { d with logLevel := ← once d.logLevel (level? value) .unreadableValue }
  | .feature =>
    match Feature.ofKey? value with
    | some f => .ok { d with features := d.features ++ [f] }
    | none => .error .unreadableValue
  | .lookup =>
    match offset? value with
    | some o => .ok { d with lookups := d.lookups ++ [o] }
    | none => .error .unreadableValue

/-- The arguments, if nothing is missing. -/
def finish (d : Draft) : Except Stop Arguments :=
  match d.manifest with
  | none => .error .missingArgument
  | some manifest =>
    if d.project.isSome && d.config.isNone then .error .missingArgument
    else .ok {
      manifest
      config := d.config
      project := d.project
      features := d.features
      format := d.format.getD .human
      lookups := d.lookups
      outDir := d.outDir
      basename := d.basename
      logLevel := d.logLevel.getD (some .warn) }

end Draft

/-- An option whose value has not been looked at: it is still due, or it has come. -/
abbrev Pending := Option (Key × Option String)

/-- Looks at the value of a pending option. -/
def settle : Pending → Draft → Except Stop Draft
  | none, d => .ok d
  | some (_, none), _ => .error .invalidValue
  | some (key, some value), d => d.set key value

/-! ### Arguments one by one -/

/-- What an argument looks like. -/
inductive Shape where
  /-- Everything behind it is plain. -/
  | escape
  /-- An option or a switch by its long name, with the value behind the first equals sign. -/
  | long (name : String) (value : Option String)
  /-- A switch by the first of its letters. -/
  | short (letter : Char)
  /-- A plain argument. -/
  | plain
deriving DecidableEq, Inhabited

/-- The shape of an argument. -/
def shape (argument : String) : Shape :=
  match argument.toList with
  | ['-', '-'] => .escape
  | '-' :: '-' :: body =>
    let name := String.ofList (body.takeWhile (· ≠ '='))
    match body.dropWhile (· ≠ '=') with
    | [] => .long name none
    | _ :: value => .long name (some (String.ofList value))
  | '-' :: letter :: _ => .short letter
  | _ => .plain

/-- What a switch asks for, by its long name. -/
def longSwitch? : String → Option Stop
  | "help" => some .help
  | "version" => some .version
  | _ => none

/-- What a switch asks for, by its letter. -/
def shortSwitch? : Char → Option Stop
  | 'h' => some .help
  | 'V' => some .version
  | _ => none

/-- Takes a plain argument as the manifest. -/
def takeManifest (d : Draft) (pending : Pending) (argument : String) : Except Stop Draft :=
  match d.manifest with
  | some _ => .error .unknownArgument
  | none => do return { ← settle pending d with manifest := some argument }

/-- Collects plain arguments. -/
def collectPlain (d : Draft) (pending : Pending) : List String → Except Stop Draft
  | [] => settle pending d
  | argument :: rest => do collectPlain (← takeManifest d pending argument) none rest

/-- Collects arguments. -/
def collect (d : Draft) (pending : Pending) : List String → Except Stop Draft
  | [] => settle pending d
  | argument :: rest =>
    match shape argument with
    | .escape => collectPlain d pending rest
    | .long name value =>
      match longSwitch? name, Key.ofName? name, value with
      | some _, _, some _ => .error .surplusValue
      | some stop, _, none => do
        let _ ← settle pending d
        .error stop
      | none, some key, some value => do collect (← (← settle pending d).set key value) none rest
      | none, some key, none => do collect (← settle pending d) (some (key, none)) rest
      | none, none, _ => .error .unknownArgument
    | .short letter =>
      match shortSwitch? letter with
      | some stop => do
        let _ ← settle pending d
        .error stop
      | none => .error .unknownArgument
    | .plain =>
      match pending with
      | some (key, none) => collect d (some (key, some argument)) rest
      | _ => do collect (← takeManifest d pending argument) none rest

/-- Reads a command line without the name of the program. -/
def parse (arguments : List String) : Except Stop Arguments := do
  (← collect .blank none arguments).finish

/-! ### Texts -/

/-- The name of the program and its version. -/
def versionText : String := "tact-srcmap 0.1.0"

/-- How the program is used. -/
def usageText : String :=
  "Assemble a fragment manifest and inspect its source map\n\n" ++
  "Usage: tact-srcmap [OPTIONS] <MANIFEST>\n\n" ++
  "Arguments:\n" ++
  "  <MANIFEST>               Fragment manifest (JSON)\n\n" ++
  "Options:\n" ++
  "      --config <CONFIG>        Project configuration file (tact.config.json)\n" ++
  "      --project <PROJECT>      Project whose options to use " ++
  "(defaults to the manifest's program name)\n" ++
  "      --feature <FEATURES>     Enable a feature " ++
  "(inline, debug, external, ipfsAbiGetter, interfacesGetter)\n" ++
  "      --output <OUTPUT>        Output format [default: human] " ++
  "[possible values: human, json, machine]\n" ++
  "      --lookup <LOOKUP>        Output offsets to map back to source\n" ++
  "      --out-dir <OUT_DIR>      Write generated files and the source map to this directory\n" ++
  "      --basename <BASENAME>    Basename for generated files " ++
  "(defaults to the manifest's program name)\n" ++
  "      --log-level <LOG_LEVEL>  Log level [default: warn]\n" ++
  "  -h, --help                   Print help\n" ++
  "  -V, --version                Print version\n"

end CommandLine

end Provenance
