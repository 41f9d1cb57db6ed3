import Provenance.CommandLine
import Provenance.FileSystem
import Provenance.Program
import Provenance.Project

/-!
# Jobs

A job reads a manifest and perhaps a project configuration, builds the program and reports on it; if
a directory is named it writes the program and its source map there.

## Two parts

All decisions are made before the first change to a file. `Job.plan` is a function of the arguments
and of the texts that were read; it ends in a fault or in a plan. `Job.commit` carries out the
actions of a plan one by one and stops at the first that fails.

Access to files is a parameter (`FileAccess`). With a file system as state a whole run is a function
(`Job.runIn`), and the program itself runs the same code on the files of the machine.
-/

namespace Provenance

/-- Why a job fails. -/
inductive JobFault where
  /-- The manifest cannot be read. -/
  | unreadable (path : String) (fault : FileFault)
  /-- The text of the manifest holds none. -/
  | invalidManifest (path : String) (fault : Json.Fault)
  /-- The project configuration cannot be read. -/
  | unreadableConfiguration (path : String) (fault : FileFault)
  /-- The text of the project configuration holds none. -/
  | invalidConfiguration (fault : Json.Fault)
  /-- The project configuration has no project of the name. -/
  | unknownProject (name : String)
  /-- The program cannot be built. -/
  | build (fault : BuildFault)
  /-- A file or directory cannot be written. -/
  | unwritable (path : String) (fault : FileFault)
deriving DecidableEq, Inhabited

/-- What is said of a fault. -/
def JobFault.message : JobFault → String
  | unreadable path fault | unreadableConfiguration path fault =>
    "failed to read " ++ path ++ ": " ++ fault.message
  | invalidManifest path fault => "invalid manifest " ++ path ++ ": " ++ fault.message
  | invalidConfiguration fault => Configuration.faultMessage fault
  | unknownProject name => Configuration.unknownMessage name
  | build fault => fault.message
  | unwritable path fault => "failed to write " ++ path ++ ": " ++ fault.message

/-- A change to files. -/
inductive Action where
  /-- Makes a directory and those that lead to it. -/
  | makeDirectories (path : String)
  /-- Writes a text file. -/
  | writeFile (path content : String)
deriving DecidableEq, Inhabited

namespace Action

/-- The path that is changed. -/
def path : Action → String
  | makeDirectories path => path
  | writeFile path _ => path

/-- The files that are reported as written. -/
def written : Action → List String
  | makeDirectories _ => []
  | writeFile path _ => [path]

/-- The records that success leaves. -/
def notices (action : Action) : List Record :=
  action.written.map fun path ↦ ⟨.debug, .application, "wrote " ++ path⟩

end Action

/-- What a job does once everything has been decided. -/
structure Plan where
  /-- The program. -/
  program : Program
  /-- The answers to the lookups. -/
  lookups : List Lookup
  /-- The changes to files, in order. -/
  actions : List Action
deriving DecidableEq

/-- The report of a plan after files have been written. -/
def Plan.report (p : Plan) (written : List String) : Report :=
  ⟨p.program.entrypoint, p.program.map, p.lookups, written⟩

/-- Access to files. -/
structure FileAccess (m : Type → Type) where
  /-- Reads a text file. -/
  read : String → m (Except FileFault String)
  /-- Carries out an action. -/
  perform : Action → m (Except FileFault Unit)

namespace Job

/-! ### Planning -/

/-- Switches features on and leaves a record of each. -/
def enable (flags : Flags) (features : List Feature) : Logged JobFault Flags :=
  features.foldlM (fun flags f ↦ do
    .record .debug .features ("enabling feature " ++ ticked f.key)
    return flags.enable f) flags

/-- The manifest at a path. -/
def loadManifest (read : String → Except FileFault String) (path : String) :
    Except JobFault Manifest := do
  let text ← (read path).mapError (.unreadable path)
  (Manifest.ofText text).mapError (.invalidManifest path)

/-- The flags that a project configuration gives to a project. -/
def loadFlags (read : String → Except FileFault String) (path project : String) :
    Logged JobFault Flags := do
  let text ← .ofExcept ((read path).mapError (.unreadableConfiguration path))
  .record .debug .configuration ("loaded project configuration from " ++ path)
  let configuration ← .ofExcept ((Configuration.ofText text).mapError .invalidConfiguration)
  match configuration.find? project with
  | none => .fail (.unknownProject project)
  | some p => enable .empty p.options.features

/-- The changes to files that write a program below a directory. -/
def actions (directory basename : String) (p : Program) : List Action :=
  let files := p.files ++ [⟨basename ++ ".srcmap.json", p.map.toJson.pretty⟩]
  .makeDirectories directory :: files.map fun f ↦ .writeFile (Path.join directory f.name) f.content

/-- Decides what a job does. -/
def plan (args : Arguments) (read : String → Except FileFault String) : Logged JobFault Plan := do
  let manifest ← .ofExcept (loadManifest read args.manifest)
  let flags ←
    match args.config with
    | none => pure .empty
    | some path => loadFlags read path (args.project.getD manifest.name)
  let flags ← enable flags args.features
  .record .info .application ("enabled features: " ++ Quoted.encodeList flags.enabledKeys)
  let basename := args.basename.getD manifest.name
  let catalogue ← .ofExcept ((Catalogue.ofManifest manifest).mapError .build)
  let program ← (catalogue.compile flags manifest.name basename).mapError .build
  return {
    program
    lookups := args.lookups.map (Lookup.resolve program.map)
    actions := (args.outDir.map fun directory ↦ actions directory basename program).getD [] }

/-! ### Running -/

variable {m : Type → Type} [Monad m]

/-- Carries out actions up to the first that fails, and returns the files that were written. -/
def commit (access : FileAccess m) : List Action → m (Logged JobFault (List String))
  | [] => pure (pure [])
  | action :: rest => do
    match ← access.perform action with
    | .error fault => return .fail (.unwritable action.path fault)
    | .ok () =>
      let more ← commit access rest
      return ⟨action.notices ++ more.records, more.result.map (action.written ++ ·)⟩

/-- The paths that a job reads. -/
def inputs (args : Arguments) : List String := args.manifest :: args.config.toList

/-- Reads files. -/
def readAll (access : FileAccess m) : List String → m (List (String × Except FileFault String))
  | [] => pure []
  | path :: rest => do
    let text ← access.read path
    let texts ← readAll access rest
    return (path, text) :: texts

/-- Runs a job. -/
def run (access : FileAccess m) (args : Arguments) : m (Logged JobFault Report) := do
  let texts ← readAll access (inputs args)
  let planned := plan args fun path ↦ (texts.lookup path).getD (.error .missing)
  match planned.result with
  | .error fault => return ⟨planned.records, .error fault⟩
  | .ok p =>
    let done ← commit access p.actions
    return ⟨planned.records ++ done.records, done.result.map p.report⟩

/-! ### Running in a file system -/

/-- Carries out an action in a file system. -/
def performIn (fs : FileSystem) : Action → FileSystem × Except FileFault Unit
  | .makeDirectories path => fs.makeDirectories path
  | .writeFile path content =>
    match fs.writeText path content with
    | .ok written => (written, .ok ())
    | .error (fault, left) => (left, .error fault)

/-- Access to the files of a file system. -/
def accessIn : FileAccess (StateM FileSystem) where
  read path := fun fs ↦ (fs.readText path, fs)
  perform action := fun fs ↦ ((performIn fs action).2, (performIn fs action).1)

/-- Runs a job in a file system. -/
def runIn (fs : FileSystem) (args : Arguments) : Logged JobFault Report × FileSystem :=
  run accessIn args fs

/-! ### The whole program -/

/-- What the program leaves behind besides files. -/
structure Outcome where
  /-- The exit status. -/
  status : Nat
  /-- What is printed. -/
  out : String
  /-- What is said about the run. -/
  err : String
deriving DecidableEq, Inhabited

/-- The outcome of a command line that asks for no run. -/
def Outcome.ofStop : CommandLine.Stop → Outcome
  | .help => ⟨0, CommandLine.usageText, ""⟩
  | .version => ⟨0, CommandLine.versionText ++ "\n", ""⟩
  | _ => ⟨2, "", "error: invalid arguments\n\n" ++ CommandLine.usageText⟩

/-- The outcome of a run. -/
def Outcome.ofRun (args : Arguments) (done : Logged JobFault Report) : Outcome :=
  let log := String.join ((done.records.filter fun r ↦ r.passes args.logLevel).map Record.line)
  match done.result with
  | .ok report => ⟨0, report.text args.format, log⟩
  | .error fault =>
    ⟨1, "", log ++ "Error: failed to process " ++ args.manifest ++ ": " ++ fault.message ++ "\n"⟩

/-- Runs the program with its command line. -/
def respond (access : FileAccess m) (arguments : List String) : m Outcome :=
  match CommandLine.parse arguments with
  | .error stop => pure (.ofStop stop)
  | .ok args => do return .ofRun args (← run access args)

end Job

end Provenance
