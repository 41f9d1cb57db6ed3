import Provenance.Text.Wording

/-!
# File systems

A file system holds files and directories at places, which are lists of names from the root, and has
a current directory from which paths start that do not start at the root. Its operations fail as
those of an operating system do, and say why.

## Paths

A path is text: names between slashes. It is walked from left to right. Every name is looked up in a
directory, so all that comes before the last name has to exist; `.` stays and `..` goes up. Slashes
at the end ask for a directory.

## Making directories

`DirectoryAccess.makeAll` makes a directory together with those that its path goes through. It first
tries the whole path, and goes back to shorter ones only as long as something is missing, so nothing
is made if the path is blocked by a file. It needs no more than access to single directories, so it
runs in a file system (`FileSystem.makeDirectories`) as well as on a machine.

## Writing files

A file is written in two stages (`FileSystem.writeBytes`). It is opened first, which makes it or
empties it, and then its bytes are put in. The second stage may stop in the middle, if a disk is
full or a quota is used up. The file is cut off then, and what it held before is lost. Where this
happens is up to the operating system, so it is part of the state (`Limit`).
-/

namespace Provenance

/-- A list of names from the root. -/
abbrev Place := List String

/-- Contents are equal if they hold the same bytes in order. -/
local instance decidableEqBytes : DecidableEq ByteArray :=
  fun a b ↦ decidable_of_iff (a.data = b.data) ByteArray.ext_iff.symm

/-- What stands at a place. -/
inductive Node where
  /-- A file with its bytes. -/
  | file (content : ByteArray)
  /-- A directory. -/
  | directory
deriving DecidableEq, Inhabited

/-- Why an operation on files fails. -/
inductive FileFault where
  | missing
  | alreadyExists
  | notDirectory
  | isDirectory
  | nameTooLong
  /-- The path has a character that no path can have. -/
  | nulCharacter
  /-- The bytes are not text. -/
  | notText
  /-- Another fault, in the words of the operating system. -/
  | other (words : String)
deriving DecidableEq, Inhabited

/-- What is said of a fault. -/
def FileFault.message : FileFault → String
  | missing => "No such file or directory (os error 2)"
  | alreadyExists => "File exists (os error 17)"
  | notDirectory => "Not a directory (os error 20)"
  | isDirectory => "Is a directory (os error 21)"
  | nameTooLong => "File name too long (os error 36)"
  | nulCharacter => "file name contained an unexpected NUL byte"
  | notText => "stream did not contain valid UTF-8"
  | other words => words

/-- What the operating system refuses at a place. -/
inductive Limit where
  /-- Nothing is made there, and no file is opened for writing. -/
  | closed (fault : FileFault)
  /-- A file takes a number of bytes and no more. -/
  | full (room : Nat) (fault : FileFault)
deriving DecidableEq, Inhabited

/-! ### Paths -/

namespace Path

/-- The parts of a text between slashes. -/
def parts : List Char → List (List Char)
  | [] => [[]]
  | c :: rest =>
    if c = '/' then [] :: parts rest
    else
      match parts rest with
      | [] => [[c]]
      | part :: more => (c :: part) :: more

/-- The names of a path. -/
def names (path : String) : List String :=
  ((parts path.toList).filter fun part ↦ !part.isEmpty).map String.ofList

/-- The path starts at the root. -/
def isAbsolute (path : String) : Bool := path.toList.head? = some '/'

/-- The path ends with a slash. -/
def hasSlash (path : String) : Bool := path.toList.getLast? = some '/'

/-- The names of a path, with one more that stays if the path asks for a directory. -/
def strictNames (path : String) : List String := names path ++ if hasSlash path then ["."] else []

/-- The names of a path without those that stay, except in front of a path that starts from the
current directory. -/
def steps (path : String) : List String :=
  match isAbsolute path, names path with
  | false, "." :: rest => "." :: rest.filter (· ≠ ".")
  | _, names => names.filter (· ≠ ".")

/-- The names of the paths that a path goes through, longest first. -/
def ancestors (path : String) : List (List String) :=
  let steps := steps path
  ((List.range steps.length).drop 1).reverse.map steps.take

/-- The path of a name below a directory; a name that starts at the root stays as it is. -/
def join (directory name : String) : String :=
  if isAbsolute name || directory = "" then name
  else if hasSlash directory then directory ++ name
  else directory ++ "/" ++ name

/-- The path of names from the root or from the current directory. -/
def ofNames (isAbsolute : Bool) (names : List String) : String :=
  (if isAbsolute then "/" else "") ++ "/".intercalate names

/-- The number of bytes that a path cannot have. -/
def limit : Nat := 4096

/-- What is wrong with a path whatever files there are. -/
def fault? (path : String) : Option FileFault :=
  if '\x00' ∈ path.toList then some .nulCharacter
  else if path = "" then some .missing
  else if limit ≤ path.utf8ByteSize then some .nameTooLong
  else none

end Path

/-! ### Access to directories -/

/-- Access to directories, each of which is given by the names that lead to it. -/
structure DirectoryAccess (m : Type → Type) where
  /-- Makes a directory in one that is there. -/
  make : List String → m (Except FileFault Unit)
  /-- Says whether a directory is there. -/
  stands : List String → m Bool

namespace DirectoryAccess

variable {m : Type → Type} [Monad m]

/-- Makes a directory unless it is there. -/
def ensure (access : DirectoryAccess m) (names : List String) : m (Except FileFault Unit) := do
  match ← access.make names with
  | .ok () => return .ok ()
  | .error fault => return if ← access.stands names then .ok () else .error fault

/-- Makes the first of several directories; the others lead to it, longest path first, and are made
if it cannot be made without them. Directories that have been made stay even if a later one fails.
-/
def makeFirst (access : DirectoryAccess m) : List (List String) → m (Except FileFault Unit)
  | [] => pure (.ok ())
  | names :: ancestors => do
    match ← access.ensure names with
    | .error .missing =>
      match ← access.makeFirst ancestors with
      | .ok () => access.ensure names
      | .error fault => return .error fault
    | done => return done

/-- Makes a directory and those that its path goes through, where they do not exist yet. The empty
path needs none. -/
def makeAll (access : DirectoryAccess m) (path : String) : m (Except FileFault Unit) :=
  if path = "" then pure (.ok ())
  else
    match Path.fault? path with
    | some fault => pure (.error fault)
    | none => access.makeFirst (Path.names path :: Path.ancestors path)

end DirectoryAccess

/-- Files and directories. -/
structure FileSystem where
  /-- What stands at the places below the root. -/
  nodes : List (Place × Node)
  /-- The current directory. -/
  current : Place
  /-- The limits at single places. -/
  limits : List (Place × Limit) := []
deriving DecidableEq, Inhabited

namespace FileSystem

/-- A file system with no files, and no directories but those that lead to the current one. -/
def fresh (current : Place) : FileSystem where
  nodes := (List.range current.length).map fun n ↦ (current.take (n + 1), .directory)
  current := current

/-- What stands at a place. -/
def node? (fs : FileSystem) (p : Place) : Option Node :=
  if p = [] then some .directory else fs.nodes.lookup p

/-- Why nothing is made or opened at a place. -/
def closed? (fs : FileSystem) (p : Place) : Option FileFault :=
  match fs.limits.lookup p with
  | some (.closed fault) => some fault
  | _ => none

/-- How many bytes a file takes and why it takes no more, if there is not room for all of them. -/
def stop? (fs : FileSystem) (p : Place) (content : ByteArray) : Option (Nat × FileFault) :=
  match fs.limits.lookup p with
  | some (.full room fault) => if room < content.size then some (room, fault) else none
  | _ => none

theorem stop?_eq_some_iff {fs : FileSystem} {p : Place} {content : ByteArray} {room : Nat}
    {fault : FileFault} :
    fs.stop? p content = some (room, fault) ↔
      fs.limits.lookup p = some (.full room fault) ∧ room < content.size := by
  rw [stop?]
  split
  · next room' fault' hlimit =>
    rw [hlimit, Option.ite_none_right_eq_some]
    constructor
    · rintro ⟨hroom, heq⟩
      obtain ⟨rfl, rfl⟩ := Prod.mk.inj (Option.some.inj heq)
      exact ⟨rfl, hroom⟩
    · rintro ⟨heq, hroom⟩
      obtain ⟨rfl, rfl⟩ := Limit.full.inj (Option.some.inj heq)
      exact ⟨hroom, rfl⟩
  · next hother =>
    constructor
    · exact fun h ↦ absurd h (by simp)
    · exact fun h ↦ absurd h.1 (hother room fault)

/-- Puts a node at a place of a list, in place of the one that is there. -/
def putNode (p : Place) (n : Node) : List (Place × Node) → List (Place × Node)
  | [] => [(p, n)]
  | q :: rest => if q.1 = p then (p, n) :: rest else q :: putNode p n rest

/-- Puts a node at a place. -/
def put (fs : FileSystem) (p : Place) (n : Node) : FileSystem :=
  { fs with nodes := putNode p n fs.nodes }

theorem lookup_putNode (p : Place) (n : Node) (l : List (Place × Node)) (q : Place) :
    (putNode p n l).lookup q = if q = p then some n else l.lookup q := by
  induction l with
  | nil =>
    rw [putNode, List.lookup_cons]
    by_cases h : q = p
    · rw [beq_iff_eq.2 h, if_pos h]
    · rw [beq_false_of_ne h, if_neg h]
  | cons first rest ih =>
    rw [putNode]
    split
    · next hfirst =>
      rw [List.lookup_cons, List.lookup_cons, hfirst]
      by_cases h : q = p
      · rw [beq_iff_eq.2 h, if_pos h]
      · rw [beq_false_of_ne h, if_neg h]
    · next hfirst =>
      rw [List.lookup_cons, List.lookup_cons, ih]
      by_cases h : q = first.1
      · have hne : q ≠ p := fun hp ↦ hfirst (h.symm.trans hp)
        rw [beq_iff_eq.2 h, if_neg hne, if_neg hne]
      · rw [beq_false_of_ne h]

/-- A node stands where it was put, and nothing changes elsewhere. -/
theorem node?_put (fs : FileSystem) {p : Place} (hp : p ≠ []) (n : Node) (q : Place) :
    (fs.put p n).node? q = if q = p then some n else fs.node? q := by
  unfold node? put
  by_cases hq : q = []
  · have hne : q ≠ p := fun h ↦ hp (h.symm.trans hq)
    rw [if_pos hq, if_pos hq, if_neg hne]
  · rw [if_neg hq, if_neg hq, lookup_putNode]

/-! ### Finding places -/

/-- The greatest number of bytes of a name. -/
def nameLimit : Nat := 255

/-- Walks names from a place. Nothing need stand at the place where the walk ends. -/
def walk (fs : FileSystem) : Place → List String → Except FileFault Place
  | here, [] => .ok here
  | here, name :: rest =>
    match fs.node? here with
    | none => .error .missing
    | some (.file _) => .error .notDirectory
    | some .directory =>
      if name = "." then fs.walk here rest
      else if name = ".." then fs.walk here.dropLast rest
      else if nameLimit < name.utf8ByteSize then .error .nameTooLong
      else fs.walk (here ++ [name]) rest

/-- Where the walk along a path starts. -/
def origin (fs : FileSystem) (path : String) : Place :=
  if Path.isAbsolute path then [] else fs.current

/-- The place of a path. -/
def find (fs : FileSystem) (path : String) : Except FileFault Place :=
  match Path.fault? path with
  | some fault => .error fault
  | none => fs.walk (fs.origin path) (Path.strictNames path)

/-! ### Files -/

/-- The bytes of a file. -/
def readBytes (fs : FileSystem) (path : String) : Except FileFault ByteArray := do
  match fs.node? (← fs.find path) with
  | none => .error .missing
  | some .directory => .error .isDirectory
  | some (.file content) => return content

/-- The text of bytes. -/
def decode (content : ByteArray) : Except FileFault String :=
  match String.fromUTF8? content with
  | some text => .ok text
  | none => .error .notText

/-- The text of a file. -/
def readText (fs : FileSystem) (path : String) : Except FileFault String := do
  decode (← fs.readBytes path)

/-- Opens a file for writing, which makes it or empties it, and says where it stands. -/
def openFile (fs : FileSystem) (path : String) : Except FileFault (Place × FileSystem) := do
  let p ← fs.find path
  if fs.node? p = some .directory then .error .isDirectory
  else
    match fs.closed? p with
    | some fault => .error fault
    | none => return (p, fs.put p (.file .empty))

/-- Puts bytes into a file that has been opened. If there is not room for all of them, the first of
them are in it. -/
def fill (fs : FileSystem) (p : Place) (content : ByteArray) :
    Except (FileFault × FileSystem) FileSystem :=
  match fs.stop? p content with
  | some (room, fault) => .error (fault, fs.put p (.file (content.extract 0 room)))
  | none => .ok (fs.put p (.file content))

/-- Makes a file, or replaces what it holds. A fault comes with the files that it leaves. -/
def writeBytes (fs : FileSystem) (path : String) (content : ByteArray) :
    Except (FileFault × FileSystem) FileSystem := do
  let (p, opened) ← (fs.openFile path).mapError fun fault ↦ (fault, fs)
  opened.fill p content

/-- Makes a text file, or replaces what it holds. -/
def writeText (fs : FileSystem) (path text : String) : Except (FileFault × FileSystem) FileSystem :=
  fs.writeBytes path text.toUTF8

/-! ### Directories -/

/-- A directory stands where names lead. -/
def isDirectory (fs : FileSystem) (start : Place) (names : List String) : Bool :=
  match fs.walk start names with
  | .ok p => fs.node? p = some .directory
  | .error _ => false

/-- Makes the directory where names lead. -/
def makeDirectory (fs : FileSystem) (start : Place) (names : List String) :
    Except FileFault FileSystem := do
  let p ← fs.walk start names
  if (fs.node? p).isSome then .error .alreadyExists
  else
    match fs.closed? p with
    | some fault => .error fault
    | none => return fs.put p .directory

/-- Directories of a file system that start from a place. -/
def directories (start : Place) : DirectoryAccess (StateM FileSystem) where
  make names := fun fs ↦
    match fs.makeDirectory start names with
    | .ok made => (.ok (), made)
    | .error fault => (.error fault, fs)
  stands names := fun fs ↦ (fs.isDirectory start names, fs)

/-- A directory is made, or was there, or the file system stays as it is. -/
theorem run_ensure (fs : FileSystem) (start : Place) (names : List String) :
    ((directories start).ensure names).run fs =
      match fs.makeDirectory start names with
      | .ok made => (.ok (), made)
      | .error fault => (if fs.isDirectory start names then .ok () else .error fault, fs) := by
  unfold StateT.run
  simp only [DirectoryAccess.ensure, directories, bind, StateT.bind]
  cases fs.makeDirectory start names <;> rfl

/-- Shorter paths matter only if something is missing. -/
theorem run_makeFirst_cons (fs : FileSystem) (start : Place) (names : List String)
    (ancestors : List (List String)) :
    ((directories start).makeFirst (names :: ancestors)).run fs =
      match ((directories start).ensure names).run fs with
      | (.error .missing, fs) =>
        match ((directories start).makeFirst ancestors).run fs with
        | (.ok (), fs) => ((directories start).ensure names).run fs
        | (.error fault, fs) => (.error fault, fs)
      | done => done := by
  unfold StateT.run
  simp only [DirectoryAccess.makeFirst, bind, StateT.bind]
  cases (directories start).ensure names fs with
  | mk first after =>
    cases first with
    | ok => rfl
    | error fault =>
      cases fault with
      | missing =>
        simp only [StateT.bind, bind]
        cases (directories start).makeFirst ancestors after with
        | mk done made => cases done <;> rfl
      | _ => rfl

/-- Makes a directory and those that its path goes through, where they do not exist yet. The empty
path needs none. -/
def makeDirectories (fs : FileSystem) (path : String) : FileSystem × Except FileFault Unit :=
  let (done, made) := ((directories (fs.origin path)).makeAll path).run fs
  (made, done)

/-! ### Changes -/

/-- The files that have another content than in an older file system, or are new. -/
def changedSince (fs old : FileSystem) : List (Place × ByteArray) :=
  fs.nodes.filterMap fun
    | (p, .file content) => if old.node? p = some (.file content) then none else some (p, content)
    | (_, .directory) => none

end FileSystem

end Provenance
