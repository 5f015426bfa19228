import CallGuard.Files.Device
import CallGuard.Files.Error
import CallGuard.Files.Path
import CallGuard.Text.Utf8

/-!
The files that are known. A directory exists when a file lies below it, and may
also be known to exist without one. Of the directories above the working directory
nothing is known but that they are there.

* `Files.locate`: what a path leads to.
* `Files.find`: what there is at a path.
* `Files.readText`, `Files.write`: reading and writing.
* `Files.changes`: the files that are new or different.
-/

namespace CallGuard

/-- A file. -/
structure File where
  /-- The content. -/
  bytes : List UInt8
  /-- Whether it can be run as a program. -/
  executable : Bool := false
  deriving DecidableEq

/-- The file of a text. -/
def File.ofText (text : List Char) (executable : Bool := false) : File :=
  ⟨Text.encode text, executable⟩

/-- The files that are known. A place is given by the names on the way to it from
the working directory, or from the root, which stands first as a slash, or from a
directory above the working directory, which stands first as two points for every
step up. -/
structure Files where
  /-- The files. No two have the same place. -/
  entries : List (List String × File) := []
  /-- Directories that need no file below them. -/
  directories : List (List String) := []
  /-- The place that paths start from, which is the working directory at first. -/
  directory : List String := []
  deriving DecidableEq

namespace Files

/-- What there is at a place. -/
inductive Place where
  /-- A file. -/
  | file (key : List String) (file : File)
  /-- A file that the system provides. -/
  | device (device : Device)
  /-- A directory. -/
  | directory (key : List String)

/-- What a path leads to. -/
inductive Lead where
  /-- Something that is there. -/
  | found (place : Place)
  /-- A place in a directory where there is nothing. -/
  | missing (key : List String)
  /-- A place in a directory where nothing can be, as its name is too long. -/
  | unnameable

/-- The file at a place. -/
def get? (files : Files) (key : List String) : Option File :=
  files.entries.lookup key

/-- Whether a place is a directory. -/
def isDirectory (files : Files) (key : List String) : Bool :=
  key.all (· == "..") || systemDirectories.contains key || files.directories.contains key ||
    files.entries.any fun (k, _) => key.length < k.length && key.isPrefixOf k

/-- Whether a place lies below the working directory. -/
def isLocal (key : List String) : Bool :=
  key.head? != some "/" && key.head? != some ".."

/-- Puts a file at a place. -/
def put (files : Files) (key : List String) (file : File) : Files :=
  let entries := if files.entries.any (·.1 == key) then
      files.entries.map fun (k, f) => if k = key then (k, file) else (k, f)
    else files.entries ++ [(key, file)]
  { files with entries }

/-- Removes the file at a place, and what lies below it. -/
def erase (files : Files) (key : List String) : Files :=
  { files with
    entries := files.entries.filter fun (k, _) => !key.isPrefixOf k
    directories := files.directories.filter fun k => !key.isPrefixOf k }

/-! ### Paths -/

/-- The largest number of bytes of a name. -/
def nameLimit : Nat := 255

/-- The largest number of bytes of a path. -/
def pathLimit : Nat := 4095

/-- The directory above one. Both are given by their names, last first. -/
def above (dir : List String) : List String :=
  match dir with
  | [] => [".."]
  | ".." :: up => ".." :: ".." :: up
  | _ :: up => if dir = root then root else up

/-- Follows segments from a directory, which is given by its names, last first. -/
def follow (files : Files) : List String → List String → Except IoError Lead
  | dir, [] => .ok (.found (.directory dir.reverse))
  | dir, s :: rest =>
    if s = "." then follow files dir rest
    else if s = ".." then follow files (above dir) rest
    else
      let key := (s :: dir).reverse
      if nameLimit < Text.byteLength s.toList then
        if rest.isEmpty then .ok .unnameable else .error .nameTooLong
      else if files.isDirectory key then follow files (s :: dir) rest
      else
        match Device.at? key, files.get? key with
        | some device, _ =>
          if rest.isEmpty then .ok (.found (.device device)) else .error .notDirectory
        | none, some file =>
          if rest.isEmpty then .ok (.found (.file key file)) else .error .notDirectory
        | none, none => if rest.isEmpty then .ok (.missing key) else .error .notFound

/-- Whether a path ends with a slash, so that it asks for a directory. -/
def asksDirectory (path : String) : Bool :=
  path.toList.getLast? = some '/'

/-- What a path leads to. Slashes at its end count for nothing here. -/
def locate (files : Files) (path : String) : Except IoError Lead :=
  if path.toList.contains '\x00' then .error .zeroInPath
  else if path = "" then .error .notFound
  else if pathLimit < Text.byteLength path.toList then .error .nameTooLong
  else
    files.follow (if Path.isAbsolute path then root else files.directory.reverse)
      ((Path.segments path).filter (· ≠ ""))

/-- What there is at a path. -/
def find (files : Files) (path : String) : Except IoError Place :=
  match files.locate path with
  | .ok (.found (.directory key)) => .ok (.directory key)
  | .ok (.found place) => if asksDirectory path then .error .notDirectory else .ok place
  | .ok (.missing _) => .error .notFound
  | .ok .unnameable => .error .nameTooLong
  | .error e => .error e

/-- Whether there is something at a path. -/
def contains (files : Files) (path : String) : Bool :=
  (files.find path).toBool

/-! ### Reading and writing -/

/-- The content of the file at a path. -/
def read (files : Files) (path : String) : Except IoError (List UInt8) :=
  match files.find path with
  | .ok (.file _ file) => .ok file.bytes
  | .ok (.device device) => .ok device.bytes
  | .ok (.directory _) => .error .isDirectory
  | .error e => .error e

/-- The content of the text file at a path. -/
def readText (files : Files) (path : String) : Except IoError (List Char) := do
  match Text.decode? (← files.read path) with
  | some text => return text
  | none => throw .notText

/-- Writes the content of the file at a path, which is made if it is not there. -/
def write (files : Files) (path : String) (bytes : List UInt8) : Except IoError Files :=
  match files.locate path with
  | .error e => .error e
  | .ok lead =>
    if asksDirectory path then .error .isDirectory
    else
      match lead with
      | .found (.file key file) => .ok (files.put key { file with bytes })
      | .found (.device .full) => if bytes.isEmpty then .ok files else .error .noSpace
      | .found (.device _) => .ok files
      | .found (.directory _) => .error .isDirectory
      | .missing key => .ok (files.put key ⟨bytes, false⟩)
      | .unnameable => .error .nameTooLong

/-- The program at a path. -/
def program (files : Files) (path : String) : Except IoError (List UInt8) :=
  match files.find path with
  | .ok (.file _ file) => if file.executable then .ok file.bytes else .error .permissionDenied
  | .ok _ => .error .permissionDenied
  | .error e => .error e

/-- The place of the directory at a path. -/
def directoryAt? (files : Files) (path : String) : Option (List String) :=
  match files.find path with
  | .ok (.directory key) => some key
  | _ => none

/-- The names in the directory at a place, each once. -/
def names (files : Files) (key : List String) : List String :=
  ((files.entries.map (·.1) ++ files.directories).filterMap fun k =>
    if key.isPrefixOf k && (!key.isEmpty || isLocal k) then k[key.length]? else none).eraseDups

/-! ### All files -/

/-- The files that were not there before or had another content, by their places. -/
def changes (before after : Files) : List (List String × List UInt8) :=
  after.entries.filterMap fun (key, file) =>
    if (before.get? key).map (·.bytes) = some file.bytes then none else some (key, file.bytes)

/-- The path of a place. -/
def pathOf : List String → String
  | "/" :: names => "/" ++ "/".intercalate names
  | names => "/".intercalate names

/-- The changes below the working directory, by their paths. -/
def localChanges (before after : Files) : List (String × List UInt8) :=
  ((before.changes after).filter fun (key, _) => isLocal key).map fun (key, bytes) =>
    (pathOf key, bytes)

/-- The place that a path names, as far as it goes down only. -/
def placeOf (path : String) : List String :=
  (if Path.isAbsolute path then root else []) ++
    (Path.segments path).filter fun s => s != "" && s != "."

/-- The files with the given paths and contents. -/
def ofList (files : List (String × File)) : Files :=
  files.foldl (fun all (path, file) => all.put (placeOf path) file) {}

end Files

end CallGuard
