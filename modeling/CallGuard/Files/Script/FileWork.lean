import CallGuard.Files.Script.Effect
import CallGuard.Text.Numeral

/-!
The utilities of scripts that change and list files.

* `Script.cp`, `Script.mv`, `Script.rm`, `Script.touch`, `Script.mkdir`, `Script.chmod`,
  `Script.tee`: changing files.
* `Script.ls`: listing them.
-/

namespace CallGuard.Script

/-- Where a file goes that is put at a path, which may be a directory. -/
def targetOf (files : Files) (source target : String) : String :=
  match files.find target with
  | .ok (.directory _) => Path.join target ((Path.fileName? source).getD "")
  | _ => target

/-- Complains that an operand is missing. -/
def missingOperand (name : String) (files : Files) (paths : List String) : Effect :=
  misused files name (match paths with
    | [] => "missing file operand"
    | path :: _ => s!"missing destination file operand after '{path}'")

/-! ### Copying and moving -/

/-- Copies a file. -/
def copy (name : String) (files : Files) (source target : String) : Effect :=
  let target := targetOf files source target
  let written (bytes : List UInt8) : Effect :=
    match files.write target bytes with
    | .ok files => { files }
    | .error e => fails files s!"{name}: cannot create regular file '{target}': {e.reason}"
  match files.find source with
  | .error e => fails files s!"{name}: cannot stat '{source}': {e.reason}"
  | .ok (.directory _) => fails files s!"{name}: -r not specified; omitting directory '{source}'"
  | .ok (.device device) => written device.bytes
  | .ok (.file key file) =>
    match files.locate target with
    | .error .notDirectory => fails files s!"{name}: cannot stat '{target}': Not a directory"
    | .ok (.found (.file key' _)) =>
      if key = key' then fails files s!"{name}: '{source}' and '{target}' are the same file"
      else written file.bytes
    | .ok (.missing key') =>
      if Files.asksDirectory target then
        fails files s!"{name}: cannot create regular file '{target}': Not a directory"
      else { files := files.put key' file }
    | _ => written file.bytes

/-- Puts files at a path, which is a directory if there are several. -/
def onTarget (name : String) (files : Files) (paths : List String)
    (one : Files → String → String → Effect) : Effect :=
  match paths.reverse with
  | target :: source :: more =>
    if more.isEmpty || (files.directoryAt? target).isSome then
      onEach files (fun files source => one files source target) (more.reverse ++ [source])
    else
      let reason := if files.contains target then "Not a directory" else IoError.notFound.reason
      fails files s!"{name}: target '{target}': {reason}"
  | _ => missingOperand name files paths

/-- Copies files. -/
def cp : Utility := fun name _ arguments files =>
  withOperands name "abdfHilLnpPrRsuvx".toList files arguments fun _ paths =>
    onTarget name files paths (copy name)

/-- Moves files. -/
def mv : Utility := fun name _ arguments files =>
  withOperands name "bfinuv".toList files arguments fun _ paths =>
    onTarget name files paths fun files source target =>
      let target := targetOf files source target
      match files.find source with
      | .error e => fails files s!"{name}: cannot stat '{source}': {e.reason}"
      | .ok (.file key file) =>
        match (files.erase key).locate target with
        | .ok (.missing key') => { files := (files.erase key).put key' file }
        | .ok (.found (.file key' _)) =>
          if key = key' then fails files s!"{name}: '{source}' and '{target}' are the same file"
          else { files := (files.erase key).put key' file }
        | .ok _ => { files }
        | .error e => fails files s!"{name}: cannot move '{source}' to '{target}': {e.reason}"
      | .ok _ => { files }

/-! ### Making and removing -/

/-- Removes files. -/
def rm : Utility := fun name _ arguments files =>
  withOperands name "dfiIrRv".toList files arguments fun given paths =>
    if paths.isEmpty && !given.contains 'f' then misused files name "missing operand"
    else onEach files (fun files path =>
      match files.find path with
      | .ok (.file key _) => { files := files.erase key }
      | .ok (.directory key) =>
        if given.contains 'r' || given.contains 'R' then { files := files.erase key }
        else fails files s!"{name}: cannot remove '{path}': Is a directory"
      | .ok (.device _) => { files }
      | .error e =>
        if given.contains 'f' && (e == .notFound || e == .notDirectory) then { files }
        else fails files s!"{name}: cannot remove '{path}': {e.reason}") paths

/-- Makes files that are not there. -/
def touch : Utility := fun name _ arguments files =>
  withOperands name "acfhm".toList files arguments fun given paths =>
    if paths.isEmpty then misused files name "missing file operand"
    else onEach files (fun files path =>
      if files.contains path || given.contains 'c' then { files }
      else
        match files.write path [] with
        | .ok files => { files }
        | .error e => fails files s!"{name}: cannot touch '{path}': {e.reason}") paths

/-- Makes directories. -/
def mkdir : Utility := fun name _ arguments files =>
  withOperands name "pv".toList files arguments fun given paths =>
    let refused (files : Files) (path reason : String) : Effect :=
      fails files s!"{name}: cannot create directory '{path}': {reason}"
    if paths.isEmpty then misused files name "missing operand"
    else onEach files (fun files path =>
      match files.locate path with
      | .ok (.missing key) =>
        { files := { files with directories := key :: files.directories } }
      | .ok (.found (.directory _)) =>
        if given.contains 'p' then { files } else refused files path "File exists"
      | .ok (.found _) => refused files path "File exists"
      | .ok .unnameable => refused files path IoError.nameTooLong.reason
      | .error e =>
        if given.contains 'p' && e == .notFound && !Path.isAbsolute path then
          let key := files.directory ++ Files.placeOf path
          let made := (List.range key.length).map fun n => key.take (n + 1)
          { files := { files with directories := made ++ files.directories } }
        else refused files path e.reason) paths

/-- Whether files can be run under a mode, if it says so. -/
def executable? (mode : List Char) : Option Bool :=
  if mode.all Char.isDigit then some (mode.any fun c => c.toNat % 2 = 1)
  else if mode.contains 'x' then some (!mode.contains '-')
  else none

/-- Changes whether files can be run. -/
def chmod : Utility := fun name _ arguments files =>
  match arguments with
  | [] => misused files name "missing operand"
  | [mode] => misused files name s!"missing operand after '{pathOf mode}'"
  | mode :: paths =>
    onEach files (fun files path =>
      match files.find path with
      | .ok (.file key file) =>
        { files := files.put key
            { file with executable := (executable? mode).getD file.executable } }
      | .ok _ => { files }
      | .error e => fails files s!"{name}: cannot access '{path}': {e.reason}")
      (paths.map pathOf)

/-- Writes what can be read to files and shows it. -/
def tee : Utility := fun name input arguments files =>
  withOperands name "aip".toList files arguments fun given paths =>
    let e := onEach files (fun files path =>
      let before := if given.contains 'a' then (files.read path).toOption.getD [] else []
      match files.write path (before ++ toBytes input) with
      | .ok files => { files }
      | .error e => fails files s!"{name}: {path}: {e.reason}") paths
    { e with output := input, reads := true }

/-! ### Listing -/

/-- Lists files and what directories hold. -/
def ls : Utility := fun name _ arguments files =>
  withOperands name "1aAcCdfFghHiklLmnNopqQrRsStuUvxX".toList files arguments fun given paths =>
    let isShown (name : List Char) := given.contains 'A' || name.head? != some '.'
    onEach files (fun files path =>
      match files.find path with
      | .ok (.directory _) =>
        let names := (sortTexts (namesIn files path)).filter isShown
        { files, output := names.flatMap (· ++ ['\n']) }
      | .ok _ => { files, output := ofString (path ++ "\n") }
      | .error e => fails files s!"{name}: cannot access '{path}': {e.reason}" 2)
      (if paths.isEmpty then ["."] else paths)

end CallGuard.Script
