/-!
Why files and programs could not be used.

* `IoError`: the causes.
* `IoError.message`: their wording, with the number that the system gives them.
-/

namespace CallGuard

/-- Why a file or a program could not be used. -/
inductive IoError where
  | notFound
  /-- A program that cannot be run. -/
  | badProgram
  | permissionDenied
  | notDirectory
  | isDirectory
  /-- There is no room for what is to be written. -/
  | noSpace
  /-- A name, or a whole path, that is too long. -/
  | nameTooLong
  /-- Programs that need programs to run them, without end. -/
  | tooManyLinks
  /-- A path with a zero byte. -/
  | zeroInPath
  /-- A command line with a zero byte. -/
  | zeroInCommand
  /-- A text file that is no UTF-8. -/
  | notText
  deriving DecidableEq, Repr

namespace IoError

/-- What went wrong, in words. -/
def reason : IoError → String
  | notFound => "No such file or directory"
  | badProgram => "Exec format error"
  | permissionDenied => "Permission denied"
  | notDirectory => "Not a directory"
  | isDirectory => "Is a directory"
  | noSpace => "No space left on device"
  | nameTooLong => "File name too long"
  | tooManyLinks => "Too many levels of symbolic links"
  | zeroInPath => "file name contained an unexpected NUL byte"
  | zeroInCommand => "nul byte found in provided data"
  | notText => "stream did not contain valid UTF-8"

/-- The number of an error of the system. -/
def number? : IoError → Option Nat
  | notFound => some 2
  | badProgram => some 8
  | permissionDenied => some 13
  | notDirectory => some 20
  | isDirectory => some 21
  | noSpace => some 28
  | nameTooLong => some 36
  | tooManyLinks => some 40
  | zeroInPath => none
  | zeroInCommand => none
  | notText => none

/-- The wording of an error. -/
def message (e : IoError) : String :=
  match e.number? with
  | some n => s!"{e.reason} (os error {n})"
  | none => e.reason

end IoError

end CallGuard
