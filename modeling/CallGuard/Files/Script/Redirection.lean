import CallGuard.Files.Script.Expansion

/-!
Where the streams of commands go.

* `Script.State.openFile`: opens a file for a stream.
* `Script.State.redirect`: does what redirections ask for.
-/

namespace CallGuard.Script

/-- Why a file cannot be opened. -/
def openReason (opening : Opening) (e : IoError) : String :=
  if e = .notFound ∨ e = .notDirectory then
    if opening = .read then "No such file" else "Directory nonexistent"
  else e.reason

namespace State

/-- Opens a file for a stream; it is there afterwards, and empty if it is to be
written from its start. -/
def openFile (s : State) (stream : Nat) (opening : Opening) (path : String) :
    Except IoError State := do
  let send (s : State) (sink : Sink) : State := { s with streams := s.streams.send stream sink }
  match opening with
  | .read => return { s with streams := { s.streams with input := ofBytes (← s.files.read path) } }
  | _ =>
    match s.files.find path with
    | .ok (.device .output) => return send s (s.sink 1)
    | .ok (.device .errors) => return send s (s.sink 2)
    | .ok (.device .full) => return send s .full
    | .ok (.device _) => return send s .nowhere
    | place =>
      let keep := opening == .append && place.toBool
      let files ← s.files.write path (← if keep then s.files.read path else pure [])
      match files.find path with
      | .ok (.file key _) => return send { s with files } (.file key)
      | _ => return send { s with files } .nowhere

/-- Sends a stream to where another one goes, or nowhere. -/
def duplicate (s : State) (line stream : Nat) (target : Option Nat) : State × Bool :=
  match target with
  | none => ({ s with streams := s.streams.send stream .nowhere }, true)
  | some n =>
    match s.streams.sink? n with
    | some sink => ({ s with streams := s.streams.send stream sink }, true)
    | none =>
      if n = 0 then (s, true)
      else (s.complainAt line s!"{n}: Bad file descriptor".toList, false)

/-- Does what redirections ask for, in order, until one of them fails. -/
def redirect (s : State) (f : Filling) : List Redirect → State × Bool
  | [] => (s, true)
  | .duplicate stream target :: rest =>
    let (s, done) := s.duplicate f.line stream target
    if done then s.redirect f rest else (s, false)
  | .here word :: rest =>
    let (text, s) := f.text word s
    if s.isGoing then ({ s with streams := { s.streams with input := text } }).redirect f rest
    else (s, false)
  | .file stream opening word :: rest =>
    let (path, s) := f.text word s
    if s.isGoing then
      match s.openFile stream opening (pathOf path) with
      | .ok s => s.redirect f rest
      | .error e =>
        let verb := if opening = .read then "open" else "create"
        let text := s!"cannot {verb} ".toList ++ path ++ s!": {openReason opening e}".toList
        (s.complainAt f.line text, false)
    else (s, false)

end State

/-- Whether a redirection changes what can be read. -/
def Redirect.changesInput : Redirect → Bool
  | .file stream opening _ => stream == 0 || opening == .read
  | .duplicate stream _ => stream == 0
  | .here _ => true

namespace State

/-- Takes streams back to what they were before redirections. -/
def restore (s : State) (before : Streams) (redirects : List Redirect) : State :=
  let input := if redirects.any Redirect.changesInput then before.input else s.streams.input
  { s with streams := { before with input } }

end State

end CallGuard.Script
