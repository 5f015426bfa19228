import CallGuard.Files.Script.Process

/-!
Running scripts.

* `Script.call`: calls a command by its name.
* `Script.runSimple`: a simple command.
* `Script.step`: a command, given how the commands within it run.
* `Script.eval`: how commands run.
-/

namespace CallGuard.Script

/-! ### Filling in -/

/-- How words of a line are filled in, values within values as deep as a number
says. -/
def filling (run : Runner) (line : Nat) : Nat → Filling
  | 0 => ⟨line, fun _ _ s => ([], s), fun _ s => ([], s)⟩
  | depth + 1 =>
    ⟨line,
      fun start script s =>
        let (text, t) := capture run (runText run false start script) s
        (text, { t with status := s.status, substitution := t.status }),
      (filling run line depth).field⟩

/-- How words of a line are filled in. -/
def fillingAt (run : Runner) (line : Nat) : Filling :=
  filling run line 16

/-! ### Calls -/

/-- Calls a function. -/
def callFunction (run : Runner) (tested : Bool) (body : Node) (arguments : List (List Char))
    (s : State) : State :=
  let t := run tested body
    { s with arguments := s.arguments.take 1 ++ arguments, locals := [], depth := 0 }
  let t := t.locals.foldl (fun t (name, value) => t.rebind name value) t
  { t with
    arguments := s.arguments
    locals := s.locals
    depth := s.depth
    flow := if t.flow = .returning then .going else t.flow }

/-- Runs a text as a part of the script, under a heading for complaints. -/
def runWithin (run : Runner) (tested : Bool) (heading text : List Char) (s : State) : State :=
  let t := runText run tested 1 text { s with status := 0, heading := heading ++ ": ".toList }
  { t with heading := s.heading }

/-- Runs the script in a file as a part of the script. -/
def source (run : Runner) (tested : Bool) (line : Nat) (path : List Char) (s : State) : State :=
  let refuse (text : List Char) := (s.remarkAt line "." text).finish 2
  if !path.contains '/' then refuse (path ++ ": not found".toList)
  else
    match s.files.read (pathOf path) with
    | .error e => refuse ("cannot open ".toList ++ path ++ s!": {openReason .read e}".toList)
    | .ok bytes =>
      let t := runWithin run tested path (ofBytes bytes) s
      { t with flow := if t.flow = .returning then .going else t.flow }

/-- Runs a program in the place of the script. -/
def replaceBy (run : Runner) (line : Nat) (name : List Char) (arguments : List (List Char))
    (s : State) : State :=
  let s := { s with traps := [] }
  match callProgram run name arguments s with
  | .ok (ending, s) => { s with status := ending.code, flow := .ended ending }
  | .error e =>
    let (text, status) := refusal e
    (s.remarkAt line "exec" (name ++ ": ".toList ++ text.toList)).finish status

/-- Shows what a name stands for. -/
def showCommand (name : List Char) (s : State) : State :=
  let text := pathOf name
  let shown (text : List Char) : State := { s.emit 1 (text ++ ['\n']) with status := 0 }
  if (s.functions.lookup name).isSome || (control? text).isSome || isBuiltin text then shown name
  else if name.contains '/' && (s.files.program text).toBool then shown name
  else if Files.systemPrograms.contains text then shown ("/usr/bin/".toList ++ name)
  else { s with status := 127 }

/-- Calls a command that is no function. -/
def callPlain (run : Runner) (line : Nat) (name : List Char) (arguments : List (List Char))
    (s : State) : State :=
  let text := pathOf name
  match control? text, if isBuiltin text then utility? text else none with
  | some control, _ => control s line arguments
  | none, some utility => callUtility line name true utility arguments s
  | none, none =>
    match callProgram run name arguments s with
    | .ok (ending, s) =>
      { s.complain (ending.remark?.elim [] (·.toList ++ ['\n'])) with status := ending.code }
    | .error e =>
      let (text, status) := refusal e
      { s.complainAt line (name ++ ": ".toList ++ text.toList) with status }

/-- Calls a command by its name. -/
def call (run : Runner) (tested : Bool) (line : Nat) (name : List Char)
    (arguments : List (List Char)) (s : State) : State :=
  match pathOf name, arguments with
  | "eval", words => runWithin run tested name ([' '].intercalate words) s
  | ".", path :: _ => source run tested line path s
  | "exec", program :: rest => replaceBy run line program rest s
  | "command", ['-', 'v'] :: rest => showCommand (rest.head?.getD []) s
  | "command", program :: rest => callPlain run line program rest s
  | text, _ =>
    match if endsOnError text then none else s.functions.lookup name with
    | some body => callFunction run tested body arguments s
    | none => callPlain run line name arguments s

/-! ### Simple commands -/

/-- Sets variables, one after the other. -/
def assign (f : Filling) : List (List Char × Word) → State → State
  | [], s => s
  | (name, word) :: rest, s =>
    let (value, s) := f.text word s
    if !s.isGoing then s
    else if s.fixed.contains name then s.fail f.line (name ++ ": is read only".toList)
    else assign f rest (s.bind name value)

/-- Shows a command before it is run. -/
def trace (before : Streams) (names texts : List (List Char)) (s : State) : State :=
  if s.traced then
    let shown := names.map fun name => name ++ '=' :: (s.lookup? name).getD []
    let line := "+ ".toList ++ [' '].intercalate (shown ++ texts) ++ ['\n']
    { ({ s with streams := before }).complain line with streams := s.streams }
  else s

/-- Does what is still to be done as a signal came. -/
def runPending (run : Runner) (s : State) : State :=
  match s.pending with
  | none => s
  | some action =>
    let t := runText run false 1 action { s with pending := none }
    if t.isGoing then { t with status := s.status } else t

/-- Calls a command under variables that are set for it alone. -/
def callWith (run : Runner) (tested : Bool) (line : Nat) (names : List (List Char))
    (old : List (List Char × Option (List Char))) (name : List Char)
    (arguments : List (List Char)) (s : State) : State :=
  let t := call run tested line name arguments { s with exported := names ++ s.exported }
  if names.isEmpty then t
  else if endsOnError (pathOf name) then { t with exported := s.exported }
  else { old.foldl (fun t (name, value) => t.rebind name value) t with exported := s.exported }

/-- Runs a simple command. -/
def runSimple (run : Runner) (tested : Bool) (c : Simple) (s : State) : State :=
  let f := fillingAt run c.line
  let before := s.streams
  let (texts, s) := f.allTexts c.words { s with substitution := 0 }
  if !s.isGoing then s
  else
    let names := c.assignments.map (·.1)
    let old := names.map fun name => (name, s.bindings.lookup name)
    let (s, opened) := s.redirect f c.redirects
    let s := if s.isGoing then trace before names texts (assign f c.assignments s) else s
    if !s.isGoing then s.restore before c.redirects
    else if !opened then
      let s := s.restore before c.redirects
      if (texts.head?.map (endsOnError ∘ pathOf)).getD false then s.finish 2
      else { s with status := 2 }
    else
      match texts with
      | [] => { s with status := s.substitution }.restore before c.redirects
      | [['e', 'x', 'e', 'c']] => { s with status := 0 }
      | name :: arguments =>
        runPending run ((callWith run tested c.line names old name arguments s).restore before
          c.redirects)

/-! ### Compound commands -/

/-- Ends a strict script as a command failed. -/
def State.checked (s : State) (tested : Bool) : State :=
  match s.flow with
  | .ended _ => s
  | _ => if s.strict && !tested && s.status != 0 then s.finish s.status else s

/-- Runs commands of which each reads what the one before it writes. -/
def runPipeline (run : Runner) (tested : Bool) : List Node → State → State
  | [], s => s
  | [node], s => subshell run (run tested node) s
  | node :: rest, s =>
    let (text, s) := capture run (run tested node) s
    if s.isGoing then runPipeline run tested rest { s with streams.input := text } else s

/-- Ends the round of a loop: whether there is another one. -/
def State.endRound (s : State) : State × Bool :=
  match s.flow with
  | .going => (s, true)
  | .leaving (n + 2) again => ({ s with flow := .leaving (n + 1) again }, false)
  | .leaving _ again => ({ s with flow := .going }, again)
  | _ => (s, false)

/-- Runs a loop over texts. -/
def runLoop (body : State → State) (name : List Char) : List (List Char) → State → State
  | [], s => s
  | text :: texts, s =>
    let (s, more) := (body (s.bind name text)).endRound
    if more then runLoop body name texts s else s

/-- Runs a loop while a condition holds, for so many rounds. The status is that of the
last round. -/
def runRepeated (condition body : State → State) (whileFails : Bool) :
    Nat → Nat → State → State
  | 0, _, s => s
  | rounds + 1, status, s =>
    let s := condition s
    if s.isGoing then
      if (s.status == 0) != whileFails then
        let (s, more) := (body s).endRound
        if more then runRepeated condition body whileFails rounds s.status s else s
      else { s with status }
    else s.endRound.1

/-- The largest number of rounds of a loop. -/
def roundLimit : Nat := 100000

/-- Runs a command in a loop. -/
def inLoop (body : State → State) (s : State) : State :=
  { body { s with depth := s.depth + 1 } with depth := s.depth }

/-- Whether a text fits one of several patterns. -/
def fitsAny (f : Filling) (text : List Char) : List Word → State → Bool × State
  | [], s => (false, s)
  | word :: words, s =>
    let (pattern, s) := f.field word s
    if pattern.fits text then (true, s) else fitsAny f text words s

/-- Runs the first command whose pattern fits. -/
def runChoice (run : Runner) (tested : Bool) (f : Filling) (text : List Char) :
    List (List Word × Node) → State → State
  | [], s => { s with status := 0 }
  | (patterns, body) :: arms, s =>
    let (fit, s) := fitsAny f text patterns s
    if fit then
      match body with
      | .sequence [] => { s with status := 0 }
      | _ => run tested body s
    else runChoice run tested f text arms s

/-- Runs a command whose streams are redirected. -/
def runRedirected (run : Runner) (tested : Bool) (line : Nat) (node : Node)
    (redirects : List Redirect) (s : State) : State :=
  let before := s.streams
  let (s, opened) := s.redirect (fillingAt run line) redirects
  let s := if opened then run tested node s else if s.isGoing then { s with status := 2 } else s
  s.restore before redirects

/-! ### Commands -/

/-- Runs a command, given how the commands within it run. -/
def step (run : Runner) (tested : Bool) (node : Node) (s : State) : State :=
  match node with
  | .simple c => (runSimple run tested c s).checked tested
  | .pipeline nodes =>
    { runPipeline run tested nodes s with streams := s.streams }.checked tested
  | .negated node =>
    let s := run true node s
    if s.isGoing then { s with status := if s.status = 0 then 1 else 0 } else s
  | .both first second =>
    let s := run true first s
    if s.isGoing && s.status == 0 then run tested second s else s
  | .either first second =>
    let s := run true first s
    if s.isGoing && s.status != 0 then run tested second s else s
  | .sequence nodes => runAll run tested nodes s
  | .background node =>
    let t := subshell run (run tested node) { s with streams.input := [] }
    { t with status := 0, streams := s.streams }
  | .subshell node => (subshell run (run tested node) s).checked tested
  | .conditional condition consequent otherwise =>
    let s := run true condition s
    if !s.isGoing then s
    else if s.status = 0 then run tested consequent s
    else otherwise.elim { s with status := 0 } (run tested · s)
  | .repeated whileFails condition body =>
    inLoop (runRepeated (run true condition) (run tested body) whileFails roundLimit 0) s
  | .loop line name words body =>
    let (texts, s) := match words with
      | some words => (fillingAt run line).allTexts words s
      | none => (s.arguments.tail, s)
    if !s.isGoing then s
    else inLoop (runLoop (run tested body) name texts)
      (if texts.isEmpty then { s with status := 0 } else s)
  | .choice line subject arms =>
    let f := fillingAt run line
    let (text, s) := f.text subject s
    if s.isGoing then runChoice run tested f text arms s else s
  | .definition name body =>
    { s with
      status := 0
      functions := (name, body) :: s.functions.filter fun (other, _) => other != name }
  | .redirected line node redirects =>
    (runRedirected run tested line node redirects s).checked tested
  | .broken line message => s.fail line ("Syntax error: ".toList ++ message.toList)

/-- How commands run, as deep within each other as a number says. -/
def eval : Nat → Runner
  | 0 => fun _ _ s => s
  | depth + 1 => fun tested node s => step (eval depth) tested node s

/-- How deep commands may stand within each other, functions that call each other
included. -/
def depthLimit : Nat := 10000

end CallGuard.Script
