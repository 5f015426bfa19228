/-!
The arguments of a command. Options start with two hyphens and a name, or with one
hyphen and letters; a letter's value may follow it at once. After two hyphens alone
all arguments are words.

* `OptionSpec`, `Interface`: what a command accepts.
* `Stop`: why arguments are read no further.
* `Interface.scan`: the options and words that are given. They are read from left
  to right, and the first reason to stop counts.
-/

namespace CallGuard.Command

/-- Why arguments are read no further. -/
inductive Stop where
  /-- They are not accepted. -/
  | misuse
  /-- They ask for help. -/
  | help
  /-- They ask for the version. -/
  | version
  deriving DecidableEq, Repr

/-- An option. -/
structure OptionSpec where
  /-- The name after two hyphens. -/
  name : String
  /-- The letter after one hyphen. -/
  letter : Option Char := none
  /-- Which values it takes; a flag takes none. -/
  accepts : Option (String → Bool) := none
  /-- Whether it may be given more than once. -/
  repeatable : Bool := false
  /-- What it leads to at once, if it is no part of the command. -/
  stop : Option Stop := none

/-- What a command accepts. -/
structure Interface where
  /-- The options. -/
  options : List OptionSpec
  /-- The largest number of words. -/
  words : Nat := 0
  /-- Whether the first word names a command, to which all after it belongs. -/
  hasCommands : Bool := false

/-- What is given. -/
structure Given where
  /-- The options by name, with their values, in order. -/
  options : List (String × String) := []
  /-- The words. -/
  words : List String := []
  deriving DecidableEq, Repr

namespace Given

/-- Whether an option is given. -/
def has (g : Given) (name : String) : Bool :=
  g.options.any (·.1 == name)

/-- The values of an option. -/
def values (g : Given) (name : String) : List String :=
  (g.options.filter (·.1 == name)).map (·.2)

/-- The first value of an option. -/
def value? (g : Given) (name : String) : Option String :=
  (g.values name).head?

/-- Enters an option with its value; that of a flag is empty. -/
def add (g : Given) (o : OptionSpec) (value : String) : Except Stop Given :=
  match o.stop with
  | some stop => .error stop
  | none =>
    if g.has o.name && !o.repeatable then .error .misuse
    else if (o.accepts.map (· value)).getD true then
      .ok { g with options := g.options ++ [(o.name, value)] }
    else .error .misuse

end Given

/-! ### Reading arguments -/

/-- What an argument looks like. -/
inductive Shape where
  /-- Two hyphens alone. -/
  | separator
  /-- The name of an option, and a value after an equals sign. -/
  | long (name : String) (value : Option String)
  /-- The letters after one hyphen. -/
  | short (letters : List Char)
  /-- Anything else, such as a single hyphen. -/
  | word
  deriving DecidableEq, Repr

/-- What an argument looks like. -/
def Shape.of (argument : String) : Shape :=
  match argument.toList with
  | ['-', '-'] => .separator
  | '-' :: '-' :: cs =>
    let name := String.ofList (cs.takeWhile (· != '='))
    match cs.dropWhile (· != '=') with
    | _ :: value => .long name (some (String.ofList value))
    | [] => .long name none
  | '-' :: c :: cs => .short (c :: cs)
  | _ => .word

namespace Interface

/-- The option of a name. -/
def named? (i : Interface) (name : String) : Option OptionSpec :=
  i.options.find? (·.name == name)

/-- The option of a letter. -/
def lettered? (i : Interface) (letter : Char) : Option OptionSpec :=
  i.options.find? (·.letter == some letter)

/-- Enters words, of which none may be empty. -/
def addWords (i : Interface) (g : Given) (words : List String) : Except Stop Given :=
  let all := g.words ++ words
  if all.length ≤ i.words && !words.contains "" then .ok { g with words := all }
  else .error .misuse

/-- Reads letters after one hyphen. What follows a letter that takes a value is its
value, if something follows; without that the option is left over. -/
def scanLetters (i : Interface) : List Char → Given → Except Stop (Given × Option OptionSpec)
  | [], g => .ok (g, none)
  | c :: cs, g =>
    match i.lettered? c with
    | none => .error .misuse
    | some o =>
      if o.accepts.isNone then
        match g.add o "" with
        | .ok g => i.scanLetters cs g
        | .error stop => .error stop
      else
        match cs with
        | [] => .ok (g, some o)
        | '=' :: value => (g.add o (String.ofList value)).map (·, none)
        | value => (g.add o (String.ofList value)).map (·, none)

/-- Reads one argument. An option that takes a value and has none is left over. -/
def scanOne (i : Interface) (argument : String) (g : Given) :
    Except Stop (Given × Option OptionSpec) :=
  match Shape.of argument with
  | .long name value =>
    match i.named? name with
    | none => .error .misuse
    | some o =>
      match o.accepts, value with
      | none, none => (g.add o "").map (·, none)
      | none, some _ => .error .misuse
      | some _, some value => (g.add o value).map (·, none)
      | some _, none => .ok (g, some o)
  | .short letters => i.scanLetters letters g
  | _ => (i.addWords g [argument]).map (·, none)

/-- Reads arguments; `pending` is an option whose value comes next. The result also
has the arguments that belong to a command. -/
def scanFrom (i : Interface) :
    Option OptionSpec → List String → Given → Except Stop (Given × List String)
  | none, [], g => .ok (g, [])
  | some _, [], _ => .error .misuse
  | some o, argument :: rest, g =>
    match Shape.of argument with
    | .word =>
      match g.add o argument with
      | .ok g => i.scanFrom none rest g
      | .error stop => .error stop
    | _ => .error .misuse
  | none, argument :: rest, g =>
    if Shape.of argument = .separator then (i.addWords g rest).map (·, [])
    else if i.hasCommands && Shape.of argument == .word then .ok (g, argument :: rest)
    else
      match i.scanOne argument g with
      | .ok (g, pending) => i.scanFrom pending rest g
      | .error stop => .error stop

/-- The options and words that are given, and the arguments of a command. -/
def scan (i : Interface) (arguments : List String) : Except Stop (Given × List String) :=
  i.scanFrom none arguments {}

end Interface

end CallGuard.Command
