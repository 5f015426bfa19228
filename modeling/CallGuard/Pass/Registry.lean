import CallGuard.Pass.Standard
import CallGuard.Text.Quoted

/-!
Passes by name. A registry lists passes in the order in which they were
registered; a later one of the same name takes the place of the earlier one.

* `Registry.create`: a new pass of a name.
* `Registry.pipeline`: a pipeline of passes by their names.
* `Registry.builtin`: the registry with the profiler.
-/

namespace CallGuard

/-- Making passes may use files. -/
abbrev Making := EStateM PassError Files

/-- A registered pass. -/
structure PassInfo where
  /-- What the pass is called in lists. -/
  description : String
  /-- Makes a new pass. -/
  create : ProfilerConfig → Making StandardPass

/-- Registered passes by name. -/
abbrev Registry := OrderedMap PassInfo

namespace Registry

/-- Registers a pass. -/
def register (r : Registry) (name : String) (info : PassInfo) : Registry :=
  r.insert name info

/-- The names and descriptions, in order. -/
def list (r : Registry) : List (String × String) :=
  r.entries.map fun (name, info) => (name, info.description)

/-- Makes a new pass of a name. -/
def create (r : Registry) (config : ProfilerConfig) (name : String) : Making StandardPass :=
  match r.find? name with
  | some info => info.create config
  | none => throw (.unknownPass name)

/-- Makes a pipeline of new passes. -/
def pipeline (r : Registry) (config : ProfilerConfig) (names : List String) :
    Making (Pipeline StandardState) :=
  if names.isEmpty then throw .emptyPipeline else names.mapM (r.create config)

/-- A registry in words. -/
def describe (r : Registry) : String :=
  let one := fun (name, description) =>
    "PassInfo \x7b name: " ++ Text.quote name ++ ", description: " ++ Text.quote description ++
      ", .. \x7d"
  "PassRegistry \x7b passes: [" ++ ", ".intercalate (r.list.map one) ++ "] \x7d"

end Registry

/-- Makes a profiler. The file for its report is made, or emptied, at once, and keeps
back what is written; the error stream does not. -/
def Profiler.make (config : ProfilerConfig) : Making StandardPass := do
  let pass := (StandardState.profiler (.ofConfig config)).pass
  match config.output with
  | none => return pass
  | some path =>
    match (← get).write path [] with
    | .ok files =>
      set files
      return { pass with outlet := { capacity := Outlet.fileCapacity } }
    | .error e => throw (.io e)

/-- The registry with the profiler. -/
def Registry.builtin : Registry :=
  OrderedMap.empty.insert Profiler.passName ⟨Profiler.passDescription, Profiler.make⟩

end CallGuard
