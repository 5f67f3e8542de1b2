import ProseMath.Host
import ProseMath.Settings.Decode

/-!
# Finding settings

Settings come from the file that a variable names, or else from the first of the usual files that is
there. Without any of them the usual settings are taken.
-/

namespace ProseMath.Settings

variable {m : Type → Type} [Monad m] [Host m]

/-- The version of TOML that is read: the later one if a variable asks for it, whatever its
value. -/
def tomlVersion : m Toml.Version := do
  return if (← Host.lookup? "BURNTSUSHI_TOML_110".toList).isSome then .v11 else .v10

/-- The settings in a file's content. References to environment variables in the output directory
are replaced. -/
def parse (format : Format) (content : ByteArray) : Action m Settings := do
  match Draft.decode? (← (tomlVersion : m Toml.Version)) format content with
  | none => throw (.of (.settings format))
  | some draft =>
    let s := draft.complete
    let directory ← (Environment.expand Host.lookup s.outputDirectory : m Text)
    return { s with outputDirectory := directory }

/-- The settings in a file, whose name may refer to environment variables. -/
def load (path : Text) : Action m Settings := do
  let path ← (Environment.expand Host.lookup path : m Text)
  let content ← Action.ofSystem "failed to read config" (Host.read path)
  parse (Format.detect path) content

/-- The home directory, if one is set. -/
def home? : m (Option Text) := do
  let home ← Host.lookup "HOME".toList
  return if home.isEmpty then none else some home

/-- The usual settings files, given the home directory. -/
def searchPathsFor (home : Option Text) : List Text :=
  ["./htex.toml".toList, "./htex.yaml".toList, "./htex.yml".toList] ++
    match home with
    | some home => [Path.join home ".config/htex/config.toml".toList]
    | none => []

/-- The usual settings files. -/
def searchPaths : m (List Text) := do return searchPathsFor (← home?)

/-- The first of some files that is there. -/
def firstExisting : List Text → m (Option Text)
  | [] => return none
  | path :: rest => do
    match ← Host.stat path with
    | .ok _ => return some path
    | .error _ => firstExisting rest

/-- The settings that the environment asks for. -/
def loadFromEnvironment : Action m Settings := do
  let path ← (Host.lookup "HTEX_CONFIG".toList : m Text)
  if path.isEmpty then
    match ← (do firstExisting (← searchPaths) : m (Option Text)) with
    | some path => load path
    | none => return .default
  else load path

end ProseMath.Settings
