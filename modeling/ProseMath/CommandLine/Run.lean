import ProseMath.Command.Convert
import ProseMath.Command.Inspect
import ProseMath.Command.Session
import ProseMath.CommandLine.Invocation

/-!
# Running a command line
-/

namespace ProseMath.CommandLine

variable {m : Type → Type} [Monad m] [Host m]

/-- What the version command says. -/
structure Release where
  version : Text
  commit : Text
  date : Text
  toolchain : Text

namespace Release

/-- The current release, built with a toolchain. -/
def current (toolchain : Text) : Release :=
  ⟨"0.1.0".toList, "development".toList, "unknown".toList, toolchain⟩

/-- The lines about a release. -/
def describe (r : Release) : Text :=
  "htex v".toList ++ r.version ++ "\n  Git Commit: ".toList ++ r.commit ++
    "\n  Build Date: ".toList ++ r.date ++ "\n  Go Version: ".toList ++ r.toolchain ++ ['\n']

end Release

/-- The settings changed as flags say. -/
def FlagValues.apply (flags : FlagValues) (s : Settings) : Settings :=
  { s with
    outputDirectory := if flags.output.isEmpty then s.outputDirectory else flags.output
    packages := if flags.packages.isEmpty then s.packages
      else Latex.Package.parseList flags.packages
    verbose := s.verbose || flags.verbose }

/-- The settings for a command. -/
def loadSettings (flags : FlagValues) : Action m Settings := do
  let s ← ExceptT.adapt (Failure.within "could not load config".toList)
    (if flags.config.isEmpty then Settings.loadFromEnvironment else Settings.load flags.config :
      Action m Settings)
  return flags.apply s

/-- A line of the log on standard error, if the settings ask for it. -/
def logLine (s : Settings) (line : Text) : m Unit := do
  if s.verbose then
    Host.report ("htex: ".toList ++ (← Host.clock) ++ [' '] ++ line ++ ['\n'])

/-- Does what is asked for. -/
def execute (release : Release) (i : Invocation) : Action m Unit :=
  match i.command with
  | .convert =>
    match i.arguments with
    | [] => throw (.of .inputNotGiven)
    | input :: _ => do
      let s ← loadSettings i.flags
      let _ ← Command.convert s (logLine s) input
  | .tokens => Command.listTokens (i.arguments.headD [])
  | .ast => Command.listTree (i.arguments.headD []) i.flags.source
  | .repl => do Command.runScript (← loadSettings i.flags).options
  | .version => do
    let _ ← (Host.print release.describe : m Bool)

/-- Runs a command line; tells whether it succeeded. A failure is reported. -/
def run (release : Release) (arguments : List Text) : m Bool := do
  let action : Action m Unit := do
    match Invocation.parse arguments with
    | .ok i => execute release i
    | .error e => throw (.of (.usage e))
  match ← action.run with
  | .ok _ => return true
  | .error f =>
    Host.report ("Error: ".toList ++ f.message ++ ['\n'])
    return false

end ProseMath.CommandLine
