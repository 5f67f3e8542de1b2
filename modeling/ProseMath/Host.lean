import ProseMath.Failure
import ProseMath.Environment

/-!
# Hosts

What the commands need of the system they run on. `World` is a host that is a plain value: files,
variables, standard input and what has been written so far.
-/

namespace ProseMath

/-- A system that commands run on. -/
class Host (m : Type → Type) where
  /-- Whether a path leads to a directory. -/
  stat : Text → m (Except PathError Bool)
  read : Text → m (Except PathError ByteArray)
  makeDirectories : Text → m (Except PathError Unit)
  write : Text → ByteArray → m (Except PathError Unit)
  /-- The value of an environment variable, if it is set. -/
  lookup? : Text → m (Option Text)
  /-- All of standard input, or why it cannot be read. -/
  input : m (Except Text ByteArray)
  /-- Writes to standard output; tells whether it was taken. -/
  print : Text → m Bool
  /-- Writes to standard error. -/
  report : Text → m Unit
  /-- The time of the day for log lines. -/
  clock : m Text

/-- The value of an environment variable, empty if it is not set. -/
def Host.lookup {m : Type → Type} [Monad m] [Host m] (name : Text) : m Text := do
  return (← Host.lookup? name).getD []

/-- Commands on a host: they may fail. -/
abbrev Action (m : Type → Type) := ExceptT Failure m

namespace Action

variable {m : Type → Type} [Monad m]

/-- The value of a system operation; its failure gets a context. -/
def ofSystem {α : Type} (context : String) (operation : m (Except PathError α)) : Action m α := do
  match ← (operation : m (Except PathError α)) with
  | .ok value => return value
  | .error e => throw ⟨[context.toList], .file e⟩

/-- A value or a failure for a cause. -/
def ofExcept {α ε : Type} (context : List Text) (cause : ε → Cause) (r : Except ε α) :
    Action m α :=
  match r with
  | .ok value => return value
  | .error e => throw ⟨context, cause e⟩

end Action

/-- A system as a value. -/
structure World where
  files : FileTree
  environment : List (Text × Text)
  input : Except Text ByteArray
  output : Latex.Sink
  errors : Text
  time : Text

namespace World

/-- The value of an environment variable, if it is set. -/
def valueOf? (w : World) (name : Text) : Option Text :=
  (w.environment.find? fun entry => entry.1 = name).map Prod.snd

/-- Text written to a sink, and whether it was taken. -/
def take (sink : Latex.Sink) (t : Text) : Bool × Latex.Sink :=
  match (Latex.write t).run.run sink with
  | (.ok _, sink) => (true, sink)
  | (.error _, sink) => (false, sink)

/-- The result of an operation that may change the files. -/
def change (w : World) (r : Except PathError FileTree) : Except PathError Unit × World :=
  match r with
  | .ok files => (.ok (), { w with files := files })
  | .error e => (.error e, w)

end World

instance : Host (StateM World) where
  stat path := do return (← get).files.stat path
  read path := do return (← get).files.read path
  makeDirectories path := modifyGet fun w => w.change (w.files.makeDirectories path)
  write path content := modifyGet fun w => w.change (w.files.write path content)
  lookup? name := do return (← get).valueOf? name
  input := do return (← get).input
  print t := modifyGet fun w =>
    ((World.take w.output t).1, { w with output := (World.take w.output t).2 })
  report t := modify fun w => { w with errors := w.errors ++ t }
  clock := do return (← get).time

end ProseMath
