import ProseMath.CommandLine.Run
import Std.Time

/-!
# The command line program

The host of the program is the system itself.
-/

namespace ProseMath

namespace Native

/-- Why a system operation failed, by the number of its error. -/
def reason (e : IO.Error) : FileReason :=
  match e with
  | .noFileOrDirectory _ _ _ => .missing
  | .inappropriateType _ code details | .alreadyExists _ code details =>
    if code = 20 then .notDirectory else if code = 21 then .isDirectory
    else .other details.toList
  | e => .other (toString e).toList

/-- The outcome of a system operation. -/
def attempt {α : Type} (operation : FileOperation) (path : Text) (action : IO α) :
    IO (Except PathError α) := do
  match ← action.toBaseIO with
  | .ok value => return .ok value
  | .error e => return .error ⟨operation, path, reason e⟩

/-- Whether a path leads to a directory. -/
def isDirectory (path : Text) : IO Bool := do
  let entry : IO.FS.DirEntry := { root := ".", fileName := String.ofList path }
  return (← entry.path.metadata).type == .dir

/-- The content of a file. -/
def readFile (path : Text) : IO (Except PathError ByteArray) := do
  match ← attempt .openFile path (IO.FS.readBinFile (String.ofList path)) with
  | .error ⟨_, path, .isDirectory⟩ => return .error ⟨.read, path, .isDirectory⟩
  | result => return result

/-- Makes the directories on the way to a path. -/
def makeDirectories (path : Text) : IO (Except PathError Unit) := do
  for ancestor in Path.ancestors path do
    match ← (isDirectory ancestor).toBaseIO with
    | .ok true => pure ()
    | .ok false => return .error ⟨.makeDirectory, ancestor, .notDirectory⟩
    | .error _ =>
      match ← attempt .makeDirectory ancestor (IO.FS.createDir (String.ofList ancestor)) with
      | .ok _ => pure ()
      | .error e => return .error e
  return .ok ()

/-- All that is left of a stream. -/
partial def readAll (stream : IO.FS.Stream) (start : ByteArray) : IO ByteArray := do
  let chunk ← stream.read 65536
  if chunk.isEmpty then return start else readAll stream (start ++ chunk)

/-- A number of the clock, with two digits. -/
def clockField (n : Int) : Text := (Text.ofInt n).leftpad 2 '0'

/-- The time of the day. -/
def clock : IO Text := do
  let time ← Std.Time.PlainTime.now
  return clockField time.hour.val ++ ':' :: clockField time.minute.val ++
    ':' :: clockField time.second.val

end Native

instance : Host IO where
  stat path := Native.attempt .stat path (Native.isDirectory path)
  read := Native.readFile
  makeDirectories := Native.makeDirectories
  write path content :=
    Native.attempt .openFile path (IO.FS.writeBinFile (String.ofList path) content)
  lookup? name := do return (← IO.getEnv (String.ofList name)).map String.toList
  input := do
    match ← (do Native.readAll (← IO.getStdin) .empty : IO ByteArray).toBaseIO with
    | .ok content => return .ok content
    | .error e => return .error (toString e).toList
  print t := do
    match ← (do (← IO.getStdout).putStr (String.ofList t) : IO Unit).toBaseIO with
    | .ok _ => return true
    | .error _ => return false
  report t := do (← IO.getStderr).putStr (String.ofList t)
  clock := Native.clock

namespace Native

/-- Reads lines at the prompt up to the end of the input. -/
partial def promptLoop (history : Command.History) : IO Command.History := do
  let stdout ← IO.getStdout
  stdout.putStr (String.ofList Command.prompt)
  stdout.flush
  let line ← (← IO.getStdin).getLine
  if line.isEmpty then return history
  let bytes := line.toUTF8.toList
  let content := if bytes.getLast? = some Command.lineFeed then bytes.dropLast else bytes
  promptLoop (← Command.enter history content)

/-- A session on the terminal. -/
def session : IO Unit := do
  let path ← Command.historyPath?
  let history ← promptLoop (← Command.loadHistory path)
  Command.saveHistory path history

/-- Runs a command line. A session is held on a terminal only. -/
def run (arguments : List Text) : IO Bool := do
  let release := CommandLine.Release.current "lean".toList
  match CommandLine.Invocation.parse arguments with
  | .ok i =>
    if i.command = .repl ∧ (← (← IO.getStdin).isTty) then
      match ← (CommandLine.loadSettings i.flags : Action IO Settings).run with
      | .ok _ => session; return true
      | .error _ => CommandLine.run release arguments
    else CommandLine.run release arguments
  | .error _ => CommandLine.run release arguments

end Native

end ProseMath

/-- The program. -/
def main (arguments : List String) : IO UInt32 := do
  return if ← ProseMath.Native.run (arguments.map String.toList) then 0 else 1
