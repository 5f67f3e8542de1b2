import ProseMath.Document.Parser
import ProseMath.Host
import ProseMath.Text.Encoding

/-!
# Source files

Reading a source file and what it says, for all commands that are given one.
-/

namespace ProseMath.Command

variable {m : Type → Type} [Monad m] [Host m]

/-- The bytes of a source file, which must not be a directory. -/
def readSource (path : Text) : Action m ByteArray := do
  if ← Action.ofSystem "could not open input" (Host.stat path) then
    throw (.of (.inputIsDirectory path))
  Action.ofSystem "could not read input" (Host.read path)

/-- The document in the bytes of a source; a fault in it is reported under a context. -/
def parseSource (context : Text) (content : ByteArray) : Action m Document :=
  Action.ofExcept [context] .source (Document.parse (Text.decode content))

end ProseMath.Command
