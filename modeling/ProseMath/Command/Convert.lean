import ProseMath.Command.Source
import ProseMath.Text.ByteSize

/-!
# Converting a file

A source file is read, read as a document and written as LaTeX next to it or into the output
directory, which is created if need be. The log has a line about what was read and one about what
was written.
-/

namespace ProseMath.Command

variable {m : Type → Type} [Monad m] [Host m]

/-- Converts a file and gives the path of the result. -/
def convert (settings : Settings) (log : Text → m Unit) (input : Text) : Action m Text := do
  let content ← readSource input
  log ("read ".toList ++ input ++ [' '] ++ Text.ofByteSize content.size)
  let document ← parseSource ("could not parse ".toList ++ input) content
  let latex ← Action.ofExcept ["could not transpile ".toList ++ input] Latex.WriteFailure.cause
    (Latex.document settings.options document)
  let output := settings.outputPath input
  let bytes := Text.encode latex
  Action.ofSystem "could not create output directory" (Host.makeDirectories (Path.directory output))
  Action.ofSystem "could not write output" (Host.write output bytes)
  log ("wrote ".toList ++ output ++ " (".toList ++ Text.ofByteSize bytes.size ++ ", ".toList ++
    Text.ofNat document.blocks.length ++ " blocks)".toList)
  return output

end ProseMath.Command
