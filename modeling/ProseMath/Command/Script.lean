import ProseMath.Command.Source

/-!
# Fragments and scripts

A fragment is a piece of source on its own, converted without preamble. A script is all of standard
input, converted to a complete document on standard output.
-/

namespace ProseMath.Command

variable {m : Type → Type} [Monad m] [Host m]

/-- Converts a piece of source without preamble. -/
def fragment (t : Text) : Except Failure Text :=
  match Document.parse (t ++ ['\n']) with
  | .error e => .error (.of (.source e))
  | .ok d =>
    match Latex.body d with
    | .ok latex => .ok latex
    | .error e => .error (.of e.cause)

/-- Converts standard input to a complete document. -/
def runScript (options : Latex.Options) : Action m Unit := do
  match ← (Host.input : m (Except Text ByteArray)) with
  | .error reason => throw ⟨["could not read input".toList], .inputFailed reason⟩
  | .ok content =>
    let document ← parseSource "could not parse input".toList content
    let latex ← Action.ofExcept ["could not transpile input".toList] Latex.WriteFailure.cause
      (Latex.document options document)
    if !(← (Host.print latex : m Bool)) then throw (.of .outputClosed)

end ProseMath.Command
