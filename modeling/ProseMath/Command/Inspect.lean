import ProseMath.Command.Source
import ProseMath.Document.Listing
import ProseMath.Expr.Printer

/-!
# Looking into a file

The tokens of a source file, its tree, or its equations in source form.
-/

namespace ProseMath.Command

variable {m : Type → Type} [Monad m] [Host m]

/-- The line about a token: kind, offset and text in columns. -/
def tokenLine (token : Token) : Text :=
  Text.padRight 12 token.kind.name.toList ++ [' '] ++ Text.padLeft 5 (Text.ofInt token.offset) ++
    "  ".toList ++ Text.quoted token.text ++ ['\n']

/-- Lists the tokens of a file. -/
def listTokens (input : Text) : Action m Unit := do
  let content ← readSource input
  let _ ← (Host.print ((tokenize (Text.decode content)).flatMap tokenLine) : m Bool)

/-- The lines of the equations of a document, in source form. -/
def equationLines (d : Document) : Text :=
  d.blocks.flatMap fun block =>
    match block with
    | .equation e => e.print ++ ['\n']
    | _ => []

/-- Lists the tree of a file, or only its equations in source form. -/
def listTree (input : Text) (equationsOnly : Bool) : Action m Unit := do
  let content ← readSource input
  let document ← parseSource ("could not parse ".toList ++ input) content
  let _ ← (Host.print
    (if equationsOnly then equationLines document else Listing.document document) : m Bool)

end ProseMath.Command
