import ProseMath.Latex.Formula
import ProseMath.Latex.Package
import ProseMath.Latex.Prose

/-!
# Documents as LaTeX

A document is written piece by piece into a sink: the class, the packages, the beginning of the
document, each block and the end. A sink may fail after some writes; what it has taken up to then
stays written.
-/

namespace ProseMath.Latex

/-! ## The preamble -/

/-- What the preamble says. -/
structure Options where
  documentClass : Text
  packages : List Package
deriving DecidableEq, Repr

/-- The document class that is taken where none is given. -/
def defaultClass : Text := "article".toList

/-- The packages that are loaded where no list is given. -/
def defaultPackages : List Package :=
  [⟨"inputenc".toList, "utf8".toList⟩, ⟨"amsmath".toList, []⟩, ⟨"amssymb".toList, []⟩]

namespace Options

/-- The options that are taken where none are given. -/
def default : Options := ⟨defaultClass, defaultPackages⟩

/-- The line with the document class. -/
def classLine (o : Options) : Text :=
  let name := if o.documentClass.isEmpty then defaultClass else o.documentClass
  "\\documentclass\x7b".toList ++ name ++ "\x7d\n".toList

end Options

/-- The text between the preamble and the blocks. -/
def documentBegin : Text := "\n\\begin\x7bdocument\x7d\n\n".toList

/-- The text behind the blocks. -/
def documentEnd : Text := "\\end\x7bdocument\x7d\n".toList

/-! ## Blocks -/

/-- A block, with an empty line behind it. -/
def block : Block → Except MissingNode Text
  | .missing => .error .block
  | .paragraph content => .ok (paragraph content)
  | .heading content => .ok ("\\section\x7b".toList ++ content ++ "\x7d\n\n".toList)
  | .equation e => display e

/-! ## Sinks -/

/-- Where text is written to. -/
structure Sink where
  written : Text
  /-- How many more writes succeed; none if all do. -/
  remaining : Option Nat
deriving DecidableEq, Repr

/-- A reason why a document is not written completely. -/
inductive WriteFailure where
  | missing (node : MissingNode)
  /-- The sink takes no more text. -/
  | closed
deriving DecidableEq, Repr

/-- Writing into a sink. -/
abbrev Writing := ExceptT WriteFailure (StateM Sink)

/-- Writes a piece of text in one go. -/
def write (t : Text) : Writing Unit := do
  let sink ← get
  match sink.remaining with
  | none => set (Sink.mk (sink.written ++ t) none)
  | some 0 => throw .closed
  | some (n + 1) => set (Sink.mk (sink.written ++ t) (some n))

/-- Writes a block in one go. -/
def writeBlock (b : Block) : Writing Unit :=
  match block b with
  | .ok t => write t
  | .error node => throw (.missing node)

/-- Writes the blocks of a document. -/
def writeBlocks (d : Document) : Writing Unit := d.blocks.forM writeBlock

/-- Writes a whole document. -/
def writeDocument (o : Options) (d : Document) : Writing Unit := do
  write o.classLine
  o.packages.forM fun package => write (package.line ++ ['\n'])
  write documentBegin
  writeBlocks d
  write documentEnd

/-- The text that is written if nothing fails. -/
def collect (w : Writing Unit) : Except WriteFailure Text :=
  match w.run.run ⟨[], none⟩ with
  | (.ok _, sink) => .ok sink.written
  | (.error e, _) => .error e

/-- The blocks of a document without preamble. -/
def body (d : Document) : Except WriteFailure Text := collect (writeBlocks d)

/-- A whole document. -/
def document (o : Options) (d : Document) : Except WriteFailure Text := collect (writeDocument o d)

end ProseMath.Latex
