import ProseMath.Latex.Brace
import ProseMath.Latex.Emphasis
import ProseMath.Latex.Symbol

/-!
# Paragraphs

A paragraph with a line that starts with a hyphen is written as lists and the text between them, any
other as its lines with explicit breaks between them.
-/

namespace ProseMath.Latex

/-- Whether a line is a list item. -/
def isItem (line : Text) : Bool := (Text.trim line).head? = some '-'

/-- Lines one below another, with an explicit break between two of them. -/
def joinLines : List Text → Text
  | [] => []
  | [line] => line ++ ['\n']
  | line :: next :: rest => line ++ "\\newline\n".toList ++ joinLines (next :: rest)

/-- A line of prose. -/
def proseLine (line : Text) : Text := escapeBraces (textSymbols line)

/-- The line of a list item, given without its hyphen. -/
def itemLine (item : Text) : Text :=
  "  \\item ".toList ++ escapeBraces (itemSymbols (textSymbols (Text.trim item))) ++ ['\n']

/-- The first line of a list. -/
def listBegin : Text := "\\begin\x7bitemize\x7d\n".toList

/-- The last line of a list. -/
def listEnd : Text := "\\end\x7bitemize\x7d\n".toList

/-- Where the writing of lists and the text between them stands. -/
structure ListLayout where
  /-- What has been written. -/
  out : Text
  /-- Lines of text that wait for the end of their run. -/
  pending : List Text
  /-- Whether a list has been begun and not ended. -/
  inList : Bool

namespace ListLayout

/-- Nothing written. -/
def start : ListLayout := ⟨[], [], false⟩

/-- A list item; it ends a run of text and goes on with a list or begins one. -/
def item (s : ListLayout) (text : Text) : ListLayout :=
  { out := s.out ++ joinLines s.pending ++ (if s.inList then [] else listBegin) ++ itemLine text
    pending := []
    inList := true }

/-- A line of text; it ends a list. -/
def text (s : ListLayout) (line : Text) : ListLayout :=
  { out := s.out ++ (if s.inList then listEnd else [])
    pending := s.pending ++ [proseLine line]
    inList := false }

/-- A line, which is skipped if it is blank. -/
def line (s : ListLayout) (line : Text) : ListLayout :=
  match Text.trim line with
  | [] => s
  | c :: rest => if c = '-' then s.item rest else s.text (c :: rest)

/-- All that is to be written. -/
def finish (s : ListLayout) : Text :=
  s.out ++ joinLines s.pending ++ (if s.inList then listEnd else []) ++ ['\n']

end ListLayout

/-- Lines as lists and the text between them. -/
def list (lines : List Text) : Text := (lines.foldl ListLayout.line .start).finish

/-- A paragraph. -/
def paragraph (content : Text) : Text :=
  let lines := Text.lines (italicMarkers (italics (mathMarkers content)))
  if lines.any isItem then list lines
  else
    let kept := (lines.map Text.trim).filter fun line => !line.isEmpty
    joinLines (kept.map proseLine) ++ ['\n']

end ProseMath.Latex
