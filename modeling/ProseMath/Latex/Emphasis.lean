import ProseMath.Latex.Inline

/-!
# Emphasis

Text between two backslashes is italic, text between two asterisks emphasised, both within a line
and outside mathematics only. Two marker words enclose italic text that may go over several lines.
-/

namespace ProseMath.Latex

/-- A command with one argument. -/
def withArgument (command argument : Text) : Text := command ++ '{' :: argument ++ ['}']

/-- Whether a character may stand between two marks. -/
def isMarkable (mark c : Char) : Bool := c ≠ mark ∧ c ≠ '\n'

/-- Non-empty text between two marks in one line made the argument of a command. -/
def wrapMarked (mark : Char) (command : Text) : Text → Text
  | [] => []
  | c :: t =>
    let marked := t.takeWhile (isMarkable mark)
    if c = mark ∧ marked ≠ [] ∧ (t.drop marked.length).head? = some mark then
      withArgument command marked ++ wrapMarked mark command (t.drop (marked.length + 1))
    else c :: wrapMarked mark command t
termination_by t => t.length
decreasing_by all_goals simp only [List.length_cons, List.length_drop]; omega

/-- Italic and emphasised text outside mathematics. -/
def italics (t : Text) : Text :=
  outsideMath (fun piece => wrapMarked '*' "\\emph".toList
    (wrapMarked '\\' "\\textit".toList piece)) t

/-- The marker words for inline mathematics replaced by dollar signs. -/
def mathMarkers (t : Text) : Text :=
  Text.replaceEach [("$$MATHSTART$$".toList, ['$']), ("$$MATHEND$$".toList, ['$'])] t

/-- The marker word in front of italic text. -/
def italicStart : Text := "$$ITALICSTART$$".toList

/-- The marker word behind italic text. -/
def italicEnd : Text := "$$ITALICEND$$".toList

/-- Text between marker words made italic; each start is closed by the first end behind it. -/
def italicMarkers (t : Text) : Text :=
  match _hStart : Text.splitAtFirst? italicStart t with
  | none => t
  | some (before, tail) =>
    match _hEnd : Text.splitAtFirst? italicEnd tail with
    | none => t
    | some (body, rest) =>
      before ++ withArgument "\\textit".toList body ++ italicMarkers rest
termination_by t.length
decreasing_by
  have hStart := congrArg List.length (Text.splitAtFirst?_append _hStart)
  have hEnd := congrArg List.length (Text.splitAtFirst?_append _hEnd)
  have hPositive : 0 < italicStart.length := by decide
  simp only [List.length_append] at hStart hEnd
  omega

end ProseMath.Latex
