import ProseMath.Text.Basic

/-!
# Braces in prose

A brace in prose is text and gets a backslash, unless it encloses the argument of a command. An
opening brace counts as the latter if a letter stands before it, blanks aside; a closing one if
more such braces were opened than closed. Mathematics is left alone.
-/

namespace ProseMath.Latex

/-- Braces escaped in the rest of a text: `math` tells whether it starts inside mathematics, `depth`
how many argument braces are open, `last` the last character before it that is no blank. -/
def escapeBracesFrom (math : Bool) (depth : Nat) (last : Option Char) : Text → Text
  | [] => []
  | c :: t =>
    let next := if c = ' ' then last else some c
    if c = '$' then c :: escapeBracesFrom (!math) depth next t
    else if math then c :: escapeBracesFrom math depth next t
    else if c = '{' then
      if last.any Text.isLetter then c :: escapeBracesFrom math (depth + 1) next t
      else '\\' :: c :: escapeBracesFrom math depth next t
    else if c = '}' then
      match depth with
      | 0 => '\\' :: c :: escapeBracesFrom math 0 next t
      | depth + 1 => c :: escapeBracesFrom math depth next t
    else c :: escapeBracesFrom math depth next t

/-- Braces escaped in a line of prose. -/
def escapeBraces (t : Text) : Text := escapeBracesFrom false 0 none t

end ProseMath.Latex
