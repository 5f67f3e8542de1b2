import ProseMath.Expr.Basic

/-!
# Expressions in source form

`Expr.print` writes an expression back in the form in which it is read, such as
`sum(i = 1, n, i)`. A missing subtree is written as a question mark.
-/

namespace ProseMath.Expr

/-- A call in source form, with its arguments given in source form. -/
def printCall (callee : Callee) (arguments : List Text) : Text :=
  callee.keyword ++ '(' :: ([',', ' '].intercalate arguments ++ [')'])

mutual

/-- An expression in source form. -/
def print : Expr → Text
  | .missing => ['?']
  | .identifier name => name
  | .plus left right => left.print ++ [' ', '+', ' '] ++ right.print
  | .equation lhs rhs => lhs.print ++ [' ', '=', ' '] ++ rhs.print
  | .sum lower upper body => printCall .sum [lower.print, upper.print, body.print]
  | .fraction numerator denominator => printCall .frac [numerator.print, denominator.print]
  | .sequence items => [' '].intercalate (printAll items)

/-- Expressions in source form, one by one. -/
def printAll : List Expr → List Text
  | [] => []
  | item :: rest => item.print :: printAll rest

end

end ProseMath.Expr

/-- An equation in source form. -/
def ProseMath.Equation.print (e : ProseMath.Equation) : ProseMath.Text := e.toExpr.print
