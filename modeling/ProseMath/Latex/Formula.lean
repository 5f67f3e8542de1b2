import ProseMath.Document.Basic
import ProseMath.Latex.Symbol

/-!
# Formulas

Expressions as LaTeX. Only a missing subtree cannot be written.
-/

namespace ProseMath

/-- A node that is needed and missing. -/
inductive MissingNode where
  | block
  | expression
deriving DecidableEq, Repr

/-- The text of a failure to write a missing node. -/
def MissingNode.message : MissingNode → Text
  | .block => "unknown node kind: block <nil>".toList
  | .expression => "unknown node kind: expression <nil>".toList

namespace Latex

mutual

/-- An expression. -/
def formula : Expr → Except MissingNode Text
  | .missing => .error .expression
  | .identifier name => .ok (mathSymbols name)
  | .plus left right => do
    let left ← formula left
    let right ← formula right
    return left ++ " + ".toList ++ right
  | .equation lhs rhs => do
    let lhs ← formula lhs
    let rhs ← formula rhs
    return lhs ++ " = ".toList ++ rhs
  | .sum lower upper body => do
    let lower ← formula lower
    let upper ← formula upper
    let body ← formula body
    return "\\sum_\x7b".toList ++ lower ++ "\x7d^\x7b".toList ++ upper ++ "\x7d ".toList ++ body
  | .fraction numerator denominator => do
    let numerator ← formula numerator
    let denominator ← formula denominator
    return "\\frac\x7b".toList ++ numerator ++ "\x7d\x7b".toList ++ denominator ++ ['}']
  | .sequence items => do
    let items ← formulas items
    return [' '].intercalate items

/-- Expressions, one by one. -/
def formulas : List Expr → Except MissingNode (List Text)
  | [] => .ok []
  | item :: rest => do
    let item ← formula item
    let rest ← formulas rest
    return item :: rest

end

/-- A displayed equation. -/
def display (e : Equation) : Except MissingNode Text := do
  let value ← formula e.toExpr
  return "\\[".toList ++ value ++ "\\]\n\n".toList

end Latex

end ProseMath
