import ProseMath.Document.Basic
import ProseMath.Text.Quoted

/-!
# Listings of trees

The listing of a document shows every node of its tree with its fields, one field or element on a
line, nested by two blanks.
-/

namespace ProseMath.Listing

/-- A line at a depth of nesting. -/
def indented (depth : Nat) (t : Text) : Text := List.replicate (2 * depth) ' ' ++ t ++ ['\n']

/-- A node or list of a type, with the lines of its parts between braces. -/
def braced (depth : Nat) (type : String) (parts : Text) : Text :=
  type.toList ++ "\x7b\n".toList ++ parts ++ List.replicate (2 * depth) ' ' ++ ['}']

/-- A field of a node. -/
def field (depth : Nat) (name : String) (value : Text) : Text :=
  indented depth (name.toList ++ ": ".toList ++ value ++ [','])

/-- A list of elements that are written out already. -/
def list (depth : Nat) (type : String) (elements : List Text) : Text :=
  if elements.isEmpty then type.toList ++ "\x7b\x7d".toList
  else braced depth type (elements.flatMap fun element => indented (depth + 1) (element ++ [',']))

mutual

/-- The listing of an expression. -/
def expr (depth : Nat) : Expr → Text
  | .missing => "nil".toList
  | .identifier name =>
    braced depth "&htex.Identifier" (field (depth + 1) "Name" (Text.quoted name))
  | .plus left right =>
    braced depth "&htex.Plus"
      (field (depth + 1) "Left" (expr (depth + 1) left) ++
        field (depth + 1) "Right" (expr (depth + 1) right))
  | .equation lhs rhs =>
    braced depth "&htex.Equation"
      (field (depth + 1) "LHS" (expr (depth + 1) lhs) ++
        field (depth + 1) "RHS" (expr (depth + 1) rhs))
  | .sum lower upper body =>
    braced depth "&htex.Sum"
      (field (depth + 1) "Start" (expr (depth + 1) lower) ++
        field (depth + 1) "End" (expr (depth + 1) upper) ++
        field (depth + 1) "Body" (expr (depth + 1) body))
  | .fraction numerator denominator =>
    braced depth "&htex.Fraction"
      (field (depth + 1) "Numerator" (expr (depth + 1) numerator) ++
        field (depth + 1) "Denominator" (expr (depth + 1) denominator))
  | .sequence items =>
    braced depth "&htex.Sequence"
      (field (depth + 1) "Items" (list (depth + 1) "[]htex.Expression" (exprs (depth + 2) items)))

/-- The listings of expressions, one by one. -/
def exprs (depth : Nat) : List Expr → List Text
  | [] => []
  | item :: rest => expr depth item :: exprs depth rest

end

/-- The listing of a block. -/
def block (depth : Nat) : Block → Text
  | .missing => "nil".toList
  | .paragraph content =>
    braced depth "&htex.Paragraph" (field (depth + 1) "Content" (Text.quoted content))
  | .heading content =>
    braced depth "&htex.Heading" (field (depth + 1) "Content" (Text.quoted content))
  | .equation e => expr depth e.toExpr

/-- The listing of a document, with a line feed at the end. -/
def document (d : Document) : Text :=
  braced 0 "&htex.Root"
    (field 1 "Children" (list 1 "[]htex.Block" (d.blocks.map (block 2)))) ++ ['\n']

end ProseMath.Listing
