import ProseMath.Text.Basic

/-!
# Expressions

The trees of mathematical content. Text that is not decomposed further is the name of an
identifier; a call next to other text without an operator forms a sequence.
-/

namespace ProseMath

/-- An expression. -/
inductive Expr where
  /-- The place of a subtree that is not there. Reading never leaves one. -/
  | missing
  | identifier (name : Text)
  | plus (left right : Expr)
  | equation (lhs rhs : Expr)
  | sum (lower upper body : Expr)
  | fraction (numerator denominator : Expr)
  | sequence (items : List Expr)
deriving Repr, Inhabited

/-- A statement that two expressions are equal. -/
structure Equation where
  lhs : Expr
  rhs : Expr
deriving Repr, Inhabited

/-- An equation inside another expression. -/
def Equation.toExpr (e : Equation) : Expr := .equation e.lhs e.rhs

namespace Expr

/-- The expressions that stand one after another in an expression. -/
def items : Expr → List Expr
  | .sequence items => items
  | e => [e]

/-- Two expressions one after another; sequences are not nested. -/
def juxtapose (first second : Expr) : Expr := .sequence (first.items ++ second.items)

end Expr

/-- A form that is written as a call. -/
inductive Callee where
  | sum
  | frac
deriving DecidableEq, Repr

namespace Callee

/-- The keyword of a call. -/
def keyword : Callee → Text
  | .sum => ['s', 'u', 'm']
  | .frac => ['f', 'r', 'a', 'c']

/-- How many arguments a call takes. -/
def arity : Callee → Nat
  | .sum => 3
  | .frac => 2

/-- The form that a keyword calls. -/
def ofKeyword? (text : Text) : Option Callee :=
  if text = Callee.sum.keyword then some .sum
  else if text = Callee.frac.keyword then some .frac
  else none

end Callee

end ProseMath
