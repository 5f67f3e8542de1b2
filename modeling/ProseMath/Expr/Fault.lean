import ProseMath.Expr.Basic
import ProseMath.Text.Quoted
import ProseMath.Token.Basic

/-!
# Faults of source texts

What can be wrong with a source text, where it is found, and how it is put into words.
-/

namespace ProseMath

/-- A way in which tokens fail to be an expression or a document. -/
inductive Fault where
  /-- A parenthesis is closed that was not opened. -/
  | unexpectedClose
  /-- A line was to be an equation but has no equals sign outside parentheses. -/
  | missingEquals (line : Text)
  /-- A keyword is not followed by an opening parenthesis. -/
  | notFollowedByOpen (callee : Callee)
  /-- The parenthesis after a keyword is never closed. -/
  | unclosedCall (callee : Callee)
  /-- A call has a wrong number of arguments. -/
  | wrongArity (callee : Callee) (actual : Nat)
deriving DecidableEq, Repr

/-- The three groups of faults. -/
inductive FaultKind where
  | unbalancedParenthesis
  | missingEquals
  | malformedCall
deriving DecidableEq, Repr

namespace Fault

/-- The group of a fault. -/
def kind : Fault → FaultKind
  | .unexpectedClose => .unbalancedParenthesis
  | .missingEquals _ => .missingEquals
  | .notFollowedByOpen _ | .unclosedCall _ | .wrongArity _ _ => .malformedCall

/-- What exactly is wrong. -/
def detail : Fault → Text
  | .unexpectedClose => "unexpected \")\"".toList
  | .missingEquals line => "equation ".toList ++ Text.quoted line
  | .notFollowedByOpen callee => callee.keyword ++ " must be followed by \"(\"".toList
  | .unclosedCall callee => callee.keyword ++ " is missing closing \")\"".toList
  | .wrongArity callee actual =>
    callee.keyword ++ " expects ".toList ++ Text.ofNat callee.arity ++ " arguments, got ".toList ++
      Text.ofNat actual

end Fault

/-- The text of a group of faults. -/
def FaultKind.message : FaultKind → Text
  | .unbalancedParenthesis => "unbalanced parenthesis".toList
  | .missingEquals => "missing top level \"=\"".toList
  | .malformedCall => "malformed call arguments".toList

/-- A fault and the offset of the token at which it was found. -/
structure SyntaxError where
  fault : Fault
  /-- None if there is no token to point at. -/
  offset : Option Int
deriving DecidableEq, Repr

namespace SyntaxError

/-- A fault at the first of some tokens. -/
def atFirst (fault : Fault) (tokens : List Token) : SyntaxError :=
  ⟨fault, tokens.head?.map Token.offset⟩

/-- The text of a fault, with its position unless that is negative. -/
def message (e : SyntaxError) : Text :=
  let position := match e.offset.filter (0 ≤ ·) with
    | some offset => " at position ".toList ++ Text.ofInt offset
    | none => []
  e.fault.kind.message ++ ": ".toList ++ e.fault.detail ++ position

end SyntaxError

end ProseMath
