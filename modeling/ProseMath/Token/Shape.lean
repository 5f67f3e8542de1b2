import ProseMath.Token.Basic

/-!
# Shapes of token lists

The shape of a token list is the list of its kinds. `expectKinds` compares it with an expected one
and reports the first difference.
-/

namespace ProseMath.Token

/-- A difference between the kinds of some tokens and those expected of them. -/
structure KindMismatch where
  expected : List Kind
  actual : List Kind
  /-- The offset of the first token of another kind; none if the numbers differ. -/
  offset : Option Int
deriving DecidableEq, Repr

/-- Names of kinds, separated by commas. -/
def kindNames (kinds : List Kind) : Text :=
  [',', ' '].intercalate (kinds.map fun kind => kind.name.toList)

/-- The text of a mismatch. A negative offset counts as unknown. -/
def KindMismatch.message (e : KindMismatch) : Text :=
  match e.offset.filter (0 ≤ ·) with
  | some offset =>
    "expected tokens ".toList ++ kindNames e.expected ++ " but got ".toList ++
      kindNames e.actual ++ " at position ".toList ++ Text.ofInt offset
  | none =>
    "expected ".toList ++ Text.ofNat e.expected.length ++ " tokens (".toList ++
      kindNames e.expected ++ ") but got ".toList ++ Text.ofNat e.actual.length ++ " (".toList ++
      kindNames e.actual ++ [')']

/-- Checks that tokens have exactly the given kinds, in order. -/
def expectKinds (tokens : List Token) (expected : List Kind) : Except KindMismatch Unit :=
  let actual := tokens.map Token.kind
  if actual.length ≠ expected.length then .error ⟨expected, actual, none⟩
  else match (tokens.zip expected).find? fun pair => pair.1.kind ≠ pair.2 with
    | some (token, _) => .error ⟨expected, actual, some token.offset⟩
    | none => .ok ()

end ProseMath.Token
