import ProseMath.Text.Basic

/-!
# Inline mathematics in prose

Every dollar sign turns mathematical mode on or off. The pieces of a text between dollar signs are
therefore outside and inside mathematics in turn, beginning outside.
-/

namespace ProseMath.Latex

/-- A function applied to the first, third, … of some pieces. -/
def mapAlternate (f : Text → Text) : List Text → List Text
  | [] => []
  | [outside] => [f outside]
  | outside :: inside :: rest => f outside :: inside :: mapAlternate f rest

/-- A function applied to the pieces of a text outside mathematics. -/
def outsideMath (f : Text → Text) (t : Text) : Text :=
  ['$'].intercalate (mapAlternate f (t.splitOn '$'))

end ProseMath.Latex
