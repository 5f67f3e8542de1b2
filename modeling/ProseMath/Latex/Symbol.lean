import ProseMath.Latex.Inline

/-!
# Symbols

Names of Greek letters and some words stand for symbols. They are replaced where they are whole
words, that is where the characters on both sides are no word characters.
-/

namespace ProseMath.Latex

/-- Words and what replaces them. -/
abbrev WordTable := List (Text × Text)

/-- The Greek letters and their commands. -/
def greek : WordTable :=
  [("alpha", "\\alpha"), ("beta", "\\beta"), ("gamma", "\\gamma"), ("delta", "\\delta"),
   ("epsilon", "\\epsilon"), ("zeta", "\\zeta"), ("eta", "\\eta"), ("theta", "\\theta"),
   ("iota", "\\iota"), ("kappa", "\\kappa"), ("lambda", "\\lambda"), ("mu", "\\mu"),
   ("nu", "\\nu"), ("xi", "\\xi"), ("pi", "\\pi"), ("rho", "\\rho"), ("sigma", "\\sigma"),
   ("tau", "\\tau"), ("upsilon", "\\upsilon"), ("phi", "\\varphi"), ("chi", "\\chi"),
   ("psi", "\\psi"), ("omega", "\\omega"), ("Gamma", "\\Gamma"), ("Delta", "\\Delta"),
   ("Theta", "\\Theta"), ("Lambda", "\\Lambda"), ("Xi", "\\Xi"), ("Pi", "\\Pi"),
   ("Sigma", "\\Sigma"), ("Upsilon", "\\Upsilon"), ("Phi", "\\Phi"), ("Psi", "\\Psi"),
   ("Omega", "\\Omega")].map fun entry => (entry.1.toList, entry.2.toList)

/-- Words that stand for symbols in prose only. -/
def proseWords : WordTable :=
  [("Teilmenge".toList, "\\subseteq".toList), ("element".toList, "\\in".toList)]

/-- The sign that stands for a multiplication in list items. -/
def timesWord : WordTable := [(['x'], "\\times".toList)]

/-- A command as inline mathematics. -/
def inlineMath (command : Text) : Text := '$' :: command ++ ['$']

/-- A table whose commands are inline mathematics. -/
def inlineTable (table : WordTable) : WordTable :=
  table.map fun entry => (entry.1, inlineMath entry.2)

/-- Whether one of two neighbours is a word character and the other is not. -/
def isBoundary (before after : Option Char) : Bool :=
  before.any Text.isWord != after.any Text.isWord

/-- Whether a text that follows `before` starts with a whole word. -/
def startsWithWord (word : Text) (before : Option Char) (t : Text) : Bool :=
  isBoundary before t.head? && word.isPrefixOf t &&
    isBoundary word.getLast? (t.drop word.length).head?

/-- Whole words replaced as a table says, in a text that follows `before`. Of several entries that
fit at a place the first is taken. -/
def replaceWords (table : WordTable) (before : Option Char) : Text → Text
  | [] => []
  | c :: t =>
    match table.find? fun entry => startsWithWord entry.1 before (c :: t) with
    | some (word, new) => new ++ replaceWords table word.getLast? (t.drop (word.length - 1))
    | none => c :: replaceWords table (some c) t
termination_by t => t.length
decreasing_by all_goals simp only [List.length_cons, List.length_drop]; omega

/-- Names of Greek letters in mathematics. -/
def mathSymbols (t : Text) : Text := replaceWords greek none t

/-- Names of Greek letters and words for symbols in prose. -/
def textSymbols (t : Text) : Text :=
  outsideMath (replaceWords (inlineTable (greek ++ proseWords)) none) t

/-- Arrows and multiplication signs in list items. -/
def itemSymbols (t : Text) : Text :=
  outsideMath (fun piece => replaceWords (inlineTable timesWord) none
    (Text.replaceEach [(['-', '>'], inlineMath "\\to".toList)] piece)) t

end ProseMath.Latex
