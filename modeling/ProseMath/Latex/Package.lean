import ProseMath.Text.Basic

/-!
# Packages

Packages are loaded in the preamble. A list of them is given as `name=options, name`, with several
options of one package separated by semicolons; blanks in it mean nothing.
-/

namespace ProseMath.Latex

/-- A package with its options, which are separated by commas. -/
structure Package where
  name : Text
  options : Text
deriving DecidableEq, Repr

namespace Package

/-- The line of the preamble that loads a package. -/
def line (p : Package) : Text :=
  if p.options.isEmpty then "\\usepackage\x7b".toList ++ p.name ++ ['}']
  else "\\usepackage[".toList ++ p.options ++ "]\x7b".toList ++ p.name ++ ['}']

/-- Blanks that mean nothing in a list of packages. -/
def isIgnored (c : Char) : Bool := c == ' ' || c == '\n' || c == '\t' || c == '\r'

/-- A package written as its name, or its name, an equals sign and its options. -/
def ofEntry (entry : Text) : Package :=
  { name := entry.takeWhile (· ≠ '=')
    options := ((entry.dropWhile (· ≠ '=')).drop 1).map fun c => if c = ';' then ',' else c }

/-- The packages of a list, in order. -/
def parseList (t : Text) : List Package :=
  (((t.filter fun c => !isIgnored c).splitOn ',').filter fun entry => !entry.isEmpty).map ofEntry

end Package

end ProseMath.Latex
