import ProseMath.Expr.Basic

/-!
# Documents

A document is a list of blocks: paragraphs of prose, headings and displayed equations.
-/

namespace ProseMath

/-- A block of a document. -/
inductive Block where
  /-- The place of a block that is not there. Reading never leaves one. -/
  | missing
  /-- Prose; a line feed in it is a soft line break. -/
  | paragraph (content : Text)
  | heading (content : Text)
  | equation (equation : Equation)
deriving Repr, Inhabited

/-- A document. -/
structure Document where
  blocks : List Block
deriving Repr, Inhabited

/-- The kinds of nodes of the trees: documents, blocks and expressions. -/
inductive NodeKind where
  | root
  | paragraph
  | heading
  | equation
  | sum
  | fraction
  | plus
  | identifier
  | sequence
deriving DecidableEq, Repr

namespace NodeKind

/-- The kinds in their numbering, which starts at zero. -/
def all : List NodeKind :=
  [.root, .paragraph, .heading, .equation, .sum, .fraction, .plus, .identifier, .sequence]

/-- The name of a kind of node. -/
def name : NodeKind → String
  | .root => "root"
  | .paragraph => "paragraph"
  | .heading => "heading"
  | .equation => "equation"
  | .sum => "sum"
  | .fraction => "fraction"
  | .plus => "plus"
  | .identifier => "identifier"
  | .sequence => "sequence"

/-- The kind of a given number. -/
def ofNumber? (value : Int) : Option NodeKind :=
  if value < 0 then none else all[value.toNat]?

end NodeKind

/-- The kind of a block; none for a missing one. -/
def Block.kind? : Block → Option NodeKind
  | .missing => none
  | .paragraph _ => some .paragraph
  | .heading _ => some .heading
  | .equation _ => some .equation

end ProseMath
