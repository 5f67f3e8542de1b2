import ProseMath.Text.Basic

/-!
# TOML: statements and values

A TOML text is a list of statements: headers, which choose the table that the following assignments
fill, and assignments of values to keys. What the statements mean together is a table.
-/

namespace ProseMath.Toml

/-- Versions of the format. The second one has two more escapes, more letters in keys without
quotes, inline tables over several lines and times without seconds. -/
inductive Version where
  | v10
  | v11
deriving DecidableEq, Repr

/-- A key, part by part; keys with several parts are written with points between them. -/
abbrev Key := List Text

/-- A value as it is written. -/
inductive Literal where
  | text (t : Text)
  | bool (b : Bool)
  /-- A number or a point in time. -/
  | quantity
  | array (items : List Literal)
  | inlineTable (entries : List (Key × Literal))

/-- Whether a value is written as an array. -/
def Literal.isArray : Literal → Bool
  | .array _ => true
  | _ => false

/-- A statement. -/
inductive Statement where
  | header (key : Key)
  /-- A header that adds a table to an array of tables. -/
  | arrayHeader (key : Key)
  | assignment (key : Key) (value : Literal)

/-- A value. -/
inductive Value where
  | text (t : Text)
  | bool (b : Bool)
  | quantity
  | array (items : List Value)
  | table (entries : List (Text × Value))
  /-- Tables that were added one by one. -/
  | tables (items : List (List (Text × Value)))

/-- A table, in the order in which its keys were defined. -/
abbrev Table := List (Text × Value)

end ProseMath.Toml
