import ProseMath.Toml.Reader

/-!
# TOML: building the table

Statements are carried out one after another on a table that starts out empty. A key is defined
once; these definitions may be repeated:

* a table that came about on the way to another key may be given a header;
* a key whose value is an array may be assigned again.
-/

namespace ProseMath.Toml

/-! ## Tables -/

namespace Table

/-- The value of a key. -/
def get? (table : Table) (name : Text) : Option Value :=
  (table.find? fun entry => entry.1 = name).map Prod.snd

/-- The table with a value for a key, instead of the one it had. -/
def insert (table : Table) (name : Text) (value : Value) : Table :=
  if (table.any fun entry => entry.1 = name) then
    table.map fun entry => if entry.1 = name then (name, value) else entry
  else table ++ [(name, value)]

/-- The table inside a value: itself, or the last of several. -/
def ofValue? : Value → Option Table
  | .table entries => some entries
  | .tables items => items.getLast?
  | _ => none

/-- The table at a path. -/
def descend? (table : Table) : Key → Option Table
  | [] => some table
  | name :: rest => do
    let inner ← ofValue? (← table.get? name)
    descend? inner rest

/-- The table with the one at a path changed. -/
def modify? (change : Table → Table) (table : Table) : Key → Option Table
  | [] => some (change table)
  | name :: rest => do
    match ← table.get? name with
    | .table entries => return table.insert name (.table (← modify? change entries rest))
    | .tables items =>
      let last ← items.getLast?
      return table.insert name (.tables (items.dropLast ++ [← modify? change last rest]))
    | _ => none

end Table

/-! ## Definitions so far -/

/-- The table built so far and what may still be defined again. -/
structure Builder where
  root : Table
  /-- Keys of tables that came about without a header of their own. -/
  implicit : List Key
  /-- Keys whose values are arrays. -/
  arrays : List Key

namespace Builder

/-- Nothing defined. -/
def empty : Builder := ⟨[], [], []⟩

/-- Marks a table as one without a header of its own. -/
def markImplicit (b : Builder) (path : Key) : Builder := { b with implicit := path :: b.implicit }

/-- Records whether the value of a key in the table at `context` is an array. For the empty name it
is recorded of the table itself, unless that is the whole one. -/
def markArray (b : Builder) (context : Key) (name : Text) (isArray : Bool) : Builder :=
  let path := if name.isEmpty ∧ !context.isEmpty then context else context ++ [name]
  let others := b.arrays.filter (· ≠ path)
  { b with arrays := if isArray then path :: others else others }

/-- Defines a key in the table at a path. -/
def define? (b : Builder) (context : Key) (name : Text) (value : Value) : Option Builder := do
  let table ← b.root.descend? context
  let path := context ++ [name]
  let implicit := b.implicit.filter (· ≠ path)
  if (table.get? name).isSome then
    if path ∈ b.arrays then
      return { b with
        root := ← Table.modify? (·.insert name value) b.root context
        implicit := implicit }
    else if path ∈ b.implicit then return { b with implicit := implicit }
    else none
  else return { b with root := ← Table.modify? (·.insert name value) b.root context }

/-- Sees to it that there are tables on the way to a key. -/
def openParents? (b : Builder) (passed : Key) : Key → Option Builder
  | [] => some b
  | name :: rest => do
    let table ← b.root.descend? passed
    let path := passed ++ [name]
    match table.get? name with
    | none =>
      let root ← Table.modify? (·.insert name (.table [])) b.root passed
      openParents? ({ b with root := root }.markImplicit path) path rest
    | some value =>
      let _ ← Table.ofValue? value
      openParents? b path rest

/-- Opens the table of a key. -/
def openTable? (b : Builder) (key : Key) : Option Builder := do
  let b ← b.openParents? [] key.dropLast
  b.define? key.dropLast (← key.getLast?) (.table [])

/-- Adds a table to the array of tables of a key. -/
def addTable? (b : Builder) (key : Key) : Option Builder := do
  let b ← b.openParents? [] key.dropLast
  let name ← key.getLast?
  let table ← b.root.descend? key.dropLast
  match (table.get? name).getD (.tables []) with
  | .tables items =>
    let root ← Table.modify? (·.insert name (.tables (items ++ [[]]))) b.root key.dropLast
    return { b with root := root }
  | _ => none

/-- Opens the tables that the parts of a key but its last name, one inside the other. -/
def openDotted? (b : Builder) (context : Key) : Key → Option (Builder × Key)
  | [] => some (b, context)
  | name :: rest => do
    let path := context ++ [name]
    let b ← (b.markImplicit path).openTable? path
    b.openDotted? path rest

end Builder

/-! ## Values -/

/-- An entry put into a table, with tables on the way to it; refused where something else is in the
way. -/
def nest? (table : Table) (value : Value) : Key → Option Table
  | [] => some table
  | [name] => some (table.insert name value)
  | name :: next :: rest =>
    match (table.get? name).getD (.table []) with
    | .table entries => do
      return table.insert name (.table (← nest? entries value (next :: rest)))
    | _ => none

mutual

/-- The value of a literal that is assigned to `name` in the table at `context`. The tables of
inline tables are built up under that key on the way; `inArray` tells whether they are items of an
array. -/
def evaluate? (b : Builder) (context : Key) (name : Text) (inArray : Bool) :
    Literal → Option (Value × Builder)
  | .text t => some (.text t, b)
  | .bool v => some (.bool v, b)
  | .quantity => some (.quantity, b)
  | .array items => do
    let (values, b) ← evaluateAll? (b.markArray context name true) context name items
    return (.array values, b)
  | .inlineTable entries => do
    let path := context ++ [name]
    let b := b.markImplicit path
    let b ← if inArray then b.addTable? path else b.openTable? path
    let (table, b) ← evaluateEntries? b path [] entries
    return (.table table, b)

/-- The values of the items of an array. -/
def evaluateAll? (b : Builder) (context : Key) (name : Text) :
    List Literal → Option (List Value × Builder)
  | [] => some ([], b)
  | item :: rest => do
    let (value, b) ← evaluate? b context name true item
    let (values, b) ← evaluateAll? b context name rest
    return (value :: values, b)

/-- The entries of an inline table, put into `table` as well. -/
def evaluateEntries? (b : Builder) (path : Key) (table : Table) :
    List (Key × Literal) → Option (Table × Builder)
  | [] => some (table, b)
  | (key, literal) :: rest => do
    let (b, context) ← b.openDotted? path key.dropLast
    let name ← key.getLast?
    let (value, b) ← evaluate? b context name false literal
    let b ← b.define? context name value
    evaluateEntries? (b.markArray context name literal.isArray) path (← nest? table value key) rest

end

/-! ## Statements -/

/-- Carries out statements, where assignments go into the table at `context`. -/
def execute? (b : Builder) (context : Key) : List Statement → Option Builder
  | [] => some b
  | .header key :: rest => do
    execute? ((← b.openTable? key).markArray key [] false) key rest
  | .arrayHeader key :: rest => do
    execute? ((← b.addTable? key).markArray key [] false) key rest
  | .assignment key literal :: rest => do
    let (b, inner) ← b.openDotted? context key.dropLast
    let name ← key.getLast?
    let (value, b) ← evaluate? b inner name false literal
    let b ← b.define? inner name value
    execute? (b.markArray inner name literal.isArray) context rest

/-- The table that a text describes. -/
def parse? (version : Version) (t : Text) : Option Table := do
  let b ← execute? .empty [] (← read version t)
  return b.root

end ProseMath.Toml
