import ProseMath.Yaml.Node

/-!
# YAML: merged mappings

The value of the plain key `<<` is a mapping, or a sequence of mappings, whose entries the mapping
around it takes over. Its own entries come first, and of several entries for one key the first
counts.
-/

namespace ProseMath.Yaml

/-- An entry of a mapping. -/
abbrev Entry := Node × Node

namespace Entry

/-- What tells the key of an entry from others. -/
def keyText (e : Entry) : Option Text :=
  match e.1 with
  | .scalar t _ => some t
  | _ => none

/-- Whether an entry takes over others. -/
def isMerge (e : Entry) : Bool :=
  match e.1 with
  | .scalar t isPlain => isPlain && t == ['<', '<']
  | _ => false

/-- Whether no key occurs twice. -/
def keysDistinct : List Entry → Bool
  | [] => true
  | e :: rest => (rest.all fun other => other.keyText ≠ e.keyText) && keysDistinct rest

/-- The first entry for each key. -/
def firsts : List Entry → List Entry
  | [] => []
  | e :: rest => e :: (firsts rest).filter fun other => other.keyText ≠ e.keyText

/-- The entries of a mapping and behind them the ones it takes over; refused if a key of its own
occurs twice. -/
def withTaken? (entries : List Entry) (taken : Option (List Entry)) : Option (List Entry) := do
  if keysDistinct entries then return entries.filter (!·.isMerge) ++ (← taken)
  else none

mutual

/-- The entries that a mapping takes over. -/
def taken? : List (Node × Node) → Option (List Entry)
  | [] => some []
  | (name, value) :: rest => if isMerge (name, value) then offered? value else taken? rest

/-- The entries that a node offers to be taken over. -/
def offered? : Node → Option (List Entry)
  | .scalar _ _ => none
  | .sequence items => offeredByAll? items
  | .mapping entries => withTaken? entries (taken? entries)

/-- The entries that mappings offer, one mapping after another. -/
def offeredByAll? : List Node → Option (List Entry)
  | [] => some []
  | .mapping entries :: rest => do
    return (← withTaken? entries (taken? entries)) ++ (← offeredByAll? rest)
  | _ :: _ => none

end

end Entry

/-- The entries of a mapping, with those that it takes over; none if the node is no mapping. -/
def Node.entries? : Node → Option (List Entry)
  | .mapping entries => (Entry.withTaken? entries (Entry.taken? entries)).map Entry.firsts
  | _ => none

end ProseMath.Yaml
