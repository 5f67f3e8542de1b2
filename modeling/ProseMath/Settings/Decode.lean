import ProseMath.Settings.Basic
import ProseMath.Text.Encoding
import ProseMath.Toml.Build
import ProseMath.Yaml.Merge

/-!
# Reading settings

Both formats describe the same tables. Keys without meaning are ignored, values of a wrong kind are
refused. In TOML the case of keys does not matter; in YAML an empty value counts as left out, and
every other scalar is a text. Settings in YAML are written without anchors, aliases, tags, block
scalars and directives; a file that has one is refused (`Yaml.parse?`).
-/

namespace ProseMath.Draft

/-! ## TOML -/

namespace OfToml

/-- A letter in a form in which case does not matter. -/
def fold (c : Char) : Char :=
  if c = '\u212a' then 'k' else if c = '\u017f' then 's' else c.toLower

/-- The entry of a list for a key, exactly or up to case. -/
def field? {α : Type} (fields : List (String × α)) (key : Text) : Option α :=
  ((fields.find? fun entry => entry.1.toList = key).or
    (fields.find? fun entry => entry.1.toList.map fold = key.map fold)).map Prod.snd

/-- Takes the known keys of a table. -/
def table {α : Type} (fields : List (String × (α → Toml.Value → Option α))) (start : α) :
    Toml.Value → Option α
  | .table entries => entries.foldlM (fun state entry =>
      match field? fields entry.1 with
      | some take => take state entry.2
      | none => some state) start
  | _ => none

/-- A text. -/
def text : Toml.Value → Option Text
  | .text t => some t
  | _ => none

/-- A truth value. -/
def bool : Toml.Value → Option Bool
  | .bool b => some b
  | _ => none

/-- A package. -/
def package (value : Toml.Value) : Option Latex.Package :=
  table [("name", fun p v => (text v).map fun t => { p with name := t }),
    ("options", fun p v => (text v).map fun t => { p with options := t })] ⟨[], []⟩ value

/-- A list of packages. -/
def packages : Toml.Value → Option (List Latex.Package)
  | .array items => items.mapM package
  | .tables items => items.mapM fun entries => package (.table entries)
  | _ => none

/-- All settings. -/
def draft (value : Toml.Value) : Option Draft :=
  table
    [("output", table
      [("dir", fun d v => (text v).map fun t => { d with outputDirectory := t }),
        ("extension", fun d v => (text v).map fun t => { d with extension := t })]),
      ("document", table
        [("class", fun d v => (text v).map fun t => { d with documentClass := t }),
          ("packages", fun d v => (packages v).map fun l => { d with packages := some l })]),
      ("log", table [("verbose", fun d v => (bool v).map fun b => { d with verbose := b })])]
    Draft.empty value

end OfToml

/-! ## YAML -/

namespace OfYaml

/-- Whether a node is empty: a plain scalar that says so. -/
def isNull : Yaml.Node → Bool
  | .scalar t true => ["", "~", "null", "Null", "NULL"].any fun name => name.toList = t
  | _ => false

/-- A text; none inside for an empty node. -/
def text (node : Yaml.Node) : Option (Option Text) :=
  match node with
  | .scalar t _ => some (if isNull node then none else some t)
  | _ => none

/-- Words for a truth value, first those that stand for it only without quotes. -/
def wordsFor : Bool → List String × List String
  | true => (["true", "True", "TRUE"], ["y", "Y", "yes", "Yes", "YES", "on", "On", "ON"])
  | false => (["false", "False", "FALSE"], ["n", "N", "no", "No", "NO", "off", "Off", "OFF"])

/-- Whether a scalar is a word for a truth value. -/
def means (b : Bool) (t : Text) (isPlain : Bool) : Bool :=
  let isOneOf (words : List String) : Bool := words.any fun word => word.toList = t
  (isPlain && isOneOf (wordsFor b).1) || isOneOf (wordsFor b).2

/-- A truth value; none inside for an empty node. -/
def bool (node : Yaml.Node) : Option (Option Bool) :=
  match node with
  | .scalar t isPlain =>
    if isNull node then some none
    else if means true t isPlain then some (some true)
    else if means false t isPlain then some (some false)
    else none
  | _ => none

/-- Takes the known keys of a mapping; an empty node has none. -/
def mapping {α : Type} (fields : List (String × (α → Yaml.Node → Option α))) (start : α)
    (node : Yaml.Node) : Option α :=
  if isNull node then some start
  else do
    (← node.entries?).foldlM (fun state entry => do
      match ← text entry.1 with
      | none => return state
      | some key =>
        match fields.find? fun item => item.1.toList = key with
        | some (_, take) => take state entry.2
        | none => return state) start

/-- A package; none inside for an empty node. -/
def package (node : Yaml.Node) : Option (Option Latex.Package) :=
  if isNull node then some none
  else (mapping
    [("name", fun (p : Latex.Package) v =>
        (text v).map fun t => { p with name := t.getD p.name }),
      ("options", fun p v => (text v).map fun t => { p with options := t.getD p.options })]
    ⟨[], []⟩ node).map some

/-- A list of packages, without its empty items; none inside for an empty node. -/
def packages (node : Yaml.Node) : Option (Option (List Latex.Package)) :=
  if isNull node then some none
  else match node with
    | .sequence items => (items.mapM package).map fun list => some (list.filterMap id)
    | _ => none

/-- All settings. -/
def draft (node : Yaml.Node) : Option Draft :=
  mapping
    [("output", mapping
      [("dir", fun d v => (text v).map fun t =>
          { d with outputDirectory := t.getD d.outputDirectory }),
        ("extension", fun d v => (text v).map fun t =>
          { d with extension := t.getD d.extension })]),
      ("document", mapping
        [("class", fun d v => (text v).map fun t =>
            { d with documentClass := t.getD d.documentClass }),
          ("packages", fun d v => (packages v).map fun l => { d with packages := l })]),
      ("log", mapping
        [("verbose", fun d v => (bool v).map fun b => { d with verbose := b.getD d.verbose })])]
    Draft.empty node

end OfYaml

/-- The settings that a file gives. TOML is UTF-8, whatever mark of an encoding stands in front.
YAML is read as far as `Yaml.parse?` reads it. -/
def decode? (version : Toml.Version) (format : Format) (content : ByteArray) : Option Draft := do
  match format with
  | .toml =>
    let t ← Text.decode? (Text.splitMark content).2
    OfToml.draft (.table (← Toml.parse? version t))
  | .yaml =>
    match ← Yaml.parse? (← Text.decodeMarked? content) with
    | some node => OfYaml.draft node
    | none => return .empty

end ProseMath.Draft
