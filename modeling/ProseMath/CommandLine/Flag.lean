import ProseMath.Failure

/-!
# Flags

The commands of the command line, the flags each of them takes, and how flags are read. A flag is
written `--name value` or `--name=value`, or with its letter `-l value`, `-lvalue` or `-l=value`.
The letters of flags without a value may stand in one group. Flags and arguments may be mixed; two
hyphens alone end the flags.
-/

namespace ProseMath.CommandLine

/-- The commands. -/
inductive CommandName where
  /-- Converts a file; this command has no name of its own. -/
  | convert
  | tokens
  | ast
  | repl
  | version
deriving DecidableEq, Repr

/-- The command of a word. -/
def CommandName.ofWord? (word : Text) : Option CommandName :=
  if word = "tokens".toList then some .tokens
  else if word = "ast".toList then some .ast
  else if word = "repl".toList then some .repl
  else if word = "version".toList then some .version
  else none

/-- The flags. -/
inductive Flag where
  | config
  | verbose
  | packages
  | output
  | source
deriving DecidableEq, Repr

namespace Flag

/-- The name of a flag. -/
def name : Flag → Text
  | .config => "config".toList
  | .verbose => "verbose".toList
  | .packages => "packages".toList
  | .output => "output".toList
  | .source => "source".toList

/-- The letter of a flag. -/
def letter? : Flag → Option Char
  | .verbose => some 'v'
  | .output => some 'o'
  | _ => none

/-- Whether a flag is on or off rather than having a text. -/
def isSwitch : Flag → Bool
  | .verbose | .source => true
  | _ => false

/-- How a flag is named in messages. -/
def title (flag : Flag) : Text :=
  match flag.letter? with
  | some c => ['-', c] ++ ", --".toList ++ flag.name
  | none => "--".toList ++ flag.name

/-- The flags that a command takes. -/
def ofCommand : CommandName → List Flag
  | .convert => [.config, .verbose, .packages, .output]
  | .ast => [.config, .verbose, .packages, .source]
  | _ => [.config, .verbose, .packages]

/-- The flag of a name. -/
def named? (flags : List Flag) (name : Text) : Option Flag :=
  flags.find? fun flag => flag.name = name

/-- The flag of a letter. -/
def lettered? (flags : List Flag) (c : Char) : Option Flag :=
  flags.find? fun flag => flag.letter? = some c

end Flag

/-- The values of the flags. -/
structure FlagValues where
  config : Text
  packages : Text
  output : Text
  verbose : Bool
  source : Bool
deriving DecidableEq, Repr

namespace FlagValues

/-- No flag given. -/
def none : FlagValues := ⟨[], [], [], false, false⟩

/-- The truth value that a word stands for. -/
def bool? (word : Text) : Option Bool :=
  if ["1", "t", "T", "TRUE", "true", "True"].any fun w => w.toList = word then some true
  else if ["0", "f", "F", "FALSE", "false", "False"].any fun w => w.toList = word then some false
  else Option.none

/-- Sets a flag to what a text says. -/
def set (values : FlagValues) (flag : Flag) (value : Text) : Except UsageError FlagValues :=
  match flag with
  | .config => .ok { values with config := value }
  | .packages => .ok { values with packages := value }
  | .output => .ok { values with output := value }
  | .verbose =>
    match bool? value with
    | some b => .ok { values with verbose := b }
    | Option.none => .error (.invalidBool value flag.title)
  | .source =>
    match bool? value with
    | some b => .ok { values with source := b }
    | Option.none => .error (.invalidBool value flag.title)

/-- What a switch is set to if nothing else is said. -/
def on : Text := "true".toList

/-- Reads a flag by name, `argument` without its two hyphens, in front of another argument; tells
whether that one was its value. -/
def setNamed (values : FlagValues) (flags : List Flag) (argument : Text) (next : Option Text) :
    Except UsageError (FlagValues × Bool) := do
  let written := "--".toList ++ argument
  if argument.head?.all fun c => c = '-' || c = '=' then throw (.badFlag written)
  let name := argument.takeWhile (· ≠ '=')
  match Flag.named? flags name with
  | Option.none => throw (.unknownFlag name)
  | some flag =>
    if name.length < argument.length then
      return (← values.set flag (argument.drop (name.length + 1)), false)
    else if flag.isSwitch then return (← values.set flag on, false)
    else match next with
      | some value => return (← values.set flag value, true)
      | Option.none => throw (.flagNeedsArgument written)

/-- The character whose number is that of the first byte of another. -/
def leadingByte (c : Char) : Char :=
  ((String.singleton c).toUTF8.toList.head?.map fun b => Char.ofNat b.toNat).getD c

/-- How the flags for a test run begin, which are none of the program's. -/
def testRun : Text := "test.".toList

/-- Reads a group of letters, without its hyphen, in front of another argument; tells whether that
one was the value of the last letter. Flags for a test run are passed over. -/
def setGroup (values : FlagValues) (flags : List Flag) (next : Option Text) :
    Text → Except UsageError (FlagValues × Bool)
  | [] => .ok (values, false)
  | c :: group =>
    if testRun.isPrefixOf (c :: group) then .ok (values, false)
    else match Flag.lettered? flags c with
    | Option.none => .error (.unknownShorthand (leadingByte c) (c :: group))
    | some flag =>
      if group.head? = some '=' ∧ 1 < group.length then do
        return (← values.set flag (group.drop 1), false)
      else if flag.isSwitch then
        match values.set flag on with
        | .ok values => setGroup values flags next group
        | .error e => .error e
      else if !group.isEmpty then do return (← values.set flag group, false)
      else match next with
        | some value => do return (← values.set flag value, true)
        | Option.none => .error (.shorthandNeedsArgument c (c :: group))

end FlagValues

end ProseMath.CommandLine
