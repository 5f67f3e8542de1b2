import ProseMath.CommandLine.Flag

/-!
# Invocations

What a list of arguments asks for: a command, its flags and what the command is applied to. The
command is the first argument that is neither a flag nor the value of one, if it is a command's
name; else the arguments are for the command without a name.
-/

namespace ProseMath.CommandLine

/-- What is asked for. -/
structure Invocation where
  command : CommandName
  flags : FlagValues
  arguments : List Text
deriving DecidableEq, Repr

/-- Whether an argument looks like a flag. A hyphen alone does, so it never names a command. -/
def isFlag (argument : Text) : Bool := argument.head? = some '-'

/-- Whether the argument behind another one is the value of a flag, as far as can be said before the
command is known: a flag that is not known is taken to have a value. -/
def wantsValue (flags : List Flag) (argument : Text) : Bool :=
  match argument with
  | '-' :: '-' :: name =>
    !argument.contains '=' && !((Flag.named? flags name).any Flag.isSwitch)
  | ['-', c] => c ≠ '=' && c.utf8Size = 1 && !((Flag.lettered? flags c).any Flag.isSwitch)
  | _ => false

/-- The two hyphens that end the flags. -/
def endOfFlags : Text := "--".toList

/-- The first argument that is neither a flag nor the value of one. -/
def firstWord? (flags : List Flag) : List Text → Option Text
  | [] => none
  | argument :: rest =>
    if argument = endOfFlags then none
    else if wantsValue flags argument then
      match rest with
      | _ :: next :: rest => firstWord? flags (next :: rest)
      | _ => none
    else if argument.isEmpty || isFlag argument then firstWord? flags rest
    else some argument

/-- The arguments without the first word, which is given. -/
def withoutWord (flags : List Flag) (word : Text) : List Text → List Text
  | [] => []
  | argument :: rest =>
    if argument = endOfFlags then argument :: rest
    else if wantsValue flags argument then
      match rest with
      | [] => [argument]
      | value :: rest => argument :: value :: withoutWord flags word rest
    else if argument = word then rest
    else argument :: withoutWord flags word rest

/-- The command that is asked for and the arguments for it. -/
def findCommand (arguments : List Text) : CommandName × List Text :=
  let flags := Flag.ofCommand .convert
  match firstWord? flags arguments with
  | none => (.convert, arguments)
  | some word =>
    match CommandName.ofWord? word with
    | none => (.convert, arguments)
    | some command => (command, withoutWord flags word arguments)

/-- Reads flags and arguments of a command. -/
def readFlags (flags : List Flag) (values : FlagValues) (arguments : List Text) :
    Except UsageError (FlagValues × List Text) :=
  match arguments with
  | [] => .ok (values, [])
  | argument :: rest =>
    match argument with
    | ['-', '-'] => .ok (values, rest)
    | '-' :: '-' :: name =>
      match values.setNamed flags name rest.head? with
      | .error e => .error e
      | .ok (values, used) => readFlags flags values (rest.drop used.toNat)
    | '-' :: c :: group =>
      match values.setGroup flags rest.head? (c :: group) with
      | .error e => .error e
      | .ok (values, used) => readFlags flags values (rest.drop used.toNat)
    | _ => do
      let (values, words) ← readFlags flags values rest
      return (values, argument :: words)
termination_by arguments.length
decreasing_by all_goals simp only [List.length_cons, List.length_drop]; omega

/-- Checks how many arguments a command is given. -/
def checkCount : CommandName → List Text → Except UsageError Unit
  | .convert, arguments =>
    if 1 < arguments.length then .error (.tooMany 1 arguments.length) else .ok ()
  | .tokens, arguments | .ast, arguments =>
    if arguments.length ≠ 1 then .error (.wrongCount 1 arguments.length) else .ok ()
  | .repl, argument :: _ => .error (.unknownCommand argument "htex repl".toList)
  | _, _ => .ok ()

/-- Reads a list of arguments. -/
def Invocation.parse (arguments : List Text) : Except UsageError Invocation := do
  let (command, arguments) := findCommand arguments
  let (flags, words) ← readFlags (Flag.ofCommand command) .none arguments
  checkCount command words
  return ⟨command, flags, words⟩

end ProseMath.CommandLine
