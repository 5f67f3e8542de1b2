import ProseMath.Expr.Fault
import ProseMath.FileTree
import ProseMath.Latex.Formula
import ProseMath.Settings.Basic

/-!
# Failures of commands

A command fails for a cause, and says on the way what it was about to do.
-/

namespace ProseMath

/-- A mistake in the arguments of a command line. -/
inductive UsageError where
  /-- Another number of arguments than the exact one. -/
  | wrongCount (expected actual : Nat)
  | tooMany (allowed actual : Nat)
  /-- An argument where none is taken. -/
  | unknownCommand (argument command : Text)
  | unknownFlag (name : Text)
  | unknownShorthand (c : Char) (group : Text)
  | badFlag (argument : Text)
  | flagNeedsArgument (argument : Text)
  | shorthandNeedsArgument (c : Char) (group : Text)
  | invalidBool (value flag : Text)
deriving DecidableEq, Repr

/-- The text of a mistake. -/
def UsageError.message : UsageError → Text
  | .wrongCount expected actual =>
    "accepts ".toList ++ Text.ofNat expected ++ " arg(s), received ".toList ++ Text.ofNat actual
  | .tooMany allowed actual =>
    "accepts at most ".toList ++ Text.ofNat allowed ++ " arg(s), received ".toList ++
      Text.ofNat actual
  | .unknownCommand argument command =>
    "unknown command ".toList ++ Text.quoted argument ++ " for ".toList ++ Text.quoted command
  | .unknownFlag name => "unknown flag: --".toList ++ name
  | .unknownShorthand c group =>
    "unknown shorthand flag: ".toList ++ Text.quotedSingle c ++ " in -".toList ++ group
  | .badFlag argument => "bad flag syntax: ".toList ++ argument
  | .flagNeedsArgument argument => "flag needs an argument: ".toList ++ argument
  | .shorthandNeedsArgument c group =>
    "flag needs an argument: ".toList ++ Text.quotedSingle c ++ " in -".toList ++ group
  | .invalidBool value flag =>
    "invalid argument ".toList ++ Text.quoted value ++ " for ".toList ++ Text.quoted flag ++
      " flag: strconv.ParseBool: parsing ".toList ++ Text.quoted value ++ ": invalid syntax".toList

/-- Why a command fails. -/
inductive Cause where
  | source (e : SyntaxError)
  | missingNode (node : MissingNode)
  | file (e : PathError)
  /-- A settings file is not understood. -/
  | settings (format : Format)
  /-- The output takes no more text. -/
  | outputClosed
  /-- The input cannot be read to its end. -/
  | inputFailed (reason : Text)
  | inputIsDirectory (path : Text)
  | inputNotGiven
  | usage (e : UsageError)
deriving DecidableEq, Repr

/-- The text of a cause. -/
def Cause.message : Cause → Text
  | .source e => e.message
  | .missingNode node => node.message
  | .file e => e.message
  | .settings format => "failed to parse ".toList ++ format.name.toList ++ " config".toList
  | .outputClosed => "writer is closed".toList
  | .inputFailed reason => reason
  | .inputIsDirectory path => "input ".toList ++ path ++ " is a directory".toList
  | .inputNotGiven => "missing input file".toList
  | .usage e => e.message

/-- A failure: what was about to be done, from the outside in, and why it failed. -/
structure Failure where
  context : List Text
  cause : Cause
deriving DecidableEq, Repr

namespace Failure

/-- A failure in doing something for another purpose. -/
def within (context : Text) (f : Failure) : Failure := { f with context := context :: f.context }

/-- A failure without context. -/
def of (cause : Cause) : Failure := ⟨[], cause⟩

/-- The text of a failure. -/
def message (f : Failure) : Text :=
  (f.context.flatMap fun part => part ++ ": ".toList) ++ f.cause.message

end Failure

/-- The cause of a failed write. -/
def Latex.WriteFailure.cause : Latex.WriteFailure → Cause
  | .missing node => .missingNode node
  | .closed => .outputClosed

end ProseMath
