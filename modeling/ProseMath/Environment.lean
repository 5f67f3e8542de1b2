import ProseMath.Text.Basic

/-!
# References to environment variables

`template` finds the references in a text. Behind a dollar sign stands a name in braces, one special
character, or the longest run of word characters; a dollar sign with none of these is text. Braces
with nothing between them, and an opening brace without a closing one, vanish.
-/

namespace ProseMath.Environment

/-- A part of a text with references. -/
inductive Part where
  | text (c : Char)
  | reference (name : Text)
deriving DecidableEq, Repr

/-- Characters that are a variable name by themselves. -/
def isSpecial (c : Char) : Bool := Text.isDigit c || "*#$@!?-".toList.contains c

/-- What stands behind a dollar sign: the name, if there is one, and how many characters belong to
the reference. None if the dollar sign is text. -/
def reference? : Text → Option (Option Text × Nat)
  | [] => none
  | '{' :: rest =>
    match rest with
    | c :: '}' :: _ =>
      if isSpecial c then some (some [c], 3) else braced rest
    | _ => braced rest
  | c :: rest =>
    if isSpecial c then some (some [c], 1)
    else
      let name := (c :: rest).takeWhile Text.isWord
      if name.isEmpty then none else some (some name, name.length)
where
  /-- A name that runs to the closing brace. -/
  braced (rest : Text) : Option (Option Text × Nat) :=
    let name := rest.takeWhile (· ≠ '}')
    if name.length = rest.length then some (none, 1)
    else if name.isEmpty then some (none, 2)
    else some (some name, name.length + 2)

/-- The parts of a text. -/
def template : Text → List Part
  | [] => []
  | c :: t =>
    if c = '$' then
      match reference? t with
      | some (some name, width) => .reference name :: template (t.drop width)
      | some (none, width) => template (t.drop width)
      | none => .text c :: template t
    else .text c :: template t
termination_by t => t.length
decreasing_by all_goals simp only [List.length_cons, List.length_drop]; omega

/-- A text with its references replaced by what they refer to. -/
def expand {m : Type → Type} [Monad m] (lookup : Text → m Text) (t : Text) : m Text := do
  let parts ← (template t).mapM fun part =>
    match part with
    | .text c => pure [c]
    | .reference name => lookup name
  return parts.flatten

end ProseMath.Environment
