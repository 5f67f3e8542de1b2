import ProseMath.Text.Basic

/-!
# Paths

Names of files as texts, with slashes between the elements. Nothing here looks at a file: `clean`
gives the shortest path that means the same if no element is a link.
-/

namespace ProseMath.Path

/-- The element that names the directory itself. -/
def here : Text := ['.']

/-- The element that names the directory above. -/
def above : Text := ['.', '.']

/-- Whether a path starts at the root. -/
def isAbsolute (p : Text) : Bool := p.head? = some '/'

/-- What stands behind the last slash. -/
def lastElement (p : Text) : Text := (p.reverse.takeWhile (· ≠ '/')).reverse

/-- What stands up to the last slash, which is included. -/
def upToLast (p : Text) : Text := (p.reverse.dropWhile (· ≠ '/')).reverse

/-- An element put behind a cleaned path whose elements are given from the last to the first. -/
def pushElement (absolute : Bool) (elements : List Text) (element : Text) : List Text :=
  if element = [] ∨ element = here then elements
  else if element = above then
    match elements with
    | [] => if absolute then [] else [above]
    | last :: rest => if last = above then above :: elements else rest
  else element :: elements

/-- The elements of the cleaned path, from the first to the last. -/
def elements (p : Text) : List Text :=
  ((p.splitOn '/').foldl (pushElement (isAbsolute p)) []).reverse

/-- The shortest path of the same meaning. -/
def clean (p : Text) : Text :=
  let body := ['/'].intercalate (elements p)
  if isAbsolute p then '/' :: body else if body.isEmpty then here else body

/-- The last element, trailing slashes aside. -/
def base (p : Text) : Text :=
  if p.isEmpty then here
  else
    let stripped := (p.reverse.dropWhile (· = '/')).reverse
    if stripped.isEmpty then ['/'] else lastElement stripped

/-- What follows the last point of the last element, the point included; empty without a point. -/
def extension (p : Text) : Text :=
  let name := (lastElement p).reverse
  if name.contains '.' then '.' :: (name.takeWhile (· ≠ '.')).reverse else []

/-- All but the last element, cleaned. -/
def directory (p : Text) : Text := clean (upToLast p)

/-- Two paths one behind the other, cleaned; empty paths in front are left out. -/
def join (p q : Text) : Text :=
  if p.isEmpty then (if q.isEmpty then [] else clean q) else clean (p ++ '/' :: q)

/-- A text without a given ending, if it has it. -/
def dropEnding (ending t : Text) : Text :=
  if ending.isSuffixOf t then t.take (t.length - ending.length) else t

/-- The paths of the directories on the way to a path and of itself, from the outermost on. -/
def ancestors (p : Text) : List Text :=
  let parts := p.splitOn '/'
  ((List.range parts.length).map fun n => ['/'].intercalate (parts.take (n + 1))).filter
    fun q => !q.isEmpty

end ProseMath.Path
