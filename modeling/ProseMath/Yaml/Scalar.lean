import ProseMath.Text.Hexadecimal

/-!
# YAML: scalars

The three ways to write a scalar in the middle of a YAML text: plain, in single quotes and in double
quotes. All of them may go over several lines; a single line end then becomes a blank, and of
several the first is dropped. A reader gives the value and how many characters it took.
-/

namespace ProseMath.Yaml

/-- Blanks within a line. -/
def isBlank (c : Char) : Bool := c == ' ' || c == '\t'

/-- Line ends. -/
def isBreak (c : Char) : Bool := c == '\n' || c == '\u0085' || c == '\u2028' || c == '\u2029'

/-- Whether a text starts with a blank or a line end, or is empty. -/
def endsWord : Text → Bool
  | [] => true
  | c :: _ => isBlank c || isBreak c

/-- Whether a text starts with a line of three hyphens or three points. -/
def isDocumentMark : Text → Bool
  | a :: b :: c :: t => a == b && b == c && (a == '-' || a == '.') && endsWord t
  | _ => false

/-- Blanks and line ends that were passed and whose value is open. -/
structure Gap where
  blanks : Text
  /-- The first line end, none if it was escaped, and the further ones. -/
  breaks : Option (Option Char × Text)

namespace Gap

/-- Nothing passed. -/
def none : Gap := ⟨[], Option.none⟩

/-- Passes a blank; those behind a line end have no value. -/
def blank (g : Gap) (c : Char) : Gap :=
  if g.breaks.isSome then g else { g with blanks := g.blanks ++ [c] }

/-- Passes a line end; the one of Latin-1 counts as a line feed. -/
def lineEnd (g : Gap) (c : Char) : Gap :=
  let c := if c = '\u0085' then '\n' else c
  match g.breaks with
  | .none => ⟨[], some (some c, [])⟩
  | some (first, more) => ⟨[], some (first, more ++ [c])⟩

/-- Whether a line end was passed. -/
def isBroken (g : Gap) : Bool := g.breaks.isSome

/-- The text that the gap stands for. -/
def value (g : Gap) : Text :=
  match g.breaks with
  | .none => g.blanks
  | some (some '\n', []) => [' ']
  | some (some '\n', more) => more
  | some (some c, more) => c :: more
  | some (.none, more) => more

end Gap

/-- A scalar that was read. -/
structure ReadScalar where
  value : Text
  /-- How many characters were read. -/
  width : Nat
  /-- Whether the last of them include a line end. -/
  broken : Bool

namespace ReadScalar

/-- A scalar with more text in front, which took so many characters. -/
def extend (r : ReadScalar) (front : Text) (width : Nat) : ReadScalar :=
  { r with value := front ++ r.value, width := r.width + width }

end ReadScalar

/-! ## Plain scalars -/

/-- Characters that end a plain scalar within brackets. -/
def isFlowEnd (c : Char) : Bool := ",?[]\x7b\x7d".toList.contains c

/-- A plain scalar. It ends before a colon at the end of a word, a comment and, outside brackets, a
line that is indented less than `indent`. `fresh` tells whether blanks or line ends were just
passed. -/
def plain (flow : Bool) (indent column : Nat) (fresh : Bool) (gap : Gap) : Text → Option ReadScalar
  | [] => some ⟨[], 0, gap.isBroken⟩
  | c :: t =>
    if isBlank c then
      if gap.isBroken ∧ column < indent ∧ c = '\t' then none
      else (plain flow indent (column + 1) true (gap.blank c) t).map (·.extend [] 1)
    else if isBreak c then (plain flow indent 0 true (gap.lineEnd c) t).map (·.extend [] 1)
    else if fresh ∧
        (c = '#' ∨ (!flow ∧ column < indent) ∨ (column = 0 ∧ isDocumentMark (c :: t))) then
      some ⟨[], 0, gap.isBroken⟩
    else if (c = ':' ∧ endsWord t) ∨ (flow ∧ isFlowEnd c) then some ⟨[], 0, gap.isBroken⟩
    else (plain flow indent (column + 1) false .none t).map (·.extend (gap.value ++ [c]) 1)

/-! ## Quoted scalars -/

/-- A scalar in single quotes, behind the opening one. Two quotes stand for one. -/
def singleQuoted (column : Nat) (gap : Gap) : Text → Option ReadScalar
  | [] => none
  | c :: t =>
    if isBlank c then (singleQuoted (column + 1) (gap.blank c) t).map (·.extend [] 1)
    else if isBreak c then (singleQuoted 0 (gap.lineEnd c) t).map (·.extend [] 1)
    else if column = 0 ∧ isDocumentMark (c :: t) then none
    else if c = '\x27' then
      match t with
      | '\x27' :: rest =>
        (singleQuoted (column + 2) .none rest).map (·.extend (gap.value ++ [c]) 2)
      | _ => some ⟨gap.value, 1, false⟩
    else (singleQuoted (column + 1) .none t).map (·.extend (gap.value ++ [c]) 1)

/-- What a character behind a backslash stands for. -/
def escape? : Char → Option Char
  | '0' => some '\x00'
  | 'a' => some '\x07'
  | 'b' => some '\x08'
  | 't' => some '\t'
  | '\t' => some '\t'
  | 'n' => some '\n'
  | 'v' => some '\x0b'
  | 'f' => some '\x0c'
  | 'r' => some '\r'
  | 'e' => some '\x1b'
  | ' ' => some ' '
  | '\x22' => some '\x22'
  | '\x27' => some '\x27'
  | '\\' => some '\\'
  | 'N' => some '\u0085'
  | '_' => some '\u00a0'
  | 'L' => some '\u2028'
  | 'P' => some '\u2029'
  | _ => none

/-- What stands behind a backslash: a character, and how many characters were read. -/
def escaped? : Text → Option (Char × Nat)
  | 'x' :: t => (Text.hexChar? 2 t).map (·, 3)
  | 'u' :: t => (Text.hexChar? 4 t).map (·, 5)
  | 'U' :: t => (Text.hexChar? 8 t).map (·, 9)
  | c :: _ => (escape? c).map (·, 1)
  | [] => none

/-- A scalar in double quotes, behind the opening one. A line end behind a backslash is dropped. -/
def doubleQuoted (column : Nat) (gap : Gap) (t : Text) : Option ReadScalar :=
  match t with
  | [] => none
  | c :: rest =>
    if isBlank c then (doubleQuoted (column + 1) (gap.blank c) rest).map (·.extend [] 1)
    else if isBreak c then (doubleQuoted 0 (gap.lineEnd c) rest).map (·.extend [] 1)
    else if column = 0 ∧ isDocumentMark t then none
    else if c = '\x22' then some ⟨gap.value, 1, false⟩
    else if c = '\\' then
      if rest.head?.any isBreak then
        (doubleQuoted 0 ⟨[], some (none, [])⟩ (rest.drop 1)).map (·.extend gap.value 2)
      else match escaped? rest with
        | none => none
        | some (d, width) =>
          (doubleQuoted (column + 1 + width) .none (rest.drop width)).map
            (·.extend (gap.value ++ [d]) (width + 1))
    else (doubleQuoted (column + 1) .none rest).map (·.extend (gap.value ++ [c]) 1)
termination_by t.length
decreasing_by all_goals simp only [List.length_cons, List.length_drop]; omega

end ProseMath.Yaml
