import ProseMath.Yaml.Scalar

/-!
# YAML: tokens

A YAML text is cut into tokens, among them ones that stand for indentation: a block begins where a
line is indented more than the block around it, and ends where one is indented less. What turns
out to be a key when its colon is read gets its token put in front of it afterwards.

A text is cut only as far as its tokens are read: up to two tokens behind the one that is looked at,
and up to the colon that tells whether this one is a key. So a fault does not count if it comes late
enough, and `Cut` says how many tokens can be read in spite of it.

Of YAML only a part is read here: anchors, aliases, tags, block scalars and directives have no
tokens, and a text is refused where one of them begins (`isForeign`, `Scan.token`).
-/

namespace ProseMath.Yaml

/-- Characters that begin an anchor, an alias, a tag or a block scalar. YAML gives these a meaning,
but they are not read here. -/
def isForeign (c : Char) : Bool := "&*!|>".toList.contains c

/-- A token. -/
inductive Token where
  | documentStart
  | documentEnd
  | blockSequence
  | blockMapping
  | blockEnd
  | sequenceOpen
  | sequenceClose
  | mappingOpen
  | mappingClose
  /-- The hyphen in front of an item. -/
  | item
  | comma
  | key
  | value
  | scalar (t : Text) (isPlain : Bool)
deriving DecidableEq, Repr

/-- A token that becomes a key if a colon follows it. -/
structure KeyCandidate where
  /-- The number of the token. -/
  token : Nat
  line : Nat
  column : Nat
  position : Nat
  /-- Whether there has to be a key here. -/
  required : Bool
  /-- Whether the token is not to be read before it is known if it is a key. -/
  awaited : Bool

/-- The outside of all brackets, or the inside of a pair of them. -/
structure Level where
  /-- The number of the last token that was made a candidate, at first of the opening bracket. -/
  token : Nat
  candidate : Option KeyCandidate

/-- The level around one that is closed. If there was no candidate inside, the opening bracket is
not waited for any longer, though it can still become a key. -/
def Level.close (inner around : Level) : Level :=
  { around with candidate := around.candidate.map fun k =>
      { k with awaited := k.awaited && k.token ≠ inner.token } }

/-- How far the cutting has come. -/
structure Scan where
  rest : Text
  line : Nat
  column : Nat
  position : Nat
  tokens : List Token
  /-- The indentation of the innermost block, and those of the ones around it. -/
  indent : Int
  outer : List Int
  /-- The innermost level, and those around it. -/
  level : Level
  levels : List Level
  /-- Whether a key may begin here. -/
  keyAllowed : Bool
  /-- How many tokens have been read by whoever reads them while the text is cut. -/
  read : Nat
  /-- Whether the first character of the text is a mark of the encoding. Then the first character of
  a line counts as one, if the line begins in front of a token. -/
  marked : Bool

namespace Scan

/-- In front of a text. -/
def start (t : Text) : Scan :=
  ⟨t, 0, 0, 0, [], -1, [], ⟨0, none⟩, [], true, 0, t.head? = some '\uFEFF'⟩

/-- Whether the position is between brackets. -/
def inFlow (s : Scan) : Bool := !s.levels.isEmpty

/-! ## Passing characters -/

/-- One column further. -/
def nextColumn (s : Scan) : Scan :=
  { s with column := s.column + 1, position := s.position + 1 }

/-- At the beginning of the next line. -/
def nextLine (s : Scan) : Scan :=
  { s with line := s.line + 1, column := 0, position := s.position + 1 }

/-- Passes characters. -/
def skip (s : Scan) : Nat → Scan
  | 0 => s
  | n + 1 =>
    match s.rest with
    | [] => s
    | c :: t => skip { (if isBreak c then s.nextLine else s.nextColumn) with rest := t } n

/-- Passes a comment on the same line, with the blanks in front of it. -/
def skipComment (s : Scan) : Scan :=
  let blanks := s.rest.takeWhile isBlank
  let comment := (s.rest.drop blanks.length).takeWhile fun c => !isBreak c
  if comment.head? = some '#' then s.skip (blanks.length + comment.length) else s

/-- Whether blanks and line feeds lead to a comment. -/
def leadsToComment (t : Text) : Bool :=
  (t.dropWhile fun c => isBlank c || c == '\n').head? = some '#'

/-- What is passed on the way to a token. -/
inductive Filling where
  | blanks
  | comment
  /-- Blanks and line feeds between two comments. -/
  | betweenComments
deriving DecidableEq, Repr

/-- Passes blanks, comments and line ends. Tabs are passed where no key may begin, and between two
comments. A line end allows a key, unless it is between brackets or comments. -/
def skipFilling (s : Scan) (filling : Filling) : Text → Scan
  | [] => { s with rest := [] }
  | c :: t =>
    match filling with
    | .blanks =>
      if s.marked ∧ s.column = 0 then s.nextColumn.skipFilling .blanks t
      else if isBreak c then
        { s.nextLine with keyAllowed := s.keyAllowed || !s.inFlow }.skipFilling .blanks t
      else if c = ' ' ∨ (c = '\t' ∧ (s.inFlow || !s.keyAllowed)) then
        s.nextColumn.skipFilling .blanks t
      else if c = '#' then s.nextColumn.skipFilling .comment t
      else { s with rest := c :: t }
    | .comment =>
      if !isBreak c then s.nextColumn.skipFilling .comment t
      else if c = '\n' ∧ leadsToComment t then s.nextLine.skipFilling .betweenComments t
      else { s.nextLine with keyAllowed := s.keyAllowed || !s.inFlow }.skipFilling .blanks t
    | .betweenComments =>
      if c = '#' then s.nextColumn.skipFilling .comment t
      else if c = '\n' then s.nextLine.skipFilling .betweenComments t
      else s.nextColumn.skipFilling .betweenComments t

/-- Adds a token that takes so many characters. -/
def add (s : Scan) (token : Token) (width : Nat) : Scan :=
  { s with tokens := s.tokens ++ [token] }.skip width

/-- Adds a token that takes so many characters, and passes a comment behind it. -/
def emit (s : Scan) (token : Token) (width : Nat) : Scan := (s.add token width).skipComment

/-! ## Indentation -/

/-- Ends the blocks that are indented more than a column. -/
def unroll (column : Int) (indent : Int) (outer : List Int) : Nat × Int × List Int :=
  match outer with
  | [] => (0, indent, [])
  | next :: rest =>
    if column < indent then
      let (count, indent, outer) := unroll column next rest
      (count + 1, indent, outer)
    else (0, indent, outer)

/-- Ends the blocks that are indented more than a column, unless the position is between
brackets. -/
def endBlocks (s : Scan) (column : Int) : Scan :=
  if s.inFlow then s
  else
    let (count, indent, outer) := unroll column s.indent s.outer
    { s with
      tokens := s.tokens ++ List.replicate count .blockEnd
      indent := indent
      outer := outer }

/-- Begins a block in front of the token of a number, if the column is indented more than the
innermost block. -/
def beginBlock (s : Scan) (column : Nat) (number : Nat) (token : Token) : Scan :=
  if s.inFlow ∨ (column : Int) ≤ s.indent then s
  else { s with
    tokens := s.tokens.take number ++ token :: s.tokens.drop number
    indent := column
    outer := s.indent :: s.outer }

/-! ## Candidates for keys -/

/-- Gives up the innermost candidate; refused if there has to be a key. -/
def dropCandidate (s : Scan) : Option Scan :=
  if s.level.candidate.any KeyCandidate.required then none
  else some { s with level := { s.level with candidate := none } }

/-- Makes the next token a candidate, if a key may begin here. -/
def saveCandidate (s : Scan) : Option Scan :=
  if s.keyAllowed then do
    let s ← s.dropCandidate
    let number := s.tokens.length
    let required := !s.inFlow && s.indent = s.column
    let candidate : KeyCandidate := ⟨number, s.line, s.column, s.position, required, true⟩
    return { s with level := ⟨number, some candidate⟩ }
  else some s

/-- Whether a candidate is on the same line and not too far away. -/
def isNear (s : Scan) (candidate : KeyCandidate) : Bool :=
  s.line ≤ candidate.line && s.position ≤ candidate.position + 1024

/-- The innermost candidate, if it is near; refused if there has to be a key and this is none. -/
def currentCandidate (s : Scan) : Option (Option KeyCandidate) :=
  match s.level.candidate with
  | some candidate =>
    if s.isNear candidate then some (some candidate)
    else if candidate.required then none
    else some none
  | none => some none

/-- How many tokens can be read before the next one is cut: all but the last two, and none from the
first on that is waited for. -/
def readable (s : Scan) : Nat :=
  let candidates := (s.level :: s.levels).filterMap Level.candidate
  let awaited := candidates.filter fun k => k.awaited && s.isNear k
  awaited.foldl (fun count k => min count k.token) (s.tokens.length - 2)

/-! ## Tokens -/

/-- An opening bracket. -/
def openBracket (s : Scan) (token : Token) : Option Scan := do
  let s ← s.saveCandidate
  return { s.emit token 1 with
    level := ⟨s.tokens.length, none⟩
    levels := s.level :: s.levels
    keyAllowed := true }

/-- A closing bracket. -/
def closeBracket (s : Scan) (token : Token) : Option Scan := do
  let s ← s.dropCandidate
  let s := match s.levels with
    | [] => s
    | around :: levels => { s with level := s.level.close around, levels := levels }
  return { s.emit token 1 with keyAllowed := false }

/-- A comma between brackets. -/
def comma (s : Scan) : Option Scan := do
  let s ← s.dropCandidate
  return { s.emit .comma 1 with keyAllowed := true }

/-- A hyphen in front of an item. -/
def item (s : Scan) : Option Scan := do
  if !s.inFlow ∧ !s.keyAllowed then none
  let s ← (s.beginBlock s.column s.tokens.length .blockSequence).dropCandidate
  return { s.add .item 1 with keyAllowed := true }

/-- A question mark in front of a key. -/
def explicitKey (s : Scan) : Option Scan := do
  if !s.inFlow ∧ !s.keyAllowed then none
  let s ← (s.beginBlock s.column s.tokens.length .blockMapping).dropCandidate
  return { s.emit .key 1 with keyAllowed := !s.inFlow }

/-- A colon in front of a value. The key has its token put in front of it, or in front of the colon
if the key has been read already. -/
def colon (s : Scan) : Option Scan := do
  match ← s.currentCandidate with
  | some candidate =>
    let late := candidate.token < s.read
    let number := if late then s.tokens.length else candidate.token
    let s := { s with
      tokens := s.tokens.take number ++ Token.key :: s.tokens.drop number
      level := { s.level with candidate := none }
      keyAllowed := false }
    let number := if late then s.tokens.length else number
    return (s.beginBlock candidate.column number .blockMapping).emit .value 1
  | none =>
    if !s.inFlow ∧ !s.keyAllowed then none
    let s := { s with level := { s.level with candidate := none } }
    let s := s.beginBlock s.column s.tokens.length .blockMapping
    return { s.emit .value 1 with keyAllowed := !s.inFlow }

/-- The mark at the beginning or end of a document. -/
def documentMark (s : Scan) (token : Token) : Option Scan := do
  let s ← (s.endBlocks (-1)).dropCandidate
  return { s.add token 3 with keyAllowed := false }

/-- A scalar in quotes. -/
def quotedScalar (s : Scan) (reader : Nat → Gap → Text → Option ReadScalar) : Option Scan := do
  let s ← s.saveCandidate
  let r ← reader (s.column + 1) .none (s.rest.drop 1)
  return { s.emit (.scalar r.value false) (r.width + 1) with keyAllowed := false }

/-- A plain scalar. -/
def plainScalar (s : Scan) : Option Scan := do
  let s ← s.saveCandidate
  let r ← plain s.inFlow (s.indent + 1).toNat s.column false .none s.rest
  let token : Token := .scalar r.value true
  return { (if r.broken then s.add token r.width else s.emit token r.width) with
    keyAllowed := r.broken }

/-- Characters that begin no plain scalar, or only some. Among them are blanks, since a tab is left
over where a key may begin. -/
def isIndicator (c : Char) : Bool :=
  isBlank c || isForeign c || "-?:,[]\x7b\x7d#%@\x27\x22\x60".toList.contains c

/-- The next token, at a position where one begins; refused are characters that begin none, and what
is not read of YAML: a directive, which begins a line, an anchor, an alias, a tag or a block
scalar. -/
def token (s : Scan) (c : Char) (t : Text) : Option Scan :=
  let atEnd := endsWord t
  -- a directive
  if s.column = 0 ∧ c = '%' then none
  else if s.column = 0 ∧ isDocumentMark (c :: t) then
    s.documentMark (if c = '-' then .documentStart else .documentEnd)
  else if c = '[' then s.openBracket .sequenceOpen
  else if c = '{' then s.openBracket .mappingOpen
  else if c = ']' then s.closeBracket .sequenceClose
  else if c = '}' then s.closeBracket .mappingClose
  else if c = ',' then s.comma
  else if c = '-' ∧ atEnd then s.item
  else if c = '?' ∧ (s.inFlow ∨ atEnd) then s.explicitKey
  else if c = ':' ∧ (s.inFlow ∨ atEnd) then s.colon
  else if c = '\x27' then s.quotedScalar singleQuoted
  else if c = '\x22' then s.quotedScalar doubleQuoted
  else if !isIndicator c ∨ c = '-' ∨ (!s.inFlow ∧ (c = '?' ∨ c = ':')) then s.plainScalar
  -- a foreign character, or one that begins nothing here
  else none

/-- Passes what stands in front of the next token and ends the blocks that end there. -/
def approach (s : Scan) : Scan :=
  let s := { s with read := s.readable }.skipFilling .blanks s.rest
  s.endBlocks s.column

end Scan

/-- What was cut from a text. -/
structure Cut where
  tokens : List Token
  /-- Whether all of the text was cut. -/
  complete : Bool
  /-- How many tokens can be read, if not all of it was. -/
  readable : Nat

/-- Whether so many tokens can be read and the next one looked at. -/
def Cut.reaches (cut : Cut) (count : Nat) : Bool := cut.complete || count < cut.readable

namespace Scan

/-- The tokens up to a fault. -/
def fault (s : Scan) : Cut := ⟨s.tokens, false, s.readable⟩

/-- All tokens, or those up to the first fault. -/
def run (s : Scan) : Cut :=
  match s.approach.rest with
  | [] =>
    match (s.approach.endBlocks (-1)).dropCandidate with
    | some done => ⟨done.tokens, true, done.tokens.length⟩
    | none => s.fault
  | c :: t =>
    match s.approach.token c t with
    | none => s.fault
    | some after => if after.rest.length < s.rest.length then after.run else s.fault
termination_by s.rest.length

end Scan

/-- Characters that may stand in a YAML text. -/
def isAllowed (c : Char) : Bool :=
  let n := c.toNat
  n == 9 || n == 10 || n == 13 || (0x20 ≤ n && n ≤ 0x7E) || n == 0x85 ||
    (0xA0 ≤ n && n ≤ 0xFFFD) || 0x10000 ≤ n

/-- Line ends of two characters, and carriage returns, as line feeds. -/
def unifyBreaks : Text → Text
  | [] => []
  | '\r' :: '\n' :: t => '\n' :: unifyBreaks t
  | c :: t => (if c = '\r' then '\n' else c) :: unifyBreaks t

/-- The tokens of a text of allowed characters. -/
def cut? (t : Text) : Option Cut :=
  if t.all isAllowed then some (Scan.start (unifyBreaks t)).run else none

end ProseMath.Yaml
