import ProseMath.Document.Basic
import ProseMath.Expr.Parser
import ProseMath.Token.Scan

/-!
# Reading documents

Tokens are read from left to right. A line with an equals sign outside parentheses is an equation;
the other lines are prose, cut into paragraphs at empty lines and at equations. Parentheses count
across the lines of prose, but an equation leaves the count as it was before its line.

Up to the equals sign a line is collected as prose, so the tokens of the current line are taken
back from the paragraph when the sign is met (`Reading.setBack`).

* `Reading.step_rest`: a step goes forward in the token list.
-/

namespace ProseMath

/-- How far the reading of a document has come. -/
structure Reading where
  /-- The blocks that are complete. -/
  blocks : List Block
  /-- The tokens of the paragraph being collected. -/
  floating : List Token
  /-- The tokens of the current line that have been read. -/
  line : List Token
  /-- How many parentheses are open. -/
  depth : Nat
  /-- How many were open at the beginning of the current line. -/
  carried : Nat
  /-- The tokens to be read. -/
  rest : List Token

namespace Reading

/-- Nothing read so far. -/
def start (tokens : List Token) : Reading := ⟨[], [], [], 0, 0, tokens⟩

/-- The collected paragraph becomes a block, unless it is blank. -/
def flush (s : Reading) : Reading :=
  let text := Text.trim (Token.content s.floating)
  { s with
    blocks := if text.isEmpty then s.blocks else s.blocks ++ [.paragraph text]
    floating := [] }

/-- The paragraph without the tokens of the current line. -/
def setBack (s : Reading) : Reading :=
  { s with floating := s.floating.take (s.floating.length - s.line.length) }

/-- A token of prose. -/
def collect (s : Reading) (token : Token) (rest : List Token) : Reading :=
  { s with floating := s.floating ++ [token], line := s.line ++ [token], rest := rest }

/-- The line around an equals sign, `token`, becomes an equation. -/
def equationLine (s : Reading) (token : Token) (rest : List Token) :
    Except SyntaxError Reading := do
  let tail := rest.takeWhile fun t => t.kind ≠ .newline
  let equation ← Equation.parse (s.line ++ token :: tail)
  let s := s.setBack.flush
  return { s with
    blocks := s.blocks ++ [.equation equation]
    line := []
    depth := s.carried
    rest := (rest.dropWhile fun t => t.kind ≠ .newline).drop 1 }

/-- The end of a line of prose. An empty line after it ends the paragraph and is skipped. -/
def lineEnd (s : Reading) (token : Token) (rest : List Token) : Reading :=
  match rest with
  | next :: tail =>
    if next.kind = .newline then
      { s.flush with line := [], carried := s.depth, rest := tail }
    else { s with floating := s.floating ++ [token], line := [], carried := s.depth, rest := rest }
  | [] => { s with floating := s.floating ++ [token], line := [], carried := s.depth, rest := [] }

/-- Reads a token, in front of `rest`. -/
def step (s : Reading) (token : Token) (rest : List Token) : Except SyntaxError Reading :=
  match token.kind with
  | .openParen => .ok { s.collect token rest with depth := s.depth + 1 }
  | .closeParen =>
    if s.depth = 0 then .error ⟨.unexpectedClose, some token.offset⟩
    else .ok { s.collect token rest with depth := s.depth - 1 }
  | .equals => if s.depth = 0 then s.equationLine token rest else .ok (s.collect token rest)
  | .newline => .ok (s.lineEnd token rest)
  | _ => .ok (s.collect token rest)

theorem equationLine_rest {s after : Reading} {token : Token} {rest : List Token}
    (h : s.equationLine token rest = .ok after) : after.rest.length ≤ rest.length := by
  unfold equationLine at h
  simp only [bind, Except.bind, pure, Except.pure] at h
  split at h
  · cases h
  · cases h
    have := (List.dropWhile_sublist (fun t : Token => decide (t.kind ≠ .newline))
      (l := rest)).length_le
    simp only [List.length_drop]
    omega

theorem step_rest {s after : Reading} {token : Token} {rest : List Token}
    (h : s.step token rest = .ok after) : after.rest.length ≤ rest.length := by
  unfold step at h
  split at h
  · cases h; simp [collect]
  · split at h
    · cases h
    · cases h; simp [collect]
  · split at h
    · exact equationLine_rest h
    · cases h; simp [collect]
  · cases h
    unfold lineEnd
    split
    · split <;> simp
    · simp
  · cases h; simp [collect]

/-- Reads all tokens that are left. -/
def run (s : Reading) : Except SyntaxError Document :=
  match _hRest : s.rest with
  | [] => .ok ⟨s.flush.blocks⟩
  | token :: rest =>
    match _hStep : s.step token rest with
    | .error e => .error e
    | .ok after => after.run
termination_by s.rest.length
decreasing_by
  have := step_rest _hStep
  simp only [_hRest, List.length_cons]
  omega

end Reading

namespace Document

/-- Reads tokens as a document. -/
def ofTokens (tokens : List Token) : Except SyntaxError Document := (Reading.start tokens).run

/-- Reads a text as a document. -/
def parse (t : Text) : Except SyntaxError Document := ofTokens (tokenize t)

end Document

end ProseMath
