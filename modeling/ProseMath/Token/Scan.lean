import ProseMath.Token.Basic

/-!
# Scanning

`tokenize` cuts a text into tokens. It never fails: a character that starts no token is dropped.
The letter `x` is a multiplication sign or the start of a name depending on its two neighbours in
the text, so a position of the scan, a `Cursor`, remembers the character before it.

* `lexemeAt_of_lexeme?`: the classes of lexemes.
* `lexeme?_append`: a lexeme is a non-empty initial piece of the text it is read from.
* `Cursor.next?_shorter`: reading a token leaves less to read.
-/

namespace ProseMath

namespace Token

/-! ## Character classes -/

/-- Blanks between tokens. The line feed is a token of its own. -/
def isBlank (c : Char) : Bool := c == ' ' || c == '\t' || c == '\r'

/-- The first character of a name: a letter, an underscore, an umlaut or a sharp s. -/
def isNameStart (c : Char) : Bool := Text.isLetter c || "_äöüÄÖÜß".toList.contains c

/-- A later character of a name: also a digit. -/
def isNameChar (c : Char) : Bool := isNameStart c || Text.isDigit c

/-- The kind of a punctuation character. -/
def operator? : Char → Option Kind
  | '^' => some .exponent
  | '-' => some .minus
  | '{' => some .openBrace
  | '}' => some .closeBrace
  | ',' => some .comma
  | ':' => some .colon
  | '+' => some .plus
  | '/' => some .slash
  | '\\' => some .backslash
  | '*' => some .asterisk
  | '(' => some .openParen
  | ')' => some .closeParen
  | '.' => some .dot
  | '=' => some .equals
  | _ => none

/-- Whether an `x` between two characters is a multiplication sign. -/
def isTimes (before after : Option Char) : Bool :=
  before.any (fun c => c == ' ' || isNameChar c) && after.any fun c => c == ' ' || isNameStart c

/-! ## Lexemes -/

/-- What a text starts with: a piece of a kind, and the rest. -/
structure Lexeme where
  kind : Kind
  text : Text
  rest : Text

/-- Digits, with a fraction if a point and a further digit follow. -/
def number (t : Text) : Lexeme :=
  let whole := t.takeWhile Text.isDigit
  match t.dropWhile Text.isDigit with
  | '.' :: rest =>
    if rest.head?.any Text.isDigit then
      ⟨.number, whole ++ '.' :: rest.takeWhile Text.isDigit, rest.dropWhile Text.isDigit⟩
    else ⟨.number, whole, '.' :: rest⟩
  | rest => ⟨.number, whole, rest⟩

/-- The token at the start of a text, where `before` is the character in front of the text. -/
def lexeme? (before : Option Char) : Text → Option Lexeme
  | [] => none
  | c :: rest =>
    if c = '\n' then some ⟨.newline, [c], rest⟩
    else if c = '-' ∧ rest.head? = some '>' then some ⟨.arrow, ['-', '>'], rest.tail⟩
    else match operator? c with
      | some kind => some ⟨kind, [c], rest⟩
      | none =>
        if c = 'x' ∧ isTimes before rest.head? then some ⟨.multiply, [c], rest⟩
        else if Text.isDigit c then some (number (c :: rest))
        else if isNameStart c then
          some ⟨.identifier, (c :: rest).takeWhile isNameChar, (c :: rest).dropWhile isNameChar⟩
        else none

theorem number_append (t : Text) : (number t).text ++ (number t).rest = t := by
  have h := List.takeWhile_append_dropWhile (p := Text.isDigit) (l := t)
  unfold number
  split
  · rename_i rest hrest
    split
    · simp only [List.append_assoc, List.cons_append, List.takeWhile_append_dropWhile]
      rw [← hrest, h]
    · simp only
      rw [← hrest, h]
  · exact h

/-- What a text starts with, class by class. -/
inductive LexemeAt (before : Option Char) : Text → Lexeme → Prop
  | newline (rest : Text) : LexemeAt before ('\n' :: rest) ⟨.newline, ['\n'], rest⟩
  | arrow (rest : Text) : LexemeAt before ('-' :: '>' :: rest) ⟨.arrow, ['-', '>'], rest⟩
  | operator {c : Char} {kind : Kind} {rest : Text} (hArrow : ¬ (c = '-' ∧ rest.head? = some '>'))
    (hOperator : operator? c = some kind) : LexemeAt before (c :: rest) ⟨kind, [c], rest⟩
  | multiply {rest : Text} (hTimes : isTimes before rest.head?) :
    LexemeAt before ('x' :: rest) ⟨.multiply, ['x'], rest⟩
  | number {c : Char} {rest : Text} (hDigit : Text.isDigit c) :
    LexemeAt before (c :: rest) (number (c :: rest))
  | identifier {c : Char} {rest : Text} (hTimes : ¬ (c = 'x' ∧ isTimes before rest.head?))
    (hFirst : isNameStart c) :
    LexemeAt before (c :: rest)
      ⟨.identifier, (c :: rest).takeWhile isNameChar, (c :: rest).dropWhile isNameChar⟩

theorem lexemeAt_of_lexeme? {before : Option Char} {t : Text} {l : Lexeme}
    (h : lexeme? before t = some l) : LexemeAt before t l := by
  unfold lexeme? at h
  split at h
  · cases h
  · rename_i c rest
    split at h
    · rename_i hNewline
      cases h
      rw [hNewline]
      exact .newline rest
    · split at h
      · rename_i hArrow
        cases h
        obtain ⟨tail, rfl⟩ := List.head?_eq_some_iff.mp hArrow.2
        rw [hArrow.1]
        exact .arrow tail
      · rename_i hArrow
        split at h
        · rename_i hOperator
          cases h
          exact .operator hArrow hOperator
        · split at h
          · rename_i hTimes
            cases h
            rw [hTimes.1]
            exact .multiply hTimes.2
          · rename_i hTimes
            split at h
            · rename_i hDigit
              cases h
              exact .number hDigit
            · split at h
              · rename_i hFirst
                cases h
                exact .identifier hTimes hFirst
              · cases h

theorem lexeme?_append {before : Option Char} {t : Text} {l : Lexeme}
    (h : lexeme? before t = some l) : l.text ++ l.rest = t := by
  cases lexemeAt_of_lexeme? h with
  | number _ => exact number_append _
  | identifier _ _ => exact List.takeWhile_append_dropWhile
  | _ => rfl

theorem number_text_ne_nil {c : Char} (h : Text.isDigit c) (t : Text) :
    (number (c :: t)).text ≠ [] := by
  unfold number
  rw [List.takeWhile_cons_of_pos h]
  split
  · split <;> simp
  · simp

theorem lexeme?_text_ne_nil {before : Option Char} {t : Text} {l : Lexeme}
    (h : lexeme? before t = some l) : l.text ≠ [] := by
  cases lexemeAt_of_lexeme? h with
  | number hDigit => exact number_text_ne_nil hDigit _
  | identifier _ hFirst => simp [isNameChar, hFirst]
  | _ => simp

theorem lexeme?_rest_length {before : Option Char} {t : Text} {l : Lexeme}
    (h : lexeme? before t = some l) : l.rest.length < t.length := by
  have hText := List.length_pos_iff.mpr (lexeme?_text_ne_nil h)
  have hLength := congrArg List.length (lexeme?_append h)
  simp only [List.length_append] at hLength
  omega

end Token

/-! ## The scan -/

/-- A position in a text. -/
structure Cursor where
  /-- The character in front of the position. -/
  before : Option Char
  /-- How many characters stand in front of the position. -/
  offset : Nat
  rest : Text

namespace Cursor

/-- The position in front of a text. -/
def start (t : Text) : Cursor := ⟨none, 0, t⟩

/-- The next token of a text that stands behind `offset` characters and the blanks `space`. -/
def nextIn (before : Option Char) (offset : Nat) (space : Text) : Text → Option (Token × Cursor)
  | [] => none
  | c :: rest =>
    if Token.isBlank c then nextIn (some c) (offset + 1) (space ++ [c]) rest
    else match Token.lexeme? before (c :: rest) with
      | none => nextIn (some c) (offset + 1) space rest
      | some l =>
        some (⟨l.kind, l.text, offset, space⟩, ⟨l.text.getLast?, offset + l.text.length, l.rest⟩)

/-- The next token and the position behind it; none if only blanks and dropped characters are
left. -/
def next? (cursor : Cursor) : Option (Token × Cursor) :=
  nextIn cursor.before cursor.offset [] cursor.rest

theorem nextIn_shorter {before : Option Char} {offset : Nat} {space t : Text} {token : Token}
    {cursor : Cursor} (h : nextIn before offset space t = some (token, cursor)) :
    cursor.rest.length < t.length := by
  induction t generalizing before offset space with
  | nil => simp [nextIn] at h
  | cons c rest ih =>
    rw [nextIn] at h
    split at h
    · exact Nat.lt_succ_of_lt (ih h)
    · split at h
      · exact Nat.lt_succ_of_lt (ih h)
      · rename_i hLexeme
        cases h
        exact Token.lexeme?_rest_length hLexeme

theorem next?_shorter {cursor after : Cursor} {token : Token}
    (h : cursor.next? = some (token, after)) : after.rest.length < cursor.rest.length :=
  nextIn_shorter h

/-- All tokens behind a position. -/
def tokens (cursor : Cursor) : List Token :=
  match _h : cursor.next? with
  | none => []
  | some (token, after) => token :: after.tokens
termination_by cursor.rest.length
decreasing_by exact next?_shorter _h

end Cursor

/-- The tokens of a text. -/
def tokenize (t : Text) : List Token := (Cursor.start t).tokens

end ProseMath
