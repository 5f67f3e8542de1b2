import ProseMath.Text.Basic

/-!
# Tokens

A token is a classified piece of a source text. Blanks are no tokens: they are kept in the token
that follows them, so that `content` can put a line of prose together again.
-/

namespace ProseMath

/-- The class of a token. `unknown` and `whitespace` are never given to a scanned token. -/
inductive Kind where
  | unknown
  | number
  | identifier
  | comma
  | equals
  | newline
  | openParen
  | closeParen
  | dot
  | plus
  | minus
  | multiply
  | slash
  | backslash
  | asterisk
  | exponent
  | colon
  | arrow
  | openBrace
  | closeBrace
  | whitespace
deriving DecidableEq, Repr

namespace Kind

/-- The kinds in their numbering, which starts at zero. -/
def all : List Kind :=
  [.unknown, .number, .identifier, .comma, .equals, .newline, .openParen, .closeParen, .dot, .plus,
   .minus, .multiply, .slash, .backslash, .asterisk, .exponent, .colon, .arrow, .openBrace,
   .closeBrace, .whitespace]

/-- The name of a kind in messages and listings. -/
def name : Kind → String
  | .unknown => "unknown"
  | .number => "number"
  | .identifier => "identifier"
  | .comma => "comma"
  | .equals => "equals"
  | .newline => "newline"
  | .openParen => "open_paren"
  | .closeParen => "close_paren"
  | .dot => "dot"
  | .plus => "plus"
  | .minus => "minus"
  | .multiply => "multiply"
  | .slash => "slash"
  | .backslash => "backslash"
  | .asterisk => "asterisk"
  | .exponent => "exponent"
  | .colon => "colon"
  | .arrow => "arrow"
  | .openBrace => "open_brace"
  | .closeBrace => "close_brace"
  | .whitespace => "whitespace"

/-- The kind of a given name. -/
def ofName? (name : String) : Option Kind := all.find? fun kind => kind.name == name

/-- The kind of a given number, `unknown` outside the numbering. -/
def ofNumber (value : Int) : Kind :=
  if value < 0 then .unknown else all.getD value.toNat .unknown

end Kind

/-- A classified piece of a source text. -/
structure Token where
  kind : Kind
  text : Text
  /-- How many characters of the source stand before the token. -/
  offset : Int
  /-- The blanks between the token and the one before it. -/
  space : Text
deriving DecidableEq, Repr

namespace Token

/-- The texts of tokens one after another, without blanks. -/
def stringify (tokens : List Token) : Text := tokens.flatMap Token.text

/-- Tokens put together again with the blanks before each of them. -/
def content (tokens : List Token) : Text := tokens.flatMap fun token => token.space ++ token.text

end Token

end ProseMath
