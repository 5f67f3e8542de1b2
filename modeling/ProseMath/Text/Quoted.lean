import ProseMath.Text.Printable

/-!
# Quoted text

The quoted form of a text stands between double quotes. A quote and a backslash are written after a
backslash, the usual control characters by their letters, other characters that are not printable
by their number in hexadecimal; everything else stands for itself.
-/

namespace ProseMath.Text

/-- A number in hexadecimal digits, filled up with zeros to a width. -/
def hexadecimal (width n : Nat) : Text :=
  let digits := Nat.toDigits 16 n
  List.replicate (width - digits.length) '0' ++ digits

/-- A character of a quoted text, where `quote` is the mark at both ends. -/
def quotedChar (quote : Char) (c : Char) : Text :=
  if c == quote || c == '\\' then ['\\', c]
  else if isPrintable c then [c]
  else match c.toNat with
    | 7 => ['\\', 'a']
    | 8 => ['\\', 'b']
    | 9 => ['\\', 't']
    | 10 => ['\\', 'n']
    | 11 => ['\\', 'v']
    | 12 => ['\\', 'f']
    | 13 => ['\\', 'r']
    | n =>
      if n < 0x20 || n == 0x7F then ['\\', 'x'] ++ hexadecimal 2 n
      else if n < 0x10000 then ['\\', 'u'] ++ hexadecimal 4 n
      else ['\\', 'U'] ++ hexadecimal 8 n

/-- The text between double quotes. -/
def quoted (t : Text) : Text := '\x22' :: t.flatMap (quotedChar '\x22') ++ ['\x22']

/-- A single character between single quotes. -/
def quotedSingle (c : Char) : Text := '\x27' :: quotedChar '\x27' c ++ ['\x27']

end ProseMath.Text
