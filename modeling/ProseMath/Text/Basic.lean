/-!
# Text

A text is a list of characters. This module has the character classes that several parts of the
library share and the few operations on whole texts: trimming, lines, decimal numerals.
-/

namespace ProseMath

/-- A text, character by character. -/
abbrev Text := List Char

namespace Text

/-! ## Character classes -/

/-- White space: the characters with the Unicode property `White_Space`. -/
def isSpace (c : Char) : Bool :=
  let n := c.toNat
  (9 ≤ n && n ≤ 13) || n == 32 || n == 0x85 || n == 0xA0 || n == 0x1680 ||
    (0x2000 ≤ n && n ≤ 0x200A) || n == 0x2028 || n == 0x2029 || n == 0x202F ||
    n == 0x205F || n == 0x3000

/-- A letter of the ASCII alphabet. -/
def isLetter (c : Char) : Bool := ('a' ≤ c && c ≤ 'z') || ('A' ≤ c && c ≤ 'Z')

/-- A decimal digit of ASCII. -/
def isDigit (c : Char) : Bool := '0' ≤ c && c ≤ '9'

/-- A character of a word: letters, digits and the underscore, of ASCII only. -/
def isWord (c : Char) : Bool := isLetter c || isDigit c || c == '_'

/-- The character of a number, if there is one. -/
def charOf? (n : Nat) : Option Char := if h : n.isValidChar then some (Char.ofNatAux n h) else none

/-! ## Whole texts -/

/-- The text without the white space at both ends. -/
def trim (t : Text) : Text :=
  ((t.dropWhile isSpace).reverse.dropWhile isSpace).reverse

/-- The pieces between line feeds; there is always at least one. -/
def lines (t : Text) : List Text := t.splitOn '\n'

/-- The left sides of a table replaced by the right ones wherever they occur, from left to right
without overlap; of two entries that fit the first is taken. -/
def replaceEach (table : List (Text × Text)) : Text → Text
  | [] => []
  | c :: t =>
    match table.find? fun entry => entry.1.isPrefixOf (c :: t) with
    | some (old, new) => new ++ replaceEach table (t.drop (old.length - 1))
    | none => c :: replaceEach table t
termination_by t => t.length
decreasing_by all_goals simp only [List.length_cons, List.length_drop]; omega

/-- The texts before and behind the first occurrence of a pattern. -/
def splitAtFirst? (pattern : Text) : Text → Option (Text × Text)
  | [] => if pattern.isEmpty then some ([], []) else none
  | c :: t =>
    if pattern.isPrefixOf (c :: t) then some ([], (c :: t).drop pattern.length)
    else (splitAtFirst? pattern t).map fun parts => (c :: parts.1, parts.2)

/-- The letters of ASCII in lower case, all else unchanged. -/
def lower (t : Text) : Text := t.map Char.toLower

/-- A natural number in decimal digits. -/
def ofNat (n : Nat) : Text := Nat.toDigits 10 n

/-- An integer in decimal digits, with a minus sign where it is negative. -/
def ofInt (n : Int) : Text :=
  if n < 0 then '-' :: ofNat n.natAbs else ofNat n.natAbs

/-- The text filled up with blanks on the right to a width. -/
def padRight (width : Nat) (t : Text) : Text := t ++ List.replicate (width - t.length) ' '

/-- The text filled up with blanks on the left to a width. -/
def padLeft (width : Nat) (t : Text) : Text := List.replicate (width - t.length) ' ' ++ t

/-! ## What a split keeps -/

theorem splitAtFirst?_append {pattern t : Text} {parts : Text × Text}
    (h : splitAtFirst? pattern t = some parts) : parts.1 ++ (pattern ++ parts.2) = t := by
  induction t generalizing parts with
  | nil =>
    unfold splitAtFirst? at h
    split at h
    · cases h; simp_all
    · cases h
  | cons c t ih =>
    unfold splitAtFirst? at h
    split at h
    · rename_i hPrefix
      obtain ⟨rest, hRest⟩ := List.isPrefixOf_iff_prefix.mp hPrefix
      cases h
      rw [← hRest, List.drop_left, List.nil_append]
    · obtain ⟨inner, hInner, rfl⟩ := Option.map_eq_some_iff.mp h
      rw [List.cons_append, ih hInner]

end Text

end ProseMath
