import ProseMath.Text.Hexadecimal
import ProseMath.Toml.Basic

/-!
# TOML: reading statements

The grammar of TOML 1.0 and 1.1, read by recursive descent. A reader gives a value and the text
behind it; `Read` records that this text is shorter, which is why the nested readers come to an end.
-/

namespace ProseMath.Toml

/-- A value read from the front of a text, and the shorter text behind it. -/
structure Read (α : Type) (t : Text) where
  value : α
  rest : Text
  shorter : rest.length < t.length

/-- The result of a reader, refused unless something was read. -/
def Read.ofPair? {α : Type} (t : Text) (result : Option (α × Text)) : Option (Read α t) :=
  match result with
  | none => none
  | some (value, rest) => if h : rest.length < t.length then some ⟨value, rest, h⟩ else none

/-! ## Characters and filling -/

/-- Characters that may stand in a TOML text: no control characters but tabs and line ends. -/
def isAllowed (c : Char) : Bool :=
  c == '\t' || c == '\n' || c == '\r' || !(c.toNat < 0x20 || c.toNat == 0x7F)

/-- Whether every carriage return stands before a line feed. -/
def returnsPaired : Text → Bool
  | [] => true
  | '\r' :: '\n' :: t => returnsPaired t
  | c :: t => c ≠ '\r' && returnsPaired t

variable (version : Version)

/-- Blanks within a line. -/
def isBlank (c : Char) : Bool := c == ' ' || c == '\t'

/-- Characters that end a line. -/
def isLineEnd (c : Char) : Bool := c == '\n' || c == '\r'

/-- The text without blanks at its front. -/
def skipBlanks (t : Text) : Text := t.dropWhile isBlank

theorem length_skipBlanks (t : Text) : (skipBlanks t).length ≤ t.length :=
  (List.dropWhile_sublist isBlank).length_le

/-- The text without blanks, line ends and comments at its front. -/
def skipFilling (inComment : Bool) : Text → Text
  | [] => []
  | c :: t =>
    if inComment then skipFilling (c ≠ '\n') t
    else if isBlank c || isLineEnd c then skipFilling false t
    else if c = '#' then skipFilling true t
    else c :: t

theorem length_skipFilling (inComment : Bool) (t : Text) :
    (skipFilling inComment t).length ≤ t.length := by
  induction t generalizing inComment with
  | nil => simp [skipFilling]
  | cons c t ih =>
    rw [skipFilling]
    split
    · exact Nat.le_succ_of_le (ih _)
    · split
      · exact Nat.le_succ_of_le (ih _)
      · split
        · exact Nat.le_succ_of_le (ih _)
        · simp

/-- The text without what may stand around the entries of an inline table at its front. -/
def skipAround (t : Text) : Text :=
  match version with
  | .v10 => skipBlanks t
  | .v11 => skipFilling false t

theorem length_skipAround (t : Text) : (skipAround version t).length ≤ t.length := by
  cases version
  · exact length_skipBlanks t
  · exact length_skipFilling false t

/-! ## Texts -/

/-- The character for which a letter behind a backslash stands. -/
def escape? : Char → Option Char
  | 'e' => if version = .v11 then some '\x1b' else none
  | 'b' => some '\x08'
  | 't' => some '\t'
  | 'n' => some '\n'
  | 'f' => some '\x0c'
  | 'r' => some '\r'
  | '\x22' => some '\x22'
  | '\\' => some '\\'
  | _ => none

/-- An escaped character, behind its backslash. -/
def escaped? : Text → Option (Char × Text)
  | 'x' :: t => if version = .v11 then (Text.hexChar? 2 t).map (·, t.drop 2) else none
  | 'u' :: t => (Text.hexChar? 4 t).map (·, t.drop 4)
  | 'U' :: t => (Text.hexChar? 8 t).map (·, t.drop 8)
  | c :: t => (escape? version c).map (·, t)
  | [] => none

/-- A text in double quotes, behind the opening one. -/
def basicText (t : Text) : Option (Text × Text) :=
  match t with
  | [] => none
  | c :: rest =>
    if c = '\x22' then some ([], rest)
    else if isLineEnd c then none
    else if c = '\\' then
      match escaped? version rest with
      | none => none
      | some (d, tail) =>
        if tail.length ≤ rest.length then (basicText tail).map fun r => (d :: r.1, r.2) else none
    else (basicText rest).map fun r => (c :: r.1, r.2)
termination_by t.length
decreasing_by all_goals simp only [List.length_cons]; omega

/-- A text in single quotes, behind the opening one. -/
def literalText : Text → Option (Text × Text)
  | [] => none
  | c :: rest =>
    if c = '\x27' then some ([], rest)
    else if isLineEnd c then none
    else (literalText rest).map fun r => (c :: r.1, r.2)

/-- A text of several lines up to three quotes. Up to two more quotes before them belong to the
text, and up to three if they are behind an escaped backslash, as `room` says. With `escapes`, the
character behind a backslash does not end the text. -/
def multilineRaw (quote : Char) (escapes : Bool) (room : Nat) (t : Text) : Option (Text × Text) :=
  match t with
  | [] => none
  | c :: rest =>
    if c = quote then
      let run := (rest.takeWhile (· = quote)).length + 1
      if room + 3 < run then none
      else if 3 ≤ run then some (List.replicate (run - 3) quote, rest.drop (run - 1))
      else (multilineRaw quote escapes 2 (rest.drop (run - 1))).map fun r =>
        (List.replicate run quote ++ r.1, r.2)
    else if c = '\\' ∧ escapes then
      match rest with
      | [] => none
      | d :: tail =>
        (multilineRaw quote escapes (if d = '\\' then 3 else 2) tail).map fun r =>
          (c :: d :: r.1, r.2)
    else (multilineRaw quote escapes 2 rest).map fun r => (c :: r.1, r.2)
termination_by t.length
decreasing_by
  all_goals subst_vars
  · simp only [List.length_drop, List.length_cons]; omega
  · simp only [List.length_cons]; omega
  · simp

/-- Replaces the escapes of a text of several lines. A backslash at the end of a line joins it with
the next text. -/
def unescapeLines (t : Text) : Option Text :=
  match t with
  | [] => some []
  | c :: rest =>
    if c = '\\' then
      let blanks := rest.takeWhile fun d => isBlank d || isLineEnd d
      if blanks.contains '\n' then unescapeLines (rest.drop blanks.length)
      else match escaped? version rest with
        | none => none
        | some (d, tail) =>
          if tail.length ≤ rest.length then (unescapeLines tail).map (d :: ·) else none
    else (unescapeLines rest).map (c :: ·)
termination_by t.length
decreasing_by all_goals simp only [List.length_drop, List.length_cons]; omega

/-- A text of several lines without a line end at its front. -/
def dropFirstLineEnd : Text → Text
  | '\n' :: t => t
  | '\r' :: '\n' :: t => t
  | t => t

/-- A text value. -/
def textValue : Text → Option (Text × Text)
  | '\x22' :: '\x22' :: '\x22' :: t => do
    let (raw, rest) ← multilineRaw '\x22' true 2 t
    let content ← unescapeLines version (dropFirstLineEnd raw)
    return (content, rest)
  | '\x22' :: t => basicText version t
  | '\x27' :: '\x27' :: '\x27' :: t => do
    let (raw, rest) ← multilineRaw '\x27' false 2 t
    return (dropFirstLineEnd raw, rest)
  | '\x27' :: t => literalText t
  | _ => none

/-! ## Numbers and points in time -/

/-- Digits with single underscores between them. -/
def isDigits (isDigit : Char → Bool) (t : Text) : Bool :=
  (t.splitOn '_').all fun part => !part.isEmpty && part.all isDigit

/-- The text without a sign at its front. -/
def dropSign : Text → Text
  | '+' :: t => t
  | '-' :: t => t
  | t => t

/-- A decimal number without sign and superfluous zeros. -/
def isDecimal (t : Text) : Bool :=
  isDigits Text.isDigit t && (t.length = 1 || t.head? ≠ some '0')

/-- The number that digits stand for in a base; underscores have no value. -/
def magnitude (base : Nat) (t : Text) : Nat :=
  (t.filter (· ≠ '_')).foldl (fun n c => n * base + (Text.hexDigit? c).getD 0) 0

/-- The first whole number that does not fit into 64 bits with a sign; its negative does. -/
def integerBound : Nat := 0x8000000000000000

/-- A whole number, which fits into 64 bits with a sign. Only decimal ones have a sign. -/
def isInteger (t : Text) : Bool :=
  match t with
  | '0' :: 'x' :: digits =>
    isDigits (fun c => (Text.hexDigit? c).isSome) digits && magnitude 16 digits < integerBound
  | '0' :: 'o' :: digits =>
    isDigits (fun c => '0' ≤ c && c ≤ '7') digits && magnitude 8 digits < integerBound
  | '0' :: 'b' :: digits =>
    isDigits (fun c => c == '0' || c == '1') digits && magnitude 2 digits < integerBound
  | '-' :: digits => isDecimal digits && magnitude 10 digits ≤ integerBound
  | _ => isDecimal (dropSign t) && magnitude 10 (dropSign t) < integerBound

/-- The first number that is too large for a floating point number of 64 bits. -/
def realBound : Nat := 0x3FFFFFFFFFFFFF <<< 970

/-- Whether digits, times ten to the power of `scale`, stand for a number below `realBound`, which
has 309 digits. -/
def fitsReal (digits : Text) (scale : Int) : Bool :=
  let digits := (digits.filter (· ≠ '_')).dropWhile (· = '0')
  let size := digits.length + scale
  digits.isEmpty || size < 309 ||
    (size = 309 && magnitude 10 digits * Nat.pow 10 309 < realBound * Nat.pow 10 digits.length)

/-- The power of ten that an exponent stands for, zero if there is none. -/
def exponentValue : Text → Int
  | '-' :: digits => -(magnitude 10 digits : Int)
  | t => magnitude 10 (dropSign t)

/-- A number with a fraction or an exponent that is not too large, or a special one. -/
def isReal (t : Text) : Bool :=
  let u := dropSign t
  if u = "inf".toList ∨ u = "nan".toList then true
  else
    let mantissa := u.takeWhile fun c => c ≠ 'e' && c ≠ 'E'
    let exponent := u.drop (mantissa.length + 1)
    let whole := mantissa.takeWhile (· ≠ '.')
    let fraction := mantissa.drop (whole.length + 1)
    isDecimal whole && whole.length < u.length &&
      (mantissa.length = whole.length || isDigits Text.isDigit fraction) &&
      (u.length = mantissa.length || isDigits Text.isDigit (dropSign exponent)) &&
      fitsReal (whole ++ fraction) (exponentValue exponent - (fraction.filter (· ≠ '_')).length)

/-- Whether a text has a given length and consists of digits. -/
def isField (width : Nat) (t : Text) : Bool := t.length = width && t.all Text.isDigit

/-- How many days a month has. -/
def daysIn (year month : Nat) : Nat :=
  if month = 2 then
    if year % 4 = 0 ∧ (year % 100 ≠ 0 ∨ year % 400 = 0) then 29 else 28
  else if month ∈ [4, 6, 9, 11] then 30
  else 31

/-- A date. -/
def isDate (t : Text) : Bool :=
  match t.splitOn '-' with
  | [year, month, day] =>
    isField 4 year && isField 2 month && isField 2 day &&
      1 ≤ magnitude 10 month && magnitude 10 month ≤ 12 &&
      1 ≤ magnitude 10 day && magnitude 10 day ≤ daysIn (magnitude 10 year) (magnitude 10 month)
  | _ => false

/-- Two digits for a number that is not above a bound. -/
def isUpTo (bound : Nat) (t : Text) : Bool := isField 2 t && magnitude 10 t ≤ bound

/-- A time of the day. -/
def isTime (t : Text) : Bool :=
  match t.splitOn ':' with
  | [hour, minute] => version = .v11 && isUpTo 23 hour && isUpTo 59 minute
  | [hour, minute, second] =>
    let whole := second.takeWhile (· ≠ '.')
    let fraction := second.drop (whole.length + 1)
    isUpTo 23 hour && isUpTo 59 minute && isUpTo 59 whole &&
      (second.length = whole.length || (!fraction.isEmpty && fraction.all Text.isDigit))
  | _ => false

/-- A time of the day with the offset of a time zone, if there is one. -/
def isZonedTime (t : Text) : Bool :=
  let time := t.takeWhile fun c => !"Zz+-".toList.contains c
  match t.drop time.length with
  | [] => isTime version time
  | [_] => isTime version time && (t.getLast? = some 'Z' || t.getLast? = some 'z')
  | _ :: zone =>
    match zone.splitOn ':' with
    | [hour, minute] => isTime version time && isUpTo 24 hour && isUpTo 60 minute
    | _ => false

/-- A date, a time or both. -/
def isMoment (t : Text) : Bool :=
  let date := t.take 10
  match t.drop 10 with
  | [] => isDate t || isTime version t
  | c :: time =>
    (isDate date && (c == 'T' || c == 't' || c == ' ') && isZonedTime version time) ||
      isTime version t

/-- Characters of numbers and points in time. -/
def isQuantityChar (c : Char) : Bool := Text.isWord c || "+-.:".toList.contains c

/-- A number or a point in time; a blank may stand between a date and a time. -/
def quantity? (t : Text) : Option Text :=
  let word := t.takeWhile isQuantityChar
  let tail := t.drop word.length
  let second := (tail.drop 1).takeWhile isQuantityChar
  if isDate word ∧ tail.head? = some ' ' ∧ (second.head?.any Text.isDigit) then
    if isMoment version (word ++ ' ' :: second) then some (tail.drop (second.length + 1)) else none
  else if isInteger word || isReal word || isMoment version word then some tail
  else none

/-! ## Keys -/

/-- Ranges of the letters and digits beyond ASCII that version 1.1 has in keys without quotes. -/
def bareRanges : List (Nat × Nat) :=
  [(0xB2, 0xB3), (0xB9, 0xB9), (0xBC, 0xBE), (0xC0, 0xD6), (0xD8, 0xF6), (0xF8, 0x37D),
    (0x37F, 0x1FFF), (0x200C, 0x200D), (0x203F, 0x2040), (0x2070, 0x218F), (0x2460, 0x24FF),
    (0x2C00, 0x2FEF), (0x3001, 0xD7FF), (0xF900, 0xFDCF), (0xFDF0, 0xFFFD), (0x10000, 0xEFFFF)]

/-- Characters of keys without quotes. -/
def isBare (c : Char) : Bool :=
  Text.isWord c || c == '-' ||
    (version = .v11 && bareRanges.any fun range => range.1 ≤ c.toNat && c.toNat ≤ range.2)

/-- One part of a key. -/
def keyPart : Text → Option (Text × Text)
  | '\x22' :: t => basicText version t
  | '\x27' :: t => literalText t
  | t =>
    let part := t.takeWhile (isBare version)
    if part.isEmpty then none else some (part, t.drop part.length)

/-- A key, with the text that follows it and blanks behind it. -/
def key (t : Text) : Option (Key × Text) := do
  let part ← Read.ofPair? (skipBlanks t) (keyPart version (skipBlanks t))
  match _h : skipBlanks part.rest with
  | '.' :: rest => do
    let (parts, tail) ← key rest
    return (part.value :: parts, tail)
  | rest => return ([part.value], rest)
termination_by t.length
decreasing_by
  have hRest := length_skipBlanks part.rest
  have hStart := length_skipBlanks t
  have hShorter := part.shorter
  rw [_h, List.length_cons] at hRest
  omega

/-! ## Values -/

/-- The text behind an inline table that ends with a comma, from the comma on; only version 1.1 has
such tables. -/
def closed? (t : Text) : Option Text :=
  match version, skipAround version t with
  | .v11, '}' :: rest => some rest
  | _, _ => none

mutual

/-- A value. -/
def literal (t : Text) : Option (Read Literal t) :=
  match t with
  | [] => none
  | c :: rest =>
    if c = '[' then
      match arrayItems rest with
      | none => none
      | some r => some ⟨.array r.value, r.rest, Nat.lt_succ_of_lt r.shorter⟩
    else if c = '{' then
      match skipAround version rest with
      | '}' :: tail => Read.ofPair? _ (some (.inlineTable [], tail))
      | _ =>
        match inlineEntries rest with
        | none => none
        | some r => some ⟨.inlineTable r.value, r.rest, Nat.lt_succ_of_lt r.shorter⟩
    else if c = '\x22' ∨ c = '\x27' then
      Read.ofPair? _ ((textValue version (c :: rest)).map fun r => (.text r.1, r.2))
    else
      let word := (c :: rest).takeWhile Text.isLetter
      if word = "true".toList then Read.ofPair? _ (some (.bool true, (c :: rest).drop 4))
      else if word = "false".toList then Read.ofPair? _ (some (.bool false, (c :: rest).drop 5))
      else Read.ofPair? _ ((quantity? version (c :: rest)).map fun tail => (.quantity, tail))
termination_by (t.length, 0)

/-- The items of an array and its end, behind the opening bracket or a comma. -/
def arrayItems (t : Text) : Option (Read (List Literal) t) :=
  match _h : skipFilling false t with
  | ']' :: rest =>
    some ⟨[], rest, by
      have := length_skipFilling false t
      rw [_h, List.length_cons] at this
      omega⟩
  | start =>
    match literal start with
    | none => none
    | some item =>
      match _hNext : skipFilling false item.rest with
      | ',' :: tail =>
        match arrayItems tail with
        | none => none
        | some more => Read.ofPair? _ (some (item.value :: more.value, more.rest))
      | ']' :: tail => Read.ofPair? _ (some ([item.value], tail))
      | _ => none
termination_by (t.length, 1)
decreasing_by
  · have := length_skipFilling false t
    rw [_h] at this
    rcases Nat.lt_or_eq_of_le this with hLess | hEqual
    · exact Prod.Lex.left _ _ hLess
    · rw [hEqual]; exact Prod.Lex.right _ (by omega)
  · have hStart := length_skipFilling false t
    have hNext := length_skipFilling false item.rest
    have hShorter := item.shorter
    rw [_h] at hStart
    rw [_hNext, List.length_cons] at hNext
    exact Prod.Lex.left _ _ (by omega)

/-- The entries of an inline table that is not empty and its end, behind the opening brace or a
comma. -/
def inlineEntries (t : Text) : Option (Read (List (Key × Literal)) t) :=
  match Read.ofPair? t (key version (skipAround version t)) with
  | none => none
  | some name =>
    match _hEquals : name.rest with
    | '=' :: rest =>
      match literal (skipBlanks rest) with
      | none => none
      | some item =>
        match _hNext : skipAround version item.rest with
        | ',' :: tail =>
          match closed? version tail with
          | some tail => Read.ofPair? _ (some ([(name.value, item.value)], tail))
          | none =>
            match inlineEntries tail with
            | none => none
            | some more =>
              Read.ofPair? _ (some ((name.value, item.value) :: more.value, more.rest))
        | '}' :: tail => Read.ofPair? _ (some ([(name.value, item.value)], tail))
        | _ => none
    | _ => none
termination_by (t.length, 1)
decreasing_by
  all_goals
    have hName := name.shorter
    have hRest := length_skipBlanks rest
    rw [_hEquals, List.length_cons] at hName
  · exact Prod.Lex.left _ _ (by omega)
  · have hNext := length_skipAround version item.rest
    have hShorter := item.shorter
    rw [_hNext, List.length_cons] at hNext
    exact Prod.Lex.left _ _ (by omega)

end

/-! ## Statements -/

/-- What is left behind a statement: nothing but blanks and a comment up to the line end. -/
def afterStatement (t : Text) : Option Text :=
  match skipBlanks t with
  | [] => some []
  | c :: rest => if c = '#' ∨ isLineEnd c then some (c :: rest) else none

/-- A statement. -/
def statement (t : Text) : Option (Statement × Text) :=
  match t with
  | '[' :: '[' :: rest => do
    let (name, tail) ← key version rest
    match tail with
    | ']' :: ']' :: tail => return (.arrayHeader name, ← afterStatement tail)
    | _ => none
  | '[' :: rest => do
    let (name, tail) ← key version rest
    match tail with
    | ']' :: tail => return (.header name, ← afterStatement tail)
    | _ => none
  | t => do
    let (name, tail) ← key version t
    match tail with
    | '=' :: tail =>
      let value ← literal version (skipBlanks tail)
      return (.assignment name value.value, ← afterStatement value.rest)
    | _ => none

/-- All statements of a text. -/
def statements (t : Text) : Option (List Statement) :=
  match _h : skipFilling false t with
  | [] => some []
  | c :: start => do
    let first ← Read.ofPair? (c :: start) (statement version (c :: start))
    let rest ← statements first.rest
    return first.value :: rest
termination_by t.length
decreasing_by
  have := length_skipFilling false t
  have hShorter := first.shorter
  rw [_h] at this
  omega

/-- The statements of a text of allowed characters. -/
def read (t : Text) : Option (List Statement) :=
  if t.all isAllowed && returnsPaired t then statements version t else none

end ProseMath.Toml
