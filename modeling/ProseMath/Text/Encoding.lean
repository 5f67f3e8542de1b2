import ProseMath.Text.Basic

/-!
# Text and bytes

Files, standard input and histories hold bytes. `decode` reads bytes as UTF-8 and gives one
replacement character for each byte that is no part of a well-formed sequence, so it never fails;
`encode` writes a text as UTF-8. `spread` reads each byte as the character of the same number: it
loses nothing, and a transformation that only looks at ASCII characters acts on it as on the text.
-/

namespace ProseMath.Text

/-- The character that stands for a byte that cannot be decoded. -/
def replacement : Char := '�'

/-- Bytes from position `i` on as UTF-8, malformed bytes one by one as `replacement`. -/
def decodeFrom (bytes : ByteArray) (i : Nat) : Text :=
  if i < bytes.size then
    match bytes.utf8DecodeChar? i with
    | some c => c :: decodeFrom bytes (i + c.utf8Size)
    | none => replacement :: decodeFrom bytes (i + 1)
  else []
termination_by bytes.size - i
decreasing_by
  · have := Char.utf8Size_pos c
    omega
  · omega

/-- Bytes read as UTF-8. -/
def decode (bytes : ByteArray) : Text := decodeFrom bytes 0

/-- A text written as UTF-8. -/
def encode (t : Text) : ByteArray := (String.ofList t).toUTF8

/-- Bytes read as UTF-8 where they are well formed throughout. -/
def decode? (bytes : ByteArray) : Option Text := (String.fromUTF8? bytes).map String.toList

/-! ## Marks of the encoding -/

/-- Encodings that a mark at the front of some bytes can name. -/
inductive Encoding where
  | utf8
  | utf16Little
  | utf16Big
deriving DecidableEq, Repr

/-- The encoding that the mark at the front of some bytes names, if there is one, and the bytes
behind it. -/
def splitMark (bytes : ByteArray) : Option Encoding × ByteArray :=
  match bytes.toList with
  | 0xEF :: 0xBB :: 0xBF :: rest => (some .utf8, ⟨rest.toArray⟩)
  | 0xFF :: 0xFE :: rest => (some .utf16Little, ⟨rest.toArray⟩)
  | 0xFE :: 0xFF :: rest => (some .utf16Big, ⟨rest.toArray⟩)
  | _ => (none, bytes)

/-- Bytes as units of 16 bits, whose higher half `join` takes first; none if one byte is left
over. -/
def units? (join : UInt8 → UInt8 → Nat) : List UInt8 → Option (List Nat)
  | [] => some []
  | [_] => none
  | first :: second :: rest => (units? join rest).map (join first second :: ·)

/-- The text that units of 16 bits stand for. Characters from U+10000 on take two units: one from
0xD800 on with the upper ten bits, and one from 0xDC00 on with the lower ten. -/
def ofUnits? : List Nat → Option Text
  | [] => some []
  | [unit] => (charOf? unit).map ([·])
  | unit :: next :: rest => do
    if 0xD800 ≤ unit ∧ unit < 0xDC00 then
      if 0xDC00 ≤ next ∧ next < 0xE000 then
        let c ← charOf? (0x10000 + (unit - 0xD800) * 0x400 + (next - 0xDC00))
        return c :: (← ofUnits? rest)
      else none
    else return (← charOf? unit) :: (← ofUnits? (next :: rest))

/-- Bytes read in the encoding that their mark names, or else as UTF-8, where they are well formed
throughout. -/
def decodeMarked? (bytes : ByteArray) : Option Text :=
  match splitMark bytes with
  | (some .utf16Little, rest) => do
    ofUnits? (← units? (fun low high => high.toNat * 0x100 + low.toNat) rest.toList)
  | (some .utf16Big, rest) => do
    ofUnits? (← units? (fun high low => high.toNat * 0x100 + low.toNat) rest.toList)
  | (_, rest) => decode? rest

/-- Each byte as the character of the same number. -/
def spread (bytes : ByteArray) : Text := bytes.toList.map fun b => Char.ofNat b.toNat

/-- The bytes whose numbers are those of the characters. -/
def gather (t : Text) : ByteArray := ⟨(t.map fun c => c.toNat.toUInt8).toArray⟩

end ProseMath.Text
