import ProseMath.Text.Basic

/-!
# Hexadecimal digits

Characters that are written by the hexadecimal digits of their number.
-/

namespace ProseMath.Text

/-- The value of a hexadecimal digit. -/
def hexDigit? (c : Char) : Option Nat :=
  if isDigit c then some (c.toNat - '0'.toNat)
  else if 'a' ≤ c ∧ c ≤ 'f' then some (c.toNat - 'a'.toNat + 10)
  else if 'A' ≤ c ∧ c ≤ 'F' then some (c.toNat - 'A'.toNat + 10)
  else none

/-- The character whose number stands at the front of a text, in so many hexadecimal digits. -/
def hexChar? (width : Nat) (t : Text) : Option Char := do
  if t.length < width then none
  let number ← (t.take width).foldlM (fun n c => (hexDigit? c).map (n * 16 + ·)) 0
  charOf? number

end ProseMath.Text
