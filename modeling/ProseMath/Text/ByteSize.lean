import ProseMath.Text.Basic

/-!
# Sizes in words

A number of bytes is written in the largest unit that it reaches, in steps of a thousand: rounded to
tenths below ten, else to whole units, where a half that is left after the tenths goes to the even
neighbour.
-/

namespace ProseMath.Text

/-- The units, from the smallest on. -/
def sizeUnits : List String := ["B", "kB", "MB", "GB", "TB", "PB", "EB"]

/-- Tenths of a unit in words. -/
def tenthsText (tenths : Nat) : Text :=
  if tenths < 100 then ofNat (tenths / 10) ++ '.' :: ofNat (tenths % 10)
  else
    let whole := tenths / 10
    let up := 5 < tenths % 10 || (tenths % 10 == 5 && whole % 2 == 1)
    ofNat (if up then whole + 1 else whole)

/-- A number of bytes in one of some units, the first of which has `scale` bytes. -/
def sizeIn (bytes : Nat) (scale : Nat) : List String → Text
  | [] => ofNat bytes
  | unit :: larger =>
    if scale * 1000 ≤ bytes ∧ larger ≠ [] then sizeIn bytes (scale * 1000) larger
    else tenthsText ((20 * bytes + scale) / (2 * scale)) ++ ' ' :: unit.toList

/-- A number of bytes in words. -/
def ofByteSize (bytes : Nat) : Text :=
  if bytes < 10 then ofNat bytes ++ " B".toList else sizeIn bytes 1 sizeUnits

end ProseMath.Text
