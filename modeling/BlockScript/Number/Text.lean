import BlockScript.Number.Decimal

/-!
# Numbers as text

Numerals in a program are read as the nearest binary64 number, and numbers are written with the
fewest digits that read back. Written numbers are always positional: there is no exponent, and a
fractional part appears only if it is not zero.
-/

namespace BlockScript.Number

/-- The number that the digits `whole.fraction` stand for. -/
def ofDigits (whole fraction : List Char) : Float :=
  let decimal : Decimal := ⟨Nat.ofDigitChars 10 (whole ++ fraction) 0, -(fraction.length : Int)⟩
  Float.ofBits (UInt64.ofNat decimal.bits)

/-- Writes digits scaled by a power of ten without an exponent. A point that would stand before all
digits is preceded by a zero. -/
def positional (digits : List Char) (exponent : Int) : List Char :=
  let places := (-exponent).toNat
  if places = 0 then
    digits ++ List.replicate exponent.toNat '0'
  else if places < digits.length then
    digits.take (digits.length - places) ++ '.' :: digits.drop (digits.length - places)
  else
    '0' :: '.' :: (List.replicate (places - digits.length) '0' ++ digits)

/-- The text of a finite magnitude with the given bits. -/
def magnitudeText (bits : Nat) : String :=
  let decimal := Decimal.shortest bits
  .ofList (positional (Decimal.digitsOf decimal.digits) decimal.exponent)

/-- The text of a number. The sign of zero is written, and a number that is not a number has no
sign. -/
def text (number : Float) : String :=
  let bits := number.toBits.toNat
  let magnitude := bits % Binary64.signBit
  let sign := if Binary64.signBit ≤ bits then "-" else ""
  if Binary64.infinityBits < magnitude then
    "NaN"
  else if magnitude = Binary64.infinityBits then
    sign ++ "Infinity"
  else
    sign ++ magnitudeText magnitude

end BlockScript.Number
