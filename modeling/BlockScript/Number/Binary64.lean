/-!
# Binary64 magnitudes

The binary64 format writes a non-negative magnitude as a significand times a power of two. This
module reads the bits of a magnitude as such a pair and finds the bits nearest to a quotient of
two naturals. Everything is exact natural-number arithmetic, so both directions can be reasoned
about without appeal to any machine instruction.

Signs are not represented here: the sign bit is independent of the magnitude, and the bit pattern
of a magnitude is the natural number below `signBit` that remains when that bit is removed.
-/

namespace BlockScript.Binary64

/-- The number of bits of a significand that the format stores. -/
def fractionBits : Nat := 52

/-- The least significand of a normal magnitude, and the number of fractions that the format tells
apart for each exponent. -/
def leadingBit : Nat := Nat.pow 2 fractionBits

/-- The exponent of the least positive magnitude, which all subnormal magnitudes share. -/
def leastExponent : Int := -1074

/-- The bit that marks a number as negative. -/
def signBit : Nat := 0x8000000000000000

/-- The magnitude bits of an infinity, one above the bits of the largest finite magnitude. -/
def infinityBits : Nat := 0x7FF0000000000000

/-- The finite magnitude `significand * 2 ^ exponent`. -/
structure Magnitude where
  significand : Nat
  exponent : Int
  deriving DecidableEq, Repr

/-- Reads the bits of a finite magnitude. A zero exponent field marks a subnormal magnitude, which
shares the least exponent and has no implicit leading bit. -/
def Magnitude.ofBits (bits : Nat) : Magnitude :=
  let field := bits / leadingBit
  let fraction := bits % leadingBit
  if field = 0 then
    ⟨fraction, leastExponent⟩
  else
    ⟨leadingBit + fraction, leastExponent + (field - 1 : Nat)⟩

/-- The integer nearest to `numerator / denominator`. A quotient halfway between two integers
goes to the even one. -/
def roundHalfEven (numerator denominator : Nat) : Nat :=
  let floor := numerator / denominator
  match compare (2 * (numerator % denominator)) denominator with
  | .lt => floor
  | .eq => floor + floor % 2
  | .gt => floor + 1

/-- The quotient `numerator / denominator` measured in units of `2 ^ exponent`, again as a
numerator and a denominator. -/
def inUnitsOf (exponent : Int) (numerator denominator : Nat) : Nat × Nat :=
  (numerator * Nat.pow 2 (-exponent).toNat, denominator * Nat.pow 2 exponent.toNat)

/-- The exponent of the greatest power of two that does not exceed a positive quotient. The bit
lengths of the two naturals determine it up to one, which a comparison decides. -/
def binaryLog (numerator denominator : Nat) : Int :=
  let estimate : Int := (numerator.log2 : Int) - (denominator.log2 : Int)
  let (scaled, unit) := inUnitsOf estimate numerator denominator
  if unit ≤ scaled then estimate else estimate - 1

/-- The exponent of the last place of a magnitude near a positive quotient. -/
def placeExponent (numerator denominator : Nat) : Int :=
  max leastExponent (binaryLog numerator denominator - fractionBits)

/-- The magnitude bits nearest to `numerator / denominator`, with ties to the even significand.
Quotients too large for the format become infinite.

Adding the significand to the shifted exponent field is right in every case: a normal significand
contributes its leading bit as one step of the field, a subnormal one leaves the field at zero, and
a significand that rounding carried to the next power of two carries into the field. -/
def nearest (numerator denominator : Nat) : Nat :=
  if numerator = 0 then
    0
  else
    let exponent := placeExponent numerator denominator
    let (scaled, unit) := inUnitsOf exponent numerator denominator
    let field := (exponent - leastExponent).toNat
    min infinityBits (roundHalfEven scaled unit + field * leadingBit)

@[simp] theorem nearest_zero (denominator : Nat) : nearest 0 denominator = 0 := rfl

theorem nearest_le_infinityBits (numerator denominator : Nat) :
    nearest numerator denominator ≤ infinityBits := by
  unfold nearest
  split
  · exact Nat.zero_le _
  · exact Nat.min_le_left _ _

end BlockScript.Binary64
