import BlockScript.Number.Binary64

/-!
# Decimals and their shortest choice

A decimal is a natural number of digits scaled by a power of ten. Every finite binary64 magnitude
has an exact decimal, since a power of two is a decimal with finitely many digits; and most have
much shorter ones that still read back as the same magnitude. `Decimal.shortest` looks for the
shortest, and its defining property is visible in its definition: a candidate is taken only if
`Decimal.bits` of it gives the magnitude back.
-/

namespace BlockScript

/-- The number `digits * 10 ^ exponent`. -/
structure Decimal where
  digits : Nat
  exponent : Int
  deriving DecidableEq, Repr

namespace Decimal

/-- The bits of the binary64 magnitude nearest to a decimal. -/
def bits (decimal : Decimal) : Nat :=
  Binary64.nearest (decimal.digits * Nat.pow 10 decimal.exponent.toNat)
    (Nat.pow 10 (-decimal.exponent).toNat)

/-- The digit characters of a natural number, most significant first. -/
def digitsOf (n : Nat) : List Char :=
  Nat.toDigits 10 n

/-- The decimal that equals a binary magnitude. Half of a number has one more decimal place and five
times its digits, so a negative binary exponent becomes a decimal one. -/
def ofMagnitude (magnitude : Binary64.Magnitude) : Decimal :=
  if 0 ≤ magnitude.exponent then
    ⟨magnitude.significand * Nat.pow 2 magnitude.exponent.toNat, 0⟩
  else
    ⟨magnitude.significand * Nat.pow 5 (-magnitude.exponent).toNat, magnitude.exponent⟩

/-- Moves trailing zeros of the digits into the exponent. Zero itself is written without one. -/
def trimmed (decimal : Decimal) : Decimal :=
  if decimal.digits = 0 then
    ⟨0, 0⟩
  else if decimal.digits % 10 = 0 then
    trimmed ⟨decimal.digits / 10, decimal.exponent + 1⟩
  else
    decimal
termination_by decimal.digits
decreasing_by omega

/-- The two neighbours of a decimal once its last `dropped` digits are given up, the nearer one
first. Of two equally near neighbours the greater comes first. -/
def neighbours (decimal : Decimal) (dropped : Nat) : Decimal × Decimal :=
  let unit := Nat.pow 10 dropped
  let below : Decimal := ⟨decimal.digits / unit, decimal.exponent + dropped⟩
  let above : Decimal := ⟨decimal.digits / unit + 1, decimal.exponent + dropped⟩
  if 2 * (decimal.digits % unit) < unit then (below, above) else (above, below)

/-- A neighbour of a decimal, short of its last `dropped` digits, that has the given bits. -/
def abridged? (target : Nat) (decimal : Decimal) (dropped : Nat) : Option Decimal :=
  let (nearer, farther) := decimal.neighbours dropped
  if nearer.bits = target then
    some nearer
  else if farther.bits = target then
    some farther
  else
    none

/-- Gives up as many of the last `dropped` digits as the bits allow. With nothing left to give up
the decimal stays as it is. -/
def abridge (target : Nat) (decimal : Decimal) : Nat → Decimal
  | 0 => decimal
  | dropped + 1 =>
      match decimal.abridged? target (dropped + 1) with
      | some shorter => shorter
      | none => decimal.abridge target dropped

/-- The shortest decimal that reads back as the magnitude with these bits, the nearest one if there
are several. -/
def shortest (bits : Nat) : Decimal :=
  let exact := ofMagnitude (.ofBits bits)
  (exact.abridge bits ((digitsOf exact.digits).length - 1)).trimmed

/-- What is given up is never noticed on reading: an abridged decimal has the bits asked for. -/
theorem bits_of_abridged? {target : Nat} {decimal shorter : Decimal} {dropped : Nat}
    (found : decimal.abridged? target dropped = some shorter) : shorter.bits = target := by
  unfold abridged? at found
  dsimp only at found
  split at found
  · cases found; assumption
  · split at found
    · cases found; assumption
    · contradiction

/-- Abridging keeps the bits of a decimal that had them to begin with. -/
theorem bits_abridge {target : Nat} {decimal : Decimal} (same : decimal.bits = target)
    (dropped : Nat) : (decimal.abridge target dropped).bits = target := by
  induction dropped with
  | zero => exact same
  | succ dropped inductionHypothesis =>
      unfold abridge
      split
      · next found => exact bits_of_abridged? found
      · exact inductionHypothesis

end Decimal
end BlockScript
