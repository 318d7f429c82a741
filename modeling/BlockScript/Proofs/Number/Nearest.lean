import BlockScript.Number.Text
import Mathlib

/-!
# Numerals are read as the nearest number

The bits of a magnitude are ordered as the numbers that they stand for, so "nearest" can be said of
bits without a word about significands and exponents. `Binary64.nearestTo_nearest` says that
rounding a quotient finds the nearest bits, and `Number.nearestTo_ofDigits` that the number read
from a numeral is the one nearest to the decimal that the numeral writes.
-/

namespace BlockScript
namespace Binary64

def Magnitude.value (magnitude : Magnitude) : ℚ :=
  magnitude.significand * 2 ^ magnitude.exponent

/-- The number that the bits of a magnitude stand for. For the bits of an infinity this is the power
of two that would come next, if the format went on. -/
def value (bits : Nat) : ℚ :=
  (Magnitude.ofBits bits).value

/-- Seen from a number, one candidate wins over another if it is nearer, or equally near and even. -/
def Wins (exact winner other : ℚ) (parity : Nat) : Prop :=
  |exact - winner| < |exact - other| ∨ |exact - winner| = |exact - other| ∧ parity % 2 = 0

/-- The bits nearest to a number. Of two that are equally near these are the even ones. Numbers too
large for the format are nearest to infinity. -/
structure NearestTo (exact : ℚ) (bits : Nat) : Prop where
  le_infinityBits : bits ≤ infinityBits
  wins : ∀ other ≤ infinityBits, other ≠ bits → Wins exact (value bits) (value other) bits

/-! ## Bits in the order of their numbers -/

theorem leadingBit_pos : 0 < leadingBit :=
  Nat.two_pow_pos fractionBits

theorem ofBits_subnormal {fraction : Nat} (subnormal : fraction < leadingBit) :
    Magnitude.ofBits fraction = ⟨fraction, leastExponent⟩ := by
  simp [Magnitude.ofBits, Nat.div_eq_of_lt subnormal, Nat.mod_eq_of_lt subnormal]

theorem ofBits_normal {fraction : Nat} (inside : fraction < leadingBit) (field : Nat) :
    Magnitude.ofBits (fraction + (field + 1) * leadingBit) =
      ⟨leadingBit + fraction, leastExponent + field⟩ := by
  simp [Magnitude.ofBits, Nat.add_mul_div_right _ _ leadingBit_pos, Nat.div_eq_of_lt inside,
    Nat.mod_eq_of_lt inside]

/-- A significand with its exponent counted from the least one, as bits. The significand may have
been rounded up to the next power of two. -/
theorem value_significand {significand field : Nat} (bounded : significand ≤ 2 * leadingBit)
    (normal : field = 0 ∨ leadingBit ≤ significand) :
    value (significand + field * leadingBit) = significand * 2 ^ (leastExponent + field) := by
  rcases lt_or_ge significand leadingBit with subnormal | isNormal
  · obtain rfl : field = 0 := normal.resolve_right (Nat.not_le.mpr subnormal)
    simp [value, Magnitude.value, ofBits_subnormal subnormal]
  obtain ⟨fraction, rfl⟩ := Nat.exists_eq_add_of_le isNormal
  rcases Nat.lt_or_eq_of_le bounded with inside | carried
  · have fits : fraction < leadingBit := by omega
    have bits : leadingBit + fraction + field * leadingBit = fraction + (field + 1) * leadingBit := by
      ring
    simp [value, Magnitude.value, bits, ofBits_normal fits]
  · have bits : leadingBit + fraction + field * leadingBit = 0 + (field + 1 + 1) * leadingBit := by
      rw [carried]
      ring
    have twice : (2 : ℚ) ^ (leastExponent + (field + 1 : Nat)) = 2 * 2 ^ (leastExponent + field) := by
      rw [Nat.cast_succ, ← add_assoc, zpow_add_one₀ (by norm_num), mul_comm]
    rw [value, bits, ofBits_normal leadingBit_pos, Magnitude.value, twice, carried]
    push_cast
    ring

/-- Bits are a significand with an exponent counted from the least one. -/
theorem exists_significand (bits : Nat) :
    ∃ significand field, bits = significand + field * leadingBit ∧ significand < 2 * leadingBit ∧
      (field = 0 ∨ leadingBit ≤ significand) := by
  rcases lt_or_ge bits leadingBit with subnormal | normal
  · exact ⟨bits, 0, by omega, by omega, .inl rfl⟩
  · obtain ⟨field, isField⟩ := Nat.exists_eq_add_of_le' (Nat.div_pos normal leadingBit_pos)
    have fits := Nat.mod_lt bits leadingBit_pos
    refine ⟨leadingBit + bits % leadingBit, field, ?_, by omega, .inr (Nat.le_add_right _ _)⟩
    conv_lhs => rw [← Nat.mod_add_div' bits leadingBit, isField]
    ring

theorem value_strictMono : StrictMono value := by
  apply strictMono_nat_of_lt_succ
  intro bits
  obtain ⟨significand, field, rfl, bounded, normal⟩ := exists_significand bits
  have next : significand + field * leadingBit + 1 = (significand + 1) + field * leadingBit := by
    ring
  rw [next, value_significand bounded.le normal,
    value_significand bounded (normal.imp_right Nat.le_succ_of_le)]
  have positive : (0 : ℚ) < 2 ^ (leastExponent + field) := by positivity
  push_cast
  linarith

@[simp] theorem value_zero : value 0 = 0 := by
  simp [value, Magnitude.ofBits, Magnitude.value]

/-! ## Rounding to an integer -/

theorem le_roundHalfEven (numerator denominator : Nat) :
    numerator / denominator ≤ roundHalfEven numerator denominator := by
  unfold roundHalfEven
  dsimp only
  split <;> omega

theorem roundHalfEven_le (numerator denominator : Nat) :
    roundHalfEven numerator denominator ≤ numerator / denominator + 1 := by
  unfold roundHalfEven
  dsimp only
  split <;> omega

/-- An integer at a distance of at most a half wins over every other integer. -/
theorem wins_of_abs_le_half {exact : ℚ} {nearest other : Nat} (different : other ≠ nearest)
    (near : |exact - nearest| ≤ 1 / 2) (tie : |exact - nearest| = 1 / 2 → nearest % 2 = 0) :
    Wins exact nearest other nearest := by
  have apart : (1 : ℚ) ≤ |(nearest : ℚ) - other| := by
    have : (1 : ℤ) ≤ |(nearest : ℤ) - other| := Int.one_le_abs (by omega)
    exact_mod_cast this
  have triangle := abs_sub_le (nearest : ℚ) exact other
  rw [abs_sub_comm (nearest : ℚ) exact] at triangle
  rcases near.lt_or_eq with nearer | half
  · left
    linarith
  rcases (show 1 / 2 ≤ |exact - other| by linarith).lt_or_eq with farther | same
  · exact .inl (half.trans_lt farther)
  · exact .inr ⟨half.trans same, tie half⟩

/-- A quotient is rounded to an integer at a distance of at most a half, and to the even one of
two. -/
theorem abs_sub_roundHalfEven_le {numerator denominator : Nat} (positive : 0 < denominator) :
    |(numerator / denominator : ℚ) - roundHalfEven numerator denominator| ≤ 1 / 2 ∧
      (|(numerator / denominator : ℚ) - roundHalfEven numerator denominator| = 1 / 2 →
        roundHalfEven numerator denominator % 2 = 0) := by
  have positive' : (0 : ℚ) < denominator := by exact_mod_cast positive
  have parts := Nat.div_add_mod numerator denominator
  have small := Nat.mod_lt numerator positive
  unfold roundHalfEven
  dsimp only
  generalize numerator / denominator = floor at parts ⊢
  generalize numerator % denominator = rest at parts small ⊢
  have exact : (numerator / denominator : ℚ) = floor + rest / denominator := by
    rw [← parts]
    push_cast
    field_simp
  rw [exact]
  split
  · next below =>
      have half : (rest / denominator : ℚ) < 1 / 2 := by
        rw [div_lt_div_iff₀ positive' two_pos]
        exact_mod_cast (by rw [Nat.compare_eq_lt] at below; omega)
      rw [add_sub_cancel_left, abs_of_nonneg (by positivity)]
      exact ⟨half.le, fun same => absurd same half.ne⟩
  · next tie =>
      have half : (rest / denominator : ℚ) = 1 / 2 := by
        rw [div_eq_div_iff positive'.ne' two_ne_zero]
        exact_mod_cast (by rw [Nat.compare_eq_eq] at tie; omega)
      rw [half]
      refine ⟨?_, fun _ => by omega⟩
      rcases Nat.mod_two_eq_zero_or_one floor with even | odd
      · rw [even]; norm_num
      · rw [odd]; push_cast; norm_num
  · next above =>
      have half : 1 / 2 < (rest / denominator : ℚ) := by
        rw [div_lt_div_iff₀ two_pos positive']
        exact_mod_cast (by rw [Nat.compare_eq_gt] at above; omega)
      have lessThanOne : (rest / denominator : ℚ) < 1 := by
        rw [div_lt_one positive']
        exact_mod_cast small
      have distance : |(floor + rest / denominator : ℚ) - (floor + 1 : Nat)| = 1 - rest / denominator := by
        rw [abs_sub_comm, abs_of_nonneg (by push_cast; linarith)]
        push_cast
        ring
      rw [distance]
      exact ⟨by linarith, fun same => by linarith⟩

/-- Every other integer is farther from the quotient, or as far and the rounded one is even. -/
theorem wins_roundHalfEven {numerator denominator other : Nat} (positive : 0 < denominator)
    (different : other ≠ roundHalfEven numerator denominator) :
    Wins (numerator / denominator) (roundHalfEven numerator denominator) other
      (roundHalfEven numerator denominator) :=
  wins_of_abs_le_half different (abs_sub_roundHalfEven_le positive).1
    (abs_sub_roundHalfEven_le positive).2

/-! ## The place of the last binary digit -/

theorem inUnitsOf_div (exponent : Int) (numerator denominator : Nat) :
    ((inUnitsOf exponent numerator denominator).1 : ℚ) / (inUnitsOf exponent numerator denominator).2
      = numerator / denominator / 2 ^ exponent := by
  rcases Int.eq_nat_or_neg exponent with ⟨size, rfl | rfl⟩
  · simp [inUnitsOf, div_div]
  · simp [inUnitsOf, div_mul_eq_mul_div]

theorem inUnitsOf_pos {denominator : Nat} (positive : 0 < denominator) (exponent : Int)
    (numerator : Nat) : 0 < (inUnitsOf exponent numerator denominator).2 :=
  Nat.mul_pos positive (Nat.two_pow_pos _)

section Log

variable {numerator denominator : Nat} (nonzero : numerator ≠ 0) (positive : 0 < denominator)

include nonzero positive

/-- The estimate is off by less than a factor of two in either direction. -/
theorem log2_bounds :
    (2 : ℚ) ^ ((numerator.log2 : Int) - denominator.log2 - 1) < numerator / denominator ∧
      (numerator / denominator : ℚ) < 2 ^ ((numerator.log2 : Int) - denominator.log2 + 1) := by
  have positive' : (0 : ℚ) < denominator := by exact_mod_cast positive
  have numeratorLow : (2 : ℚ) ^ numerator.log2 ≤ numerator := by
    exact_mod_cast Nat.log2_self_le nonzero
  have numeratorHigh : (numerator : ℚ) < 2 ^ (numerator.log2 + 1) := by
    exact_mod_cast Nat.lt_log2_self
  have denominatorLow : (2 : ℚ) ^ denominator.log2 ≤ denominator := by
    exact_mod_cast Nat.log2_self_le positive.ne'
  have denominatorHigh : (denominator : ℚ) < 2 ^ (denominator.log2 + 1) := by
    exact_mod_cast Nat.lt_log2_self
  constructor
  · have split : (numerator.log2 : Int) - denominator.log2 - 1 =
        (numerator.log2 : Int) - (denominator.log2 + 1 : Nat) := by push_cast; ring
    rw [split, zpow_sub₀ two_ne_zero, zpow_natCast, zpow_natCast]
    exact div_lt_div₀' numeratorLow denominatorHigh (by positivity) positive'
  · have split : (numerator.log2 : Int) - denominator.log2 + 1 =
        (numerator.log2 + 1 : Nat) - (denominator.log2 : Int) := by push_cast; ring
    rw [split, zpow_sub₀ two_ne_zero, zpow_natCast, zpow_natCast]
    exact div_lt_div₀ numeratorHigh denominatorLow (by positivity) (by positivity)

theorem binaryLog_bounds :
    (2 : ℚ) ^ binaryLog numerator denominator ≤ numerator / denominator ∧
      (numerator / denominator : ℚ) < 2 ^ (binaryLog numerator denominator + 1) := by
  have ⟨low, high⟩ := log2_bounds nonzero positive
  have scaled := inUnitsOf_div ((numerator.log2 : Int) - denominator.log2) numerator denominator
  have unitPos := inUnitsOf_pos positive ((numerator.log2 : Int) - denominator.log2) numerator
  unfold binaryLog
  dsimp only
  generalize (numerator.log2 : Int) - denominator.log2 = estimate at *
  have power : (0 : ℚ) < 2 ^ estimate := by positivity
  have unitPos' : (0 : ℚ) < (inUnitsOf estimate numerator denominator).2 := by exact_mod_cast unitPos
  split
  · next reaches =>
      refine ⟨?_, high⟩
      rw [← one_le_div power, ← scaled, one_le_div unitPos']
      exact_mod_cast reaches
  · next short =>
      refine ⟨low.le, ?_⟩
      rw [sub_add_cancel, ← div_lt_one power, ← scaled, div_lt_one unitPos']
      exact_mod_cast Nat.not_le.mp short

/-- Measured in units of the last place, a quotient has at most 53 binary digits before the point,
and all 53 of them unless the last place is the least there is. -/
theorem placeExponent_bounds :
    (numerator / denominator / 2 ^ placeExponent numerator denominator : ℚ) < 2 * leadingBit ∧
      (placeExponent numerator denominator = leastExponent ∨
        (leadingBit : ℚ) ≤ numerator / denominator / 2 ^ placeExponent numerator denominator) := by
  have ⟨low, high⟩ := binaryLog_bounds nonzero positive
  have leading : (leadingBit : ℚ) = 2 ^ (fractionBits : Int) := by
    rw [zpow_natCast]
    exact_mod_cast rfl
  unfold placeExponent
  generalize binaryLog numerator denominator = log at *
  rw [leading, ← zpow_one_add₀ two_ne_zero, div_lt_iff₀ (by positivity), le_div_iff₀ (by positivity),
    ← zpow_add₀ two_ne_zero, ← zpow_add₀ two_ne_zero]
  constructor
  · exact high.trans_le (zpow_le_zpow_right₀ one_le_two (by omega))
  · rcases le_total leastExponent (log - fractionBits) with normal | subnormal
    · right
      rwa [max_eq_right normal, add_sub_cancel]
    · exact .inl (max_eq_left subnormal)

end Log

/-! ## The nearest bits -/

theorem Wins.abs_le {exact winner other : ℚ} {parity : Nat}
    (wins : Wins exact winner other parity) : |exact - winner| ≤ |exact - other| :=
  wins.elim le_of_lt fun ⟨same, _⟩ => same.le

/-- Scaling keeps the winner. -/
theorem Wins.scale {exact winner other unit : ℚ} {parity : Nat} (positive : 0 < unit)
    (wins : Wins exact winner other parity) :
    Wins (exact * unit) (winner * unit) (other * unit) parity := by
  unfold Wins at *
  rw [← sub_mul, ← sub_mul, abs_mul, abs_mul, abs_of_pos positive]
  exact wins.imp (fun nearer => mul_lt_mul_of_pos_right nearer positive)
    (And.imp_left fun same => by rw [same])

/-- Rounding to the integer multiples of the last place is rounding to bits. All bits whose last
place is finer stand for numbers below `leadingBit` times the last place. -/
theorem wins_significand {exact : ℚ} {significand field : Nat}
    (bounded : significand ≤ 2 * leadingBit) (normal : field = 0 ∨ leadingBit ≤ significand)
    (reaches : field = 0 ∨ leadingBit ≤ exact)
    (wins : ∀ other : Nat, other ≠ significand → Wins exact significand other significand)
    {other : Nat} (different : other ≠ significand + field * leadingBit) :
    Wins (exact * 2 ^ (leastExponent + field)) (value (significand + field * leadingBit))
      (value other) (significand + field * leadingBit) := by
  have unitPos : (0 : ℚ) < 2 ^ (leastExponent + field) := by positivity
  have sameParity : (significand + field * leadingBit) % 2 = significand % 2 := by
    simp [Nat.add_mod, Nat.mul_mod, show leadingBit % 2 = 0 from rfl]
  obtain ⟨digits, place, isOther, digitsBounded, digitsNormal⟩ := exists_significand other
  have otherValue := value_significand digitsBounded.le digitsNormal
  rw [← isOther] at otherValue
  rcases le_or_gt field place with coarser | finer
  · obtain ⟨gap, rfl⟩ := Nat.exists_eq_add_of_le coarser
    have multiple : value other = (digits * 2 ^ gap : Nat) * 2 ^ (leastExponent + field) := by
      rw [otherValue]
      push_cast
      rw [← add_assoc, zpow_add₀ two_ne_zero, zpow_natCast]
      ring
    have differentMultiple : digits * 2 ^ gap ≠ significand := by
      intro same
      apply different
      apply value_strictMono.injective
      rw [multiple, same, value_significand bounded normal]
    rw [multiple, value_significand bounded normal, Wins, sameParity]
    exact (wins _ differentMultiple).scale unitPos
  · have farther : value other < leadingBit * 2 ^ (leastExponent + field) := by
      have digitsBounded' : (digits : ℚ) < leadingBit * 2 := by
        rw [mul_comm]
        exact_mod_cast digitsBounded
      calc value other = digits * 2 ^ (leastExponent + place) := otherValue
        _ < leadingBit * 2 * 2 ^ (leastExponent + place) :=
          mul_lt_mul_of_pos_right digitsBounded' (by positivity)
        _ = leadingBit * 2 ^ (1 + (leastExponent + place)) := by
          rw [zpow_one_add₀ two_ne_zero, mul_assoc]
        _ ≤ leadingBit * 2 ^ (leastExponent + field) :=
          mul_le_mul_of_nonneg_left (zpow_le_zpow_right₀ one_le_two (by omega)) (Nat.cast_nonneg _)
    have exactReaches : (leadingBit : ℚ) ≤ exact := reaches.resolve_left (by omega)
    have near : |exact - significand| ≤ exact - leadingBit := by
      rw [← abs_of_nonneg (sub_nonneg.mpr exactReaches)]
      rcases eq_or_ne leadingBit significand with same | different
      · rw [same]
      · exact (wins leadingBit different).abs_le
    left
    calc |exact * 2 ^ (leastExponent + field) - value (significand + field * leadingBit)|
        = |exact - significand| * 2 ^ (leastExponent + field) := by
          rw [value_significand bounded normal, ← sub_mul, abs_mul, abs_of_pos unitPos]
      _ ≤ (exact - leadingBit) * 2 ^ (leastExponent + field) :=
          mul_le_mul_of_nonneg_right near unitPos.le
      _ < exact * 2 ^ (leastExponent + field) - value other := by linarith
      _ ≤ |exact * 2 ^ (leastExponent + field) - value other| := le_abs_self _

/-- What lies below a candidate that loses against a greater one loses against the candidate. -/
theorem Wins.of_above {exact winner bound other : ℚ} {parity : Nat}
    (wins : Wins exact winner bound parity) (above : bound < winner) (below : other < bound)
    (anyParity : Nat) : Wins exact bound other anyParity := by
  have boundBelow : bound < exact := by
    by_contra notBelow
    have farther := wins.abs_le
    rw [abs_of_neg (by linarith), abs_of_nonpos (by linarith)] at farther
    linarith
  left
  rw [abs_of_pos (by linarith), abs_of_pos (by linarith)]
  linarith

/-- Among the bits of a format without infinities, some win over all others, and rounding takes
these. -/
theorem nearest_eq_min (numerator : Nat) {denominator : Nat} (positive : 0 < denominator) :
    ∃ bits, nearest numerator denominator = min infinityBits bits ∧
      ∀ other ≠ bits, Wins (numerator / denominator) (value bits) (value other) bits := by
  rcases eq_or_ne numerator 0 with rfl | nonzero
  · refine ⟨0, by simp, fun other different => .inl ?_⟩
    have otherPos := value_strictMono (Nat.pos_of_ne_zero different)
    rw [value_zero] at otherPos
    simpa using otherPos.ne'
  have ⟨fits, reaches⟩ := placeExponent_bounds nonzero positive
  obtain ⟨field, isField⟩ : ∃ field : Nat, leastExponent + field = placeExponent numerator denominator :=
    Int.le.dest (le_max_left _ _)
  obtain ⟨scaled, isScaled⟩ : ∃ scaled, inUnitsOf (leastExponent + field) numerator denominator = scaled :=
    ⟨_, rfl⟩
  have unitPos := inUnitsOf_pos positive (leastExponent + field) numerator
  have ratio := inUnitsOf_div (leastExponent + field) numerator denominator
  simp only [← isField, isScaled] at fits reaches unitPos ratio
  have unitPos' : (0 : ℚ) < scaled.2 := by exact_mod_cast unitPos
  rw [← ratio] at fits reaches
  rw [div_lt_iff₀ unitPos'] at fits
  refine ⟨roundHalfEven scaled.1 scaled.2 + field * leadingBit, ?_, fun other different => ?_⟩
  · simp [nearest, nonzero, ← isField, isScaled]
  have floorBounded : scaled.1 / scaled.2 < 2 * leadingBit :=
    (Nat.div_lt_iff_lt_mul unitPos).mpr (by exact_mod_cast fits)
  have floorReaches : field = 0 ∨ leadingBit ≤ scaled.1 / scaled.2 := by
    refine reaches.imp (by omega) fun reaches => (Nat.le_div_iff_mul_le unitPos).mpr ?_
    rw [le_div_iff₀ unitPos'] at reaches
    exact_mod_cast reaches
  have won := wins_significand ((roundHalfEven_le _ _).trans floorBounded)
    (floorReaches.imp_right fun reaches => reaches.trans (le_roundHalfEven _ _))
    (reaches.imp_left (by omega)) (fun _ => wins_roundHalfEven unitPos) different
  rwa [ratio, div_mul_cancel₀ _ (by positivity)] at won

/-- Rounding a quotient finds the bits that are nearest to it. -/
theorem nearestTo_nearest (numerator : Nat) {denominator : Nat} (positive : 0 < denominator) :
    NearestTo (numerator / denominator) (nearest numerator denominator) := by
  refine ⟨nearest_le_infinityBits numerator denominator, fun other bounded different => ?_⟩
  obtain ⟨bits, isMin, wins⟩ := nearest_eq_min numerator positive
  rw [isMin] at different ⊢
  rcases le_or_gt bits infinityBits with finite | tooLarge
  · rw [min_eq_right finite] at different ⊢
    exact wins other different
  · rw [min_eq_left tooLarge.le] at different ⊢
    have below : other < infinityBits := lt_of_le_of_ne bounded different
    exact (wins infinityBits tooLarge.ne).of_above (value_strictMono tooLarge)
      (value_strictMono below) _

/-- A number has only one nearest bits: between two even ones equally near would lie a nearer one. -/
theorem NearestTo.not_lt {exact : ℚ} {bits others : Nat} (one : NearestTo exact bits)
    (two : NearestTo exact others) : ¬bits < others := by
  intro less
  have apart := value_strictMono less
  have same : |exact - value bits| = |exact - value others| :=
    le_antisymm (one.wins _ two.le_infinityBits less.ne').abs_le
      (two.wins _ one.le_infinityBits less.ne).abs_le
  have middle : exact - value bits = value others - exact := by
    rcases abs_eq_abs.mp same with equal | opposite
    · linarith
    · linarith
  have oneEven := (one.wins _ two.le_infinityBits less.ne').resolve_left same.not_lt
  have twoEven := (two.wins _ one.le_infinityBits less.ne).resolve_left same.not_gt
  have next : bits + 1 < others := by omega
  have nearer := (one.wins _ (next.le.trans two.le_infinityBits) (Nat.succ_ne_self bits)).abs_le
  have above := value_strictMono (Nat.lt_succ_self bits)
  have below := value_strictMono next
  have halfway : 0 < exact - value bits := by linarith
  rw [abs_of_pos halfway, le_abs] at nearer
  rcases nearer with left | right <;> linarith

theorem NearestTo.unique {exact : ℚ} {bits others : Nat} (one : NearestTo exact bits)
    (two : NearestTo exact others) : bits = others :=
  le_antisymm (Nat.not_lt.mp (two.not_lt one)) (Nat.not_lt.mp (one.not_lt two))

end Binary64

def Decimal.value (decimal : Decimal) : ℚ :=
  decimal.digits * 10 ^ decimal.exponent

theorem Decimal.nearestTo_bits (decimal : Decimal) :
    Binary64.NearestTo decimal.value decimal.bits := by
  have same : decimal.value = (decimal.digits * Nat.pow 10 decimal.exponent.toNat : Nat) /
      (Nat.pow 10 (-decimal.exponent).toNat : Nat) := by
    unfold value
    rcases Int.eq_nat_or_neg decimal.exponent with ⟨size, isSize | isSize⟩
    · simp [isSize]
    · simp [isSize, div_eq_mul_inv]
  rw [same]
  exact Binary64.nearestTo_nearest _ (Nat.pow_pos (by decide))

namespace Number

open Float.Model.UnpackedFloat

/-- Only the bits above those of infinity can be a second way to write "not a number". -/
theorem valid_ofNat {bits : Nat} (bounded : bits ≤ Binary64.infinityBits) :
    Float.Model.Format.binary64.Valid (UInt64.ofNat bits).toBitVec := by
  constructor
  rw [unpackExponent_def, unpackMantissa_def]
  intro exponent mantissa
  have allOnes := congrArg BitVec.toNat exponent
  have notZero := mt BitVec.eq_of_toNat_eq mantissa
  simp [Nat.shiftRight_eq_div_pow] at allOnes notZero
  unfold Binary64.infinityBits at bounded
  omega

/-- Bits up to those of infinity make a number that has these bits and is not "not a number". -/
theorem toBits_ofBits {bits : Nat} (bounded : bits ≤ Binary64.infinityBits) :
    (Float.ofBits (UInt64.ofNat bits)).toBits.toNat = bits ∧
      (Float.ofBits (UInt64.ofNat bits)).isNaN = false := by
  have valid := valid_ofNat bounded
  have small : bits < 18446744073709551616 := by
    unfold Binary64.infinityBits at bounded
    omega
  have kept : (Float.ofBits (UInt64.ofNat bits)).toBits = UInt64.ofNat bits :=
    congrArg UInt64.ofBitVec (pack_unpack_of_valid valid)
  refine ⟨by simpa [kept] using small, ?_⟩
  rw [← Bool.not_eq_true]
  intro isNaN
  change (unpack _ (pack _ (unpack _ _))).isNaN = true at isNaN
  rw [pack_unpack_of_valid valid, isNaN_unpack_iff_of_valid valid] at isNaN
  have nanBits : (packedNaN Float.Model.Format.binary64).toNat = 0x7FF8000000000000 := rfl
  have same := congrArg BitVec.toNat isNaN
  rw [nanBits] at same
  simp at same
  unfold Binary64.infinityBits at bounded
  omega

/-- The decimal number that digits with a point between them write. -/
def decimalValue (whole fraction : List Char) : ℚ :=
  Nat.ofDigitChars 10 whole 0 + Nat.ofDigitChars 10 fraction 0 / 10 ^ fraction.length

/-- A numeral is read as the number nearest to what its digits write. -/
theorem nearestTo_ofDigits (whole fraction : List Char) :
    Binary64.NearestTo (decimalValue whole fraction) (ofDigits whole fraction).toBits.toNat ∧
      (ofDigits whole fraction).isNaN = false := by
  have near := Decimal.nearestTo_bits
    ⟨Nat.ofDigitChars 10 (whole ++ fraction) 0, -(fraction.length : Int)⟩
  have ⟨sameBits, notNaN⟩ := toBits_ofBits near.le_infinityBits
  refine ⟨?_, notNaN⟩
  rw [ofDigits, sameBits]
  convert near using 1
  rw [Nat.ofDigitChars_append, Nat.ofDigitChars_eq_ofDigitChars_zero]
  simp [decimalValue, Decimal.value]
  field_simp

end Number
end BlockScript
