import BlockScript.Proofs.Number.Nearest
import BlockScript.Proofs.Source.LongestMatch

/-!
# Numbers that are written can be read back

The text of a finite magnitude is a numeral, and the numeral is read as the number with these bits.
Which decimal is written does not matter for that, as long as it has the bits: every way to write it
is read alike, since what is read depends on the number that the decimal stands for only.
-/

namespace BlockScript

/-! ## Bits of decimals -/

theorem Binary64.nearestTo_value {bits : Nat} (bounded : bits ≤ infinityBits) :
    NearestTo (value bits) bits where
  le_infinityBits := bounded
  wins other _ different := by
    have apart := value_strictMono.injective.ne different.symm
    left
    rw [sub_self, abs_zero, abs_pos]
    exact sub_ne_zero.mpr apart

namespace Decimal

theorem bits_eq_of_nearestTo {decimal : Decimal} {bits : Nat}
    (near : Binary64.NearestTo decimal.value bits) : decimal.bits = bits :=
  decimal.nearestTo_bits.unique near

theorem bits_eq_of_value_eq {left right : Decimal} (same : left.value = right.value) :
    left.bits = right.bits :=
  bits_eq_of_nearestTo (same ▸ right.nearestTo_bits)

theorem value_ofMagnitude (magnitude : Binary64.Magnitude) :
    (ofMagnitude magnitude).value = magnitude.value := by
  obtain ⟨significand, exponent⟩ := magnitude
  rw [ofMagnitude, Binary64.Magnitude.value]
  split
  · next nonnegative =>
      obtain ⟨power, rfl⟩ := Int.eq_ofNat_of_zero_le nonnegative
      simp [value]
  · next negative =>
      obtain ⟨places, rfl⟩ : ∃ places : Nat, exponent = -places := by
        dsimp only at negative
        exact ⟨exponent.natAbs, by omega⟩
      have tenth : (10 : ℚ) ^ places = 5 ^ places * 2 ^ places := by
        rw [← mul_pow]
        norm_num
      simp only [value, neg_neg, Int.toNat_natCast, zpow_neg, zpow_natCast, tenth, Nat.pow_eq]
      push_cast
      field_simp

theorem bits_ofMagnitude {bits : Nat} (bounded : bits ≤ Binary64.infinityBits) :
    (ofMagnitude (.ofBits bits)).bits = bits :=
  bits_eq_of_nearestTo (value_ofMagnitude _ ▸ Binary64.nearestTo_value bounded)

/-- Trailing zeros count for nothing once the exponent makes up for them. -/
theorem value_trimmed (decimal : Decimal) : decimal.trimmed.value = decimal.value := by
  fun_induction trimmed decimal with
  | case1 decimal isZero => simp [value, isZero]
  | case2 decimal nonzero isMultiple inductionHypothesis =>
      rw [inductionHypothesis]
      have digits : decimal.digits = decimal.digits / 10 * 10 := by omega
      rw [value, value, zpow_add_one₀ (by norm_num)]
      conv_rhs => rw [digits]
      push_cast
      ring
  | case3 => rfl

/-- The shortest decimal has the bits that it was made for. -/
theorem bits_shortest {bits : Nat} (bounded : bits ≤ Binary64.infinityBits) :
    (shortest bits).bits = bits := by
  rw [shortest, bits_eq_of_value_eq (value_trimmed _)]
  exact bits_abridge (bits_ofMagnitude bounded) _

end Decimal

/-! ## Positional numerals -/

namespace Piece

variable {whole fraction : List Char}

theorem text_numeral_of_ne_nil (whole : List Char) (nonempty : fraction ≠ []) :
    (numeral whole fraction).text = whole ++ '.' :: fraction := by
  obtain ⟨place, others, rfl⟩ := List.exists_cons_of_ne_nil nonempty
  rfl

theorem spelled_numeral (nonempty : whole ≠ []) (digits : ∀ char ∈ whole, isDigit char = true)
    (places : ∀ char ∈ fraction, isDigit char = true) : (numeral whole fraction).Spelled := by
  obtain ⟨digit, others, rfl⟩ := List.exists_cons_of_ne_nil nonempty
  exact .numeral digits places

end Piece

namespace Number

/-- The decimal that a numeral writes. -/
def numeralDecimal (whole fraction : List Char) : Decimal :=
  ⟨Nat.ofDigitChars 10 (whole ++ fraction) 0, -(fraction.length : Int)⟩

theorem isDigit_of_mem_replicate {count : Nat} {char : Char}
    (member : char ∈ List.replicate count '0') : isDigit char = true := by
  rw [List.eq_of_mem_replicate member]
  rfl

/-- Digits with an exponent are written as a numeral that stands for the same number. -/
theorem positional_eq_numeral {digits : List Char} (nonempty : digits ≠ [])
    (areDigits : ∀ char ∈ digits, isDigit char = true) (exponent : Int) :
    ∃ whole fraction, (Piece.numeral whole fraction).Spelled ∧
      positional digits exponent = (Piece.numeral whole fraction).text ∧
      (numeralDecimal whole fraction).value =
        (⟨Nat.ofDigitChars 10 digits 0, exponent⟩ : Decimal).value := by
  rw [positional]
  split
  -- Zeros fill up to the point, and the point is not written.
  · next noPlaces =>
      obtain ⟨power, rfl⟩ := Int.eq_ofNat_of_zero_le (by omega : 0 ≤ exponent)
      have filled : ∀ char ∈ digits ++ List.replicate power '0', isDigit char = true :=
        List.forall_mem_append.mpr ⟨areDigits, fun _ => isDigit_of_mem_replicate⟩
      refine ⟨digits ++ List.replicate power '0', [], ?_, rfl, ?_⟩
      · exact Piece.spelled_numeral (by simp [nonempty]) filled nofun
      · simp [numeralDecimal, Decimal.value, Nat.ofDigitChars_append, mul_comm]
  obtain ⟨places, rfl⟩ : ∃ places : Nat, exponent = -places := ⟨exponent.natAbs, by omega⟩
  simp only [neg_neg, Int.toNat_natCast] at *
  split
  -- The point stands between the digits.
  · next inside =>
      have taken : digits.take (digits.length - places) ≠ [] := by
        rw [← List.length_pos_iff, List.length_take]
        omega
      have dropped : (digits.drop (digits.length - places)).length = places := by
        rw [List.length_drop]
        omega
      have fraction : digits.drop (digits.length - places) ≠ [] := by
        rw [← List.length_pos_iff, dropped]
        omega
      refine ⟨_, _, ?_, (Piece.text_numeral_of_ne_nil _ fraction).symm, ?_⟩
      · exact Piece.spelled_numeral taken
          (fun char member => areDigits char (List.mem_of_mem_take member))
          (fun char member => areDigits char (List.mem_of_mem_drop member))
      · rw [numeralDecimal, List.take_append_drop, dropped]
  -- The point stands before the digits, and zeros fill up to it.
  · next outside =>
      have fraction : List.replicate (places - digits.length) '0' ++ digits ≠ [] := by
        simp [nonempty]
      have filled : (List.replicate (places - digits.length) '0' ++ digits).length = places := by
        rw [List.length_append, List.length_replicate]
        omega
      refine ⟨['0'], _, ?_, (Piece.text_numeral_of_ne_nil ['0'] fraction).symm, ?_⟩
      · exact Piece.spelled_numeral (List.cons_ne_nil _ _) (List.forall_mem_singleton.mpr rfl)
          (List.forall_mem_append.mpr ⟨fun _ => isDigit_of_mem_replicate, areDigits⟩)
      · rw [numeralDecimal, filled]
        simp [Nat.ofDigitChars_append, Nat.ofDigitChars_cons]

/-! ## Reading back -/

theorem isDigit_eq (char : Char) : isDigit char = char.isDigit := by
  rw [isDigit, Char.isDigit, Bool.eq_iff_iff]
  simp [Char.le_def]

theorem magnitudeText_eq_numeral {bits : Nat} (bounded : bits ≤ Binary64.infinityBits) :
    ∃ whole fraction, (Piece.numeral whole fraction).Spelled ∧
      magnitudeText bits = .ofList (Piece.numeral whole fraction).text ∧
      ofDigits whole fraction = Float.ofBits (UInt64.ofNat bits) := by
  have nonempty : Decimal.digitsOf (Decimal.shortest bits).digits ≠ [] := Nat.toDigits_ne_nil
  have areDigits : ∀ char ∈ Decimal.digitsOf (Decimal.shortest bits).digits,
      isDigit char = true := by
    intro char member
    rw [isDigit_eq]
    exact Nat.isDigit_of_mem_toDigits (by decide) (by decide) member
  obtain ⟨whole, fraction, spelled, isNumeral, same⟩ :=
    positional_eq_numeral nonempty areDigits (Decimal.shortest bits).exponent
  refine ⟨whole, fraction, spelled, congrArg String.ofList isNumeral, ?_⟩
  rw [Decimal.digitsOf, Nat.ofDigitChars_toDigits (by decide) (by decide)] at same
  have sameBits : (numeralDecimal whole fraction).bits = bits :=
    (Decimal.bits_eq_of_value_eq same).trans (Decimal.bits_shortest bounded)
  exact congrArg (fun bits => Float.ofBits (UInt64.ofNat bits)) sameBits

/-! ## Signs -/

section Signs

open Float.Model (Format)
open Float.Model.UnpackedFloat

/-- A number is its bits. -/
theorem eq_of_toBits_eq {left right : Float} (same : left.toBits.toNat = right.toBits.toNat) :
    left = right := by
  obtain ⟨⟨leftBits, _⟩⟩ := left
  obtain ⟨⟨rightBits, _⟩⟩ := right
  cases UInt64.toNat_inj.mp same
  rfl

theorem toNat_unpackSign (bits : BitVec Format.binary64.numBits) :
    (unpackSign bits).toNat = bits.toNat / Binary64.signBit % 2 := by
  rw [unpackSign_def, BitVec.extractLsb'_toNat, Nat.shiftRight_eq_div_pow]
  rfl

theorem toNat_unpackExponent (bits : BitVec Format.binary64.numBits) :
    (unpackExponent bits).toNat = bits.toNat / Binary64.leadingBit % 2048 := by
  rw [unpackExponent_def, BitVec.extractLsb'_toNat, Nat.shiftRight_eq_div_pow]
  rfl

theorem toNat_unpackMantissa (bits : BitVec Format.binary64.numBits) :
    (unpackMantissa bits).toNat = bits.toNat % Binary64.leadingBit := by
  rw [unpackMantissa_def, BitVec.extractLsb'_toNat, Nat.shiftRight_zero]
  rfl

theorem isFinite_unpack_iff {format : Format} (bits : BitVec format.numBits) :
    (unpack format bits).isFinite = true ↔
      unpackExponent bits ≠ -BitVec.ofNat format.exponentBits 1 := by
  unfold unpack
  dsimp only
  split
  · next allOnes => split <;> simp [isFinite, allOnes]
  · next notAllOnes =>
      split
      · split <;> simp [isFinite, notAllOnes]
      · simp [isFinite, notAllOnes]

theorem isFinite_iff (number : Float) : number.isFinite = true ↔
    number.toBits.toNat % Binary64.signBit < Binary64.infinityBits := by
  obtain ⟨⟨bits, valid⟩⟩ := number
  change (unpack Format.binary64 bits.toBitVec).isFinite = true ↔ bits.toNat % _ < _
  rw [isFinite_unpack_iff, Ne, ← BitVec.toNat_inj, toNat_unpackExponent]
  have small := bits.toNat_lt
  have allOnes : (-BitVec.ofNat Format.binary64.exponentBits 1).toNat = 2047 := rfl
  rw [allOnes, UInt64.toNat_toBitVec]
  unfold Binary64.signBit Binary64.infinityBits Binary64.leadingBit Binary64.fractionBits
  simp only [Nat.pow_eq]
  omega

/-- Bits that differ in the sign only stand for opposite numbers. -/
theorem unpack_eq_neg {format : Format} {left right : BitVec format.numBits}
    (exponent : unpackExponent left = unpackExponent right)
    (mantissa : unpackMantissa left = unpackMantissa right)
    (sign : Sign.ofBitVec (unpackSign left) = -Sign.ofBitVec (unpackSign right)) :
    unpack format left = (unpack format right).neg := by
  unfold unpack
  simp only [exponent, mantissa, sign]
  split
  · split <;> rfl
  split
  · split <;> rfl
  · rfl

/-- The bits of a negative number are those of its magnitude and a sign. -/
theorem unpack_eq_neg_magnitude {bits : BitVec Format.binary64.numBits}
    (negative : Binary64.signBit ≤ bits.toNat) {magnitude : BitVec Format.binary64.numBits}
    (isMagnitude : magnitude.toNat = bits.toNat % Binary64.signBit) :
    unpack Format.binary64 bits = (unpack Format.binary64 magnitude).neg := by
  have small : bits.toNat < 2 ^ 64 := bits.isLt
  unfold Binary64.signBit at negative isMagnitude
  apply unpack_eq_neg
  case exponent =>
    rw [← BitVec.toNat_inj, toNat_unpackExponent, toNat_unpackExponent, isMagnitude]
    unfold Binary64.leadingBit Binary64.fractionBits
    simp only [Nat.pow_eq]
    omega
  case mantissa =>
    rw [← BitVec.toNat_inj, toNat_unpackMantissa, toNat_unpackMantissa, isMagnitude]
    unfold Binary64.leadingBit Binary64.fractionBits
    simp only [Nat.pow_eq]
    omega
  case sign =>
    have one : unpackSign bits = 1#1 := by
      rw [← BitVec.toNat_inj, toNat_unpackSign]
      unfold Binary64.signBit
      simp only [BitVec.toNat_ofNat]
      omega
    have zero : unpackSign magnitude = 0#1 := by
      rw [← BitVec.toNat_inj, toNat_unpackSign, isMagnitude]
      unfold Binary64.signBit
      simp only [BitVec.toNat_ofNat]
      omega
    rw [one, zero]
    rfl

/-- A negative number is its magnitude negated, and zero is no exception. -/
theorem neg_ofBits_magnitude {number : Float}
    (bounded : number.toBits.toNat % Binary64.signBit ≤ Binary64.infinityBits)
    (negative : Binary64.signBit ≤ number.toBits.toNat) :
    -Float.ofBits (UInt64.ofNat (number.toBits.toNat % Binary64.signBit)) = number := by
  obtain ⟨⟨bits, bitsValid⟩⟩ := number
  have valid : Format.binary64.Valid (UInt64.ofNat (bits.toNat % Binary64.signBit)).toBitVec :=
    valid_ofNat bounded
  have small := bits.toNat_lt
  have isMagnitude : (UInt64.ofNat (bits.toNat % Binary64.signBit)).toBitVec.toNat =
      bits.toNat % Binary64.signBit := by
    rw [UInt64.toNat_toBitVec, UInt64.toNat_ofNat', Nat.mod_eq_of_lt]
    exact (Nat.mod_le _ _).trans_lt small
  apply eq_of_toBits_eq
  -- Both numbers are packed, so that it is enough to compare what is unpacked from them.
  have packed : pack Format.binary64 (unpack Format.binary64 (pack Format.binary64
      (unpack Format.binary64
        (UInt64.ofNat (bits.toNat % Binary64.signBit)).toBitVec))).neg = bits.toBitVec := by
    rw [pack_unpack_of_valid valid, ← unpack_eq_neg_magnitude negative isMagnitude]
    exact pack_unpack_of_valid bitsValid
  exact congrArg BitVec.toNat packed

theorem ofBits_magnitude {number : Float}
    (bounded : number.toBits.toNat % Binary64.signBit ≤ Binary64.infinityBits)
    (positive : number.toBits.toNat < Binary64.signBit) :
    Float.ofBits (UInt64.ofNat (number.toBits.toNat % Binary64.signBit)) = number := by
  apply eq_of_toBits_eq
  rw [(toBits_ofBits bounded).1, Nat.mod_eq_of_lt positive]

end Signs

/-! ## Texts of numbers -/

/-- The text of a finite number is a numeral after its sign, and what is read is its magnitude. -/
theorem text_eq_sign_append {number : Float} (finite : number.isFinite = true) :
    ∃ whole fraction, (Piece.numeral whole fraction).Spelled ∧
      text number = (if Binary64.signBit ≤ number.toBits.toNat then "-" else "") ++
        .ofList (Piece.numeral whole fraction).text ∧
      ofDigits whole fraction =
        Float.ofBits (UInt64.ofNat (number.toBits.toNat % Binary64.signBit)) := by
  have bounded := (isFinite_iff number).mp finite
  obtain ⟨whole, fraction, spelled, isNumeral, isRead⟩ := magnitudeText_eq_numeral bounded.le
  refine ⟨whole, fraction, spelled, ?_, isRead⟩
  rw [← isNumeral]
  simp only [text, if_neg bounded.le.not_gt, if_neg bounded.ne]

/-- The text of a finite number without a sign is a numeral that is read as the number. -/
theorem text_eq_numeral {number : Float} (finite : number.isFinite = true)
    (positive : number.toBits.toNat < Binary64.signBit) :
    ∃ whole fraction, (Piece.numeral whole fraction).Spelled ∧
      text number = .ofList (Piece.numeral whole fraction).text ∧
      ofDigits whole fraction = number := by
  have bounded := (isFinite_iff number).mp finite
  obtain ⟨whole, fraction, spelled, isText, isRead⟩ := text_eq_sign_append finite
  refine ⟨whole, fraction, spelled, ?_, isRead.trans (ofBits_magnitude bounded.le positive)⟩
  rw [isText, if_neg (Nat.not_le.mpr positive), String.empty_append]

/-- The text of a finite number with a sign is a minus and a numeral, and what is read from the
numeral is what the number negates. -/
theorem text_eq_minus_numeral {number : Float} (finite : number.isFinite = true)
    (negative : Binary64.signBit ≤ number.toBits.toNat) :
    ∃ whole fraction, (Piece.numeral whole fraction).Spelled ∧
      text number = "-" ++ .ofList (Piece.numeral whole fraction).text ∧
      -ofDigits whole fraction = number := by
  have bounded := (isFinite_iff number).mp finite
  obtain ⟨whole, fraction, spelled, isText, isRead⟩ := text_eq_sign_append finite
  refine ⟨whole, fraction, spelled, ?_, ?_⟩
  · rw [isText, if_pos negative]
  · rw [isRead, neg_ofBits_magnitude bounded.le negative]

/-- Numerals are read as numbers without a sign. -/
theorem toBits_ofDigits_lt_signBit (whole fraction : List Char) :
    (ofDigits whole fraction).toBits.toNat < Binary64.signBit :=
  (nearestTo_ofDigits whole fraction).1.le_infinityBits.trans_lt (by decide)

end Number

end BlockScript
