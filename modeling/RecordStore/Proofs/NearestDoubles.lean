import RecordStore.Number.Decimal

/-!
# Nearest doubles are numbers

The scale of a fraction is chosen so that its mantissa has at most 53 bits. So the mantissa and the
exponent of the nearest double stay in their own bits, and no fraction is rounded to what is not a
number.
-/

set_option autoImplicit false

namespace RecordStore

namespace Double

theorem twoTo_add (a b : Nat) : twoTo (a + b) = twoTo a * twoTo b := Nat.pow_add 2 a b

theorem twoTo_pos (k : Nat) : 0 < twoTo k := Nat.pow_pos (by decide)

theorem twoTo_le {a b : Nat} (h : a ≤ b) : twoTo a ≤ twoTo b := Nat.pow_le_pow_right (by decide) h

theorem isNaN_eq_false_iff (x : Double) :
    x.isNaN = false ↔
      (x.bits.toNat / twoTo 52 % twoTo 11 = 2047 → x.bits.toNat % twoTo 52 = 0) := by
  rw [isNaN, parts]
  by_cases greatest : x.bits.toNat / twoTo 52 % twoTo 11 = 2047
  · by_cases fraction : x.bits.toNat % twoTo 52 = 0 <;> simp [greatest, fraction]
  · rw [if_neg greatest]
    by_cases least : x.bits.toNat / twoTo 52 % twoTo 11 = 0 <;> simp [greatest, least]

theorem isNaN_ofFields (negative : Bool) {exponent fraction : Nat} (he : exponent ≤ 2047)
    (hf : fraction < twoTo 52) (number : exponent = 2047 → fraction = 0) :
    isNaN ⟨UInt64.ofNat (signBit negative + exponent * twoTo 52 + fraction)⟩ = false := by
  have sign : signBit negative = 0 ∨ signBit negative = twoTo 63 := by
    cases negative <;> simp [signBit]
  have size : twoTo 52 = 4503599627370496 := rfl
  have top : twoTo 63 = 9223372036854775808 := rfl
  have exponents : twoTo 11 = 2048 := rfl
  rw [isNaN_eq_false_iff]
  simp only [UInt64.toNat_ofNat', size, top, exponents] at hf sign ⊢
  omega

theorem isNaN_infinity (negative : Bool) : (infinity negative).isNaN = false := by
  have fields := isNaN_ofFields negative (Nat.le_refl 2047) (twoTo_pos 52) fun _ => rfl
  rwa [Nat.add_zero] at fields

theorem isNaN_zero (negative : Bool) : (zero negative).isNaN = false := by
  have fields := isNaN_ofFields negative (Nat.zero_le 2047) (twoTo_pos 52) nofun
  rwa [Nat.zero_mul, Nat.add_zero] at fields

theorem isNaN_assemble (negative : Bool) {mantissa : Nat} (h : mantissa < twoTo 53) (scale : Int) :
    (assemble negative mantissa scale).isNaN = false := by
  have size : twoTo 53 = twoTo 52 + twoTo 52 := rfl
  rw [assemble]
  split
  · exact isNaN_infinity negative
  rename_i bounded
  split
  · rename_i small
    have fields := isNaN_ofFields negative (Nat.zero_le 2047) small nofun
    rwa [Nat.zero_mul] at fields
  · exact isNaN_ofFields negative (by omega) (by omega) (by omega)

theorem div_scaledQuotient_lt {num den : Nat} (hd : 0 < den) {scale : Int}
    (h : (num.log2 : Int) - den.log2 - 52 ≤ scale) :
    (scaledQuotient num den scale).1 / (scaledQuotient num den scale).2 < twoTo 53 := by
  have above : num < twoTo (num.log2 + 1) := Nat.lt_log2_self
  have below : twoTo den.log2 ≤ den := Nat.log2_self_le (Nat.ne_of_gt hd)
  rw [scaledQuotient]
  split
  · rename_i positive
    rw [Nat.div_lt_iff_lt_mul (Nat.mul_pos hd (twoTo_pos _))]
    calc num < twoTo (num.log2 + 1) := above
      _ ≤ twoTo (53 + (den.log2 + scale.toNat)) := twoTo_le (by omega)
      _ = twoTo 53 * (twoTo den.log2 * twoTo scale.toNat) := by rw [twoTo_add, twoTo_add]
      _ ≤ twoTo 53 * (den * twoTo scale.toNat) :=
        Nat.mul_le_mul_left _ (Nat.mul_le_mul_right _ below)
  · rename_i negative
    rw [Nat.div_lt_iff_lt_mul hd]
    calc num * twoTo (-scale).toNat
        < twoTo (num.log2 + 1) * twoTo (-scale).toNat :=
          Nat.mul_lt_mul_of_pos_right above (twoTo_pos _)
      _ = twoTo (num.log2 + 1 + (-scale).toNat) := (twoTo_add _ _).symm
      _ ≤ twoTo (53 + den.log2) := twoTo_le (by omega)
      _ = twoTo 53 * twoTo den.log2 := twoTo_add _ _
      _ ≤ twoTo 53 * den := Nat.mul_le_mul_left _ below

theorem div_scaleOf_lt (num : Nat) {den : Nat} (hd : 0 < den) :
    (scaledQuotient num den (scaleOf num den)).1 / (scaledQuotient num den (scaleOf num den)).2 <
      twoTo 53 := by
  let guess : Int := (num.log2 : Int) - den.log2 - 53
  let quotient := scaledQuotient num den guess
  have scale : scaleOf num den =
      max (if quotient.1 / quotient.2 < twoTo 53 then guess else guess + 1) (-1074) := rfl
  by_cases fits : quotient.1 / quotient.2 < twoTo 53 ∧ -1074 ≤ guess
  · have own : scaleOf num den = guess := by
      rw [scale, if_pos fits.1]
      exact Int.max_eq_left fits.2
    rw [own]
    exact fits.1
  · have greater : guess + 1 ≤ scaleOf num den := by
      rw [scale]
      split <;> omega
    exact div_scaledQuotient_lt hd (by omega)

theorem roundQuotient_le (num den : Nat) : roundQuotient num den ≤ num / den + 1 := by
  rw [roundQuotient]
  split
  · omega
  · split <;> omega

theorem isNaN_nearest (negative : Bool) (num : Nat) {den : Nat} (hd : 0 < den) :
    (nearest negative num den).isNaN = false := by
  rw [nearest]
  split
  · exact isNaN_zero negative
  let scale := scaleOf num den
  let parts := scaledQuotient num den scale
  have bits : parts.1 / parts.2 < twoTo 53 := div_scaleOf_lt num hd
  have rounded := roundQuotient_le parts.1 parts.2
  show (if roundQuotient parts.1 parts.2 = twoTo 53 then assemble negative (twoTo 52) (scale + 1)
    else assemble negative (roundQuotient parts.1 parts.2) scale).isNaN = false
  split
  · exact isNaN_assemble negative (by decide) _
  · exact isNaN_assemble negative (by omega) _

end Double

namespace Decimal

def isNaN : Decimal → Bool
  | .nan _ _ _ => true
  | _ => false

theorem toDouble_of_number {d : Decimal} (h : d.isNaN = false) :
    ∃ x, d.toDouble = .ok x ∧ x.isNaN = false := by
  cases d with
  | nan negative signalling payload => cases h
  | infinite negative => exact ⟨_, rfl, Double.isNaN_infinity negative⟩
  | finite negative c e =>
    rw [toDouble]
    split
    · exact ⟨_, rfl, Double.isNaN_zero negative⟩
    · split
      · exact ⟨_, rfl, Double.isNaN_infinity negative⟩
      · exact ⟨_, rfl, Double.isNaN_nearest negative _ (Nat.pow_pos (by decide))⟩

end Decimal

end RecordStore
