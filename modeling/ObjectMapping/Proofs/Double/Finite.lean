import ObjectMapping.Double.Basic
import Mathlib.Data.Nat.Log
import Mathlib.Tactic.Ring

/-! # Which doubles are finite

Rounding makes an infinity only of a quotient that is too large, and the binary lengths of its
numerator and its denominator tell roughly how large a quotient is.

* **`Double.isFinite_ofRatio`** — a quotient with a numerator at most 1022 places longer than the
  denominator is finite.
* `Double.isFinite_ofInt`, `Double.isFinite_neg`, `Double.isFinite_div_powerOfTen`: the doubles that
  readers of numbers make. -/

namespace ObjectMapping.Double

/-! ## Magnitudes -/

/-- The exponent is what is above the fraction in the magnitude. -/
theorem exponentBits_ofMagnitude {magnitude : Nat} (hlt : magnitude < 2 ^ 63) (negative : Bool) :
    (ofMagnitude negative magnitude).exponentBits = magnitude / 2 ^ 52 := by
  have hbits : ((ofMagnitude negative magnitude).bits >>> 52 &&& 0x7FF).toNat
      = (magnitude + if negative then 2 ^ 63 else 0) / 2 ^ 52 % 2 ^ 11 := by
    have hword : (magnitude + if negative then 2 ^ 63 else 0) % 2 ^ 64
        = magnitude + if negative then 2 ^ 63 else 0 := by
      apply Nat.mod_eq_of_lt
      split <;> omega
    rw [UInt64.toNat_and, UInt64.toNat_shiftRight, ofMagnitude, UInt64.toNat_ofNat']
    show ((magnitude + if negative then 2 ^ 63 else 0) % 2 ^ 64) >>> 52 &&& (2 ^ 11 - 1) = _
    rw [hword, Nat.and_two_pow_sub_one_eq_mod, Nat.shiftRight_eq_div_pow]
  rw [exponentBits, hbits]
  split <;> omega

/-- A magnitude below that of infinity is finite. -/
theorem isFinite_ofMagnitude {magnitude : Nat} (hlt : magnitude < 0x7FF * 2 ^ 52)
    (negative : Bool) : (ofMagnitude negative magnitude).isFinite = true := by
  have hexponent : (ofMagnitude negative magnitude).exponentBits = magnitude / 2 ^ 52 :=
    exponentBits_ofMagnitude (by omega) negative
  rw [isFinite, hexponent, bne_iff_ne]
  omega

/-- Both zeros are finite. -/
theorem isFinite_zero (negative : Bool) : (zero negative).isFinite = true :=
  isFinite_ofMagnitude (by norm_num) negative

/-- A finite number stays so under a change of sign. -/
theorem isFinite_neg {x : Double} (h : x.isFinite = true) : x.neg.isFinite = true := by
  -- the sign bit is none of the exponent bits
  have hbits : x.neg.exponentBits = x.exponentBits := by
    rw [exponentBits, exponentBits, neg, UInt64.toNat_and, UInt64.toNat_and,
      UInt64.toNat_shiftRight, UInt64.toNat_shiftRight, UInt64.toNat_xor,
      Nat.shiftRight_xor_distrib, Nat.and_xor_distrib_right]
    exact Nat.xor_zero _
  rw [isFinite, hbits]
  exact h

/-! ## Rounded quotients -/

/-- Rounding a quotient goes up by one at most. -/
theorem roundQuotient_le (num den : Nat) : roundQuotient num den ≤ num / den + 1 := by
  unfold roundQuotient
  dsimp only
  split_ifs <;> omega

/-- Rounding a quotient does not go down. -/
theorem le_roundQuotient (num den : Nat) : num / den ≤ roundQuotient num den := by
  unfold roundQuotient
  dsimp only
  split_ifs <;> omega

/-- How a bound on a quotient moves along with its powers of two. -/
theorem mul_two_pow_lt {a b s t s' t' : Nat} (h : a * 2 ^ s < b * 2 ^ t)
    (hle : t + s' ≤ t' + s) : a * 2 ^ s' < b * 2 ^ t' := by
  apply Nat.lt_of_mul_lt_mul_right (a := 2 ^ s)
  calc a * 2 ^ s' * 2 ^ s = a * 2 ^ s * 2 ^ s' := by ring
    _ < b * 2 ^ t * 2 ^ s' := Nat.mul_lt_mul_of_pos_right h (Nat.two_pow_pos s')
    _ = b * 2 ^ (t + s') := by rw [Nat.pow_add]; ring
    _ ≤ b * 2 ^ (t' + s) := Nat.mul_le_mul_left b (Nat.pow_le_pow_right (by decide) hle)
    _ = b * 2 ^ t' * 2 ^ s := by rw [Nat.pow_add]; ring

/-- An inequality with powers of two keeps when the right-hand side gains at least as much. -/
theorem mul_two_pow_le {a b s t s' t' : Nat} (h : a * 2 ^ s ≤ b * 2 ^ t)
    (hle : t + s' ≤ t' + s) : a * 2 ^ s' ≤ b * 2 ^ t' := by
  by_contra hlt
  have hback : b * 2 ^ t < a * 2 ^ s := mul_two_pow_lt (Nat.not_le.mp hlt) (by omega)
  omega

/-- The leading exponent of a quotient is at most the difference of those of its parts. -/
theorem leadingExponent_le (num den : Nat) :
    leadingExponent num den ≤ (num.log2 : Int) - den.log2 := by
  rw [leadingExponent]
  dsimp only
  split <;> omega

/-- A quotient is below twice the power of two of its leading bit. -/
theorem lt_of_leadingExponent {num den s t : Nat} (hden : den ≠ 0)
    (hle : leadingExponent num den + 1 ≤ (t : Int) - s) : num * 2 ^ s < den * 2 ^ t := by
  rw [leadingExponent] at hle
  dsimp only [scaled] at hle
  split at hle
  · next hbelow =>
    exact mul_two_pow_lt hbelow (by omega)
  · have hnum : num < 2 ^ (num.log2 + 1) := Nat.lt_log2_self
    have hlength : num * 2 ^ den.log2 < den * 2 ^ (num.log2 + 1) :=
      calc num * 2 ^ den.log2 < 2 ^ (num.log2 + 1) * 2 ^ den.log2 :=
            Nat.mul_lt_mul_of_pos_right hnum (Nat.two_pow_pos _)
        _ ≤ 2 ^ (num.log2 + 1) * den := Nat.mul_le_mul_left _ (Nat.log2_self_le hden)
        _ = den * 2 ^ (num.log2 + 1) := Nat.mul_comm _ _
    exact mul_two_pow_lt hlength (by omega)

/-- A quotient is at least the power of two of its leading bit. -/
theorem le_of_leadingExponent {num den s t : Nat} (hnum : num ≠ 0)
    (hle : (t : Int) - s ≤ leadingExponent num den) : den * 2 ^ t ≤ num * 2 ^ s := by
  rw [leadingExponent] at hle
  dsimp only [scaled] at hle
  split at hle
  · have hden : den < 2 ^ (den.log2 + 1) := Nat.lt_log2_self
    have hlength : den * 2 ^ num.log2 ≤ num * 2 ^ (den.log2 + 1) :=
      calc den * 2 ^ num.log2 ≤ 2 ^ (den.log2 + 1) * 2 ^ num.log2 :=
            Nat.mul_le_mul_right _ (Nat.le_of_lt hden)
        _ ≤ 2 ^ (den.log2 + 1) * num := Nat.mul_le_mul_left _ (Nat.log2_self_le hnum)
        _ = num * 2 ^ (den.log2 + 1) := Nat.mul_comm _ _
    exact mul_two_pow_le hlength (by omega)
  · next habove =>
    exact mul_two_pow_le (Nat.not_lt.mp habove) (by omega)

/-- **A quotient that is not too large rounds to a finite double.** -/
theorem isFinite_ofRatio {num den : Nat} (hden : den ≠ 0) (hlength : num.log2 ≤ den.log2 + 1022)
    (negative : Bool) : (ofRatio negative num den).isFinite = true := by
  rw [ofRatio]
  split
  · exact isFinite_zero negative
  have hlead := leadingExponent_le num den
  generalize hq : max (leadingExponent num den - 52) (-1074) = q
  have hlow : -1074 ≤ q := by omega
  have hhigh : q ≤ 970 := by omega
  -- the significand has at most one place more than a double keeps, even after rounding up
  have hround : roundQuotient (num * 2 ^ (0 - q).toNat) (den * 2 ^ (-(0 - q)).toNat) ≤ 2 ^ 53 := by
    have hlt : num * 2 ^ (0 - q).toNat < den * 2 ^ ((-(0 - q)).toNat + 53) :=
      lt_of_leadingExponent hden (by omega)
    have hquotient : num * 2 ^ (0 - q).toNat / (den * 2 ^ (-(0 - q)).toNat) < 2 ^ 53 := by
      apply Nat.div_lt_of_lt_mul
      rwa [Nat.mul_assoc, ← Nat.pow_add]
    exact Nat.le_trans (roundQuotient_le _ _) hquotient
  dsimp only [scaled]
  rw [if_pos]
  · apply isFinite_ofMagnitude
    simp only [Nat.pow_eq] at *
    omega
  · simp only [Nat.pow_eq] at *
    omega

/-! ## The doubles that readers make -/

/-- A whole number of at most 1023 bits is rounded to a finite number. -/
theorem isFinite_ofRatio_one {n : Nat} (h : n < 2 ^ 1023) (negative : Bool) :
    (ofRatio negative n 1).isFinite = true := by
  refine isFinite_ofRatio Nat.one_ne_zero ?_ negative
  rcases Nat.eq_zero_or_pos n with hzero | hpos
  · rw [hzero]
    decide
  · have hlt := (Nat.log2_lt (Nat.pos_iff_ne_zero.mp hpos)).mpr h
    omega

/-- An integer of at most 1023 bits is rounded to a finite number. -/
theorem isFinite_ofInt {i : Int} (h : i.natAbs < 2 ^ 1023) : (ofInt i).isFinite = true :=
  isFinite_ofRatio_one h _

/-- The significand has 53 bits at most. -/
theorem significand_lt (x : Double) : x.significand < 2 ^ 53 := by
  have hfraction : x.fractionBits < 2 ^ 52 := by
    have hmask : x.fractionBits = x.bits.toNat % 2 ^ 52 := by
      rw [fractionBits, UInt64.toNat_and]
      exact Nat.and_two_pow_sub_one_eq_mod _ 52
    rw [hmask]
    exact Nat.mod_lt _ (Nat.two_pow_pos 52)
  rw [significand]
  simp only [Nat.pow_eq]
  split <;> omega

/-- The exponent of a finite number is bounded. -/
theorem exponent_le {x : Double} (h : x.isFinite = true) : x.exponent ≤ 971 := by
  have hmask : x.exponentBits < 2 ^ 11 := by
    rw [exponentBits, UInt64.toNat_and]
    exact Nat.and_lt_two_pow _ (by decide)
  rw [isFinite, bne_iff_ne] at h
  rw [exponent]
  split <;> omega

/-- Multiplying with a power of two adds to the logarithm. -/
theorem log2_mul_two_pow {n : Nat} (h : n ≠ 0) (k : Nat) : (n * 2 ^ k).log2 = n.log2 + k := by
  induction k with
  | zero => rw [Nat.pow_zero, Nat.mul_one, Nat.add_zero]
  | succ k ih =>
    have hne : n * 2 ^ k ≠ 0 := Nat.mul_ne_zero h (Nat.two_pow_pos k).ne'
    rw [Nat.pow_succ, ← Nat.mul_assoc, Nat.log2_eq_log_two, Nat.log_mul_base Nat.one_lt_two hne,
      ← Nat.log2_eq_log_two, ih, Nat.add_assoc]

/-- A finite double stays finite when it is divided by two or more. -/
theorem isFinite_div {x y : Double} (hx : x.isFinite = true) (htwo : 1024 ≤ y.exponentBits) :
    (x.div y).isFinite = true := by
  rw [div]
  dsimp only [scaled]
  rcases Nat.eq_zero_or_pos x.significand with hzero | hpos
  · rw [hzero, Nat.zero_mul]
    exact isFinite_zero _
  have hnormal : (y.exponentBits == 0) = false := by
    rw [beq_eq_false_iff_ne]
    omega
  have hdivisor : 2 ^ 52 ≤ y.significand ∧ y.exponent = (y.exponentBits : Int) - 1075 := by
    rw [significand, exponent, hnormal]
    exact ⟨Nat.le_add_right _ _, rfl⟩
  obtain ⟨hleading, hexponent⟩ := hdivisor
  have hlength : 52 ≤ y.significand.log2 := (Nat.le_log2 (by omega)).mpr hleading
  have hsignificand : x.significand.log2 < 53 :=
    (Nat.log2_lt (Nat.pos_iff_ne_zero.mp hpos)).mpr (significand_lt x)
  have hlargest := exponent_le hx
  apply isFinite_ofRatio
  · exact Nat.mul_ne_zero (by omega) (Nat.two_pow_pos _).ne'
  · simp only [Nat.pow_eq]
    rw [log2_mul_two_pow (Nat.pos_iff_ne_zero.mp hpos), log2_mul_two_pow (by omega)]
    omega

/-- The leading exponent of a whole number is its logarithm. -/
theorem leadingExponent_one {n : Nat} (h : n ≠ 0) : leadingExponent n 1 = n.log2 := by
  have hguess : (n.log2 : Int) - (Nat.log2 1 : Nat) = n.log2 := Int.sub_zero _
  rw [leadingExponent, hguess]
  dsimp only [scaled]
  rw [if_neg]
  have hself := Nat.log2_self_le h
  have hup : (-(0 - (n.log2 : Int))).toNat = n.log2 := by omega
  have hdown : (0 - (n.log2 : Int)).toNat = 0 := by omega
  rw [hup, hdown, Nat.one_mul, Nat.pow_eq, Nat.pow_eq, Nat.pow_zero, Nat.mul_one]
  omega

/-- Whole numbers from two on round to doubles from two on, or to an infinity. -/
theorem exponentBits_ofInt_ge {n : Nat} (h : 2 ≤ n) : 1024 ≤ (ofInt n).exponentBits := by
  have hpositive : (n == 0) = false := by
    rw [beq_eq_false_iff_ne]
    omega
  have hlength : 1 ≤ n.log2 := (Nat.le_log2 (by omega)).mpr h
  rw [ofInt, Int.natAbs_natCast, ofRatio, hpositive, leadingExponent_one (by omega),
    if_neg Bool.false_ne_true]
  dsimp only [scaled]
  generalize hq : max ((n.log2 : Int) - 52) (-1074) = q
  -- the significand has all its places, so the exponent bits count from the leading one
  have hround : 2 ^ 52 ≤ roundQuotient (n * 2 ^ (0 - q).toNat) (1 * 2 ^ (-(0 - q)).toNat) := by
    have hle : 1 * 2 ^ ((-(0 - q)).toNat + 52) ≤ n * 2 ^ (0 - q).toNat := by
      apply le_of_leadingExponent (by omega)
      rw [leadingExponent_one (by omega)]
      omega
    have hquotient : 2 ^ 52 ≤ n * 2 ^ (0 - q).toNat / (1 * 2 ^ (-(0 - q)).toNat) := by
      rw [Nat.le_div_iff_mul_le (Nat.mul_pos Nat.one_pos (Nat.two_pow_pos _)), Nat.mul_comm,
        Nat.mul_assoc, ← Nat.pow_add]
      exact hle
    exact Nat.le_trans hquotient (le_roundQuotient _ _)
  simp only [Nat.pow_eq]
  split
  · next hfinite =>
    rw [exponentBits_ofMagnitude (by omega)]
    omega
  · rw [infinity, Nat.pow_eq, exponentBits_ofMagnitude (by omega)]
    omega

/-- A finite number stays so when it is divided by a power of ten. -/
theorem isFinite_div_powerOfTen {x : Double} (hx : x.isFinite = true) {k : Nat} (hpos : 0 < k) :
    (x.div (ofInt (Nat.pow 10 k))).isFinite = true := by
  apply isFinite_div hx
  apply exponentBits_ofInt_ge
  obtain ⟨k, rfl⟩ := Nat.exists_eq_add_of_lt hpos
  have hpow : 1 ≤ 10 ^ k := Nat.one_le_pow _ _ (by decide)
  rw [Nat.zero_add, Nat.pow_eq, Nat.pow_succ]
  omega

end ObjectMapping.Double
