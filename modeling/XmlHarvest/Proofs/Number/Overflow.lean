import XmlHarvest.Proofs.Number.Shortest

/-! # Where double precision ends

A number rounds to a finite one exactly if its magnitude is below the middle between the
greatest finite number and the power of two above it, however it is written. -/
set_option autoImplicit false

namespace XmlHarvest.Binary64

def Finite : Binary64 → Prop
  | .finite _ _ _ => True
  | .infinite _ | .nan => False

/-- The middle between `(2 ^ 53 - 1) · 2 ^ 971` and `2 ^ 1024`, which rounds up. -/
def overflow : Nat := (2 ^ 54 - 1) * twoTo 970

theorem cast_overflow : (overflow : ℚ) = (2 ^ 53 - 1 / 2) * 2 ^ (971 : Int) := by
  have hstep : (2 : ℚ) ^ (971 : Int) = 2 ^ 1 * 2 ^ ((970 : Nat) : Int) := two_zpow_add 970 1
  have hwhole : ((2 ^ 54 - 1 : Nat) : ℚ) = 2 ^ 54 - 1 := by norm_num
  rw [overflow, Nat.cast_mul, cast_twoTo, hstep, hwhole, zpow_natCast, ← mul_assoc]
  congr 1
  norm_num

theorem overflow_le : (overflow : ℚ) ≤ 2 ^ (1024 : Int) := by
  rw [cast_overflow, show (1024 : Int) = 971 + (53 : Nat) by rfl, two_zpow_add]
  gcongr
  norm_num

theorem le_overflow : (2 : ℚ) ^ (1023 : Int) ≤ overflow := by
  rw [cast_overflow, show (1023 : Int) = 971 + (52 : Nat) by rfl, two_zpow_add]
  gcongr
  norm_num

section Ratios

variable {num den : Nat} {negative : Bool}

theorem Nearest.low_ratio {n : Nat} (hden : 0 < den) (h : Nearest num den n) :
    (n : ℚ) - 1 / 2 ≤ num / den := by
  have hlow : (2 * (den * n) : ℚ) ≤ 2 * num + den := by exact_mod_cast h.low
  rw [le_div_iff₀ (by exact_mod_cast hden)]
  linarith

/-- What is rounded to the highest exponent, and what of it is carried beyond. -/
theorem carried_iff (hnum : 0 < num) (hden : 0 < den) (hsmall : (num : ℚ) / den < 2 ^ (1024 : Int)) :
    ratioMantissa num den = 2 ^ 53 ∧ ratioExponent num den = 971 ↔ (overflow : ℚ) ≤ num / den := by
  have hscale : (0 : ℚ) < 2 ^ (971 : Int) := by positivity
  constructor
  · rintro ⟨hmantissa, hexponent⟩
    have hnearest := nearest_roundHalfEven (num * twoTo (-ratioExponent num den).toNat)
      (Nat.mul_pos hden (twoTo_pos (ratioExponent num den).toNat))
    have hlow := Nearest.low_ratio (Nat.mul_pos hden (twoTo_pos _)) hnearest
    rw [← ratioMantissa, hmantissa, scaled_ratio, hexponent, le_div_iff₀ hscale] at hlow
    rw [cast_overflow]
    exact_mod_cast hlow
  · intro hlarge
    have horder : binaryOrder num den = 1023 := by
      have hlow := (le_binaryOrder hnum hden).mpr (le_overflow.trans hlarge)
      have hhigh := (le_binaryOrder hnum hden).not.mpr (not_le.mpr hsmall)
      omega
    have hexponent : ratioExponent num den = 971 := by
      rw [ratioExponent, horder]
      rfl
    refine ⟨roundHalfEven_eq (Nat.mul_pos hden (twoTo_pos _)) ?_ ?_ fun hodd => ?_, hexponent⟩
    · rw [scaled_ratio, hexponent, le_div_iff₀ hscale]
      rw [cast_overflow] at hlarge
      exact_mod_cast hlarge
    · rw [show (1024 : Int) = 971 + (53 : Nat) by rfl, two_zpow_add] at hsmall
      rw [scaled_ratio, hexponent, div_le_iff₀ hscale]
      refine hsmall.le.trans (mul_le_mul_of_nonneg_right ?_ hscale.le)
      norm_num
    · norm_num at hodd

theorem ofRatio_finite_iff (negative : Bool) (num : Nat) (hden : 0 < den) :
    (ofRatio negative num den).Finite ↔ (num : ℚ) / den < overflow := by
  have hpositive : (0 : ℚ) < overflow := lt_of_lt_of_le (by positivity) le_overflow
  rcases Nat.eq_zero_or_pos num with rfl | hnum
  · have hzero : ((0 : Nat) : ℚ) / den < overflow := by rwa [Nat.cast_zero, zero_div]
    exact iff_of_true trivial hzero
  rw [ofRatio_of_pos hnum]
  rcases lt_or_ge ((num : ℚ) / den) (2 ^ (1024 : Int)) with hsmall | hlarge
  · have hexponent : ratioExponent num den ≤ 971 := by
      have hhigh := (le_binaryOrder hnum hden).not.mpr (not_le.mpr hsmall)
      rw [ratioExponent]
      omega
    have hcarried : (num : ℚ) / den < overflow ↔
        ¬ (ratioMantissa num den = 2 ^ 53 ∧ ratioExponent num den = 971) := by
      rw [carried_iff hnum hden hsmall, not_le]
    rw [hcarried]
    by_cases hcarry : ratioMantissa num den = 2 ^ 53
    · by_cases htop : ratioExponent num den = 971
      · simp [hcarry, htop, Finite]
      · have hbelow : ¬ 971 < ratioExponent num den + 1 := by omega
        simp only [hcarry, htop, if_true, if_neg hbelow, Finite, and_false, not_false_eq_true]
    · have hbelow : ¬ 971 < ratioExponent num den := by omega
      simp only [hcarry, if_false, if_neg hbelow, Finite, false_and, not_false_eq_true]
  · have hexponent : 971 < ratioExponent num den := by
      have hlow := (le_binaryOrder hnum hden).mpr hlarge
      rw [ratioExponent]
      omega
    have hnot : ¬ (num : ℚ) / den < overflow := not_lt.mpr (overflow_le.trans hlarge)
    have hcarried : 971 < ratioExponent num den + 1 := by omega
    simp only [if_pos hexponent, if_pos hcarried, hnot, iff_false]
    split <;> exact id

end Ratios

section Readings

theorem ofDecimal_finite_iff (negative : Bool) (digits : Nat) (power : Int) :
    (ofDecimal negative digits power).Finite ↔ (digits : ℚ) * 10 ^ power < overflow := by
  have hpositive : (1 : ℚ) ≤ overflow :=
    (one_le_zpow₀ (by norm_num) (by norm_num)).trans le_overflow
  rcases Nat.eq_zero_or_pos digits with rfl | hdigits
  · have hzero : ((0 : Nat) : ℚ) * 10 ^ power < overflow := by
      rw [Nat.cast_zero, zero_mul]
      linarith
    exact iff_of_true trivial hzero
  have hne : (digits == 0) = false := by simpa using hdigits.ne'
  unfold ofDecimal
  simp only [hne, Bool.false_eq_true, if_false]
  split
  · rename_i hhigh
    have hlarge : (overflow : ℚ) ≤ digits * 10 ^ power := by
      calc (overflow : ℚ) ≤ 2 ^ (1024 : Int) := overflow_le
        _ ≤ 2 ^ (1080 : Int) := zpow_le_zpow_right₀ (by norm_num) (by norm_num)
        _ ≤ 10 ^ (360 : Int) := two_zpow_le_ten_zpow
        _ ≤ 10 ^ ((digits.log2 * 3 / 10 : Nat) + power) :=
            zpow_le_zpow_right₀ (by norm_num) (by push_cast; omega)
        _ ≤ digits * 10 ^ power := ten_pow_order_le hdigits power
    exact iff_of_false id (not_lt.mpr hlarge)
  · split
    · rename_i hlow
      have hsmall : (digits : ℚ) * 10 ^ power < overflow := by
        calc (digits : ℚ) * 10 ^ power < 10 ^ (_ : Int) := lt_ten_pow_order digits power
          _ ≤ 10 ^ (0 : Int) := zpow_le_zpow_right₀ (by norm_num) (by push_cast; omega)
          _ = 1 := zpow_zero _
          _ ≤ overflow := hpositive
      exact iff_of_true trivial hsmall
    · rw [ofRatio_finite_iff _ _ (tenTo_pos _), decimal_ratio]

/-- An integer has a double-precision number as long as that is finite. -/
theorem ofInt?_eq_some {i : Int} {x : Binary64} : ofInt? i = some x ↔
    x = ofRatio (decide (i < 0)) i.natAbs 1 ∧ i.natAbs < overflow := by
  have hfinite : (ofRatio (decide (i < 0)) i.natAbs 1).Finite ↔ i.natAbs < overflow := by
    rw [ofRatio_finite_iff _ _ Nat.one_pos, Nat.cast_one, div_one, Nat.cast_lt]
  rw [← hfinite, ofInt?]
  cases ofRatio (decide (i < 0)) i.natAbs 1 with
  | finite s m e => simp [Finite, eq_comm]
  | infinite s => simp [Finite]
  | nan => simp [Finite]

/-- Finite numbers are below the limit, and so they are without their fractions. -/
theorem natAbs_truncate_lt (negative : Bool) {m : Nat} {e : Int} (hnormal : Normal m e) :
    (truncate negative m e).natAbs < overflow := by
  have hbelow := hnormal.below
  have htwo : twoTo e.toNat ≤ 2 * twoTo 970 := by
    rw [← twoTo_succ]
    exact twoTo_le_twoTo (by have := hnormal.high; omega)
  have habs : (truncate negative m e).natAbs = m * twoTo e.toNat / twoTo (-e).toNat := by
    cases negative with
    | false => exact Int.natAbs_natCast _
    | true => exact (Int.natAbs_neg _).trans (Int.natAbs_natCast _)
  rw [habs]
  calc m * twoTo e.toNat / twoTo (-e).toNat ≤ m * twoTo e.toNat := Nat.div_le_self _ _
    _ ≤ m * (2 * twoTo 970) := Nat.mul_le_mul_left m htwo
    _ = 2 * m * twoTo 970 := by ring
    _ < (2 ^ 54 - 1) * twoTo 970 := Nat.mul_lt_mul_of_pos_right (by omega) (twoTo_pos 970)

end Readings
end XmlHarvest.Binary64
