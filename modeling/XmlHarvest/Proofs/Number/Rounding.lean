import Mathlib.Algebra.Order.Field.Power
import Mathlib.Algebra.Order.Field.Rat
import Mathlib.Data.Int.Log
import Mathlib.Data.Rat.Cast.Order
import Mathlib.Tactic.FieldSimp
import Mathlib.Tactic.Linarith
import Mathlib.Tactic.Positivity
import Mathlib.Tactic.Ring
import XmlHarvest.Number.Binary64

/-! # Rounding to double precision

A number stands for a rational, and what rounds to it is an interval around that
rational: half of the distance to the next number on either side, the ends included
if the mantissa is even.  Rounding a ratio gives the number in whose interval it lies. -/
set_option autoImplicit false

namespace XmlHarvest

/-! ## Powers -/

theorem pow_toNat_div (b : ℚ) (k : Int) : b ^ k.toNat / b ^ (-k).toNat = b ^ k := by
  rcases le_total 0 k with hk | hk
  · obtain ⟨n, rfl⟩ := Int.eq_ofNat_of_zero_le hk
    simp
  · obtain ⟨n, hn⟩ := Int.eq_ofNat_of_zero_le (Int.neg_nonneg_of_nonpos hk)
    obtain rfl : k = -n := by omega
    simp

theorem cast_twoTo (n : Nat) : (twoTo n : ℚ) = 2 ^ n := by
  rw [twoTo, Nat.pow_eq]
  push_cast
  rfl

theorem cast_tenTo (n : Nat) : (tenTo n : ℚ) = 10 ^ n := by
  rw [tenTo, Nat.pow_eq]
  push_cast
  rfl

theorem twoTo_pos (n : Nat) : 0 < twoTo n := Nat.pow_pos (by decide)

theorem twoTo_le_twoTo {m n : Nat} (h : m ≤ n) : twoTo m ≤ twoTo n :=
  Nat.pow_le_pow_right (by decide) h

theorem twoTo_succ (n : Nat) : twoTo (n + 1) = 2 * twoTo n := Nat.pow_succ'

theorem tenTo_pos (n : Nat) : 0 < tenTo n := Nat.pow_pos (by decide)

theorem two_zpow_add (e : Int) (k : Nat) : (2 : ℚ) ^ (e + k) = 2 ^ k * 2 ^ e := by
  rw [zpow_add₀ (by norm_num), zpow_natCast, mul_comm]

theorem twoTo_div (k : Int) : (twoTo k.toNat : ℚ) / twoTo (-k).toNat = 2 ^ k := by
  rw [cast_twoTo, cast_twoTo]
  exact pow_toNat_div 2 k

theorem tenTo_div (k : Int) : (tenTo k.toNat : ℚ) / tenTo (-k).toNat = 10 ^ k := by
  rw [cast_tenTo, cast_tenTo]
  exact pow_toNat_div 10 k

/-! ## Rounding to an integer -/

section Integers

variable {num den n : Nat}

/-- An integer that is nearest to a ratio, and even if another one is as near. -/
structure Nearest (num den n : Nat) : Prop where
  low : 2 * (den * n) ≤ 2 * num + den
  high : 2 * num ≤ 2 * (den * n) + den
  odd : n % 2 = 1 → 2 * (den * n) < 2 * num + den ∧ 2 * num < 2 * (den * n) + den

theorem Nearest.le (hden : 0 < den) (h : Nearest num den n) {k : Nat} (hk : den * k ≤ num) : k ≤ n := by
  by_contra hlt
  have hstep := Nat.mul_le_mul_left den (Nat.lt_of_not_le hlt)
  have hhigh := h.high
  rw [Nat.mul_succ] at hstep
  omega

theorem Nearest.ge (hden : 0 < den) (h : Nearest num den n) {k : Nat} (hk : num ≤ den * k) : n ≤ k := by
  by_contra hlt
  have hstep := Nat.mul_le_mul_left den (Nat.lt_of_not_le hlt)
  have hlow := h.low
  rw [Nat.mul_succ] at hstep
  omega

theorem Nearest.not_lt (hden : 0 < den) {n' : Nat} (h : Nearest num den n) (h' : Nearest num den n') :
    ¬ n < n' := by
  intro hlt
  have hstep := Nat.mul_le_mul_left den hlt
  rw [Nat.mul_succ] at hstep
  have hhigh := h.high
  have hlow := h'.low
  have hnext : n' = n + 1 := by
    by_contra hfar
    have hsteps := Nat.mul_le_mul_left den (show n + 2 ≤ n' by omega)
    rw [Nat.mul_add] at hsteps
    omega
  -- one of the two is odd, and an odd one is nearer than half
  rcases Nat.mod_two_eq_zero_or_one n with heven | hodd
  · have := (h'.odd (by omega)).1
    omega
  · have := (h.odd hodd).2
    omega

theorem Nearest.unique (hden : 0 < den) {n' : Nat} (h : Nearest num den n) (h' : Nearest num den n') :
    n = n' :=
  Nat.le_antisymm (Nat.le_of_not_lt (h'.not_lt hden h)) (Nat.le_of_not_lt (h.not_lt hden h'))

theorem nearest_roundHalfEven (num : Nat) (hden : 0 < den) :
    Nearest num den (roundHalfEven num den) := by
  have hdiv := Nat.div_add_mod num den
  have hmod := Nat.mod_lt num hden
  have hnext : den * (num / den + 1) = den * (num / den) + den := Nat.mul_succ _ _
  unfold roundHalfEven
  dsimp only
  split
  · exact ⟨by omega, by omega, fun _ => by omega⟩
  · split
    · exact ⟨by omega, by omega, fun _ => by omega⟩
    · split
      · rename_i heven
        have : num / den % 2 = 0 := by simpa using heven
        exact ⟨by omega, by omega, fun _ => by omega⟩
      · rename_i hodd
        have : num / den % 2 ≠ 0 := by simpa using hodd
        exact ⟨by omega, by omega, fun _ => by omega⟩

theorem le_roundHalfEven (hden : 0 < den) (h : (n : ℚ) ≤ num / den) :
    n ≤ roundHalfEven num den := by
  rw [le_div_iff₀' (by exact_mod_cast hden)] at h
  exact (nearest_roundHalfEven num hden).le hden (by exact_mod_cast h)

theorem roundHalfEven_le (hden : 0 < den) (h : (num : ℚ) / den ≤ n) :
    roundHalfEven num den ≤ n := by
  rw [div_le_iff₀' (by exact_mod_cast hden)] at h
  exact (nearest_roundHalfEven num hden).ge hden (by exact_mod_cast h)

theorem nearest_of_ratio (hden : 0 < den) (hlow : (n : ℚ) - 1 / 2 ≤ num / den)
    (hhigh : (num : ℚ) / den ≤ n + 1 / 2)
    (hodd : n % 2 = 1 → (n : ℚ) - 1 / 2 < num / den ∧ (num : ℚ) / den < n + 1 / 2) :
    Nearest num den n := by
  have hden' : (0 : ℚ) < den := by exact_mod_cast hden
  constructor
  · rw [le_div_iff₀ hden'] at hlow
    have : (2 * (den * n) : ℚ) ≤ 2 * num + den := by linarith
    exact_mod_cast this
  · rw [div_le_iff₀ hden'] at hhigh
    have : (2 * num : ℚ) ≤ 2 * (den * n) + den := by linarith
    exact_mod_cast this
  · intro hn
    obtain ⟨hlt, hgt⟩ := hodd hn
    rw [lt_div_iff₀ hden'] at hlt
    rw [div_lt_iff₀ hden'] at hgt
    have hlt' : (2 * (den * n) : ℚ) < 2 * num + den := by linarith
    have hgt' : (2 * num : ℚ) < 2 * (den * n) + den := by linarith
    exact ⟨by exact_mod_cast hlt', by exact_mod_cast hgt'⟩

/-- The integer that is nearest to a ratio, or the even one of two that are. -/
theorem roundHalfEven_eq (hden : 0 < den) (hlow : (n : ℚ) - 1 / 2 ≤ num / den)
    (hhigh : (num : ℚ) / den ≤ n + 1 / 2)
    (hodd : n % 2 = 1 → (n : ℚ) - 1 / 2 < num / den ∧ (num : ℚ) / den < n + 1 / 2) :
    roundHalfEven num den = n :=
  (nearest_roundHalfEven num hden).unique hden (nearest_of_ratio hden hlow hhigh hodd)

end Integers

namespace Binary64

section Order

variable {num den : Nat}

/-- The order of a ratio is the exponent of the power of two below it. -/
theorem binaryOrder_bounds (hnum : 0 < num) (hden : 0 < den) :
    (2 : ℚ) ^ binaryOrder num den ≤ num / den ∧ (num : ℚ) / den < 2 ^ (binaryOrder num den + 1) := by
  have hnum' : (0 : ℚ) < num := by exact_mod_cast hnum
  have hden' : (0 : ℚ) < den := by exact_mod_cast hden
  have hnumLow : (2 : ℚ) ^ num.log2 ≤ num := by exact_mod_cast Nat.log2_self_le (by omega)
  have hnumHigh : (num : ℚ) < 2 ^ (num.log2 + 1) := by exact_mod_cast Nat.lt_log2_self
  have hdenLow : (2 : ℚ) ^ den.log2 ≤ den := by exact_mod_cast Nat.log2_self_le (by omega)
  have hdenHigh : (den : ℚ) < 2 ^ (den.log2 + 1) := by exact_mod_cast Nat.lt_log2_self
  set k : Int := (num.log2 : Int) - den.log2 with hk
  have hlow : (2 : ℚ) ^ (k - 1) ≤ num / den := by
    rw [le_div_iff₀ hden']
    calc (2 : ℚ) ^ (k - 1) * den ≤ 2 ^ (k - 1) * 2 ^ (den.log2 + 1) := by gcongr
      _ = 2 ^ num.log2 := by
        rw [← zpow_natCast, ← zpow_natCast, ← zpow_add₀ (by norm_num)]
        congr 1
        push_cast
        omega
      _ ≤ num := hnumLow
  have hhigh : (num : ℚ) / den < 2 ^ (k + 1) := by
    rw [div_lt_iff₀ hden']
    calc (num : ℚ) < 2 ^ (num.log2 + 1) := hnumHigh
      _ = 2 ^ (k + 1) * 2 ^ den.log2 := by
        rw [← zpow_natCast, ← zpow_natCast, ← zpow_add₀ (by norm_num)]
        congr 1
        push_cast
        omega
      _ ≤ 2 ^ (k + 1) * den := by gcongr
  have hcompare : num * twoTo (-k).toNat < den * twoTo k.toNat ↔ (num : ℚ) / den < 2 ^ k := by
    have hpos : (0 : ℚ) < twoTo (-k).toNat := by exact_mod_cast twoTo_pos _
    rw [← twoTo_div, div_lt_div_iff₀ hden' hpos, mul_comm (twoTo k.toNat : ℚ)]
    exact_mod_cast Iff.rfl
  unfold binaryOrder
  dsimp only
  rw [← hk]
  split
  · rename_i hlt
    rw [sub_add_cancel]
    exact ⟨hlow, hcompare.mp hlt⟩
  · rename_i hge
    exact ⟨not_lt.mp fun hlt => hge (hcompare.mpr hlt), hhigh⟩

theorem le_binaryOrder (hnum : 0 < num) (hden : 0 < den) {k : Int} :
    k ≤ binaryOrder num den ↔ (2 : ℚ) ^ k ≤ num / den := by
  obtain ⟨hlow, hhigh⟩ := binaryOrder_bounds hnum hden
  constructor
  · intro h
    exact (zpow_le_zpow_right₀ (by norm_num) h).trans hlow
  · intro h
    have hlt := (zpow_lt_zpow_iff_right₀ (by norm_num : (1 : ℚ) < 2)).mp (h.trans_lt hhigh)
    omega

theorem scaled_ratio (num den : Nat) (e : Int) :
    ((num * twoTo (-e).toNat : Nat) : ℚ) / (den * twoTo e.toNat : Nat) = num / den / 2 ^ e := by
  rw [← twoTo_div]
  push_cast
  rw [div_div_div_eq]

end Order

/-- The mantissas and exponents of finite numbers. -/
structure Normal (m : Nat) (e : Int) : Prop where
  below : m < 2 ^ 53
  low : -1074 ≤ e
  high : e ≤ 971
  full : 2 ^ 52 ≤ m ∨ e = -1074

/-- A number has one representation only. -/
def Canonical : Binary64 → Prop
  | .finite _ m e => Normal m e
  | _ => True

/-- How far below a number, in units of its last place, the reals begin that round to it:
below a power of two the numbers are twice as dense. -/
def lowerHalf (m : Nat) (e : Int) : ℚ := if m = 2 ^ 52 ∧ e ≠ -1074 then 1 / 4 else 1 / 2

/-- The reals that round to `m · 2 ^ e`. -/
def RoundsTo (m : Nat) (e : Int) (r : ℚ) : Prop :=
  m - lowerHalf m e ≤ r / 2 ^ e ∧ r / 2 ^ e ≤ m + 1 / 2 ∧
    (m % 2 = 1 → m - lowerHalf m e < r / 2 ^ e ∧ r / 2 ^ e < m + 1 / 2)

section Ratios

variable {num den m : Nat} {e : Int} {negative : Bool}

theorem lowerHalf_le (m : Nat) (e : Int) : lowerHalf m e ≤ 1 / 2 := by
  unfold lowerHalf
  split <;> norm_num

/-- The exponent at which a ratio is rounded. -/
def ratioExponent (num den : Nat) : Int := max (binaryOrder num den - 52) (-1074)

/-- The mantissa to which a ratio is rounded, before a carry is moved to the exponent. -/
def ratioMantissa (num den : Nat) : Nat :=
  roundHalfEven (num * twoTo (-ratioExponent num den).toNat) (den * twoTo (ratioExponent num den).toNat)

theorem ofRatio_of_pos (hnum : 0 < num) : ofRatio negative num den =
    if ratioMantissa num den = 2 ^ 53 then
      if 971 < ratioExponent num den + 1 then .infinite negative
      else .finite negative (2 ^ 52) (ratioExponent num den + 1)
    else if 971 < ratioExponent num den then .infinite negative
      else .finite negative (ratioMantissa num den) (ratioExponent num den) := by
  have hne : (num == 0) = false := by simpa using hnum.ne'
  have h53 : twoTo 53 = 2 ^ 53 := rfl
  have h52 : twoTo 52 = 2 ^ 52 := rfl
  unfold ofRatio
  rw [hne, h53, h52]
  simp only [Bool.false_eq_true, if_false, beq_iff_eq]
  change (let rounded : Nat × Int := if ratioMantissa num den = 2 ^ 53
      then (2 ^ 52, ratioExponent num den + 1) else (ratioMantissa num den, ratioExponent num den)
    if 971 < rounded.2 then infinite negative else finite negative rounded.1 rounded.2) = _
  by_cases hcarry : ratioMantissa num den = 2 ^ 53
  · simp only [if_pos hcarry]
  · simp only [if_neg hcarry]

theorem ratioMantissa_bounds (hnum : 0 < num) (hden : 0 < den) :
    ratioMantissa num den ≤ 2 ^ 53 ∧
      (2 ^ 52 ≤ ratioMantissa num den ∨ ratioExponent num den = -1074) := by
  have hpos : 0 < den * twoTo (ratioExponent num den).toNat := Nat.mul_pos hden (twoTo_pos _)
  obtain ⟨hlow, hhigh⟩ := binaryOrder_bounds hnum hden
  have hscale : (0 : ℚ) < 2 ^ ratioExponent num den := by positivity
  constructor
  · refine roundHalfEven_le hpos ?_
    have hexponent : binaryOrder num den - 52 ≤ ratioExponent num den := le_max_left _ _
    rw [scaled_ratio, div_le_iff₀ hscale, Nat.cast_pow, Nat.cast_ofNat, ← two_zpow_add]
    exact hhigh.le.trans (zpow_le_zpow_right₀ (by norm_num) (by push_cast; omega))
  · by_cases hsmall : binaryOrder num den - 52 ≤ -1074
    · exact .inr (max_eq_right hsmall)
    · left
      refine le_roundHalfEven hpos ?_
      have hexponent : ratioExponent num den = binaryOrder num den - 52 := max_eq_left (by omega)
      rw [scaled_ratio, le_div_iff₀ hscale, Nat.cast_pow, Nat.cast_ofNat, ← two_zpow_add]
      exact (zpow_le_zpow_right₀ (by norm_num) (by push_cast; omega)).trans hlow

theorem ofRatio_canonical (negative : Bool) (num : Nat) (hden : 0 < den) :
    (ofRatio negative num den).Canonical ∧ ofRatio negative num den ≠ .nan := by
  rcases Nat.eq_zero_or_pos num with rfl | hnum
  · have hzero : ofRatio negative 0 den = .finite negative 0 (-1074) := rfl
    rw [hzero]
    exact ⟨⟨by norm_num, by norm_num, by norm_num, .inr rfl⟩, by simp⟩
  · obtain ⟨hbelow, hfull⟩ := ratioMantissa_bounds hnum hden
    have hexponent : -1074 ≤ ratioExponent num den := le_max_right _ _
    rw [ofRatio_of_pos hnum]
    split
    · split
      · exact ⟨trivial, by simp⟩
      · exact ⟨⟨by norm_num, by omega, by omega, .inl le_rfl⟩, by simp⟩
    · split
      · exact ⟨trivial, by simp⟩
      · exact ⟨⟨by omega, hexponent, by omega, hfull⟩, by simp⟩

theorem RoundsTo.pos {r : ℚ} (h : RoundsTo m e r) (hm : 0 < m) : 0 < r := by
  have hhalf := lowerHalf_le m e
  have hm' : (1 : ℚ) ≤ m := by exact_mod_cast hm
  have hscale : (0 : ℚ) < 2 ^ e := by positivity
  have : 0 < r / 2 ^ e := by linarith [h.1]
  exact (div_pos_iff_of_pos_right hscale).mp this

theorem RoundsTo.num_pos (h : RoundsTo m e (num / den)) (hm : 0 < m) : 0 < num := by
  have hpos := h.pos hm
  rcases Nat.eq_zero_or_pos num with rfl | hnum
  · simp at hpos
  · exact hnum

/-- What rounds to a finite number is in the range of finite numbers. -/
theorem RoundsTo.bounds {r : ℚ} (h : RoundsTo m e r) (hnormal : Normal m e) (hm : 0 < m) :
    (2 : ℚ) ^ (-1075 : Int) ≤ r ∧ r < 2 ^ (1024 : Int) := by
  obtain ⟨hlow, hhigh, -⟩ := h
  have hhalf := lowerHalf_le m e
  have hscale : (0 : ℚ) < 2 ^ e := by positivity
  have hm' : (1 : ℚ) ≤ m := by exact_mod_cast hm
  have hbelow : (m : ℚ) + 1 ≤ 2 ^ 53 := by exact_mod_cast hnormal.below
  constructor
  · calc (2 : ℚ) ^ (-1075 : Int) ≤ 2 ^ (e - 1) :=
          zpow_le_zpow_right₀ (by norm_num) (by have := hnormal.low; omega)
      _ = 1 / 2 * 2 ^ e := by
          rw [zpow_sub_one₀ (by norm_num)]
          ring
      _ ≤ r := by
          rw [← le_div_iff₀ hscale]
          linarith
  · calc r < 2 ^ 53 * 2 ^ e := by
          rw [← div_lt_iff₀ hscale]
          linarith
      _ = 2 ^ (e + (53 : Nat)) := (two_zpow_add e 53).symm
      _ ≤ 2 ^ (1024 : Int) :=
          zpow_le_zpow_right₀ (by norm_num) (by have := hnormal.high; push_cast; omega)

/-- A ratio in the binade of a number is rounded at its exponent, and so is one below the
lowest binade. -/
theorem RoundsTo.rounded_within (hnormal : Normal m e) (hm : 0 < m) (hden : 0 < den)
    (h : RoundsTo m e (num / den)) (hwithin : e = -1074 ∨ (2 : ℚ) ^ (e + 52) ≤ num / den) :
    ratioExponent num den = e ∧ ratioMantissa num den = m := by
  have hnum := h.num_pos hm
  obtain ⟨hlow, hhigh, hodd⟩ := h
  have hhalf := lowerHalf_le m e
  have hscale : (0 : ℚ) < 2 ^ e := by positivity
  have hbelow : (m : ℚ) + 1 ≤ 2 ^ 53 := by exact_mod_cast hnormal.below
  have hmin := hnormal.low
  have htop : binaryOrder num den < e + 53 := by
    have htimes : (2 : ℚ) ^ (e + 53) = 2 ^ 53 * 2 ^ e := two_zpow_add e 53
    rw [← not_le, le_binaryOrder hnum hden, not_le, htimes, ← div_lt_iff₀ hscale]
    linarith
  have hexponent : ratioExponent num den = e := by
    unfold ratioExponent
    rcases hwithin with hlowest | hbinade
    · omega
    · have := (le_binaryOrder hnum hden).mpr hbinade
      omega
  refine ⟨hexponent, roundHalfEven_eq (Nat.mul_pos hden (twoTo_pos _)) ?_ ?_ fun hparity => ?_⟩
  · rw [scaled_ratio, hexponent]
    linarith
  · rw [scaled_ratio, hexponent]
    exact hhigh
  · rw [scaled_ratio, hexponent]
    obtain ⟨hlt, hgt⟩ := hodd hparity
    exact ⟨by linarith, hgt⟩

/-- A ratio below the binade of a number is rounded up, to the power of two at its start. -/
theorem RoundsTo.rounded_up (hnormal : Normal m e) (hm : 0 < m) (hden : 0 < den)
    (h : RoundsTo m e (num / den)) (hlowest : e ≠ -1074)
    (hbinade : (num : ℚ) / den < 2 ^ (e + 52)) :
    ratioExponent num den = e - 1 ∧ ratioMantissa num den = 2 ^ 53 ∧ m = 2 ^ 52 := by
  have hnum := h.num_pos hm
  obtain ⟨hlow, -, -⟩ := h
  have hhalf := lowerHalf_le m e
  have hscale : (0 : ℚ) < 2 ^ e := by positivity
  have hmin := hnormal.low
  have htimes : ∀ k : Nat, (2 : ℚ) ^ (e + k) = 2 ^ k * 2 ^ e := two_zpow_add e
  have hsmall : (num : ℚ) / den / 2 ^ e < 2 ^ 52 := by
    rw [div_lt_iff₀ hscale, ← htimes]
    exact hbinade
  -- only at the start of a binade does the interval reach below it
  have hmeq : m = 2 ^ 52 := by
    have hfull : 2 ^ 52 ≤ m := hnormal.full.resolve_right hlowest
    have hlt : (m : ℚ) < (2 ^ 52 + 1 : Nat) := by
      push_cast
      linarith
    have : m < 2 ^ 52 + 1 := by exact_mod_cast hlt
    omega
  have hquarter : lowerHalf m e = 1 / 4 := by
    unfold lowerHalf
    rw [if_pos ⟨hmeq, hlowest⟩]
  rw [hquarter, hmeq] at hlow
  push_cast at hlow
  have hexponent : ratioExponent num den = e - 1 := by
    have hge : e + (51 : Nat) ≤ binaryOrder num den := by
      rw [le_binaryOrder hnum hden, htimes, ← le_div_iff₀ hscale]
      linarith
    have hlt : ¬ e + (52 : Nat) ≤ binaryOrder num den := by
      rw [le_binaryOrder hnum hden, not_le, htimes, ← div_lt_iff₀ hscale]
      exact hsmall
    unfold ratioExponent
    omega
  have hdouble : (num : ℚ) / den / 2 ^ (e - 1) = 2 * (num / den / 2 ^ e) := by
    rw [zpow_sub_one₀ (by norm_num)]
    field_simp
  refine ⟨hexponent, roundHalfEven_eq (Nat.mul_pos hden (twoTo_pos _)) ?_ ?_ fun hparity => ?_, hmeq⟩
  · rw [scaled_ratio, hexponent, hdouble]
    push_cast
    linarith
  · rw [scaled_ratio, hexponent, hdouble]
    push_cast
    linarith
  · norm_num at hparity

/-- Rounding a ratio gives the number in whose interval it lies. -/
theorem ofRatio_eq (hnormal : Normal m e) (hm : 0 < m) (hden : 0 < den)
    (h : RoundsTo m e (num / den)) : ofRatio negative num den = .finite negative m e := by
  have hmax := hnormal.high
  rw [ofRatio_of_pos (h.num_pos hm)]
  by_cases hwithin : e = -1074 ∨ (2 : ℚ) ^ (e + 52) ≤ num / den
  · obtain ⟨hexponent, hmantissa⟩ := h.rounded_within hnormal hm hden hwithin
    rw [hmantissa, hexponent, if_neg hnormal.below.ne, if_neg (by omega)]
  · rw [not_or, not_le] at hwithin
    obtain ⟨hexponent, hmantissa, hmeq⟩ := h.rounded_up hnormal hm hden hwithin.1 hwithin.2
    rw [hmantissa, hexponent, if_pos rfl, if_neg (by omega), hmeq, sub_add_cancel]

end Ratios

end Binary64
end XmlHarvest
