import XmlHarvest.Number.Shortest
import XmlHarvest.Proofs.Number.Rounding

/-! # The shortest decimal reads back

Each decimal that the search accepts lies in the interval of the number, and the grid of
seventeen digits always has a point there: its spacing is less than twice what the
interval extends to either side. -/
set_option autoImplicit false

namespace XmlHarvest.Binary64

/-! ## Decimal order -/

section Order

variable {num den : Nat}

theorem leadingZeros_bounds (fuel : Nat) (hlt : num < den) :
    10 ^ leadingZeros fuel num den * num < den ∧
      (leadingZeros fuel num den = fuel ∨ den ≤ 10 ^ (leadingZeros fuel num den + 1) * num) := by
  induction fuel generalizing num with
  | zero =>
    rw [leadingZeros]
    omega
  | succ fuel ih =>
    rw [leadingZeros]
    split
    · rename_i hnext
      obtain ⟨hbelow, habove⟩ := ih hnext
      have hshift : ∀ k, 10 ^ (k + 1) * num = 10 ^ k * (10 * num) := by
        intro k
        rw [Nat.pow_succ, Nat.mul_assoc]
      rw [hshift, hshift]
      exact ⟨hbelow, habove.imp (by omega) id⟩
    · omega

theorem length_toDigits_bounds {n : Nat} (hn : 0 < n) :
    10 ^ ((Nat.toDigits 10 n).length - 1) ≤ n ∧ n < 10 ^ (Nat.toDigits 10 n).length := by
  have hpos : 0 < (Nat.toDigits 10 n).length := Nat.length_toDigits_pos
  refine ⟨?_, (Nat.length_toDigits_le_iff (by decide) hpos).mp le_rfl⟩
  rcases Nat.eq_zero_or_pos ((Nat.toDigits 10 n).length - 1) with hzero | hmore
  · rw [hzero]
    exact hn
  · have := (Nat.length_toDigits_le_iff (b := 10) (n := n) (by decide) hmore).not.mp (by omega)
    exact Nat.not_lt.mp this

/-- The order of a ratio is the exponent of the power of ten above it. -/
theorem decimalOrder_bounds (hden : 0 < den) (hsmall : (10 : ℚ) ^ (-400 : Int) ≤ num / den) :
    (10 : ℚ) ^ (decimalOrder num den - 1) ≤ num / den ∧
      (num : ℚ) / den < 10 ^ decimalOrder num den := by
  have hden' : (0 : ℚ) < den := by exact_mod_cast hden
  unfold decimalOrder
  split
  · set q := num / den with hq
    set len := (Nat.toDigits 10 q).length with hlen
    have hpos : 0 < len := Nat.length_toDigits_pos
    have hone : 1 ≤ q := (Nat.one_le_div_iff hden).mpr ‹_›
    obtain ⟨hlower, hupper⟩ := length_toDigits_bounds hone
    constructor
    · rw [le_div_iff₀ hden', show (len : Int) - 1 = (len - 1 : Nat) by omega, zpow_natCast]
      have : 10 ^ (len - 1) * den ≤ num :=
        (Nat.mul_le_mul_right _ hlower).trans (Nat.div_mul_le_self _ _)
      exact_mod_cast this
    · rw [div_lt_iff₀ hden', zpow_natCast]
      have : num < 10 ^ len * den := (Nat.div_lt_iff_lt_mul hden).mp hupper
      exact_mod_cast this
  · have hlt : num < den := by omega
    obtain ⟨hbelow, habove⟩ := leadingZeros_bounds 400 hlt
    set k := leadingZeros 400 num den
    have hupper : (num : ℚ) / den < 10 ^ (-(k : Int)) := by
      rw [zpow_neg, zpow_natCast, ← one_div, div_lt_div_iff₀ hden' (by positivity), one_mul,
        mul_comm]
      exact_mod_cast hbelow
    refine ⟨?_, hupper⟩
    rcases habove with hfuel | habove
    · rw [hfuel] at hupper
      exact absurd (hsmall.trans_lt hupper) (by norm_num)
    · rw [show -(k : Int) - 1 = -((k + 1 : Nat) : Int) by push_cast; omega, zpow_neg, zpow_natCast,
        ← one_div, div_le_div_iff₀ (by positivity) hden', one_mul, mul_comm]
      exact_mod_cast habove

end Order

/-! ## The points of a decimal grid -/

def Decimal.value (d : Decimal) : ℚ := d.digits * 10 ^ d.power

section Grid

variable {m d n : Nat} {e power : Int}

def spacing (e power : Int) : ℚ := 10 ^ power / 2 ^ e

/-- The two sides of a comparison in the search: quarters of a unit of the last place
against points of the grid. -/
def quarter (e power : Int) : Nat := twoTo e.toNat * tenTo (-power).toNat
def point (e power : Int) : Nat := 4 * twoTo (-e).toNat * tenTo power.toNat

theorem spacing_pos (e power : Int) : 0 < spacing e power := by
  unfold spacing
  positivity

theorem quarter_pos (e power : Int) : 0 < quarter e power :=
  Nat.mul_pos (twoTo_pos _) (tenTo_pos _)

theorem point_pos (e power : Int) : 0 < point e power :=
  Nat.mul_pos (Nat.mul_pos (by decide) (twoTo_pos _)) (tenTo_pos _)

theorem cast_point (e power : Int) : (point e power : ℚ) = spacing e power * (4 * quarter e power) := by
  have htwo : (twoTo e.toNat : ℚ) = 2 ^ e * twoTo (-e).toNat := by
    rw [← twoTo_div, div_mul_cancel₀]
    exact_mod_cast (twoTo_pos _).ne'
  have hten : (tenTo power.toNat : ℚ) = 10 ^ power * tenTo (-power).toNat := by
    rw [← tenTo_div, div_mul_cancel₀]
    exact_mod_cast (tenTo_pos _).ne'
  unfold point quarter spacing
  push_cast
  rw [htwo, hten]
  field_simp

theorem quarter_le_point :
    n * quarter e power ≤ d * point e power ↔ (n : ℚ) / 4 ≤ d * spacing e power := by
  have hpos : (0 : ℚ) < quarter e power := by exact_mod_cast quarter_pos e power
  rw [← Nat.cast_le (α := ℚ), Nat.cast_mul, Nat.cast_mul, cast_point,
    show (d : ℚ) * (spacing e power * (4 * quarter e power)) =
      4 * (d * spacing e power) * quarter e power by ring, mul_le_mul_iff_of_pos_right hpos]
  constructor <;> intro h <;> linarith

theorem point_le_quarter :
    d * point e power ≤ n * quarter e power ↔ d * spacing e power ≤ (n : ℚ) / 4 := by
  have hpos : (0 : ℚ) < quarter e power := by exact_mod_cast quarter_pos e power
  rw [← Nat.cast_le (α := ℚ), Nat.cast_mul, Nat.cast_mul, cast_point,
    show (d : ℚ) * (spacing e power * (4 * quarter e power)) =
      4 * (d * spacing e power) * quarter e power by ring, mul_le_mul_iff_of_pos_right hpos]
  constructor <;> intro h <;> linarith

theorem quarter_lt_point :
    n * quarter e power < d * point e power ↔ (n : ℚ) / 4 < d * spacing e power := by
  rw [← not_le, point_le_quarter, not_le]

theorem point_lt_quarter :
    d * point e power < n * quarter e power ↔ d * spacing e power < (n : ℚ) / 4 := by
  rw [← not_le, quarter_le_point, not_le]

def inside (v : Interval) (e power : Int) (d : Nat) : Bool :=
  if v.closed then
    v.low * quarter e power ≤ d * point e power && d * point e power ≤ v.high * quarter e power
  else v.low * quarter e power < d * point e power && d * point e power < v.high * quarter e power

theorem interval_low (hm : 0 < m) : ((interval m e).low : ℚ) / 4 = m - lowerHalf m e := by
  have h52 : twoTo 52 = 2 ^ 52 := rfl
  have hboundary : (m == twoTo 52 && e != -1074) = true ↔ m = 2 ^ 52 ∧ e ≠ -1074 := by
    simp [h52]
  unfold interval lowerHalf
  dsimp only
  by_cases h : m = 2 ^ 52 ∧ e ≠ -1074
  · rw [if_pos (hboundary.mpr h), if_pos h, Nat.cast_sub (by omega)]
    push_cast
    ring
  · rw [if_neg (mt hboundary.mp h), if_neg h, Nat.cast_sub (by omega)]
    push_cast
    ring

theorem interval_high (m : Nat) (e : Int) : ((interval m e).high : ℚ) / 4 = m + 1 / 2 := by
  unfold interval
  push_cast
  ring

theorem inside_iff (hm : 0 < m) :
    inside (interval m e) e power d = true ↔ RoundsTo m e (d * 10 ^ power) := by
  have hscaled : (d : ℚ) * 10 ^ power / 2 ^ e = d * spacing e power := mul_div_assoc _ _ _
  have hclosed : (interval m e).closed = (m % 2 == 0) := rfl
  unfold inside RoundsTo
  rw [hscaled, hclosed]
  by_cases hparity : m % 2 = 0
  · have hodd : m % 2 ≠ 1 := by omega
    simp only [hparity, beq_self_eq_true, if_true, Bool.and_eq_true, decide_eq_true_eq,
      quarter_le_point, point_le_quarter, interval_low hm, interval_high]
    simp
  · have hodd : m % 2 = 1 := by omega
    simp only [hodd, Nat.reduceBEq, Bool.false_eq_true, if_false, Bool.and_eq_true,
      decide_eq_true_eq, quarter_lt_point, point_lt_quarter, interval_low hm, interval_high,
      forall_const]
    constructor
    · rintro ⟨hlow, hhigh⟩
      exact ⟨hlow.le, hhigh.le, hlow, hhigh⟩
    · rintro ⟨-, -, h⟩
      exact h

end Grid

/-! ## The search -/

section Search

variable {m : Nat} {e order : Int} {count : Nat} {d : Decimal}

def pointBelow (m : Nat) (e power : Int) : Nat := 4 * m * quarter e power / point e power

theorem pointBelow_bounds (m : Nat) (e power : Int) :
    pointBelow m e power * spacing e power ≤ m ∧
      (m : ℚ) < (pointBelow m e power + 1 : Nat) * spacing e power := by
  have hquarters : ((4 * m : Nat) : ℚ) / 4 = m := by
    push_cast
    ring
  constructor
  · have h : pointBelow m e power * point e power ≤ 4 * m * quarter e power := Nat.div_mul_le_self _ _
    rw [point_le_quarter, hquarters] at h
    exact h
  · have h : 4 * m * quarter e power < (pointBelow m e power + 1) * point e power :=
      Nat.lt_mul_of_div_lt (Nat.lt_succ_self _) (point_pos _ _)
    rw [quarter_lt_point, hquarters] at h
    exact h

/-- Of the points next to a number the one inside its interval, and of two the nearer one. -/
def chosen (m : Nat) (e power : Int) : Option Decimal :=
  let below := pointBelow m e power
  match inside (interval m e) e power below, inside (interval m e) e power (below + 1) with
  | false, false => none
  | true, false => some ⟨below, power⟩
  | false, true => some ⟨below + 1, power⟩
  | true, true =>
    let down := 4 * m * quarter e power - below * point e power
    let up := (below + 1) * point e power - 4 * m * quarter e power
    if down < up || (down == up && below % 2 == 0) then some ⟨below, power⟩
    else some ⟨below + 1, power⟩

theorem candidate?_eq (m : Nat) (e order : Int) (count : Nat) :
    candidate? (interval m e) (twoTo e.toNat) (twoTo (-e).toNat) order count =
      chosen m e (order - count) := rfl

theorem candidate?_cases (m : Nat) (e order : Int) (count : Nat) :
    (∃ d, candidate? (interval m e) (twoTo e.toNat) (twoTo (-e).toNat) order count =
        some ⟨d, order - count⟩ ∧ inside (interval m e) e (order - count) d = true) ∨
      (candidate? (interval m e) (twoTo e.toNat) (twoTo (-e).toNat) order count = none ∧
        inside (interval m e) e (order - count) (pointBelow m e (order - count)) = false ∧
        inside (interval m e) e (order - count) (pointBelow m e (order - count) + 1) = false) := by
  rw [candidate?_eq]
  unfold chosen
  dsimp only
  split
  · rename_i hin hup
    exact .inr ⟨rfl, hin, hup⟩
  · rename_i hin _
    exact .inl ⟨_, rfl, hin⟩
  · rename_i _ hup
    exact .inl ⟨_, rfl, hup⟩
  · rename_i hin hup
    left
    split
    · exact ⟨_, rfl, hin⟩
    · exact ⟨_, rfl, hup⟩

theorem candidate?_roundsTo (hm : 0 < m) (h : candidate? (interval m e) (twoTo e.toNat)
    (twoTo (-e).toNat) order count = some d) : RoundsTo m e d.value := by
  rcases candidate?_cases m e order count with ⟨digits, heq, hin⟩ | ⟨hnone, -⟩
  · rw [heq] at h
    cases h
    exact (inside_iff hm).mp hin
  · rw [hnone] at h
    cases h

/-- The grid of seventeen digits is finer than the spacing of the numbers. -/
theorem spacing_seventeen (horder : (10 : ℚ) ^ (order - 1) ≤ m * 2 ^ e) :
    spacing e (order - 17) * 10 ^ 16 ≤ m := by
  have hscale : (0 : ℚ) < 2 ^ e := by positivity
  have hshift : (10 : ℚ) ^ (order - 17) * 10 ^ 16 = 10 ^ (order - 1) := by
    rw [← zpow_natCast, ← zpow_add₀ (by norm_num)]
    congr 1
    push_cast
    omega
  rw [spacing, div_mul_eq_mul_div, hshift, div_le_iff₀ hscale]
  exact horder

/-- A point of a fine grid that is within half a step of a number rounds to it. -/
theorem inside_of_near (hnormal : Normal m e) (hm : 0 < m) {power : Int}
    (hfine : spacing e power * 10 ^ 16 ≤ m) {d : Nat}
    (hlow : (m : ℚ) - spacing e power / 2 ≤ d * spacing e power)
    (hhigh : d * spacing e power ≤ m + spacing e power / 2) :
    inside (interval m e) e power d = true := by
  have hspacing := spacing_pos e power
  have hupper := lowerHalf_le m e
  -- below a power of two the interval is shorter, but there the mantissa is smaller as well
  have hhalf : spacing e power / 2 < lowerHalf m e := by
    unfold lowerHalf
    split
    · rename_i hboundary
      rw [hboundary.1] at hfine
      push_cast at hfine
      linarith
    · have : (m : ℚ) < 2 ^ 53 := by exact_mod_cast hnormal.below
      linarith
  rw [inside_iff hm, RoundsTo, mul_div_assoc]
  rw [spacing] at *
  exact ⟨by linarith, by linarith, fun _ => ⟨by linarith, by linarith⟩⟩

theorem candidate?_seventeen (hnormal : Normal m e) (hm : 0 < m)
    (horder : (10 : ℚ) ^ (order - 1) ≤ m * 2 ^ e) :
    ∃ d, candidate? (interval m e) (twoTo e.toNat) (twoTo (-e).toNat) order 17 = some d := by
  rcases candidate?_cases m e order 17 with ⟨digits, heq, -⟩ | ⟨-, hbelow, habove⟩
  · exact ⟨_, heq⟩
  · -- the nearer one of the two points is inside after all
    exfalso
    have hfine := spacing_seventeen horder
    obtain ⟨hlow, hhigh⟩ := pointBelow_bounds m e (order - 17)
    push_cast at hbelow habove hhigh
    rcases le_total ((m : ℚ) - spacing e (order - 17) / 2)
      (pointBelow m e (order - 17) * spacing e (order - 17)) with hnear | hfar
    · rw [inside_of_near hnormal hm hfine hnear (by linarith [spacing_pos e (order - 17)])] at hbelow
      cases hbelow
    · rw [inside_of_near hnormal hm hfine (by push_cast; linarith) (by push_cast; linarith)] at habove
      cases habove

theorem stripZeros_value (fuel : Nat) (d : Decimal) : (stripZeros fuel d).value = d.value := by
  induction fuel generalizing d with
  | zero => rfl
  | succ fuel ih =>
    rw [stripZeros]
    split
    · rename_i hzero
      simp only [Bool.and_eq_true, bne_iff_ne, beq_iff_eq] at hzero
      have hdigits : d.digits / 10 * 10 = d.digits :=
        Nat.div_mul_cancel (Nat.dvd_of_mod_eq_zero hzero.2)
      rw [ih, Decimal.value, Decimal.value, zpow_add_one₀ (by norm_num), ← hdigits]
      push_cast
      rw [Nat.mul_div_cancel _ (by decide)]
      ring
    · rfl

/-- All finite numbers but zero are between these powers of ten. -/
theorem two_zpow_le_ten_zpow : (2 : ℚ) ^ (1080 : Int) ≤ 10 ^ (360 : Int) := by
  calc (2 : ℚ) ^ (1080 : Int) = (2 ^ 27) ^ 40 := by rw [← pow_mul]; rfl
    _ ≤ (10 ^ 9) ^ 40 := by gcongr; norm_num
    _ = 10 ^ (360 : Int) := by rw [← pow_mul]; rfl

theorem ten_zpow_le_two_zpow : (10 : ℚ) ^ (-360 : Int) ≤ 2 ^ (-1080 : Int) := by
  rw [zpow_neg, zpow_neg]
  exact inv_anti₀ (by positivity) two_zpow_le_ten_zpow

def orderOf (m : Nat) (e : Int) : Int := decimalOrder (m * twoTo e.toNat) (twoTo (-e).toNat)

theorem orderOf_bounds (hnormal : Normal m e) (hm : 0 < m) :
    (10 : ℚ) ^ (orderOf m e - 1) ≤ m * 2 ^ e ∧ (m : ℚ) * 2 ^ e < 10 ^ orderOf m e := by
  have hvalue : ((m * twoTo e.toNat : Nat) : ℚ) / twoTo (-e).toNat = m * 2 ^ e := by
    rw [← twoTo_div]
    push_cast
    ring
  have hm' : (1 : ℚ) ≤ m := by exact_mod_cast hm
  have hlowest : (10 : ℚ) ^ (-400 : Int) ≤ m * 2 ^ e := by
    calc (10 : ℚ) ^ (-400 : Int) ≤ 10 ^ (-360 : Int) := zpow_le_zpow_right₀ (by norm_num) (by norm_num)
      _ ≤ 2 ^ (-1080 : Int) := ten_zpow_le_two_zpow
      _ ≤ 2 ^ e := zpow_le_zpow_right₀ (by norm_num) (by have := hnormal.low; omega)
      _ ≤ m * 2 ^ e := le_mul_of_one_le_left (by positivity) hm'
  have hsmall : (10 : ℚ) ^ (-400 : Int) ≤ (m * twoTo e.toNat : Nat) / twoTo (-e).toNat := by
    rw [hvalue]
    exact hlowest
  have hbounds := decimalOrder_bounds (twoTo_pos (-e).toNat) hsmall
  rwa [hvalue] at hbounds

/-- The search finds a decimal, whose zeros at the end are left out. -/
theorem exists_candidate (hnormal : Normal m e) (hm : 0 < m) : ∃ n < 17, ∃ d,
    candidate? (interval m e) (twoTo e.toNat) (twoTo (-e).toNat) (orderOf m e) (n + 1) = some d ∧
      shortest m e = stripZeros 20 d := by
  obtain ⟨last, hlast⟩ := candidate?_seventeen hnormal hm (orderOf_bounds hnormal hm).1
  have hne : (m == 0) = false := by simpa using hm.ne'
  unfold shortest
  simp only [hne, Bool.false_eq_true, if_false]
  split
  · rename_i d hfound
    obtain ⟨n, hn, hd⟩ := List.exists_of_findSome?_eq_some hfound
    exact ⟨n, List.mem_range.mp hn, d, hd, rfl⟩
  · rename_i hnone
    rw [List.findSome?_eq_none_iff] at hnone
    have := hnone 16 (by decide)
    rw [orderOf] at hlast
    rw [hlast] at this
    cases this

/-- The shortest decimal of a number lies in the interval of the number. -/
theorem shortest_roundsTo (hnormal : Normal m e) (hm : 0 < m) : RoundsTo m e (shortest m e).value := by
  obtain ⟨n, -, d, hd, hshortest⟩ := exists_candidate hnormal hm
  rw [hshortest, stripZeros_value]
  exact candidate?_roundsTo hm hd

end Search

/-! ## Reading a decimal -/

section Decimals

variable {m digits : Nat} {e power : Int} {negative : Bool}

theorem ten_pow_le_two_pow (k : Nat) : 10 ^ (k * 3 / 10) ≤ 2 ^ k := by
  have hrest : ∀ r < 10, 10 ^ (r * 3 / 10) ≤ 2 ^ r := by decide
  calc 10 ^ (k * 3 / 10) = (10 ^ 3) ^ (k / 10) * 10 ^ (k % 10 * 3 / 10) := by
        rw [← pow_mul, ← pow_add]
        congr 1
        omega
    _ ≤ (2 ^ 10) ^ (k / 10) * 2 ^ (k % 10) :=
        Nat.mul_le_mul (Nat.pow_le_pow_left (by decide) _) (hrest _ (Nat.mod_lt _ (by decide)))
    _ = 2 ^ k := by
        rw [← pow_mul, ← pow_add]
        congr 1
        omega

theorem two_pow_le_ten_pow (k : Nat) : 2 ^ (k + 1) ≤ 10 ^ (k * 3 / 10 + k / 10 + 2) := by
  have hrest : ∀ r < 10, 2 ^ (r + 1) ≤ 10 ^ (r * 3 / 10 + 2) := by decide
  calc 2 ^ (k + 1) = (2 ^ 10) ^ (k / 10) * 2 ^ (k % 10 + 1) := by
        rw [← pow_mul, ← pow_add]
        congr 1
        omega
    _ ≤ (10 ^ 4) ^ (k / 10) * 10 ^ (k % 10 * 3 / 10 + 2) :=
        Nat.mul_le_mul (Nat.pow_le_pow_left (by decide) _) (hrest _ (Nat.mod_lt _ (by decide)))
    _ = 10 ^ (k * 3 / 10 + k / 10 + 2) := by
        rw [← pow_mul, ← pow_add]
        congr 1
        omega

/-- The estimate of the magnitude of a decimal from which it counts as infinite. -/
theorem ten_pow_order_le (hdigits : 0 < digits) (power : Int) :
    (10 : ℚ) ^ ((digits.log2 * 3 / 10 : Nat) + power) ≤ digits * 10 ^ power := by
  have hfloor : 10 ^ (digits.log2 * 3 / 10) ≤ digits :=
    (ten_pow_le_two_pow _).trans (Nat.log2_self_le hdigits.ne')
  rw [zpow_add₀ (by norm_num), zpow_natCast]
  gcongr
  exact_mod_cast hfloor

/-- The estimate from which it counts as zero. -/
theorem lt_ten_pow_order (digits : Nat) (power : Int) : (digits : ℚ) * 10 ^ power <
    10 ^ ((digits.log2 * 3 / 10 + digits.log2 / 10 + 2 : Nat) + power) := by
  have hceil : digits < 10 ^ (digits.log2 * 3 / 10 + digits.log2 / 10 + 2) :=
    Nat.lt_log2_self.trans_le (two_pow_le_ten_pow _)
  rw [zpow_add₀ (by norm_num), zpow_natCast]
  gcongr
  exact_mod_cast hceil

/-- A decimal as the ratio that is rounded. -/
theorem decimal_ratio (digits : Nat) (power : Int) :
    ((digits * tenTo power.toNat : Nat) : ℚ) / tenTo (-power).toNat = digits * 10 ^ power := by
  rw [← tenTo_div]
  push_cast
  ring

theorem ofDecimal_eq_ofRatio (hdigits : 0 < digits)
    (hlow : (2 : ℚ) ^ (-1075 : Int) ≤ digits * 10 ^ power)
    (hhigh : (digits : ℚ) * 10 ^ power < 2 ^ (1024 : Int)) : ofDecimal negative digits power =
      ofRatio negative (digits * tenTo power.toNat) (tenTo (-power).toNat) := by
  have hne : (digits == 0) = false := by simpa using hdigits.ne'
  set k := digits.log2 with hk
  have htop : ((k * 3 / 10 : Nat) : Int) + power < 400 := by
    have hbound : (2 : ℚ) ^ (1024 : Int) ≤ 10 ^ (360 : Int) :=
      (zpow_le_zpow_right₀ (by norm_num) (by norm_num)).trans two_zpow_le_ten_zpow
    have hlt := (zpow_lt_zpow_iff_right₀ (by norm_num)).mp
      (((ten_pow_order_le hdigits power).trans_lt hhigh).trans_le hbound)
    omega
  have hbottom : -398 ≤ ((k * 3 / 10 + k / 10 : Nat) : Int) + power := by
    have hbound : (10 : ℚ) ^ (-360 : Int) ≤ 2 ^ (-1075 : Int) :=
      ten_zpow_le_two_zpow.trans (zpow_le_zpow_right₀ (by norm_num) (by norm_num))
    have := (zpow_lt_zpow_iff_right₀ (by norm_num)).mp
      ((hbound.trans hlow).trans_lt (lt_ten_pow_order digits power))
    omega
  -- so neither shortcut for powers far outside the range is taken
  unfold ofDecimal
  simp only [hne, Bool.false_eq_true, if_false]
  rw [← hk, if_neg (by omega), if_neg (by omega)]

/-- A decimal in the interval of a number is read as that number. -/
theorem ofDecimal_eq (hnormal : Normal m e) (hm : 0 < m) (h : RoundsTo m e (digits * 10 ^ power)) :
    ofDecimal negative digits power = .finite negative m e := by
  have hpower : (0 : ℚ) < 10 ^ power := by positivity
  have hdigits : 0 < digits := by
    have : (0 : ℚ) < digits := (mul_pos_iff_of_pos_right hpower).mp (h.pos hm)
    exact_mod_cast this
  obtain ⟨hlow, hhigh⟩ := h.bounds hnormal hm
  rw [ofDecimal_eq_ofRatio hdigits hlow hhigh]
  rw [← decimal_ratio] at h
  exact ofRatio_eq hnormal hm (tenTo_pos _) h

/-- Any spelling of the shortest decimal of a number is read as that number. -/
theorem ofDecimal_of_shortest (hnormal : Normal m e)
    (h : (digits : ℚ) * 10 ^ power = (shortest m e).value) :
    ofDecimal negative digits power = .finite negative m e := by
  rcases Nat.eq_zero_or_pos m with rfl | hm
  · have hzero : (shortest 0 e).value = 0 := by simp [shortest, Decimal.value]
    have he : e = -1074 := hnormal.full.resolve_left (by norm_num)
    have hdigits : digits = 0 := by
      rw [hzero, mul_eq_zero] at h
      have := h.resolve_right (by positivity)
      exact_mod_cast this
    rw [hdigits, he]
    rfl
  · exact ofDecimal_eq hnormal hm (h ▸ shortest_roundsTo hnormal hm)

theorem ofDecimal_canonical (negative : Bool) (digits : Nat) (power : Int) :
    (ofDecimal negative digits power).Canonical ∧ ofDecimal negative digits power ≠ .nan := by
  unfold ofDecimal
  split
  · exact ⟨⟨by norm_num, by norm_num, by norm_num, .inr rfl⟩, by simp⟩
  · dsimp only
    split
    · exact ⟨trivial, by simp⟩
    · split
      · exact ⟨⟨by norm_num, by norm_num, by norm_num, .inr rfl⟩, by simp⟩
      · exact ofRatio_canonical _ _ (tenTo_pos _)

end Decimals

end XmlHarvest.Binary64
