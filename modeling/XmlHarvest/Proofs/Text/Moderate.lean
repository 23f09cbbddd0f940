import XmlHarvest.Proofs.Modifier.Builtin
import XmlHarvest.Proofs.Number.Length
import XmlHarvest.Proofs.Text.Reworded

/-! # Texts whose numbers are within the limits

Reading numbers has two limits: the digits of an integer, and the range of double-precision
numbers.  Whether a text keeps within them is seen from the number that it starts with and
from the one that all its digits write, and no conversion of texts to texts changes that. -/
set_option autoImplicit false

namespace XmlHarvest

open Text

/-- The number that a text starts with is within the limits, and so is the one that its digits
from `0` to `9` write. -/
structure Text.Moderate (cs : Text) : Prop where
  run : (leadingRun (trim cs)).length ≤ digitLimit
  value : |leadingValue (trim cs)| < Binary64.overflow
  digits : (cs.filter isAsciiDigit).length ≤ digitLimit
  number : decimalValue (cs.filter isAsciiDigit) < Binary64.overflow

section Texts

variable {cs ds : Text}

/-- The digits before the point write no more than the whole number. -/
theorem decimalValue_leadingRun_le (cs : Text) :
    (decimalValue (leadingRun cs) : ℚ) ≤ |leadingValue cs| ∧
      |leadingValue cs| < decimalValue (leadingRun cs) + 1 := by
  unfold leadingValue
  cases hread : leadingDecimal? cs with
  | some n =>
    obtain ⟨-, -, hwhole, -⟩ := leadingDecimal?_eq_some.mp hread
    have hfloor := Int.floor_eq_iff.mp (floor_magnitude n)
    rw [leadingRun, ← hwhole]
    simp only [n.abs_value]
    exact_mod_cast hfloor
  | none =>
    rw [leadingDecimal?_eq] at hread
    have hnil : leadingRun cs = [] := by
      by_contra hne
      rw [if_neg fun h => hne h.1] at hread
      cases hread
    rw [hnil]
    norm_num [decimalValue_nil]

theorem filter_trim (p : CodePoint → Bool) (hp : ∀ c, isBlank c = true → p c = false) (cs : Text) :
    (trim cs).filter p = cs.filter p := by
  obtain ⟨front, back, hcs, hfront, hback⟩ := stripOf_append isBlank cs
  have hnone : ∀ run : Text, (∀ c ∈ run, isBlank c = true) → run.filter p = [] := by
    intro run hrun
    rw [List.filter_eq_nil_iff]
    intro c hc
    rw [hp c (hrun c hc)]
    exact Bool.false_ne_true
  conv_rhs => rw [hcs]
  rw [List.filter_append, List.filter_append, hnone front hfront, hnone back hback, List.nil_append,
    List.append_nil]
  rfl

theorem isAsciiDigit_of_isBlank (c : CodePoint) (h : isBlank c = true) : isAsciiDigit c = false := by
  rw [Bool.eq_false_iff]
  intro hdigit
  rw [isBlank_of_isDigit (isDigit_of_isAsciiDigit hdigit)] at h
  cases h

theorem isAsciiDigit_of_not_mark (c : CodePoint) (h : isMark c = false) : isAsciiDigit c = false := by
  rw [Bool.eq_false_iff]
  intro hdigit
  rw [isMark, isDigit_of_isAsciiDigit hdigit] at h
  cases h

/-- Texts that start with the same number and have the same digits are within the limits
together. -/
theorem moderate_congr (hrun : leadingRun (trim cs) = leadingRun (trim ds))
    (hvalue : leadingValue (trim cs) = leadingValue (trim ds))
    (hfilter : cs.filter isAsciiDigit = ds.filter isAsciiDigit) (h : Moderate cs) : Moderate ds := by
  constructor
  · rw [← hrun]
    exact h.run
  · rw [← hvalue]
    exact h.value
  · rw [← hfilter]
    exact h.digits
  · rw [← hfilter]
    exact h.number

theorem moderate_trim (h : Moderate cs) : Moderate (trim cs) :=
  moderate_congr (by rw [trim_trim]) (by rw [trim_trim])
    (filter_trim isAsciiDigit isAsciiDigit_of_isBlank cs).symm h

theorem moderate_of_reworded (hsame : Reworded cs ds) (h : Moderate cs) : Moderate ds := by
  have hvalue : leadingValue (trim cs) = leadingValue (trim ds) := by
    rw [leadingValue, leadingValue, hsame.trim.leadingDecimal?_eq]
  exact moderate_congr hsame.trim.splitSign.2.digits.1 hvalue
    (hsame.filter_eq isAsciiDigit_of_not_mark) h

/-- A text whose only digits are those of the integer that it starts with. -/
theorem moderate_of_run (hrun : leadingRun (trim cs) = ds)
    (hvalue : |leadingValue (trim cs)| = decimalValue ds) (hfilter : cs.filter isAsciiDigit = ds)
    (hlength : ds.length ≤ digitLimit) (hsmall : decimalValue ds < Binary64.overflow) :
    Moderate cs := by
  constructor
  · rwa [hrun]
  · rw [hvalue]
    exact_mod_cast hsmall
  · rwa [hfilter]
  · rwa [hfilter]

/-- A text of digits is read as the number that they write. -/
theorem leading_of_digits (hds : Digits ds) :
    trim ds = ds ∧ leadingRun ds = ds ∧ leadingValue ds = decimalValue ds := by
  by_cases hnil : ds = []
  · subst hnil
    exact ⟨rfl, rfl, by norm_num [leadingValue, leadingDecimal?, splitSign, decimalValue_nil]⟩
  · have hwritten : Numeral.WrittenBy ⟨false, ds, []⟩ ([] ++ ds) :=
      .whole .none (digitRun_of_digits hds hnil)
    obtain ⟨htrim, hrun, hvalue⟩ := leading_of_writtenBy hwritten
    refine ⟨htrim, hrun, hvalue.trans ?_⟩
    simp [Numeral.value, Numeral.magnitude, decimalValue_nil]

theorem moderate_filter (h : Moderate cs) : Moderate (cs.filter isAsciiDigit) := by
  have hds : Digits (cs.filter isAsciiDigit) := fun c hc => (List.mem_filter.mp hc).2
  obtain ⟨htrim, hrun, hvalue⟩ := leading_of_digits hds
  refine moderate_of_run ?_ ?_ (List.filter_eq_self.mpr hds) h.digits h.number
  · rw [htrim, hrun]
  · rw [htrim, hvalue, Nat.abs_cast]

theorem length_trim_le (cs : Text) : (trim cs).length ≤ cs.length := by
  obtain ⟨front, back, hcs, -, -⟩ := stripOf_append isBlank cs
  conv_rhs => rw [hcs]
  simp only [List.length_append]
  exact Nat.le_add_left_of_le (Nat.le_add_right _ _)

theorem length_leadingRun_le (cs : Text) : (leadingRun cs).length ≤ cs.length := by
  obtain ⟨sign, -, hcs⟩ := exists_signText cs
  have hrun : (leadingRun cs).length ≤ (splitSign cs).2.length := (List.takeWhile_prefix _).length_le
  have hlength := congrArg List.length hcs
  rw [List.length_append] at hlength
  omega

theorem tenTo_le_overflow : tenTo 308 ≤ Binary64.overflow := by decide +kernel

/-- No text is out of the limits unless it is long. -/
theorem moderate_of_length_le (h : cs.length ≤ 308) : Moderate cs := by
  have hrun : (leadingRun (trim cs)).length ≤ 308 :=
    (length_leadingRun_le _).trans ((length_trim_le cs).trans h)
  have hdigits : (cs.filter isAsciiDigit).length ≤ 308 := (List.length_filter_le _ _).trans h
  have hshort : ∀ ds : Text, ds.length ≤ 308 → decimalValue ds < Binary64.overflow := fun ds hds =>
    (decimalValue_lt ds).trans_le ((Value.tenTo_le_tenTo hds).trans tenTo_le_overflow)
  have hlimit : 308 ≤ digitLimit := by decide
  refine ⟨hrun.trans hlimit, ?_, hdigits.trans hlimit, hshort _ hdigits⟩
  refine (decimalValue_leadingRun_le _).2.trans_le ?_
  exact_mod_cast hshort _ hrun

end Texts

/-! ## Readings -/

section Readings

variable {i : Int}

theorem natAbs_towardsZero_le (cs : Text) :
    ((towardsZero (leadingValue cs)).natAbs : ℚ) ≤ |leadingValue cs| := by
  rw [towardsZero_leadingValue, natAbs_signed]
  exact (decimalValue_leadingRun_le cs).1

theorem leadingNumberOf_finite_iff (s : Text) : (Value.leadingNumberOf s).Finite ↔
    |leadingValue (trim s)| < Binary64.overflow := by
  have hpositive : (0 : ℚ) < Binary64.overflow := lt_of_lt_of_le (by positivity) Binary64.le_overflow
  unfold Value.leadingNumberOf leadingValue
  cases leadingDecimal? (trim s) with
  | none =>
    rw [abs_zero]
    exact iff_of_true trivial hpositive
  | some n =>
    rw [n.abs_value, n.magnitude_eq]
    exact Binary64.ofDecimal_finite_iff _ _ _

/-- The text of an integer is within the limits if the integer is. -/
theorem moderate_integerText {t : Text} (ht : integerText i = .ok t)
    (hsmall : i.natAbs < Binary64.overflow) : Text.Moderate t := by
  obtain ⟨hshort, htext⟩ := integerText_eq_ok.mp ht
  obtain ⟨htrim, hrun, hvalue⟩ := leading_of_writtenBy (writtenBy_integerText ht)
  refine moderate_of_run ?_ ?_ ?_ hshort ?_
  · rw [htrim, hrun]
  · rw [htrim, hvalue, Numeral.abs_value]
    simp [Numeral.magnitude, decimalValue_nil]
  · have hnone : ∀ negative : Bool,
        (if negative then [CodePoint.char '-'] else []).filter isAsciiDigit = [] := by decide
    rw [htext, List.filter_append, hnone _, List.nil_append,
      List.filter_eq_self.mpr (digits_digits _)]
  · rwa [decimalValue_digits]

end Readings
end XmlHarvest
