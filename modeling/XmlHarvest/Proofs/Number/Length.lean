import XmlHarvest.Proofs.Json.Number

/-! # The text of a number is short

The shortest decimal of a number has at most eighteen digits, since a grid of seventeen is
always fine enough, and its power of ten has no more than four. -/
set_option autoImplicit false

namespace XmlHarvest.Binary64

section Shortest

variable {m : Nat} {e : Int} {d : Decimal}

/-- Leaving zeros out makes the digits fewer and the power greater. -/
theorem stripZeros_bounds (fuel : Nat) (d : Decimal) : (stripZeros fuel d).digits ≤ d.digits ∧
    d.power ≤ (stripZeros fuel d).power ∧ (stripZeros fuel d).power ≤ d.power + fuel := by
  induction fuel generalizing d with
  | zero => simp [stripZeros]
  | succ fuel ih =>
    rw [stripZeros]
    split
    · obtain ⟨hdigits, hlow, hhigh⟩ := ih ⟨d.digits / 10, d.power + 1⟩
      have hfewer : d.digits / 10 ≤ d.digits := Nat.div_le_self _ _
      dsimp only at hdigits hlow hhigh
      exact ⟨hdigits.trans hfewer, by omega, by push_cast; omega⟩
    · exact ⟨le_rfl, le_rfl, by omega⟩

theorem leadingZeros_le (fuel num den : Nat) : leadingZeros fuel num den ≤ fuel := by
  induction fuel generalizing num with
  | zero => rfl
  | succ fuel ih =>
    rw [leadingZeros]
    split
    · exact Nat.succ_le_succ (ih _)
    · exact Nat.zero_le _

theorem orderOf_range (hnormal : Normal m e) : -400 ≤ orderOf m e ∧ orderOf m e ≤ 1024 := by
  have hten : ∀ k, twoTo k ≤ tenTo k := Nat.pow_le_pow_left (by decide)
  have hsize : m * twoTo e.toNat / twoTo (-e).toNat < tenTo 1024 := by
    calc m * twoTo e.toNat / twoTo (-e).toNat ≤ m * twoTo e.toNat := Nat.div_le_self _ _
      _ < 2 ^ 53 * twoTo e.toNat := Nat.mul_lt_mul_of_pos_right hnormal.below (twoTo_pos _)
      _ = twoTo (53 + e.toNat) := (Nat.pow_add 2 53 e.toNat).symm
      _ ≤ twoTo 1024 := twoTo_le_twoTo (by have := hnormal.high; omega)
      _ ≤ tenTo 1024 := hten 1024
  have hdigits := (length_toDigits_le _ 1024 (by decide)).mpr hsize
  have hzeros := leadingZeros_le 400 (m * twoTo e.toNat) (twoTo (-e).toNat)
  unfold orderOf decimalOrder
  split <;> omega

/-- A decimal that rounds to a number has no more digits than its grid. -/
theorem candidate_digits (hnormal : Normal m e) (hm : 0 < m) {n : Nat}
    (h : candidate? (interval m e) (twoTo e.toNat) (twoTo (-e).toNat) (orderOf m e) (n + 1) = some d) :
    d.digits < 2 * 10 ^ (n + 1) ∧ d.power = orderOf m e - (n + 1 : Nat) := by
  have hpower : d.power = orderOf m e - (n + 1 : Nat) := by
    rcases candidate?_cases m e (orderOf m e) (n + 1) with ⟨digits, heq, -⟩ | ⟨hnone, -⟩
    · rw [heq] at h
      cases h
      rfl
    · rw [hnone] at h
      cases h
  have hscale : (0 : ℚ) < 2 ^ e := by positivity
  have hm' : (1 : ℚ) ≤ m := by exact_mod_cast hm
  have hround := (candidate?_roundsTo hm h).2.1
  rw [div_le_iff₀ hscale, Decimal.value] at hround
  have hgrid : (0 : ℚ) < 10 ^ d.power := by positivity
  have hbelow : (d.digits : ℚ) * 10 ^ d.power < 2 * 10 ^ (n + 1) * 10 ^ d.power := by
    calc (d.digits : ℚ) * 10 ^ d.power ≤ (m + 1 / 2) * 2 ^ e := hround
      _ ≤ 2 * (m * 2 ^ e) := by
          rw [← mul_assoc]
          gcongr
          linarith
      _ < 2 * 10 ^ orderOf m e := by
          have := (orderOf_bounds hnormal hm).2
          linarith
      _ = 2 * 10 ^ (n + 1) * 10 ^ d.power := by
          rw [mul_assoc, hpower, ← zpow_natCast, ← zpow_add₀ (by norm_num)]
          congr 2
          omega
  have hlt := lt_of_mul_lt_mul_right hbelow hgrid.le
  exact ⟨by exact_mod_cast hlt, hpower⟩

theorem shortest_bounds (hnormal : Normal m e) :
    (shortest m e).run.length ≤ 18 ∧ (shortest m e).power.natAbs ≤ 2000 := by
  rcases Nat.eq_zero_or_pos m with rfl | hm
  · have hzero : shortest 0 e = ⟨0, 0⟩ := rfl
    rw [hzero]
    decide
  · obtain ⟨n, hn, d, hd, hshortest⟩ := exists_candidate hnormal hm
    obtain ⟨hdigits, hpower⟩ := candidate_digits hnormal hm hd
    obtain ⟨horderLow, horderHigh⟩ := orderOf_range hnormal
    obtain ⟨hfewer, hlow, hhigh⟩ := stripZeros_bounds 20 d
    have hgrid : 10 ^ (n + 1) ≤ 10 ^ 17 := Nat.pow_le_pow_right (by decide) (by omega)
    rw [hshortest]
    rw [Decimal.run, Text.length_digits]
    refine ⟨(length_toDigits_le _ 18 (by decide)).mpr ?_, by omega⟩
    have hten : tenTo 18 = 10 ^ 18 := rfl
    omega

end Shortest

section Texts

variable {d : Decimal}

theorem length_exponentText {p : Int} (h : p.natAbs < tenTo 4) : (exponentText p).length ≤ 5 := by
  have hdigits := (length_toDigits_le p.natAbs 4 (by decide)).mpr h
  rw [← Text.length_digits] at hdigits
  unfold exponentText
  rw [List.length_cons]
  split
  · rw [List.length_cons]
    omega
  · omega

theorem length_decimalText (hrun : d.run.length ≤ 18) (hpower : d.power.natAbs ≤ 2000) :
    (decimalText d).length ≤ 40 := by
  by_cases hd : d.digits = 0
  · have hzero : decimalText d = "0.0" := by simp [decimalText, hd]
    rw [hzero]
    decide
  have hpoint : d.point = d.run.length + d.power := rfl
  rw [Json.decimalText_eq hd]
  split
  · split
    · have hstart : ("0." : Text).length = 2 := rfl
      simp only [List.length_append, List.length_replicate, hstart]
      omega
    · split
      · have hmark : ("." : Text).length = 1 := rfl
        simp only [List.length_append, List.length_take, List.length_drop, hmark]
        omega
      · have hend : (".0" : Text).length = 2 := rfl
        simp only [List.length_append, List.length_replicate, hend]
        omega
  · have hexponent : (exponentText (d.point - 1)).length ≤ 5 := by
      apply length_exponentText
      have hten : tenTo 4 = 10000 := rfl
      omega
    have hfraction : (Json.fractionText (d.run.drop 1)).length ≤ 18 := by
      cases hrest : d.run.drop 1 with
      | nil => exact Nat.zero_le _
      | cons c more =>
        have hlength := congrArg List.length hrest
        simp only [List.length_drop, List.length_cons] at hlength
        simp only [Json.fractionText, List.length_cons]
        omega
    have hmark : ("e" : Text).length = 1 := rfl
    simp only [List.length_append, List.length_take, hmark]
    omega

theorem length_text (negative : Bool) {m : Nat} {e : Int} (hnormal : Normal m e) :
    (text (.finite negative m e)).length ≤ 41 := by
  obtain ⟨hrun, hpower⟩ := shortest_bounds hnormal
  have hdecimal := length_decimalText hrun hpower
  have hsign : ("-" : Text).length = 1 := rfl
  rw [text, List.length_append]
  cases negative with
  | true => simp only [if_true, hsign]; omega
  | false => exact (Nat.zero_add _).trans_le (by omega)

end Texts
end XmlHarvest.Binary64
