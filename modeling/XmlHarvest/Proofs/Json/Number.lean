import XmlHarvest.Json.Reader
import XmlHarvest.Proofs.Number.Shortest
import XmlHarvest.Proofs.Text.Digit

/-! # Reading back what numbers are written as

A number is read as its whole part, its fraction and its exponent, each as far as its
characters go.  The text of a number is such a spelling of its shortest decimal. -/
set_option autoImplicit false

namespace XmlHarvest

/-! ## The digits of a decimal -/

namespace Binary64.Decimal

variable (d : Decimal)

def run : Text := Text.digits 10 d.digits

def point : Int := d.run.length + d.power

theorem digits_run : Text.Digits d.run := Text.digits_digits d.digits

theorem run_ne_nil : d.run ≠ [] := Text.digits_ne_nil

theorem decimalValue_run : Text.decimalValue d.run = d.digits := Text.decimalValue_digits d.digits

end Binary64.Decimal

namespace Json

open Text

theorem signed_natAbs (i : Int) : signed (decide (i < 0)) i.natAbs = i := by
  unfold signed
  split
  · rename_i hi
    have := of_decide_eq_true hi
    omega
  · rename_i hi
    have := of_decide_eq_false (Bool.eq_false_of_not_eq_true hi)
    omega

/-! ## The parts of a number -/

/-- The whole part: digits, of which the first is a zero only if it is the last as well. -/
structure Whole (ds : Text) : Prop where
  digits : Digits ds
  nonempty : ds ≠ []
  leading : ds = [.char '0'] ∨ ds.head? ≠ some (.char '0')

theorem whole_digits (n : Nat) : Whole (Text.digits 10 n) := by
  refine ⟨digits_digits n, digits_ne_nil, ?_⟩
  rcases Nat.eq_zero_or_pos n with rfl | hn
  · exact .inl rfl
  · exact .inr (head?_digits hn)

def wholePart (cs : Text) : Text :=
  match cs with
  | '0' :: _ => ['0']
  | _ => cs.takeWhile isAsciiDigit

def fractionPart (cs : Text) : Text × Text :=
  match cs with
  | '.' :: d :: more =>
    if isAsciiDigit d then (d :: more.takeWhile isAsciiDigit, more.dropWhile isAsciiDigit)
    else ([], cs)
  | _ => ([], cs)

def powerPart (cs : Text) : Option Int × Text :=
  match cs with
  | 'e' :: more | 'E' :: more =>
    match exponent? more with
    | some (p, tail) => (some p, tail)
    | none => (none, cs)
  | _ => (none, cs)

theorem number_of_parts {negative : Bool} {whole fraction tail after rest : Text}
    {power? : Option Int} (hwhole : wholePart (whole ++ tail) = whole) (hne : whole ≠ [])
    (hfraction : fractionPart tail = (fraction, after)) (hpower : powerPart after = (power?, rest)) :
    number negative (whole ++ tail) =
      if fraction = [] ∧ power? = none then
        if digitLimit < whole.length then .error (.number (.longNumeral whole.length))
        else .ok (.int (signed negative (decimalValue whole)), rest)
      else .ok (.float (.ofDecimal negative (decimalValue (whole ++ fraction))
        (power?.getD 0 - fraction.length)), rest) := by
  have hdrop : (whole ++ tail).drop whole.length = tail := List.drop_left
  -- the cuts that the reader makes, one after the other
  have hparts : number negative (whole ++ tail) =
      let whole' := wholePart (whole ++ tail)
      if whole'.isEmpty then .error .malformed
      else
        let fraction' := fractionPart ((whole ++ tail).drop whole'.length)
        let power' := powerPart fraction'.2
        if fraction'.1.isEmpty && power'.1.isNone then
          if digitLimit < whole'.length then .error (.number (.longNumeral whole'.length))
          else .ok (.int (signed negative (decimalValue whole')), power'.2)
        else .ok (.float (.ofDecimal negative (decimalValue (whole' ++ fraction'.1))
          (power'.1.getD 0 - fraction'.1.length)), power'.2) := rfl
  have hempty : whole.isEmpty = false := by simpa using hne
  rw [hparts]
  simp only [hwhole, hdrop, hfraction, hpower, hempty, Bool.false_eq_true, if_false,
    Bool.and_eq_true, List.isEmpty_iff, Option.isNone_iff_eq_none]

/-! ## The spelling of a number -/

def fractionText : Text → Text
  | [] => []
  | ds => '.' :: ds

def powerText : Option Int → Text
  | none => []
  | some p => 'e' :: Binary64.exponentText p

def EndsNumber (rest : Text) : Prop :=
  ∀ c ∈ rest.head?, isAsciiDigit c = false ∧ c ≠ '.' ∧ c ≠ 'e' ∧ c ≠ 'E'

section Spelling

variable {whole fraction rest tail : Text}

theorem wholePart_append (hwhole : Whole whole) (htail : ∀ c ∈ tail.head?, isAsciiDigit c = false) :
    wholePart (whole ++ tail) = whole := by
  rcases hwhole.leading with rfl | hhead
  · rfl
  · obtain ⟨c, ds, rfl⟩ := List.exists_cons_of_ne_nil hwhole.nonempty
    have hc : c ≠ .char '0' := by simpa using hhead
    have htake : wholePart (c :: ds ++ tail) = (c :: ds ++ tail).takeWhile isAsciiDigit := by
      rw [List.cons_append, wholePart]
      intro _ heq
      cases heq
      exact hc rfl
    rw [htake]
    exact (takeWhile_digits hwhole.digits htail).1

theorem fractionPart_append (hfraction : Digits fraction)
    (htail : ∀ c ∈ tail.head?, isAsciiDigit c = false ∧ c ≠ '.') :
    fractionPart (fractionText fraction ++ tail) = (fraction, tail) := by
  cases fraction with
  | nil =>
    cases tail with
    | nil => rfl
    | cons c tail =>
      have hc : c ≠ '.' := (htail c (by simp)).2
      rw [fractionText, List.nil_append, fractionPart]
      intro _ _ heq
      cases heq
      exact hc rfl
  | cons d ds =>
    have hd : isAsciiDigit d = true := hfraction d (by simp)
    have hds : Digits ds := fun c hc => hfraction c (by simp [hc])
    have hend : ∀ c ∈ tail.head?, isAsciiDigit c = false := fun c hc => (htail c hc).1
    obtain ⟨htake, hdrop⟩ := takeWhile_digits hds hend
    change fractionPart ('.' :: d :: (ds ++ tail)) = _
    rw [fractionPart]
    simp only [hd, if_true, htake, hdrop]

theorem exponent?_sign (negative : Bool) {ds : Text} (hdigits : Digits ds) (hne : ds ≠ [])
    (hrest : ∀ c ∈ rest.head?, isAsciiDigit c = false) :
    exponent? ((if negative then '-' else '+' : CodePoint) :: ds ++ rest) =
      some (signed negative (decimalValue ds), rest) := by
  have hsign : splitSign ((if negative then '-' else '+' : CodePoint) :: ds ++ rest) =
      (negative, ds ++ rest) := by
    cases negative <;> rfl
  obtain ⟨htake, hdrop⟩ := takeWhile_digits hdigits hrest
  rw [exponent?, hsign]
  dsimp only
  rw [htake, hdrop]
  obtain ⟨d, more, rfl⟩ := List.exists_cons_of_ne_nil hne
  rfl

theorem exponent?_append (p : Int) (hrest : EndsNumber rest) :
    exponent? (Binary64.exponentText p ++ rest) = some (p, rest) := by
  set ds := Text.digits 10 p.natAbs
  set padded : Text := if ds.length < 2 then '0' :: ds else ds with hpadded
  have hdigits : Digits padded := by
    rw [hpadded]
    split
    · exact digits_zero.append (digits_digits _)
    · exact digits_digits _
  have hvalue : decimalValue padded = p.natAbs := by
    rw [hpadded]
    split
    · have hcut := decimalValue_cut (List.replicate 1 (.char '0')) ds
      rw [decimalValue_zeros, Nat.zero_mul, Nat.zero_add, decimalValue_digits] at hcut
      exact hcut
    · exact decimalValue_digits _
  have hne : padded ≠ [] := by
    rw [hpadded]
    split
    · simp
    · exact digits_ne_nil
  have htext : Binary64.exponentText p =
      (if decide (p < 0) then '-' else '+' : CodePoint) :: padded := by
    simp only [decide_eq_true_eq]
    rfl
  have hread := exponent?_sign (decide (p < 0)) hdigits hne fun c hc => (hrest c hc).1
  rw [hvalue, signed_natAbs] at hread
  rw [htext]
  exact hread

theorem powerPart_append (power? : Option Int) (hrest : EndsNumber rest) :
    powerPart (powerText power? ++ rest) = (power?, rest) := by
  cases power? with
  | none =>
    cases rest with
    | nil => rfl
    | cons c rest =>
      obtain ⟨-, -, hlower, hupper⟩ := hrest c (by simp)
      rw [powerText, List.nil_append, powerPart]
      · intro _ heq
        cases heq
        exact hlower rfl
      · intro _ heq
        cases heq
        exact hupper rfl
  | some p =>
    rw [powerText, List.cons_append, powerPart, exponent?_append p hrest]

/-- A spelling is read as the number that it spells. -/
theorem number_spelled (negative : Bool) (power? : Option Int) (hwhole : Whole whole)
    (hfraction : Digits fraction) (hrest : EndsNumber rest) :
    number negative (whole ++ (fractionText fraction ++ (powerText power? ++ rest))) =
      if fraction = [] ∧ power? = none then
        if digitLimit < whole.length then .error (.number (.longNumeral whole.length))
        else .ok (.int (signed negative (decimalValue whole)), rest)
      else .ok (.float (.ofDecimal negative (decimalValue (whole ++ fraction))
        (power?.getD 0 - fraction.length)), rest) := by
  have hpower : ∀ c ∈ (powerText power? ++ rest).head?, isAsciiDigit c = false ∧ c ≠ '.' := by
    intro c hc
    cases power? with
    | none => exact ⟨(hrest c hc).1, (hrest c hc).2.1⟩
    | some p =>
      obtain rfl : CodePoint.char 'e' = c := by simpa [powerText] using hc
      decide
  have htail : ∀ c ∈ (fractionText fraction ++ (powerText power? ++ rest)).head?,
      isAsciiDigit c = false := by
    intro c hc
    cases fraction with
    | nil => exact (hpower c hc).1
    | cons d ds =>
      obtain rfl : CodePoint.char '.' = c := by simpa [fractionText] using hc
      decide
  exact number_of_parts (wholePart_append hwhole htail) hwhole.nonempty
    (fractionPart_append hfraction hpower) (powerPart_append power? hrest)

end Spelling

/-! ## The text of a decimal -/

section Decimals

open Binary64

variable {whole fraction : Text} {d : Decimal} {power? : Option Int}

/-- A spelling with a fraction or an exponent that has the value of a decimal. -/
structure Spells (whole fraction : Text) (power? : Option Int) (d : Decimal) : Prop where
  leading : Whole whole
  digits : Digits fraction
  decimal : fraction ≠ [] ∨ power? ≠ none
  text : decimalText d = whole ++ (fractionText fraction ++ powerText power?)
  value : (decimalValue (whole ++ fraction) : ℚ) * 10 ^ (power?.getD 0 - fraction.length) = d.value

theorem Whole.take {ds : Text} (h : Whole ds) {n : Nat} (hn : 0 < n) : Whole (ds.take n) := by
  obtain ⟨c, cs, rfl⟩ := List.exists_cons_of_ne_nil h.nonempty
  obtain ⟨k, rfl⟩ := Nat.exists_eq_succ_of_ne_zero hn.ne'
  rw [List.take_succ_cons]
  refine ⟨fun d hd => h.digits d ?_, by simp, ?_⟩
  · rcases List.mem_cons.mp hd with rfl | hd
    · simp
    · exact List.mem_cons_of_mem _ (List.mem_of_mem_take hd)
  · rcases h.leading with heq | hhead
    · cases heq
      simp
    · exact .inr (by simpa using hhead)

theorem fractionText_of_ne_nil {ds : Text} (h : ds ≠ []) : fractionText ds = .char '.' :: ds := by
  obtain ⟨c, cs, rfl⟩ := List.exists_cons_of_ne_nil h
  rfl

theorem whole_run (d : Decimal) : Whole d.run := whole_digits d.digits

theorem decimalText_eq (hd : d.digits ≠ 0) : decimalText d =
    if -4 < d.point ∧ d.point ≤ 16 then
      if d.point ≤ 0 then
        ("0." : Text) ++ List.replicate (-d.point).toNat (.char '0') ++ d.run
      else if d.power < 0 then d.run.take d.point.toNat ++ "." ++ d.run.drop d.point.toNat
      else d.run ++ List.replicate d.power.toNat (.char '0') ++ (".0" : Text)
    else d.run.take 1 ++ fractionText (d.run.drop 1) ++ "e" ++ exponentText (d.point - 1) := by
  have hne : (d.digits == 0) = false := by simpa using hd
  unfold decimalText
  simp only [hne, Bool.false_eq_true, if_false, Bool.and_eq_true, decide_eq_true_eq]
  rfl

theorem spells_zero (hd : d.digits = 0) : Spells [.char '0'] [.char '0'] none d where
  leading := whole_digits 0
  digits := digits_zero
  decimal := .inl (by simp)
  text := by
    simp only [decimalText, hd]
    rfl
  value := by
    have hvalue : decimalValue ([.char '0'] ++ [.char '0']) = 0 := rfl
    rw [Decimal.value, hd, hvalue]
    simp

/-- All digits after the point, with zeros before them. -/
theorem spells_small (hd : d.digits ≠ 0) (hlow : -4 < d.point) (hhigh : d.point ≤ 0) :
    Spells [.char '0'] (List.replicate (-d.point).toNat (.char '0') ++ d.run) none d where
  leading := whole_digits 0
  digits := (digits_zeros _).append d.digits_run
  decimal := .inl (by simp [d.run_ne_nil])
  text := by
    have hfraction := fractionText_of_ne_nil (List.append_ne_nil_of_right_ne_nil
      (List.replicate (-d.point).toNat (CodePoint.char '0')) d.run_ne_nil)
    rw [decimalText_eq hd, if_pos ⟨hlow, by omega⟩, if_pos hhigh, hfraction, powerText,
      List.append_nil]
    rfl
  value := by
    have hvalue : decimalValue
        ([.char '0'] ++ (List.replicate (-d.point).toNat (.char '0') ++ d.run)) =
        d.digits := by
      have hzero : decimalValue [.char '0'] = 0 := rfl
      rw [decimalValue_cut, decimalValue_cut, hzero, decimalValue_zeros, d.decimalValue_run]
      simp
    have hpower : (0 : Int) -
        (List.replicate (-d.point).toNat (CodePoint.char '0') ++ d.run).length = d.power := by
      rw [List.length_append, List.length_replicate]
      unfold Decimal.point at hhigh ⊢
      omega
    rw [hvalue, Option.getD_none, hpower, Decimal.value]

theorem value_cut (d : Decimal) (n : Nat) {p : Int} (hp : p - (d.run.drop n).length = d.power) :
    (decimalValue (d.run.take n ++ d.run.drop n) : ℚ) * 10 ^ (p - (d.run.drop n).length) =
      d.value := by
  rw [List.take_append_drop, d.decimalValue_run, hp, Decimal.value]

/-- The point among the digits. -/
theorem spells_inside (hd : d.digits ≠ 0) (hlow : 0 < d.point) (hhigh : d.point ≤ 16)
    (hpower : d.power < 0) :
    Spells (d.run.take d.point.toNat) (d.run.drop d.point.toNat) none d := by
  have hcut : d.point.toNat < d.run.length := by
    unfold Decimal.point at hlow ⊢
    omega
  have hne : d.run.drop d.point.toNat ≠ [] := by
    rw [ne_eq, List.drop_eq_nil_iff]
    omega
  refine ⟨(whole_run d).take (by omega), d.digits_run.drop _, .inl hne, ?_, value_cut d _ ?_⟩
  · rw [decimalText_eq hd, if_pos ⟨by omega, hhigh⟩, if_neg (by omega), if_pos hpower,
      fractionText_of_ne_nil hne, powerText, List.append_nil, List.append_assoc]
    rfl
  · rw [Option.getD_none, List.length_drop]
    unfold Decimal.point at hlow ⊢
    omega

/-- Zeros between the digits and the point. -/
theorem spells_large (hd : d.digits ≠ 0) (hlow : 0 < d.point) (hhigh : d.point ≤ 16)
    (hpower : 0 ≤ d.power) :
    Spells (d.run ++ List.replicate d.power.toNat (.char '0')) [.char '0'] none d where
  leading := by
    refine ⟨d.digits_run.append (digits_zeros _), by simp [d.run_ne_nil], .inr ?_⟩
    rw [List.head?_append_of_ne_nil _ d.run_ne_nil]
    exact head?_digits (Nat.pos_of_ne_zero hd)
  digits := digits_zero
  decimal := .inl (by simp)
  text := by
    rw [decimalText_eq hd, if_pos ⟨by omega, hhigh⟩, if_neg (by omega), if_neg (by omega), powerText,
      List.append_nil]
    rfl
  value := by
    have hvalue : decimalValue
        (d.run ++ List.replicate d.power.toNat (.char '0') ++ [.char '0']) =
        10 ^ (d.power.toNat + 1) * d.digits := by
      have hzero : decimalValue [.char '0'] = 0 := rfl
      rw [decimalValue_cut, decimalValue_cut, hzero, decimalValue_zeros, d.decimalValue_run,
        List.length_replicate, List.length_singleton]
      ring
    have htenth : (10 : ℚ) ^ d.power = 10 ^ d.power.toNat := by
      rw [← zpow_natCast, Int.toNat_of_nonneg hpower]
    rw [hvalue, Decimal.value, htenth]
    push_cast
    simp [pow_succ]
    ring

/-- One digit before the point, and an exponent. -/
theorem spells_scientific (hd : d.digits ≠ 0) (hfar : ¬ (-4 < d.point ∧ d.point ≤ 16)) :
    Spells (d.run.take 1) (d.run.drop 1) (some (d.point - 1)) d := by
  have hlength := List.length_pos_iff.mpr d.run_ne_nil
  refine ⟨(whole_run d).take Nat.one_pos, d.digits_run.drop 1, .inr (by simp), ?_, value_cut d 1 ?_⟩
  · rw [decimalText_eq hd, if_neg hfar, powerText, List.append_assoc, List.append_assoc]
    rfl
  · rw [Option.getD_some, List.length_drop, Decimal.point]
    omega

/-- The text of a decimal, in whichever notation, spells it. -/
theorem exists_spells (d : Decimal) : ∃ whole fraction power?, Spells whole fraction power? d := by
  by_cases hd : d.digits = 0
  · exact ⟨_, _, _, spells_zero hd⟩
  by_cases hnear : -4 < d.point ∧ d.point ≤ 16
  · obtain ⟨hlow, hhigh⟩ := hnear
    rcases le_or_gt d.point 0 with hsmall | hpoint
    · exact ⟨_, _, _, spells_small hd hlow hsmall⟩
    · rcases lt_or_ge d.power 0 with hpower | hpower
      · exact ⟨_, _, _, spells_inside hd hpoint hhigh hpower⟩
      · exact ⟨_, _, _, spells_large hd hpoint hhigh hpower⟩
  · exact ⟨_, _, _, spells_scientific hd hnear⟩

/-- The text of a number is read as that number. -/
theorem number_decimalText (negative : Bool) {m : Nat} {e : Int} {rest : Text}
    (hnormal : Normal m e) (hrest : EndsNumber rest) :
    number negative (decimalText (shortest m e) ++ rest) =
      .ok (.float (.finite negative m e), rest) := by
  obtain ⟨whole, fraction, power?, hspells⟩ := exists_spells (shortest m e)
  have hdecimal : ¬ (fraction = [] ∧ power? = none) := by
    have := hspells.decimal
    tauto
  rw [hspells.text, List.append_assoc, List.append_assoc,
    number_spelled negative power? hspells.leading hspells.digits hrest, if_neg hdecimal,
    ofDecimal_of_shortest hnormal hspells.value]

end Decimals

end Json

end XmlHarvest
