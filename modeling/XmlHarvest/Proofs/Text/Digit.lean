import Mathlib.Tactic.Ring
import XmlHarvest.Proofs.Value.Writable
import XmlHarvest.Text.Blank
import XmlHarvest.Text.Digit

/-! # Runs of digits

The number that a run of digits writes has no more digits than the run.  The digits of a
number are a run from `0` to `9` that writes it, and begins with a zero for zero only. -/
set_option autoImplicit false

namespace XmlHarvest.Text

theorem digitValue?_lt {c : CodePoint} {d : Nat} (h : digitValue? c = some d) : d < 10 := by
  unfold digitValue? at h
  dsimp only at h
  split at h
  · split at h
    · rename_i hascii
      cases h
      simp only [Bool.and_eq_true, decide_eq_true_eq] at hascii
      omega
    · cases h
  · obtain ⟨z, hz, rfl⟩ := Option.map_eq_some_iff.mp h
    have hrange := List.find?_some hz
    simp only [Bool.and_eq_true, decide_eq_true_eq] at hrange
    omega

theorem decimalValue_lt (cs : Text) : decimalValue cs < tenTo cs.length := by
  have hrun : ∀ run : Text, ∀ n : Nat,
      run.foldl (fun n c => 10 * n + (digitValue? c).getD 0) n < (n + 1) * tenTo run.length := by
    intro run
    induction run with
    | nil =>
      intro n
      have hone : tenTo 0 = 1 := rfl
      rw [List.foldl_nil, List.length_nil, hone]
      omega
    | cons c run ih =>
      intro n
      have hdigit : (digitValue? c).getD 0 < 10 := by
        cases hvalue : digitValue? c with
        | none => decide
        | some d => exact digitValue?_lt hvalue
      have hnext := ih (10 * n + (digitValue? c).getD 0)
      have hten : tenTo (run.length + 1) = 10 * tenTo run.length := Nat.pow_succ'
      rw [List.foldl_cons, List.length_cons, hten, ← Nat.mul_assoc]
      refine Nat.lt_of_lt_of_le hnext (Nat.mul_le_mul_right _ ?_)
      omega
  have := hrun cs 0
  rw [Nat.zero_add, Nat.one_mul] at this
  exact this

theorem decimalValue_nil : decimalValue [] = 0 := rfl

/-- A run of the digits from `0` to `9`. -/
def Digits (ds : Text) : Prop := ∀ c ∈ ds, isAsciiDigit c = true

theorem isAsciiDigit_iff {c : CodePoint} : isAsciiDigit c = true ↔ 48 ≤ c.toNat ∧ c.toNat ≤ 57 := by
  simp [isAsciiDigit]

theorem digitValue?_of_ascii {c : CodePoint} (h : isAsciiDigit c = true) :
    digitValue? c = some (c.toNat - 48) := by
  rw [isAsciiDigit_iff] at h
  have hsmall : c.toNat < 128 := by omega
  simp [digitValue?, hsmall, h]

/-- The digits before a cut count ten times as much for each digit after it. -/
theorem decimalValue_cut (ds more : Text) :
    decimalValue (ds ++ more) = decimalValue ds * 10 ^ more.length + decimalValue more := by
  have hrun : ∀ run : Text, ∀ n : Nat,
      run.foldl (fun n c => 10 * n + (digitValue? c).getD 0) n =
        n * 10 ^ run.length + decimalValue run := by
    intro run
    induction run with
    | nil => simp [decimalValue]
    | cons c run ih =>
      intro n
      rw [decimalValue, List.foldl_cons, List.foldl_cons, ih, ih (10 * 0 + _), List.length_cons,
        Nat.pow_succ]
      ring
  rw [decimalValue, List.foldl_append, hrun more]
  rfl

/-- What characters from `0` to `9` write. -/
theorem decimalValue_ofChars {cs : List Char} (h : Digits (ofChars cs)) :
    decimalValue (ofChars cs) = Nat.ofDigitChars 10 cs 0 := by
  have hrun : ∀ run : List Char, Digits (ofChars run) → ∀ n : Nat,
      (ofChars run).foldl (fun n c => 10 * n + (digitValue? c).getD 0) n =
        Nat.ofDigitChars 10 run n := by
    intro run
    induction run with
    | nil => intro _ n; rfl
    | cons c run ih =>
      intro h n
      rw [ofChars_cons, List.foldl_cons, Nat.ofDigitChars_cons,
        digitValue?_of_ascii (h (.char c) (by simp)), Option.getD_some]
      exact ih (fun d hd => h d (by simp [hd])) _
  exact hrun cs h 0

theorem Digits.append {ds more : Text} (hds : Digits ds) (hmore : Digits more) :
    Digits (ds ++ more) := by
  intro c hc
  rcases List.mem_append.mp hc with h | h
  · exact hds c h
  · exact hmore c h

theorem Digits.drop {ds : Text} (h : Digits ds) (n : Nat) : Digits (ds.drop n) :=
  fun c hc => h c (List.mem_of_mem_drop hc)

theorem digits_digits (n : Nat) : Digits (digits 10 n) := by
  intro c hc
  obtain ⟨d, hd, rfl⟩ := List.mem_map.mp hc
  have := Nat.isDigit_of_mem_toDigits (by decide) (by decide) hd
  rw [Char.isDigit_iff_toNat] at this
  exact isAsciiDigit_iff.mpr (by simpa using this)

theorem decimalValue_digits (n : Nat) : decimalValue (digits 10 n) = n := by
  rw [digits, decimalValue_ofChars (digits_digits n), Nat.ofDigitChars_ten_toDigits]

theorem digits_ne_nil {n : Nat} : digits 10 n ≠ [] := by
  simp [digits, ofChars]

theorem digits_zeros (n : Nat) : Digits (List.replicate n (.char '0')) := by
  intro c hc
  rw [List.eq_of_mem_replicate hc]
  decide

theorem decimalValue_zeros (n : Nat) : decimalValue (List.replicate n (.char '0')) = 0 := by
  induction n with
  | zero => rfl
  | succ n ih =>
    have hcut := decimalValue_cut [.char '0'] (List.replicate n (.char '0'))
    rw [ih] at hcut
    rw [List.replicate_succ]
    exact hcut.trans (by rw [show decimalValue [.char '0'] = 0 from rfl, Nat.zero_mul])

theorem digits_zero : Digits "0" := digits_zeros 1

theorem head?_toDigits {n : Nat} (hn : 0 < n) : (Nat.toDigits 10 n).head? ≠ some '0' := by
  induction n using Nat.strongRecOn with
  | _ n ih =>
    rw [Nat.toDigits_eq_if (by decide)]
    split
    · rename_i hsmall
      simp only [List.head?_cons, ne_eq, Option.some.injEq, Nat.digitChar_eq_zero]
      omega
    · rw [List.head?_append_of_ne_nil _ Nat.toDigits_ne_nil]
      exact ih (n / 10) (by omega) (by omega)

theorem head?_digits {n : Nat} (hn : 0 < n) : (digits 10 n).head? ≠ some (.char '0') := by
  rw [digits, ofChars, List.head?_map]
  simpa using head?_toDigits hn

theorem takeWhile_digits {ds rest : Text} (hds : Digits ds)
    (hrest : ∀ c ∈ rest.head?, isAsciiDigit c = false) :
    (ds ++ rest).takeWhile isAsciiDigit = ds ∧ (ds ++ rest).dropWhile isAsciiDigit = rest := by
  rw [List.takeWhile_append_of_pos hds, List.dropWhile_append_of_pos hds]
  cases rest with
  | nil => simp
  | cons c rest =>
    have := hrest c (by simp)
    simp [this]

/-! ## Digits of all scripts -/

theorem isDigit_iff {c : CodePoint} :
    isDigit c = true ↔ ∃ z ∈ zeros, z ≤ c.toNat ∧ c.toNat < z + 10 := by
  have hzeros : ∀ z ∈ zeros, z = 48 ∨ 128 ≤ z := by decide
  rw [isDigit, digitValue?]
  split
  · rename_i hsmall
    constructor
    · intro h
      split at h
      · rename_i hascii
        simp only [Bool.and_eq_true, decide_eq_true_eq] at hascii
        exact ⟨48, by decide, hascii.1, by omega⟩
      · cases h
    · rintro ⟨z, hz, hlow, hhigh⟩
      obtain rfl : z = 48 := (hzeros z hz).resolve_right (by omega)
      simp [hlow, show c.toNat ≤ 57 by omega]
  · simp [List.find?_isSome]

/-- What the codes of all digits have in common. -/
theorem of_isDigit {c : CodePoint} {p : Nat → Prop} (hall : ∀ z ∈ zeros, ∀ k < 10, p (z + k))
    (h : isDigit c = true) : p c.toNat := by
  obtain ⟨z, hz, hlow, hhigh⟩ := isDigit_iff.mp h
  have hcode := hall z hz (c.toNat - z) (by omega)
  rwa [Nat.add_sub_cancel' hlow] at hcode

theorem isDigit_of_isAsciiDigit {c : CodePoint} (h : isAsciiDigit c = true) : isDigit c = true := by
  rw [isDigit, digitValue?_of_ascii h]
  rfl

theorem isBlank_of_isDigit {c : CodePoint} (h : isDigit c = true) : isBlank c = false := by
  have hcode := of_isDigit (p := fun n => ((9 ≤ n && n ≤ 13) || (28 ≤ n && n ≤ 32) || n == 0x85 ||
    n == 0xA0 || n == 0x1680 || (0x2000 ≤ n && n ≤ 0x200A) || n == 0x2028 || n == 0x2029 ||
    n == 0x202F || n == 0x205F || n == 0x3000) = false) (by decide +kernel) h
  exact hcode

end XmlHarvest.Text
