import Mathlib.Algebra.Order.Floor.Ring
import Mathlib.Data.Rat.Floor
import XmlHarvest.Modifier.Builtin
import XmlHarvest.Proofs.Json.Number
import XmlHarvest.Proofs.Text.Trim
import XmlHarvest.Value.Coercion

/-! # The number at the start of a text

Of what stands at the start of a text, the number is the longest part that writes one: a
sign, if there is one, and digits with a point before, among or after them.  The integer
reader stops at the point, so it reads that number without its fraction. -/
set_option autoImplicit false

namespace XmlHarvest

open Text Json

/-! ## Texts that write a numeral -/

structure DigitRun (ds : Text) : Prop where
  nonempty : ds ≠ []
  digits : ∀ c ∈ ds, isDigit c = true

/-- The texts of a sign, which need not be written. -/
inductive SignText : Bool → Text → Prop
  | none : SignText false []
  | plus : SignText false ['+']
  | minus : SignText true ['-']

/-- The texts of a numeral: a sign, and then digits, digits around a point, or digits after
a point. -/
inductive Numeral.WrittenBy : Numeral → Text → Prop
  | whole {negative : Bool} {sign ds : Text} (signed : SignText negative sign)
      (run : DigitRun ds) : WrittenBy ⟨negative, ds, []⟩ (sign ++ ds)
  | point {negative : Bool} {sign ds fs : Text} (signed : SignText negative sign)
      (run : DigitRun ds) (after : DigitRun fs) :
      WrittenBy ⟨negative, ds, fs⟩ (sign ++ (ds ++ CodePoint.char '.' :: fs))
  | fraction {negative : Bool} {sign fs : Text} (signed : SignText negative sign)
      (after : DigitRun fs) : WrittenBy ⟨negative, [], fs⟩ (sign ++ CodePoint.char '.' :: fs)

/-- A text starts with a numeral, which is written as far as that is possible: what follows
cannot extend it. -/
structure Numeral.Leads (n : Numeral) (cs text : Text) : Prop where
  start : text <+: cs
  written : n.WrittenBy text
  longest : ∀ n' text', text' <+: cs → Numeral.WrittenBy n' text' → text' <+: text

/-- The number that a numeral writes in base ten, without its sign and with it. -/
def Numeral.magnitude (n : Numeral) : ℚ :=
  decimalValue n.whole + decimalValue n.fraction / 10 ^ n.fraction.length

def Numeral.value (n : Numeral) : ℚ := if n.negative then -n.magnitude else n.magnitude

/-- A number without its fraction. -/
def towardsZero (q : ℚ) : Int := if 0 ≤ q then ⌊q⌋ else ⌈q⌉

/-! ## Signs and digits -/

section Digits

variable {negative : Bool} {sign body cs ds fs : Text} {c : CodePoint}

def StartsNumeral (c : CodePoint) : Prop := isDigit c = true ∨ c = '.'

theorem splitSign_append (hsign : SignText negative sign)
    (hbody : ∀ c ∈ body.head?, c ≠ '+' ∧ c ≠ '-') : splitSign (sign ++ body) = (negative, body) := by
  cases hsign with
  | plus => rfl
  | minus => rfl
  | none =>
    rw [List.nil_append, splitSign]
    · rintro rest rfl
      exact (hbody _ rfl).2 rfl
    · rintro rest rfl
      exact (hbody _ rfl).1 rfl

theorem exists_signText (cs : Text) :
    ∃ sign, SignText (splitSign cs).1 sign ∧ cs = sign ++ (splitSign cs).2 := by
  unfold splitSign
  split
  · exact ⟨_, .minus, rfl⟩
  · exact ⟨_, .plus, rfl⟩
  · exact ⟨_, .none, rfl⟩

theorem StartsNumeral.ne_sign (h : StartsNumeral c) : c ≠ '+' ∧ c ≠ '-' := by
  rcases h with h | rfl
  · constructor <;> rintro rfl <;> exact absurd h (by decide)
  · decide

/-- The digits before the point at the start of an unsigned text, and those after it. -/
def wholeRun (body : Text) : Text := body.takeWhile isDigit

def pointed (cs : Text) : Text :=
  match cs with
  | '.' :: rest => rest.takeWhile isDigit
  | _ => []

def fractionRun (body : Text) : Text := pointed (body.dropWhile isDigit)

theorem wholeRun_digits (h : c ∈ wholeRun body) : isDigit c = true := List.mem_takeWhile_imp h

theorem fractionRun_digits (h : c ∈ fractionRun body) : isDigit c = true := by
  unfold fractionRun pointed at h
  split at h
  · exact List.mem_takeWhile_imp h
  · cases h

/-- What is read of an unsigned text stands at its start. -/
theorem runs_prefix (body : Text) :
    wholeRun body ++ fractionText (fractionRun body) <+: body := by
  have hcut : wholeRun body ++ body.dropWhile isDigit = body := List.takeWhile_append_dropWhile
  unfold fractionRun pointed
  split
  · rename_i rest hrest
    rw [hrest] at hcut
    conv => rhs; rw [← hcut]
    rw [List.prefix_append_right_inj]
    cases hrun : rest.takeWhile isDigit with
    | nil => exact List.nil_prefix
    | cons d ds =>
      rw [← hrun, fractionText_of_ne_nil (by simp [hrun]), List.cons_prefix_cons]
      exact ⟨rfl, List.takeWhile_prefix _⟩
  · rw [fractionText, List.append_nil]
    exact List.takeWhile_prefix _

theorem runs_append (hds : ∀ c ∈ ds, isDigit c = true) (rest : Text) :
    wholeRun (ds ++ CodePoint.char '.' :: rest) = ds ∧
      fractionRun (ds ++ CodePoint.char '.' :: rest) = rest.takeWhile isDigit := by
  have hpoint : isDigit '.' = false := by decide
  unfold wholeRun fractionRun pointed
  rw [List.takeWhile_append_of_pos hds, List.dropWhile_append_of_pos hds]
  simp [hpoint]

/-- Whatever else stands at the start of an unsigned text is the start of what is read. -/
theorem runs_longest (hds : ∀ c ∈ ds, isDigit c = true) (hfs : ∀ c ∈ fs, isDigit c = true)
    (h : ds ++ fractionText fs <+: body) :
    ds ++ fractionText fs <+: wholeRun body ++ fractionText (fractionRun body) := by
  obtain ⟨rest, rfl⟩ := h
  by_cases hnil : fs = []
  · rw [hnil, fractionText, List.append_nil, wholeRun, List.takeWhile_append_of_pos hds,
      List.append_assoc]
    exact List.prefix_append _ _
  · rw [fractionText_of_ne_nil hnil, List.append_assoc, List.cons_append]
    obtain ⟨hwhole, hfraction⟩ := runs_append hds (fs ++ rest)
    have hmore : fs ++ rest.takeWhile isDigit ≠ [] := List.append_ne_nil_of_left_ne_nil hnil _
    rw [hwhole, hfraction, List.takeWhile_append_of_pos hfs, fractionText_of_ne_nil hmore,
      List.prefix_append_right_inj, List.cons_prefix_cons]
    exact ⟨rfl, List.prefix_append _ _⟩

theorem unsigned_eq_nil : ds ++ fractionText fs = [] ↔ ds = [] ∧ fs = [] := by
  cases fs <;> simp [fractionText]

/-- An unsigned numeral starts with a digit or a point. -/
theorem startsNumeral_of_head? (hds : ∀ c ∈ ds, isDigit c = true)
    (hne : ¬ (ds = [] ∧ fs = [])) (rest : Text)
    (hc : c ∈ (ds ++ fractionText fs ++ rest).head?) : StartsNumeral c := by
  cases ds with
  | cons d ds =>
    obtain rfl : d = c := by simpa using hc
    exact .inl (hds d (by simp))
  | nil =>
    have hfs : fs ≠ [] := fun h => hne ⟨rfl, h⟩
    rw [fractionText_of_ne_nil hfs] at hc
    obtain rfl : CodePoint.char '.' = c := by simpa using hc
    exact .inr rfl

end Digits

/-! ## The decimal reader -/

section Reader

variable {n n' : Numeral} {cs text text' : Text}

/-- The three forms of a numeral at once. -/
theorem writtenBy_iff : n.WrittenBy text ↔ ∃ sign, SignText n.negative sign ∧
    text = sign ++ (n.whole ++ fractionText n.fraction) ∧ (∀ c ∈ n.whole, isDigit c = true) ∧
    (∀ c ∈ n.fraction, isDigit c = true) ∧ ¬ (n.whole = [] ∧ n.fraction = []) := by
  constructor
  · intro h
    cases h with
    | whole hsign hrun =>
      exact ⟨_, hsign, by rw [fractionText, List.append_nil], hrun.digits, by simp, fun h =>
        hrun.nonempty h.1⟩
    | point hsign hrun hafter =>
      exact ⟨_, hsign, by rw [fractionText_of_ne_nil hafter.nonempty], hrun.digits, hafter.digits,
        fun h => hrun.nonempty h.1⟩
    | fraction hsign hafter =>
      exact ⟨_, hsign, by rw [fractionText_of_ne_nil hafter.nonempty, List.nil_append], by simp,
        hafter.digits, fun h => hafter.nonempty h.2⟩
  · obtain ⟨negative, ds, fs⟩ := n
    rintro ⟨sign, hsign, rfl, hds, hfs, hne⟩
    dsimp only at hsign hds hfs hne ⊢
    by_cases hfraction : fs = []
    · subst hfraction
      rw [fractionText, List.append_nil]
      exact .whole hsign ⟨fun h => hne ⟨h, rfl⟩, hds⟩
    · rw [fractionText_of_ne_nil hfraction]
      by_cases hwhole : ds = []
      · subst hwhole
        exact .fraction hsign ⟨hfraction, hfs⟩
      · exact .point hsign ⟨hwhole, hds⟩ ⟨hfraction, hfs⟩

/-- The parts of a text that starts with a numeral. -/
theorem exists_parts (h : n.WrittenBy text) (hstart : text <+: cs) : ∃ sign rest,
    SignText n.negative sign ∧ text = sign ++ (n.whole ++ fractionText n.fraction) ∧
    cs = sign ++ (n.whole ++ fractionText n.fraction ++ rest) ∧
    splitSign cs = (n.negative, n.whole ++ fractionText n.fraction ++ rest) := by
  obtain ⟨sign, hsign, rfl, hds, -, hne⟩ := writtenBy_iff.mp h
  obtain ⟨rest, rfl⟩ := hstart
  refine ⟨sign, rest, hsign, rfl, List.append_assoc _ _ _, ?_⟩
  rw [List.append_assoc]
  exact splitSign_append hsign fun c hc => (startsNumeral_of_head? hds hne rest hc).ne_sign

theorem splitSign_of_writtenBy (h : n.WrittenBy text) :
    splitSign text = (n.negative, n.whole ++ fractionText n.fraction) := by
  obtain ⟨sign, rest, -, htext, hcs, hsplit⟩ := exists_parts h List.prefix_rfl
  obtain rfl : rest = [] := by
    rw [htext] at hcs
    simpa using hcs
  rwa [List.append_nil] at hsplit

theorem leadingDecimal?_eq (cs : Text) : leadingDecimal? cs =
    if wholeRun (splitSign cs).2 = [] ∧ fractionRun (splitSign cs).2 = [] then none
    else some ⟨(splitSign cs).1, wholeRun (splitSign cs).2, fractionRun (splitSign cs).2⟩ := by
  unfold leadingDecimal?
  dsimp only
  split
  · rename_i hwhole hfraction
    exact (if_pos ⟨hwhole, hfraction⟩).symm
  · rename_i hne
    exact (if_neg fun h => hne h.1 h.2).symm

theorem leadingDecimal?_eq_some : leadingDecimal? cs = some n ↔
    ¬ (n.whole = [] ∧ n.fraction = []) ∧ n.negative = (splitSign cs).1 ∧
      n.whole = wholeRun (splitSign cs).2 ∧ n.fraction = fractionRun (splitSign cs).2 := by
  obtain ⟨negative, ds, fs⟩ := n
  rw [leadingDecimal?_eq]
  constructor
  · intro h
    split at h
    · cases h
    · cases h
      exact ⟨‹_›, rfl, rfl, rfl⟩
  · rintro ⟨hne, rfl, rfl, rfl⟩
    exact if_neg hne

/-- What is read is written at the start of the text, and nothing longer is. -/
theorem leads_of_read (h : leadingDecimal? cs = some n) : ∃ text, n.Leads cs text := by
  obtain ⟨hne, hnegative, hwhole, hfraction⟩ := leadingDecimal?_eq_some.mp h
  obtain ⟨sign, hsign, hcs⟩ := exists_signText cs
  have hruns := runs_prefix (splitSign cs).2
  rw [← hnegative] at hsign
  rw [← hwhole, ← hfraction] at hruns
  refine ⟨sign ++ (n.whole ++ fractionText n.fraction), ?_, ?_, ?_⟩
  · conv => rhs; rw [hcs]
    exact (List.prefix_append_right_inj _).mpr hruns
  · refine writtenBy_iff.mpr ⟨sign, hsign, rfl, ?_, ?_, hne⟩
    · rw [hwhole]
      exact fun c => wholeRun_digits
    · rw [hfraction]
      exact fun c => fractionRun_digits
  · intro n' text' hstart' hwritten'
    obtain ⟨sign', rest, hsign', rfl, hcs', hsplit⟩ := exists_parts hwritten' hstart'
    obtain ⟨-, -, -, hds, hfs, -⟩ := writtenBy_iff.mp hwritten'
    have hbody : (splitSign cs).2 = n'.whole ++ fractionText n'.fraction ++ rest := by rw [hsplit]
    have hsame : sign = sign' := by
      rw [hbody] at hcs
      exact List.append_cancel_right (hcs.symm.trans hcs')
    have hlongest := runs_longest hds hfs (List.prefix_append _ rest)
    rw [← hbody, ← hwhole, ← hfraction] at hlongest
    rw [hsame]
    exact (List.prefix_append_right_inj _).mpr hlongest

/-- Where a numeral is written at the start of a text, one is read. -/
theorem leadingDecimal?_ne_none (h : n.WrittenBy text) (hstart : text <+: cs) :
    ∃ n', leadingDecimal? cs = some n' := by
  obtain ⟨sign, rest, -, -, -, hsplit⟩ := exists_parts h hstart
  obtain ⟨-, -, -, hds, hfs, hne⟩ := writtenBy_iff.mp h
  have hlongest := runs_longest hds hfs (List.prefix_append _ rest)
  rw [leadingDecimal?_eq, hsplit]
  dsimp only
  refine ⟨_, if_neg ?_⟩
  rintro ⟨hwhole, hfraction⟩
  rw [hwhole, hfraction] at hlongest
  exact hne (unsigned_eq_nil.mp (List.prefix_nil.mp hlongest))

theorem leadingDecimal?_eq_none :
    leadingDecimal? cs = none ↔ ∀ n text, text <+: cs → ¬ Numeral.WrittenBy n text := by
  constructor
  · intro h n text hstart hwritten
    obtain ⟨n', hread⟩ := leadingDecimal?_ne_none hwritten hstart
    rw [h] at hread
    cases hread
  · intro h
    cases hread : leadingDecimal? cs with
    | none => rfl
    | some n =>
      obtain ⟨text, hleads⟩ := leads_of_read hread
      exact absurd hleads.written (h n text hleads.start)

/-- A text writes one numeral at most. -/
theorem leadingDecimal?_of_writtenBy (h : n.WrittenBy text) : leadingDecimal? text = some n := by
  obtain ⟨-, -, -, hds, hfs, hne⟩ := writtenBy_iff.mp h
  rw [leadingDecimal?_eq_some, splitSign_of_writtenBy h]
  refine ⟨hne, rfl, ?_⟩
  dsimp only
  by_cases hnil : n.fraction = []
  · have hall : n.whole.takeWhile isDigit = n.whole := List.takeWhile_eq_self_iff.mpr hds
    have hnone : n.whole.dropWhile isDigit = [] := List.dropWhile_eq_nil_iff.mpr hds
    rw [hnil, fractionText, List.append_nil, wholeRun, fractionRun, hall, hnone]
    exact ⟨rfl, rfl⟩
  · obtain ⟨hwhole, hfraction⟩ := runs_append hds n.fraction
    rw [fractionText_of_ne_nil hnil, hwhole, hfraction, List.takeWhile_eq_self_iff.mpr hfs]
    exact ⟨rfl, rfl⟩

theorem leadingDecimal?_eq_some_iff_leads :
    leadingDecimal? cs = some n ↔ ∃ text, n.Leads cs text := by
  constructor
  · exact leads_of_read
  · rintro ⟨text, hleads⟩
    obtain ⟨n', hread⟩ := leadingDecimal?_ne_none hleads.written hleads.start
    obtain ⟨text', hleads'⟩ := leads_of_read hread
    have hlonger := hleads.longest n' text' hleads'.start hleads'.written
    have hshorter := hleads'.longest n text hleads.start hleads.written
    obtain rfl : text = text' :=
      hshorter.eq_of_length (Nat.le_antisymm hshorter.length_le hlonger.length_le)
    have hsame := leadingDecimal?_of_writtenBy hleads'.written
    rw [leadingDecimal?_of_writtenBy hleads.written] at hsame
    rw [hread, hsame]

end Reader

/-! ## The text as a whole -/

section Conversion

variable {n : Numeral} {text body ds fs : Text} {c : CodePoint}

theorem isBlank_of_mem_signText {negative : Bool} {sign : Text} (h : SignText negative sign)
    (hc : c ∈ sign) : isBlank c = false := by
  cases h with
  | none => cases hc
  | plus =>
    rw [List.mem_singleton.mp hc]
    decide
  | minus =>
    rw [List.mem_singleton.mp hc]
    decide

theorem isBlank_of_mem_fractionText (hfs : ∀ c ∈ fs, isDigit c = true) (hc : c ∈ fractionText fs) :
    isBlank c = false := by
  cases fs with
  | nil => cases hc
  | cons f fs =>
    rcases List.mem_cons.mp hc with rfl | hc
    · decide
    · exact isBlank_of_isDigit (hfs c hc)

theorem isBlank_of_mem_written (h : n.WrittenBy text) (hc : c ∈ text) : isBlank c = false := by
  obtain ⟨sign, hsign, rfl, hds, hfs, -⟩ := writtenBy_iff.mp h
  rw [List.mem_append, List.mem_append] at hc
  rcases hc with hc | hc | hc
  · exact isBlank_of_mem_signText hsign hc
  · exact isBlank_of_isDigit (hds c hc)
  · exact isBlank_of_mem_fractionText hfs hc

theorem StartsNumeral.toLower_eq (h : StartsNumeral c) : c.toLower = c := by
  rcases h with h | rfl
  · cases c with
    | surrogate n => rfl
    | char c =>
      have hcode : ¬ (65 ≤ c.toNat ∧ c.toNat ≤ 90) :=
        of_isDigit (p := fun n => ¬ (65 ≤ n ∧ n ≤ 90)) (by decide +kernel) h
      exact congrArg CodePoint.char (dif_neg hcode)
  · rfl

/-- A text that starts as a numeral is none of the words for infinities and no numbers. -/
theorem ne_word {word : Text} (hbody : ∀ c ∈ body.head?, StartsNumeral c)
    (hword : ∃ c ∈ word.head?, isDigit c = false ∧ c ≠ '.') :
    (body.map CodePoint.toLower) ≠ word := by
  rintro rfl
  obtain ⟨c, hc, hdigit, hpoint⟩ := hword
  rw [List.head?_map] at hc
  obtain ⟨d, hd, rfl⟩ := Option.map_eq_some_iff.mp hc
  have hstart := hbody d hd
  rw [hstart.toLower_eq] at hdigit hpoint
  rcases hstart with h | h
  · rw [h] at hdigit
    cases hdigit
  · exact hpoint h

theorem decimalText?_unsigned (hds : ∀ c ∈ ds, isDigit c = true) (hfs : ∀ c ∈ fs, isDigit c = true)
    (hne : ¬ (ds = [] ∧ fs = [])) : decimalText? (ds ++ fractionText fs) = some ⟨ds, fs, 0, []⟩ := by
  have hpoint : isDigit '.' = false := by decide
  have htake : fs.takeWhile isDigit = fs := List.takeWhile_eq_self_iff.mpr hfs
  have hdrop : fs.dropWhile isDigit = [] := List.dropWhile_eq_nil_iff.mpr hfs
  unfold decimalText?
  rw [List.takeWhile_append_of_pos hds, List.dropWhile_append_of_pos hds]
  by_cases hnil : fs = []
  · have hds' : ds ≠ [] := fun h => hne ⟨h, hnil⟩
    simp [hnil, fractionText, hds']
  · simp [fractionText_of_ne_nil hnil, hpoint, htake, hdrop, hnil]

/-- A text that writes a numeral is the text of a number, which is that of the numeral. -/
theorem readBinary64?_of_writtenBy (h : n.WrittenBy text) : readBinary64? text = some n.toBinary64 := by
  obtain ⟨-, -, -, hds, hfs, hne⟩ := writtenBy_iff.mp h
  have hvisible : ∀ c ∈ text, isNumberBlank c = false := fun c hc => by
    simp [isNumberBlank, isBlank_of_mem_written h hc]
  have hstrip : stripOf isNumberBlank text = text :=
    stripOf_of_ends (fun c hc => hvisible c (List.mem_of_mem_head? hc))
      fun c hc => hvisible c (List.mem_of_getLast? hc)
  have hstart : ∀ c ∈ (n.whole ++ fractionText n.fraction).head?, StartsNumeral c := by
    intro c hc
    refine startsNumeral_of_head? hds hne [] ?_
    rwa [List.append_nil]
  have hword : ∀ word ∈ (["inf", "infinity", "nan"] : List Text),
      (((n.whole ++ fractionText n.fraction).map CodePoint.toLower) == word) = false := by
    intro word hword
    rw [beq_eq_false_iff_ne]
    refine ne_word hstart ?_
    simp only [List.mem_cons, List.not_mem_nil, or_false] at hword
    rcases hword with rfl | rfl | rfl <;> exact ⟨_, rfl, by decide⟩
  unfold readBinary64?
  rw [hstrip, splitSign_of_writtenBy h]
  dsimp only
  rw [hword "inf" (by simp), hword "infinity" (by simp), hword "nan" (by simp),
    decimalText?_unsigned hds hfs hne]
  simp [Numeral.toBinary64]

theorem Numeral.magnitude_nonneg (n : Numeral) : 0 ≤ n.magnitude := by
  unfold Numeral.magnitude
  positivity

theorem Numeral.abs_value (n : Numeral) : |n.value| = n.magnitude := by
  unfold Numeral.value
  cases n.negative with
  | true => simp [n.magnitude_nonneg]
  | false => simp [n.magnitude_nonneg]

/-- The point of a numeral is a power of ten behind its digits. -/
theorem Numeral.magnitude_eq (n : Numeral) : n.magnitude =
    decimalValue (n.whole ++ n.fraction) * 10 ^ (-(n.fraction.length : Int)) := by
  rw [Numeral.magnitude, decimalValue_cut, zpow_neg, zpow_natCast, ← div_eq_mul_inv]
  push_cast
  field_simp

/-- The double-precision number of a numeral is the one that the numeral rounds to. -/
theorem Numeral.toBinary64_eq {m : Nat} {e : Int} (hnormal : Binary64.Normal m e) (hm : 0 < m)
    (h : Binary64.RoundsTo m e |n.value|) : n.toBinary64 = .finite n.negative m e := by
  rw [n.abs_value, n.magnitude_eq] at h
  exact Binary64.ofDecimal_eq hnormal hm h

end Conversion

/-! ## The integer reader -/

section Integers

variable {n : Numeral} {cs : Text} {s : Text} {i : Int}

/-- The number at the start of a text, zero if there is none. -/
def leadingValue (cs : Text) : ℚ :=
  match leadingDecimal? cs with
  | none => 0
  | some n => n.value

def leadingRun (cs : Text) : Text := wholeRun (splitSign cs).2

theorem floor_magnitude (n : Numeral) : ⌊n.magnitude⌋ = decimalValue n.whole := by
  have hsmall : (decimalValue n.fraction : ℚ) / 10 ^ n.fraction.length < 1 := by
    rw [div_lt_one (by positivity), ← cast_tenTo]
    exact_mod_cast decimalValue_lt n.fraction
  have hnonneg : (0 : ℚ) ≤ decimalValue n.fraction / 10 ^ n.fraction.length := by positivity
  rw [Int.floor_eq_iff, Numeral.magnitude]
  push_cast
  exact ⟨by linarith, by linarith⟩

/-- Without its fraction a numeral is the integer that its digits before the point write. -/
theorem towardsZero_value (n : Numeral) : towardsZero n.value = n.toInt := by
  have hfloor := floor_magnitude n
  have hnonneg := n.magnitude_nonneg
  unfold towardsZero Numeral.value Numeral.toInt signed
  cases n.negative with
  | false => simp only [Bool.false_eq_true, if_false, if_pos hnonneg, hfloor]
  | true =>
    simp only [if_true]
    split
    · -- only a zero is not below zero with its sign
      have hzero : n.magnitude = 0 := by linarith
      rw [hzero, Int.floor_zero] at hfloor
      rw [hzero, neg_zero, Int.floor_zero, ← hfloor, neg_zero]
    · rw [Int.ceil_neg, hfloor]

theorem leadingInteger?_eq (cs : Text) : leadingInteger? cs =
    if leadingRun cs = [] then none else some ⟨(splitSign cs).1, leadingRun cs, []⟩ := by
  unfold leadingInteger?
  dsimp only
  split
  · rename_i hnil
    exact (if_pos hnil).symm
  · rename_i hne
    exact (if_neg hne).symm

theorem signed_nil (negative : Bool) : signed negative (decimalValue []) = 0 := by
  cases negative <;> rfl

/-- The decimal reader finds the same digits before the point, and maybe a number where the
integer reader finds none. -/
theorem towardsZero_leadingValue (cs : Text) :
    towardsZero (leadingValue cs) = signed (splitSign cs).1 (decimalValue (leadingRun cs)) := by
  by_cases hnone : leadingRun cs = [] ∧ fractionRun (splitSign cs).2 = []
  · have hread : leadingDecimal? cs = none := (leadingDecimal?_eq cs).trans (if_pos hnone)
    rw [leadingValue, hread, hnone.1, signed_nil]
    simp [towardsZero]
  · have hread : leadingDecimal? cs = some _ := (leadingDecimal?_eq cs).trans (if_neg hnone)
    rw [leadingValue, hread]
    exact towardsZero_value _

theorem leadingIntegerOf_eq (s : Text) : Value.leadingIntegerOf s =
    if digitLimit < (leadingRun (trim s)).length
    then .error (.longNumeral (leadingRun (trim s)).length)
    else .ok (towardsZero (leadingValue (trim s))) := by
  rw [towardsZero_leadingValue, Value.leadingIntegerOf, leadingInteger?_eq]
  by_cases hnil : leadingRun (trim s) = []
  · rw [if_pos hnil, hnil, signed_nil]
    rfl
  · rw [if_neg hnil]
    rfl

/-- A text that writes a numeral starts with it and nothing else. -/
theorem leading_of_writtenBy {text : Text} (h : n.WrittenBy text) :
    trim text = text ∧ leadingRun text = n.whole ∧ leadingValue text = n.value := by
  have hread := leadingDecimal?_of_writtenBy h
  obtain ⟨-, -, hwhole, -⟩ := leadingDecimal?_eq_some.mp hread
  refine ⟨?_, hwhole.symm, by rw [leadingValue, hread]⟩
  exact stripOf_of_ends (fun c hc => isBlank_of_mem_written h (List.mem_of_mem_head? hc))
    fun c hc => isBlank_of_mem_written h (List.mem_of_getLast? hc)

theorem digitRun_of_digits {ds : Text} (hds : Digits ds) (hne : ds ≠ []) : DigitRun ds :=
  ⟨hne, fun c hc => isDigit_of_isAsciiDigit (hds c hc)⟩

theorem signText_shortest (negative : Bool) :
    SignText negative (if negative then [.char '-'] else []) := by
  cases negative with
  | true => exact .minus
  | false => exact .none

theorem writtenBy_integerText {t : Text} (h : integerText i = .ok t) :
    Numeral.WrittenBy ⟨decide (i < 0), digits 10 i.natAbs, []⟩ t := by
  rw [(integerText_eq_ok.mp h).2]
  exact .whole (signText_shortest _) (digitRun_of_digits (digits_digits _) digits_ne_nil)

/-- The digits of an integer are read as that integer. -/
theorem leadingIntegerOf_integerText {t : Text} (h : integerText i = .ok t) :
    Value.leadingIntegerOf t = .ok i := by
  obtain ⟨htrim, hrun, hvalue⟩ := leading_of_writtenBy (writtenBy_integerText h)
  have hint : Numeral.toInt ⟨decide (i < 0), digits 10 i.natAbs, []⟩ = i := by
    rw [Numeral.toInt, decimalValue_digits, signed_natAbs]
  rw [leadingIntegerOf_eq, htrim, hrun, hvalue, towardsZero_value, hint,
    if_neg (Nat.not_lt.mpr (integerText_eq_ok.mp h).1)]

end Integers

/-- The integer reader and the decimal reader read the same number.  As long as its digits
before the point keep within the limit, the integer is the number without its fraction; the
other is the double-precision number of exactly the text that writes it, and that is the one to
which the number rounds.  The text is the longest part at the start of the trimmed text that
writes a numeral, and there is one whenever any part at the start writes one.  An integer that
can be written is read back. -/
theorem integer_and_number_read_alike (s : Text) (i : Int) :
    ((leadingRun (trim s)).length ≤ digitLimit →
      Value.toInteger (.str s) = .ok (towardsZero (leadingValue (trim s))) ∧
      Builtin.toI.apply [.str s] = .ok (.int (towardsZero (leadingValue (trim s))))) ∧
    (∀ n text, Numeral.Leads n (trim s) text →
      leadingValue (trim s) = n.value ∧
      ∃ x, readBinary64? text = some x ∧ Builtin.toF.apply [.str s] = .ok (.float x) ∧
        ∀ m e, Binary64.Normal m e → 0 < m → Binary64.RoundsTo m e |n.value| →
          x = .finite n.negative m e) ∧
    ((∀ n text, text <+: trim s → ¬ Numeral.WrittenBy n text) →
      leadingValue (trim s) = 0 ∧ Builtin.toF.apply [.str s] = .ok (.float .zero)) ∧
    (∀ n, leadingDecimal? (trim s) = some n ↔ ∃ text, n.Leads (trim s) text) ∧
    (leadingDecimal? (trim s) = none ↔
      ∀ n text, text <+: trim s → ¬ Numeral.WrittenBy n text) ∧
    ((Nat.toDigits 10 i.natAbs).length ≤ digitLimit →
      ∃ t, (Value.int i).text? = .ok t ∧ Value.toInteger (.str t) = .ok i) := by
  have hfloat : ∀ x, Value.leadingNumberOf s = x → Builtin.toF.apply [.str s] = .ok (.float x) := by
    rintro x rfl
    rfl
  refine ⟨?_, ?_, ?_, fun n => leadingDecimal?_eq_some_iff_leads, leadingDecimal?_eq_none, ?_⟩
  · intro hshort
    have hread : Value.toInteger (.str s) = .ok (towardsZero (leadingValue (trim s))) :=
      (leadingIntegerOf_eq s).trans (if_neg (Nat.not_lt.mpr hshort))
    have hcall : Builtin.toI.apply [.str s] = Value.int <$> Value.toInteger (.str s) := rfl
    exact ⟨hread, by rw [hcall, hread]; rfl⟩
  · intro n text hleads
    have hread := leadingDecimal?_eq_some_iff_leads.mpr ⟨text, hleads⟩
    refine ⟨by rw [leadingValue, hread], n.toBinary64, readBinary64?_of_writtenBy hleads.written,
      hfloat _ (by rw [Value.leadingNumberOf, hread]), fun m e hnormal hm hrounds => ?_⟩
    exact Numeral.toBinary64_eq hnormal hm hrounds
  · intro hnone
    have hread := leadingDecimal?_eq_none.mpr hnone
    exact ⟨by rw [leadingValue, hread], hfloat _ (by rw [Value.leadingNumberOf, hread])⟩
  · intro hshort
    obtain ⟨t, ht⟩ : ∃ t, integerText i = .ok t :=
      ⟨_, integerText_eq_ok.mpr ⟨(length_digits 10 _).trans_le hshort, rfl⟩⟩
    exact ⟨t, ht, leadingIntegerOf_integerText ht⟩

end XmlHarvest
