import XmlHarvest.Proofs.Json.Number
import XmlHarvest.Proofs.Json.Strings
import XmlHarvest.Proofs.Value.Texts

/-! # Reading back what scalars are written as

A text is read as a value when reading takes all of it and no more, whatever follows.  The
text of a clean scalar is read as that scalar, but for a text that is spelled so that another
one is read back. -/
set_option autoImplicit false

namespace XmlHarvest.Json

open Text

/-! ## White space -/

def Blank (cs : Text) : Prop := ∀ c ∈ cs, isSpace c = true

/-- A text that begins with a character, neither white space nor a closing bracket. -/
def Begins (cs : Text) : Prop :=
  ∃ c tail, cs = c :: tail ∧ isSpace c = false ∧ c ≠ ']' ∧ c ≠ '\x7d'

section Space

variable {ws cs rest : Text} {c : CodePoint}

theorem skipSpace_append (hws : Blank ws) (hc : isSpace c = false) (rest : Text) :
    skipSpace (ws ++ c :: rest) = c :: rest := by
  rw [skipSpace, List.dropWhile_append_of_pos hws]
  simp [hc]

theorem skipSpace_cons (hc : isSpace c = false) : skipSpace (c :: rest) = c :: rest := by
  have hnone : Blank [] := by simp [Blank]
  exact skipSpace_append hnone hc rest

theorem Begins.append (h : Begins cs) (rest : Text) : Begins (cs ++ rest) := by
  obtain ⟨c, tail, rfl, hc⟩ := h
  exact ⟨c, tail ++ rest, rfl, hc⟩

theorem Begins.skipSpace (h : Begins cs) (hws : Blank ws) : skipSpace (ws ++ cs) = cs := by
  obtain ⟨c, tail, rfl, hspace, -⟩ := h
  exact skipSpace_append hws hspace tail

theorem endsNumber_of_blank (hws : Blank ws) (hrest : EndsNumber rest) : EndsNumber (ws ++ rest) := by
  cases ws with
  | nil => exact hrest
  | cons c ws =>
    intro d hd
    obtain rfl : c = d := by simpa using hd
    have hspace := hws c (by simp)
    simp only [isSpace, Bool.or_eq_true, beq_iff_eq] at hspace
    obtain ((rfl | rfl) | rfl) | rfl := hspace <;> decide

theorem endsNumber_cons (hc : c = ',' ∨ c = ']' ∨ c = '\x7d') : EndsNumber (c :: rest) := by
  intro d hd
  obtain rfl : c = d := by simpa using hd
  obtain rfl | rfl | rfl := hc <;> decide

end Space

/-! ## What a text is read as -/

def spelled (f : CodePoint → Text) (s : Text) : Text := s.flatMap f

@[simp] theorem spelled_append (f : CodePoint → Text) (s t : Text) :
    spelled f (s ++ t) = spelled f s ++ spelled f t := by
  rw [spelled, List.flatMap_append]
  rfl

theorem spelled_ascii {f : CodePoint → Text} {g : Text → Text} (hf : Spelling f g) (cs : Text)
    (h : Ascii cs) : spelled f cs = cs :=
  hf.ascii.flatMap_ascii h

/-- A text is read as a value, whatever follows it, if that does not continue a number. -/
structure ReadsAs (cs : Text) (v : Value) : Prop where
  begins : Begins cs
  reads : ∀ fuel rest, cs.length ≤ fuel → EndsNumber rest → value fuel (cs ++ rest) = .ok (v, rest)

/-- A text is not empty, so reading it has one step at least. -/
theorem ReadsAs.of_step {cs : Text} {v : Value} (hbegins : Begins cs)
    (h : ∀ fuel rest, cs.length ≤ fuel + 1 → EndsNumber rest →
      value (fuel + 1) (cs ++ rest) = .ok (v, rest)) : ReadsAs cs v := by
  refine ⟨hbegins, ?_⟩
  intro fuel rest hfuel hrest
  cases fuel with
  | zero =>
    obtain ⟨c, tail, rfl, -⟩ := hbegins
    simp at hfuel
  | succ fuel => exact h fuel rest hfuel hrest

/-! ## Scalars -/

section Scalars

variable {c : CodePoint} {cs text : Text} {fuel : Nat}

theorem value_atom (hquote : c ≠ '"') (hlist : c ≠ '[') (hmap : c ≠ '\x7b') :
    value (fuel + 1) (c :: cs) = atom (c :: cs) := by
  rw [value]
  · intro _ h
    cases h
    exact hquote rfl
  · intro _ h
    cases h
    exact hlist rfl
  · intro _ h
    cases h
    exact hmap rfl

theorem literals_eq : literals =
    ([(['n', 'u', 'l', 'l'], .null), (['t', 'r', 'u', 'e'], .bool true),
      (['f', 'a', 'l', 's', 'e'], .bool false), (['N', 'a', 'N'], .float .nan),
      (['I', 'n', 'f', 'i', 'n', 'i', 't', 'y'], .float (.infinite false)),
      (['-', 'I', 'n', 'f', 'i', 'n', 'i', 't', 'y'], .float (.infinite true))] :
      List (Text × Value)) := rfl

theorem ne_of_isAsciiDigit {d : CodePoint} (hc : isAsciiDigit c = true) (hd : isAsciiDigit d = false) :
    (d == c) = false := by
  rw [beq_eq_false_iff_ne]
  rintro rfl
  rw [hc] at hd
  cases hd

/-- What begins with a digit, or with a minus and a digit, is a number. -/
theorem atom_of_digit (negative : Bool) (hc : isAsciiDigit c = true) (cs : Text) :
    atom ((if negative then [.char '-'] else []) ++ c :: cs) = number negative (c :: cs) := by
  have hne : ∀ d, isAsciiDigit d = false → (d == c) = false := fun d => ne_of_isAsciiDigit hc
  have hnone : ∀ p ∈ literals,
      p.1.isPrefixOf ((if negative then [.char '-'] else []) ++ c :: cs) = false := by
    cases negative <;>
      simp [literals_eq, List.isPrefixOf, hne 'n' rfl, hne 't' rfl, hne 'f' rfl, hne 'N' rfl,
        hne 'I' rfl, hne '-' rfl]
  unfold atom
  split
  · rename_i word v hfind
    have hmisses := hnone _ (List.mem_of_find?_eq_some hfind)
    have hfound := List.find?_some hfind
    change word.isPrefixOf _ = true at hfound
    rw [hmisses] at hfound
    cases hfound
  · cases negative with
    | true => rfl
    | false =>
      split
      · rename_i heq
        cases heq
        cases hc
      · rfl

theorem ReadsAs.number {v : Value} (negative : Bool) (hc : isAsciiDigit c = true)
    (hreads : ∀ rest, EndsNumber rest → number negative (c :: cs ++ rest) = .ok (v, rest)) :
    ReadsAs ((if negative then [.char '-'] else []) ++ c :: cs) v := by
  have hne : ∀ d, isAsciiDigit d = false → c ≠ d := by
    intro d hd h
    rw [h, hd] at hc
    cases hc
  refine .of_step ?begins ?step
  case begins =>
    cases negative with
    | true => exact ⟨'-', c :: cs, rfl, by decide⟩
    | false =>
      refine ⟨c, cs, rfl, ?_, hne _ rfl, hne _ rfl⟩
      simp [isSpace, hne ' ' rfl, hne '\t' rfl, hne '\n' rfl, hne '\r' rfl]
  case step =>
    intro fuel rest _ hrest
    have hatom := atom_of_digit negative hc (cs ++ rest)
    rw [← List.cons_append, hreads rest hrest] at hatom
    rw [List.append_assoc, ← hatom]
    cases negative with
    | true => exact value_atom (by decide) (by decide) (by decide)
    | false => exact value_atom (hne _ rfl) (hne _ rfl) (hne _ rfl)

theorem atom_literal {word : Text} {v : Value} (h : (word, v) ∈ literals) (rest : Text) :
    atom (word ++ rest) = .ok (v, rest) := by
  simp only [literals_eq, List.mem_cons, List.not_mem_nil, or_false, Prod.mk.injEq] at h
  obtain ⟨rfl, rfl⟩ | ⟨rfl, rfl⟩ | ⟨rfl, rfl⟩ | ⟨rfl, rfl⟩ | ⟨rfl, rfl⟩ | ⟨rfl, rfl⟩ := h
  all_goals rfl

theorem ascii_of_digits {ds : Text} (h : Digits ds) : Ascii ds := by
  intro c hc
  have := isAsciiDigit_iff.mp (h c hc)
  omega

theorem ascii_sign (negative : Bool) : Ascii (if negative then [.char '-'] else []) := by
  cases negative <;> decide

theorem ascii_exponentText (p : Int) : Ascii (Binary64.exponentText p) := by
  have hdigits := ascii_of_digits (digits_digits p.natAbs)
  unfold Binary64.exponentText
  refine .cons ?_ ?_
  · split <;> decide
  · split
    · exact hdigits.cons (by decide)
    · exact hdigits

theorem ascii_decimalText (d : Binary64.Decimal) : Ascii (Binary64.decimalText d) := by
  obtain ⟨whole, fraction, power?, hspells⟩ := exists_spells d
  rw [hspells.text]
  refine (ascii_of_digits hspells.leading.digits).append (.append ?_ ?_)
  · cases fraction with
    | nil => exact ascii_of_digits hspells.digits
    | cons c cs => exact (ascii_of_digits hspells.digits).cons (by decide)
  · cases power? with
    | none => decide
    | some p => exact (ascii_exponentText p).cons (by decide)

theorem ascii_integerText {i : Int} (h : integerText i = .ok text) : Ascii text := by
  rw [(integerText_eq_ok.mp h).2]
  exact (ascii_sign _).append (ascii_of_digits (digits_digits _))

theorem text_finite (negative : Bool) (m : Nat) (e : Int) : Binary64.text (.finite negative m e) =
    (if negative then [.char '-'] else []) ++ Binary64.decimalText (Binary64.shortest m e) := by
  have hsign : Text.ofString (if negative then "-" else "") =
      if negative then [.char '-'] else [] := by cases negative <;> rfl
  rw [Binary64.text, hsign]

theorem ascii_numberText (x : Binary64) : Ascii (numberText x) := by
  cases x with
  | nan => decide
  | infinite negative => cases negative <;> decide
  | finite negative m e =>
    rw [numberText]
    · rw [text_finite]
      exact (ascii_sign negative).append (ascii_decimalText _)
    all_goals simp

variable {f : CodePoint → Text} {g : Text → Text}

theorem literal_reads (hf : Spelling f g) (word : Text) {v : Value} (h : (word, v) ∈ literals) :
    ReadsAs (spelled f word) v := by
  have hword : ∀ p ∈ literals, Ascii p.1 ∧ ∃ c tail, p.1 = c :: tail ∧ isSpace c = false ∧
      c ≠ ']' ∧ c ≠ '\x7d' ∧ c ≠ '"' ∧ c ≠ '[' ∧ c ≠ '\x7b' := by
    simp only [literals_eq, List.forall_mem_cons, List.not_mem_nil, false_implies, implies_true,
      and_true]
    refine ⟨?_, ?_, ?_, ?_, ?_, ?_⟩
    all_goals exact ⟨by decide, _, _, rfl, by decide⟩
  obtain ⟨hascii, c, tail, hcons, hspace, hitems, hmembers, hquote, hlist, hmap⟩ := hword _ h
  rw [spelled_ascii hf word hascii]
  refine .of_step ⟨c, tail, hcons, hspace, hitems, hmembers⟩ ?_
  intro fuel rest _ _
  rw [← atom_literal h rest]
  dsimp only at hcons
  rw [hcons]
  exact value_atom hquote hlist hmap

theorem integer_reads (hf : Spelling f g) {i : Int} {text : Text} (h : integerText i = .ok text) :
    ReadsAs (spelled f text) (.int i) := by
  set ds := digits 10 i.natAbs with hds
  have hlong : ¬ digitLimit < ds.length := by
    intro hlong
    rw [integerText, if_pos hlong] at h
    cases h
  rw [spelled_ascii hf _ (ascii_integerText h), (integerText_eq_ok.mp h).2]
  obtain ⟨c, cs, hcons⟩ := List.exists_cons_of_ne_nil (digits_ne_nil (n := i.natAbs))
  rw [hcons]
  refine ReadsAs.number _ (digits_digits i.natAbs c (by simp [hcons])) fun rest hrest => ?_
  have hnone : Digits [] := by simp [Digits]
  have hread := number_spelled (decide (i < 0)) none (whole_digits i.natAbs) hnone hrest
  rw [if_pos ⟨rfl, rfl⟩, if_neg hlong, decimalValue_digits, signed_natAbs,
    hcons] at hread
  exact hread

theorem finite_reads (hf : Spelling f g) (negative : Bool) {m : Nat} {e : Int}
    (hnormal : Binary64.Normal m e) :
    ReadsAs (spelled f (Binary64.text (.finite negative m e))) (.float (.finite negative m e)) := by
  have hascii := (ascii_sign negative).append (ascii_decimalText (Binary64.shortest m e))
  obtain ⟨whole, fraction, power?, hspells⟩ := exists_spells (Binary64.shortest m e)
  obtain ⟨c, cs, hcons⟩ := List.exists_cons_of_ne_nil hspells.leading.nonempty
  have hc : isAsciiDigit c = true := hspells.leading.digits c (by simp [hcons])
  have hnumber : ∀ rest, EndsNumber rest →
      Json.number negative (Binary64.decimalText (Binary64.shortest m e) ++ rest) =
        .ok (.float (.finite negative m e), rest) :=
    fun rest hrest => number_decimalText negative hnormal hrest
  rw [text_finite, spelled_ascii hf _ hascii]
  rw [hspells.text, hcons] at hnumber ⊢
  exact ReadsAs.number negative hc hnumber

theorem spelled_quoted (hf : Spelling f g) (s : Text) : spelled f (quoted s) =
    .char '"' :: ((s.flatMap escapeChar).flatMap f ++ [.char '"']) := by
  have hquote : spelled f "\"" = ['"'] := spelled_ascii hf ['"'] (by decide)
  rw [quoted, spelled_append, spelled_append, hquote]
  rfl

theorem string_quoted (hf : Spelling f g) (s : Text) (rest : Text) :
    ∃ body, spelled f (quoted s) ++ rest = .char '"' :: body ∧
      string (body.length + 1) body = .ok (g s, rest) := by
  refine ⟨(s.flatMap escapeChar).flatMap f ++ .char '"' :: rest, ?_, ?_⟩
  · rw [spelled_quoted hf]
    simp
  · refine hf.reads s _ rest ?_
    have := hf.length_le_escaped s
    rw [List.length_append]
    omega

theorem begins_quoted (hf : Spelling f g) (s : Text) : Begins (spelled f (quoted s)) :=
  ⟨'"', _, spelled_quoted hf s, by decide⟩

theorem quoted_reads (hf : Spelling f g) (s : Text) :
    ReadsAs (spelled f (quoted s)) (.str (g s)) := by
  refine .of_step (begins_quoted hf s) ?_
  intro fuel rest _ _
  obtain ⟨body, hbody, hstring⟩ := string_quoted hf s rest
  rw [hbody, value, hstring]
  rfl

theorem scalar_reads (hf : Spelling f g) {s : Scalar} {text : Text} (hclean : s.Clean)
    (h : scalarText s = .ok text) : ReadsAs (spelled f text) (.scalar (s.mapText g)) := by
  cases s with
  | null =>
    cases h
    exact literal_reads hf ['n', 'u', 'l', 'l'] (v := .null) (by simp [literals_eq])
  | bool b =>
    cases b with
    | true =>
      cases h
      exact literal_reads hf ['t', 'r', 'u', 'e'] (v := .bool true) (by simp [literals_eq])
    | false =>
      cases h
      exact literal_reads hf ['f', 'a', 'l', 's', 'e'] (v := .bool false) (by simp [literals_eq])
  | int i => exact integer_reads hf h
  | float x =>
    obtain ⟨hcanonical, hnan⟩ := hclean
    cases x with
    | nan => exact absurd rfl hnan
    | infinite negative =>
      cases negative with
      | true =>
        cases h
        exact literal_reads hf ['-', 'I', 'n', 'f', 'i', 'n', 'i', 't', 'y']
          (v := .float (.infinite true)) (by simp [literals_eq])
      | false =>
        cases h
        exact literal_reads hf ['I', 'n', 'f', 'i', 'n', 'i', 't', 'y']
          (v := .float (.infinite false)) (by simp [literals_eq])
    | finite negative m e =>
      cases h
      exact finite_reads hf negative hcanonical
  | str s =>
    cases h
    exact quoted_reads hf s
  | time t => exact hclean.elim

end Scalars

end XmlHarvest.Json
