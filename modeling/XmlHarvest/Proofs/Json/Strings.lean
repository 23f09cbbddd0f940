import XmlHarvest.Json.Printer
import XmlHarvest.Json.Reader
import XmlHarvest.Proofs.Text.Halves

/-! # Reading back what texts are written as

Each code point of a text is written as itself or as one escape, and is read in one step
from either.  Whatever is beyond ASCII can be escaped by number as well; a high surrogate
and a low one behind it are then read as the one character whose halves they are. -/
set_option autoImplicit false

namespace XmlHarvest.Json

open Text

/-! ## Escapes by number -/

theorem hexDigit?_digitChar {k : Nat} (hk : k < 16) : hex4?.hexDigit? k.digitChar = some k := by
  revert k
  decide

theorem hexDigits_four {n : Nat} (hn : n < 0x10000) :
    hexDigits 4 n = .ofChars [(n / 4096).digitChar, (n / 256 % 16).digitChar,
      (n / 16 % 16).digitChar, (n % 16).digitChar] := by
  have htwo : n / 16 / 16 = n / 256 := Nat.div_div_eq_div_mul _ _ _
  have hthree : n / 256 / 16 = n / 4096 := Nat.div_div_eq_div_mul _ _ _
  unfold hexDigits digits
  rw [Nat.toDigits_eq_if (by decide)]
  split
  · rename_i h
    simp [show n / 4096 = 0 by omega, show n / 256 % 16 = 0 by omega, show n / 16 % 16 = 0 by omega,
      Nat.mod_eq_of_lt h, List.replicate, Nat.digitChar]
  · rw [Nat.toDigits_eq_if (by decide)]
    split
    · rename_i h
      simp [show n / 4096 = 0 by omega, show n / 256 % 16 = 0 by omega, Nat.mod_eq_of_lt h,
        List.replicate, Nat.digitChar]
    · rw [Nat.toDigits_eq_if (by decide), htwo]
      split
      · rename_i h
        simp [show n / 4096 = 0 by omega, Nat.mod_eq_of_lt h, Nat.digitChar]
      · rw [hthree, Nat.toDigits_of_lt_base (by omega)]
        simp

theorem hex4?_hexDigits {n : Nat} (hn : n < 0x10000) (rest : Text) :
    hex4? (hexDigits 4 n ++ rest) = some (n, rest) := by
  rw [hexDigits_four hn]
  simp only [ofChars_cons, ofChars_nil, List.cons_append, List.nil_append, hex4?,
    hexDigit?_digitChar (show n / 4096 < 16 by omega),
    hexDigit?_digitChar (show n / 256 % 16 < 16 by omega),
    hexDigit?_digitChar (show n / 16 % 16 < 16 by omega),
    hexDigit?_digitChar (show n % 16 < 16 by omega)]
  congr 2
  omega

/-- The two halves of a character beyond the first 65536. -/
def highHalf (c : CodePoint) : Nat := 0xD800 + (c.toNat - 0x10000) / 0x400
def lowHalf (c : CodePoint) : Nat := 0xDC00 + (c.toNat - 0x10000) % 0x400

def numbered (n : Nat) : Text := '\\' :: 'u' :: hexDigits 4 n

def asciiForm (c : CodePoint) : Text :=
  if c.toNat < 127 then [c]
  else if c.toNat < 0x10000 then numbered c.toNat
  else numbered (highHalf c) ++ numbered (lowHalf c)

/-- A text that does not go on with a low surrogate: if an escape by number is next, then of
another number. -/
def Apart (cs : Text) : Prop :=
  ∀ more, cs = ('\\' :: 'u' :: more : Text) →
    ∃ m tail, hex4? more = some (m, tail) ∧ ¬ (0xDC00 ≤ m ∧ m < 0xE000)

section Numbered

variable {n : Nat} {c : CodePoint} {rest : Text}

theorem apart_numbered (hn : n < 0x10000) (hlow : ¬ (0xDC00 ≤ n ∧ n < 0xE000)) :
    Apart (numbered n ++ rest) := by
  intro more hcons
  cases hcons
  exact ⟨n, rest, hex4?_hexDigits hn rest, hlow⟩

theorem apart_cons (hc : c ≠ '\\') : Apart (c :: rest) := by
  intro more hcons
  cases hcons
  exact absurd rfl hc

theorem apart_short (hc : c ≠ 'u') : Apart ('\\' :: c :: rest) := by
  intro more hcons
  cases hcons
  exact absurd rfl hc

theorem unicodeEscape?_other (hn : n < 0x10000) (hhigh : ¬ (0xD800 ≤ n ∧ n < 0xDC00))
    (rest : Text) : unicodeEscape? (hexDigits 4 n ++ rest) = some (.ofNat n, rest) := by
  have hrange : (decide (0xD800 ≤ n) && decide (n < 0xDC00)) = false := by
    rw [← Bool.decide_and, decide_eq_false hhigh]
  simp only [unicodeEscape?, hex4?_hexDigits hn, hrange, Bool.false_eq_true, if_false]

theorem unicodeEscape?_high (hhigh : 0xD800 ≤ n ∧ n < 0xDC00) (hrest : Apart rest) :
    unicodeEscape? (hexDigits 4 n ++ rest) = some (.ofNat n, rest) := by
  have hn : n < 0x10000 := by omega
  simp only [unicodeEscape?, hex4?_hexDigits hn, hhigh, decide_true, Bool.and_self, if_true]
  split
  · rename_i more
    obtain ⟨m, tail, hread, hlow⟩ := hrest more rfl
    have hrange : (decide (0xDC00 ≤ m) && decide (m < 0xE000)) = false := by
      rw [← Bool.decide_and, decide_eq_false hlow]
    simp only [hread, hrange, Bool.false_eq_true, if_false]
  · rfl

theorem unicodeEscape?_pair {m : Nat} (hn : 0xD800 ≤ n ∧ n < 0xDC00)
    (hm : 0xDC00 ≤ m ∧ m < 0xE000) (rest : Text) :
    unicodeEscape? (hexDigits 4 n ++ (numbered m ++ rest)) =
      some (.ofNat (0x10000 + (n - 0xD800) * 0x400 + (m - 0xDC00)), rest) := by
  have hfirst : n < 0x10000 := by omega
  have hsecond : m < 0x10000 := by omega
  simp only [unicodeEscape?, numbered, List.cons_append, hex4?_hexDigits hfirst,
    hex4?_hexDigits hsecond, hn, hm, decide_true, Bool.and_self, if_true]

theorem highHalf_range (hc : 0x10000 ≤ c.toNat) : 0xD800 ≤ highHalf c ∧ highHalf c < 0xDC00 := by
  have hbound := c.toNat_lt
  unfold highHalf
  omega

theorem unicodeEscape?_halves (hc : 0x10000 ≤ c.toNat) (rest : Text) :
    unicodeEscape? (hexDigits 4 (highHalf c) ++ (numbered (lowHalf c) ++ rest)) =
      some (c, rest) := by
  have hbound := c.toNat_lt
  have hlow : 0xDC00 ≤ lowHalf c ∧ lowHalf c < 0xE000 := by
    unfold lowHalf
    omega
  have hjoin : 0x10000 + (highHalf c - 0xD800) * 0x400 + (lowHalf c - 0xDC00) = c.toNat := by
    unfold highHalf lowHalf
    omega
  rw [unicodeEscape?_pair (highHalf_range hc) hlow, hjoin, c.ofNat_toNat]

theorem unicodeEscape?_single (hc : c.toNat < 0x10000) (hrest : c.IsHigh → Apart rest) :
    unicodeEscape? (hexDigits 4 c.toNat ++ rest) = some (c, rest) := by
  by_cases hhigh : c.IsHigh
  · rw [unicodeEscape?_high hhigh (hrest hhigh), c.ofNat_toNat]
  · rw [unicodeEscape?_other hc hhigh, c.ofNat_toNat]

end Numbered

/-! ## One code point at a time -/

section Steps

variable {c : CodePoint} {fuel : Nat} {rest : Text}

def prepend (c : CodePoint) (x : Except ReadFault (Text × Text)) :
    Except ReadFault (Text × Text) :=
  x >>= fun p => .ok (c :: p.1, p.2)

theorem string_plain (hcontrol : 32 ≤ c.toNat) (hquote : c ≠ '"') (hslash : c ≠ '\\') :
    string (fuel + 1) (c :: rest) = prepend c (string fuel rest) := by
  have hplain : (decide (c.toNat < 32) || c == '\\') = false := by
    simp only [Bool.or_eq_false_iff, decide_eq_false_iff_not, beq_eq_false_iff_ne]
    exact ⟨by omega, hslash⟩
  rw [string]
  · simp only [hplain, Bool.false_eq_true, if_false]
    rfl
  · intro h
    exact hquote h
  · intro _ h
    exact absurd h hslash
  · intro _ _ h
    exact absurd h hslash

theorem string_numbered {n : Nat} {cs : Text}
    (h : unicodeEscape? (hexDigits 4 n ++ cs) = some (c, rest)) :
    string (fuel + 1) (numbered n ++ cs) = prepend c (string fuel rest) := by
  rw [numbered, List.cons_append, List.cons_append, string, h]
  rfl

theorem string_short {e : CodePoint} (he : e ≠ 'u') (h : shortEscape? e = some c) :
    string (fuel + 1) ('\\' :: e :: rest) = prepend c (string fuel rest) := by
  rw [string, h]
  · rfl
  · exact he

/-- What is beyond ASCII is read back from its ASCII form, unless it is half of a character
and the other half follows. -/
theorem string_asciiForm (hbeyond : 127 ≤ c.toNat) (hrest : c.IsHigh → Apart rest) :
    string (fuel + 1) (asciiForm c ++ rest) = prepend c (string fuel rest) := by
  rw [asciiForm, if_neg (Nat.not_lt.mpr hbeyond)]
  by_cases hsingle : c.toNat < 0x10000
  · rw [if_pos hsingle]
    exact string_numbered (unicodeEscape?_single hsingle hrest)
  · rw [if_neg hsingle, List.append_assoc]
    exact string_numbered (unicodeEscape?_halves (Nat.le_of_not_lt hsingle) rest)

end Steps

def Ascii (cs : Text) : Prop := ∀ c ∈ cs, c.toNat < 127

instance (cs : Text) : Decidable (Ascii cs) :=
  decidable_of_iff (cs.all (·.toNat < 127) = true) (by simp [Ascii])

theorem Ascii.append {cs ds : Text} (hcs : Ascii cs) (hds : Ascii ds) : Ascii (cs ++ ds) := by
  intro c hc
  exact (List.mem_append.mp hc).elim (hcs c) (hds c)

theorem Ascii.cons {c : CodePoint} {cs : Text} (hc : c.toNat < 127) (hcs : Ascii cs) :
    Ascii (c :: cs) := List.forall_mem_cons.mpr ⟨hc, hcs⟩

theorem ascii_hexDigits {n : Nat} (hn : n < 0x10000) : Ascii (hexDigits 4 n) := by
  have hdigit : ∀ k < 16, (CodePoint.char k.digitChar).toNat < 127 := by decide
  have hnone : Ascii [] := by decide
  rw [hexDigits_four hn]
  exact (((hnone.cons (hdigit _ (by omega))).cons (hdigit _ (by omega))).cons
    (hdigit _ (by omega))).cons (hdigit _ (by omega))

theorem ascii_numbered {n : Nat} (hn : n < 0x10000) : Ascii (numbered n) :=
  ((ascii_hexDigits hn).cons (by decide)).cons (by decide)

/-- A code point is escaped by a letter or by number, or stands for itself. -/
theorem escapeChar_cases (c : CodePoint) :
    (∃ e, e.toNat < 127 ∧ e ≠ .char 'u' ∧ shortEscape? e = some c ∧
      escapeChar c = [.char '\\', e]) ∨
    (c.toNat < 32 ∧ escapeChar c = numbered c.toNat) ∨
    (32 ≤ c.toNat ∧ c ≠ '"' ∧ c ≠ '\\' ∧ escapeChar c = [c]) := by
  by_cases hletter : c ∈ (['"', '\\', '\n', '\r', '\t', '\x0c', '\x08'] : Text)
  · left
    simp only [List.mem_cons, List.not_mem_nil, or_false] at hletter
    obtain rfl | rfl | rfl | rfl | rfl | rfl | rfl := hletter
    all_goals exact ⟨_, by decide, by decide, rfl, rfl⟩
  · right
    simp only [List.mem_cons, List.not_mem_nil, or_false, not_or] at hletter
    obtain ⟨hquote, hslash, hline, hreturn, htab, hfeed, hback⟩ := hletter
    simp only [escapeChar, beq_iff_eq, hquote, hslash, hline, hreturn, htab, hfeed, hback, if_false]
    by_cases hcontrol : c.toNat < 32
    · rw [if_pos hcontrol]
      exact .inl ⟨hcontrol, rfl⟩
    · rw [if_neg hcontrol]
      exact .inr ⟨Nat.le_of_not_lt hcontrol, hquote, hslash, rfl⟩

/-! ## Whole texts -/

/-- What is written for ASCII is that itself. -/
def KeepsAscii (f : CodePoint → Text) : Prop := ∀ c, c.toNat < 127 → f c = [c]

theorem keepsAscii_plain : KeepsAscii fun c => [c] := fun _ _ => rfl

theorem keepsAscii_asciiForm : KeepsAscii asciiForm := fun _ h => if_pos h

namespace KeepsAscii

variable {f : CodePoint → Text} {c : CodePoint} {fuel : Nat} {rest : Text}

theorem flatMap_ascii (hf : KeepsAscii f) {cs : Text} (h : Ascii cs) : cs.flatMap f = cs := by
  induction cs with
  | nil => rfl
  | cons c cs ih =>
    rw [List.flatMap_cons, hf c (h c (by simp)), ih fun d hd => h d (by simp [hd])]
    rfl

theorem string_escapeChar (hf : KeepsAscii f)
    (hbeyond : 127 ≤ c.toNat → string (fuel + 1) (f c ++ rest) = prepend c (string fuel rest)) :
    string (fuel + 1) ((escapeChar c).flatMap f ++ rest) = prepend c (string fuel rest) := by
  obtain ⟨e, hascii, hu, hshort, hescape⟩ | ⟨hcontrol, hescape⟩ | ⟨hplain, hquote, hslash, hescape⟩ :=
    escapeChar_cases c
  · have hnone : Ascii [] := by decide
    rw [hescape, hf.flatMap_ascii ((hnone.cons hascii).cons (by decide))]
    exact string_short hu hshort
  · have hhigh : ¬ c.IsHigh := fun h => by
      have := h.1
      omega
    rw [hescape, hf.flatMap_ascii (ascii_numbered (by omega))]
    exact string_numbered (unicodeEscape?_single (by omega) fun h => absurd h hhigh)
  · rw [hescape, List.flatMap_singleton]
    by_cases hascii : c.toNat < 127
    · rw [hf c hascii]
      exact string_plain hplain hquote hslash
    · exact hbeyond (Nat.le_of_not_lt hascii)

end KeepsAscii

/-- How code points beyond ASCII are written, and which text is read back then. -/
structure Spelling (f : CodePoint → Text) (g : Text → Text) : Prop where
  ascii : KeepsAscii f
  nonempty : ∀ c, f c ≠ []
  reads : ∀ cs fuel rest, cs.length < fuel →
    string fuel ((cs.flatMap escapeChar).flatMap f ++ .char '"' :: rest) = .ok (g cs, rest)

section Texts

variable {c d : CodePoint} {cs rest : Text} {fuel : Nat}

theorem flatMap_escaped_cons (f : CodePoint → Text) (c : CodePoint) (cs rest : Text) :
    ((c :: cs).flatMap escapeChar).flatMap f ++ rest =
      (escapeChar c).flatMap f ++ ((cs.flatMap escapeChar).flatMap f ++ rest) := by
  rw [List.flatMap_cons, List.flatMap_append, List.append_assoc]

theorem string_quote (hfuel : 0 < fuel) (rest : Text) :
    string fuel ('"' :: rest) = .ok ([], rest) := by
  obtain ⟨fuel, rfl⟩ := Nat.exists_eq_add_one.mpr hfuel
  rfl

theorem spelling_plain : Spelling (fun c => [c]) id where
  ascii := keepsAscii_plain
  nonempty _ := by simp
  reads cs fuel rest hfuel := by
    induction cs generalizing fuel with
    | nil => exact string_quote hfuel rest
    | cons c cs ih =>
      rw [List.length_cons] at hfuel
      obtain ⟨fuel, rfl⟩ := Nat.exists_eq_add_one.mpr (Nat.zero_lt_of_lt hfuel)
      have hbeyond : 127 ≤ c.toNat → ∀ rest,
          string (fuel + 1) ([c] ++ rest) = prepend c (string fuel rest) := by
        intro h rest
        refine string_plain (by omega) ?_ ?_
        · rintro rfl
          exact absurd h (by decide)
        · rintro rfl
          exact absurd h (by decide)
      rw [flatMap_escaped_cons, keepsAscii_plain.string_escapeChar fun h => hbeyond h _,
        ih fuel (by omega)]
      rfl

/-- Behind a code point in ASCII form no low surrogate follows, unless the next one is low. -/
theorem apart_escaped (hd : ¬ d.IsLow) (rest : Text) :
    Apart ((escapeChar d).flatMap asciiForm ++ rest) := by
  have hkeeps := keepsAscii_asciiForm
  have hnone : Ascii [] := by decide
  obtain ⟨e, hascii, hu, -, hescape⟩ | ⟨hcontrol, hescape⟩ | ⟨-, -, hslash, hescape⟩ :=
    escapeChar_cases d
  · rw [hescape, hkeeps.flatMap_ascii ((hnone.cons hascii).cons (by decide))]
    exact apart_short hu
  · rw [hescape, hkeeps.flatMap_ascii (ascii_numbered (by omega))]
    exact apart_numbered (by omega) hd
  · rw [hescape, List.flatMap_singleton, asciiForm]
    split
    · exact apart_cons hslash
    · split
      · exact apart_numbered ‹_› hd
      · have hhigh := highHalf_range (c := d) (by omega)
        rw [List.append_assoc]
        exact apart_numbered (by omega) (by omega)

theorem escapeChar_surrogate (n : Fin 2048) : escapeChar (.surrogate n) = [.surrogate n] := by
  have hplain : ¬ (CodePoint.surrogate n).toNat < 32 := by
    rw [CodePoint.toNat_surrogate]
    omega
  simp only [escapeChar, beq_iff_eq, reduceCtorEq, if_false, if_neg hplain]

theorem escaped_surrogate (hc : 0xD800 ≤ c.toNat ∧ c.toNat < 0xE000) :
    (escapeChar c).flatMap asciiForm = numbered c.toNat := by
  cases c with
  | char c =>
    have hvalid := CodePoint.toNat_char_valid c
    omega
  | surrogate n =>
    have hbeyond : ¬ (CodePoint.surrogate n).toNat < 127 := by omega
    have hsingle : (CodePoint.surrogate n).toNat < 0x10000 := by omega
    rw [escapeChar_surrogate, List.flatMap_singleton, asciiForm, if_neg hbeyond, if_pos hsingle]

theorem string_joined {e : CodePoint} (hjoin : c.join? d = some e) :
    string (fuel + 1) ((escapeChar c).flatMap asciiForm ++
      ((escapeChar d).flatMap asciiForm ++ rest)) = prepend e (string fuel rest) := by
  obtain ⟨hhigh, hlow, rfl⟩ := CodePoint.join?_eq_some.mp hjoin
  rw [escaped_surrogate ⟨hhigh.1, hhigh.2.trans (by decide)⟩,
    escaped_surrogate ⟨Nat.le_trans (by decide) hlow.1, hlow.2⟩]
  exact string_numbered (unicodeEscape?_pair hhigh hlow rest)

/-- A text in ASCII form is read back with the halves of characters joined. -/
theorem spelling_ascii : Spelling asciiForm joinHalves where
  ascii := keepsAscii_asciiForm
  nonempty c := by
    have hnumbered : ∀ n, numbered n ≠ [] := fun n => List.cons_ne_nil _ _
    unfold asciiForm
    split
    · exact List.cons_ne_nil _ _
    · split
      · exact hnumbered _
      · exact List.append_ne_nil_of_left_ne_nil (hnumbered _) _
  reads cs fuel rest hfuel := by
    have hkeeps := keepsAscii_asciiForm
    fun_induction joinHalves cs generalizing fuel with
    | case1 => exact string_quote hfuel rest
    | case2 c =>
      obtain ⟨fuel, rfl⟩ := Nat.exists_eq_add_one.mpr (Nat.zero_lt_of_lt hfuel)
      have hapart : Apart ('"' :: rest) := apart_cons (by decide)
      rw [List.length_singleton] at hfuel
      rw [flatMap_escaped_cons, List.flatMap_nil, List.flatMap_nil, List.nil_append,
        hkeeps.string_escapeChar fun h => string_asciiForm h fun _ => hapart]
      exact congrArg (prepend c) (string_quote (by omega) rest)
    | case3 c d cs e hjoin ih =>
      obtain ⟨fuel, rfl⟩ := Nat.exists_eq_add_one.mpr (Nat.zero_lt_of_lt hfuel)
      simp only [List.length_cons] at hfuel
      rw [flatMap_escaped_cons, flatMap_escaped_cons, string_joined hjoin, ih fuel (by omega)]
      rfl
    | case4 c d cs hjoin ih =>
      obtain ⟨fuel, rfl⟩ := Nat.exists_eq_add_one.mpr (Nat.zero_lt_of_lt hfuel)
      rw [List.length_cons] at hfuel
      have hapart : c.IsHigh → Apart (((d :: cs).flatMap escapeChar).flatMap asciiForm ++
          .char '"' :: rest) := by
        intro hhigh
        rw [flatMap_escaped_cons]
        exact apart_escaped (CodePoint.join?_eq_none.mp hjoin hhigh) _
      rw [flatMap_escaped_cons, hkeeps.string_escapeChar fun h => string_asciiForm h hapart,
        ih fuel (by omega)]
      rfl

end Texts

namespace Spelling

variable {f : CodePoint → Text} {g : Text → Text}

theorem length_le_escaped (hf : Spelling f g) (cs : Text) :
    cs.length ≤ ((cs.flatMap escapeChar).flatMap f).length := by
  induction cs with
  | nil => simp
  | cons c cs ih =>
    have hne : (escapeChar c).flatMap f ≠ [] := by
      obtain ⟨e, -, -, -, hescape⟩ | ⟨-, hescape⟩ | ⟨-, -, -, hescape⟩ := escapeChar_cases c
      all_goals simp [hescape, numbered, hf.nonempty]
    have hpos := List.length_pos_iff.mpr hne
    rw [List.flatMap_cons, List.flatMap_append, List.length_append, List.length_cons]
    omega

end Spelling

end XmlHarvest.Json
