import Mathlib.Data.List.TakeWhile
import XmlHarvest.Text.Utf8

/-! # Bytes of a text

The bytes of a character are read as that character, whatever follows them; so the
characters of a text are found again in its bytes.  A text has bytes exactly when it
consists of characters. -/
set_option autoImplicit false

namespace XmlHarvest.Text.Utf8

variable {c : Char} {cs : List Char} {bytes rest : List UInt8} {text : Text}

/-! ## One character -/

theorem toNat_valid (c : Char) :
    c.toNat < 0xD800 ∨ 0xDFFF < c.toNat ∧ c.toNat < 0x110000 := c.valid

theorem toNat_byte {n : Nat} (h : n < 0x100) : (UInt8.ofNat n).toNat = n := by
  rw [UInt8.toNat_ofNat']
  omega

theorem tail_continuation {value n more low : Nat} (h : low < 0x40) :
    tail value n (more + 1) (UInt8.ofNat (low + 0x80) :: rest) =
      tail (value * 64 + low) (n + 1) more rest := by
  have hbyte : (UInt8.ofNat (low + 0x80)).toNat = low + 0x80 := toNat_byte (by omega)
  have hcontinues : isContinuation (UInt8.ofNat (low + 0x80)) = true := by
    simp only [isContinuation, UInt8.le_iff_toNat_le, hbyte, Bool.and_eq_true, decide_eq_true_iff]
    exact ⟨Nat.le_add_left _ _, by show low + 0x80 ≤ 0xBF; omega⟩
  rw [tail, if_pos hcontinues, hbyte, Nat.add_sub_cancel]

theorem longStep_of_tail {first second more value : Nat} {low high : UInt8}
    (hsecond : second < 0x100) (hlow : low.toNat ≤ second) (hhigh : second ≤ high.toNat)
    (htail : tail (first * 64 + (second - 0x80)) 2 more rest = .whole value) :
    longStep first low high more (UInt8.ofNat second :: rest) =
      .char (Char.ofNat value) (more + 2) := by
  have hbyte : (UInt8.ofNat second).toNat = second := toNat_byte hsecond
  have hrange : ¬ (UInt8.ofNat second < low ∨ high < UInt8.ofNat second) := by
    rw [UInt8.lt_iff_toNat_lt, UInt8.lt_iff_toNat_lt, hbyte]
    omega
  rw [longStep]
  simp only [hbyte, htail]
  exact if_neg (by simpa using hrange)

theorem step_one (h : c.toNat ≤ 0x7F) :
    step (UInt8.ofNat c.toNat :: rest) = .char c 1 := by
  have hbyte : (UInt8.ofNat c.toNat).toNat = c.toNat := toNat_byte (by omega)
  rw [step, hbyte]
  simp only [if_pos (show c.toNat < 0x80 by omega), Char.ofNat_toNat]

theorem step_two (hlow : 0x7F < c.toNat) (hhigh : c.toNat ≤ 0x7FF) :
    step (UInt8.ofNat (c.toNat / 0x40 % 0x20 + 0xC0) ::
      UInt8.ofNat (c.toNat % 0x40 + 0x80) :: rest) = .char c 2 := by
  have hbyte : (UInt8.ofNat (c.toNat / 0x40 % 0x20 + 0xC0)).toNat =
      c.toNat / 0x40 % 0x20 + 0xC0 := toNat_byte (by omega)
  have hvalue : (c.toNat / 0x40 % 0x20 + 0xC0 - 0xC0) * 64 +
      (c.toNat % 0x40 + 0x80 - 0x80) = c.toNat := by omega
  have hlong : longStep (c.toNat / 0x40 % 0x20 + 0xC0 - 0xC0) 0x80 0xBF 0
      (UInt8.ofNat (c.toNat % 0x40 + 0x80) :: rest) = .char (Char.ofNat c.toNat) 2 :=
    longStep_of_tail (by omega) (Nat.le_add_left _ _)
      (by show c.toNat % 0x40 + 0x80 ≤ 0xBF; omega) (by rw [hvalue]; rfl)
  rw [step, hbyte]
  simp only [if_neg (show ¬ c.toNat / 0x40 % 0x20 + 0xC0 < 0x80 by omega),
    if_neg (show ¬ c.toNat / 0x40 % 0x20 + 0xC0 < 0xC2 by omega),
    if_pos (show c.toNat / 0x40 % 0x20 + 0xC0 < 0xE0 by omega), hlong, Char.ofNat_toNat]

theorem step_three (hlow : 0x7FF < c.toNat) (hhigh : c.toNat ≤ 0xFFFF) :
    step (UInt8.ofNat (c.toNat / 0x1000 % 0x10 + 0xE0) ::
      UInt8.ofNat (c.toNat / 0x40 % 0x40 + 0x80) ::
      UInt8.ofNat (c.toNat % 0x40 + 0x80) :: rest) = .char c 3 := by
  have hvalid := toNat_valid c
  have hbyte : (UInt8.ofNat (c.toNat / 0x1000 % 0x10 + 0xE0)).toNat =
      c.toNat / 0x1000 % 0x10 + 0xE0 := toNat_byte (by omega)
  have hvalue : ((c.toNat / 0x1000 % 0x10 + 0xE0 - 0xE0) * 64 +
      (c.toNat / 0x40 % 0x40 + 0x80 - 0x80)) * 64 + c.toNat % 0x40 = c.toNat := by omega
  have hlong : ∀ low high : UInt8, low.toNat ≤ c.toNat / 0x40 % 0x40 + 0x80 →
      c.toNat / 0x40 % 0x40 + 0x80 ≤ high.toNat →
      longStep (c.toNat / 0x1000 % 0x10 + 0xE0 - 0xE0) low high 1
        (UInt8.ofNat (c.toNat / 0x40 % 0x40 + 0x80) ::
          UInt8.ofNat (c.toNat % 0x40 + 0x80) :: rest) = .char c 3 := by
    intro low high hfrom hto
    rw [longStep_of_tail (by omega) hfrom hto
      (by rw [tail_continuation (by omega), hvalue]; rfl), Char.ofNat_toNat]
  rw [step, hbyte]
  generalize hb : c.toNat / 0x1000 % 0x10 + 0xE0 = b
  rw [hb] at hlong
  have h80 : (0x80 : UInt8).toNat = 0x80 := rfl
  have hA0 : (0xA0 : UInt8).toNat = 0xA0 := rfl
  have h9F : (0x9F : UInt8).toNat = 0x9F := rfl
  have hBF : (0xBF : UInt8).toNat = 0xBF := rfl
  -- the second byte excludes longer forms of shorter characters, and surrogates
  simp only [beq_iff_eq]
  split_ifs with h1 h2 h3 h4 h5 h6
  all_goals first | omega | exact hlong _ _ (by omega) (by omega)

theorem step_four (hlow : 0xFFFF < c.toNat) :
    step (UInt8.ofNat (c.toNat / 0x40000 % 8 + 0xF0) ::
      UInt8.ofNat (c.toNat / 0x1000 % 0x40 + 0x80) ::
      UInt8.ofNat (c.toNat / 0x40 % 0x40 + 0x80) ::
      UInt8.ofNat (c.toNat % 0x40 + 0x80) :: rest) = .char c 4 := by
  have hvalid := toNat_valid c
  have hbyte : (UInt8.ofNat (c.toNat / 0x40000 % 8 + 0xF0)).toNat =
      c.toNat / 0x40000 % 8 + 0xF0 := toNat_byte (by omega)
  have hvalue : (((c.toNat / 0x40000 % 8 + 0xF0 - 0xF0) * 64 +
      (c.toNat / 0x1000 % 0x40 + 0x80 - 0x80)) * 64 + c.toNat / 0x40 % 0x40) * 64 +
        c.toNat % 0x40 = c.toNat := by omega
  have hlong : ∀ low high : UInt8, low.toNat ≤ c.toNat / 0x1000 % 0x40 + 0x80 →
      c.toNat / 0x1000 % 0x40 + 0x80 ≤ high.toNat →
      longStep (c.toNat / 0x40000 % 8 + 0xF0 - 0xF0) low high 2
        (UInt8.ofNat (c.toNat / 0x1000 % 0x40 + 0x80) ::
          UInt8.ofNat (c.toNat / 0x40 % 0x40 + 0x80) ::
          UInt8.ofNat (c.toNat % 0x40 + 0x80) :: rest) = .char c 4 := by
    intro low high hfrom hto
    rw [longStep_of_tail (by omega) hfrom hto
      (by rw [tail_continuation (by omega), tail_continuation (by omega), hvalue]; rfl),
      Char.ofNat_toNat]
  rw [step, hbyte]
  generalize hb : c.toNat / 0x40000 % 8 + 0xF0 = b
  rw [hb] at hlong
  have h80 : (0x80 : UInt8).toNat = 0x80 := rfl
  have h90 : (0x90 : UInt8).toNat = 0x90 := rfl
  have h8F : (0x8F : UInt8).toNat = 0x8F := rfl
  have hBF : (0xBF : UInt8).toNat = 0xBF := rfl
  simp only [beq_iff_eq]
  split_ifs
  all_goals first | omega | exact hlong _ _ (by omega) (by omega)

/-- The bytes of a character are read as that character. -/
theorem step_encodeChar (c : Char) (rest : List UInt8) :
    step (String.utf8EncodeChar c ++ rest) = .char c (String.utf8EncodeChar c).length := by
  have hval : c.val.toNat = c.toNat := rfl
  rw [String.utf8EncodeChar.eq_1, hval]
  split_ifs with hone htwo hthree
  · exact step_one hone
  · exact step_two (by omega) htwo
  · exact step_three (by omega) hthree
  · exact step_four (by omega)

/-! ## A text -/

theorem decodeFrom_encodeChars {fuel position : Nat} (h : (encodeChars cs).length ≤ fuel) :
    decodeFrom fuel position (encodeChars cs) = .ok (cs, []) := by
  induction cs generalizing fuel position with
  | nil => cases fuel <;> rfl
  | cons c cs ih =>
    have hstep := step_encodeChar c (encodeChars cs)
    rw [encodeChars, List.flatMap_cons] at h ⊢
    obtain ⟨b, more, hbytes⟩ := List.exists_cons_of_ne_nil (String.utf8EncodeChar_ne_nil (c := c))
    cases fuel with
    | zero => simp [hbytes] at h
    | succ fuel =>
      have hfuel : (encodeChars cs).length ≤ fuel := by
        rw [encodeChars]
        simp only [hbytes, List.length_append, List.length_cons] at h
        omega
      have hdrop : (String.utf8EncodeChar c ++ encodeChars cs).drop
          (String.utf8EncodeChar c).length = encodeChars cs := List.drop_left
      have hcons : String.utf8EncodeChar c ++ encodeChars cs =
          b :: (more ++ encodeChars cs) := by rw [hbytes, List.cons_append]
      change decodeFrom (fuel + 1) position (String.utf8EncodeChar c ++ encodeChars cs) = _
      rw [hcons] at hstep hdrop ⊢
      rw [decodeFrom, hstep]
      simp only [hdrop, ih hfuel]
      rfl

/-- A text is found again in its bytes. -/
theorem decode_encodeChars (cs : List Char) : decode (encodeChars cs) = .ok cs := by
  rw [decode, decodeFrom_encodeChars (Nat.le_refl _)]
  rfl

theorem encode_ofChars (cs : List Char) : encode (Text.ofChars cs) = .ok (encodeChars cs) := by
  have hdrop : (Text.ofChars cs).dropWhile (!·.isSurrogate) = [] := by
    simp [Text.ofChars, CodePoint.isSurrogate]
  have hchars : (Text.ofChars cs).filterMap CodePoint.char? = cs := by
    rw [Text.ofChars, List.filterMap_map]
    exact List.filterMap_some
  rw [encode, hdrop, hchars]

theorem exists_ofChars (h : ∀ c ∈ text, c.isSurrogate = false) :
    ∃ cs, text = Text.ofChars cs := by
  induction text with
  | nil => exact ⟨[], rfl⟩
  | cons d text ih =>
    obtain ⟨cs, rfl⟩ := ih fun c hc => h c (List.mem_cons_of_mem d hc)
    cases d with
    | char c => exact ⟨c :: cs, rfl⟩
    | surrogate n => cases h _ List.mem_cons_self

theorem isSurrogate_of_encode (h : encode text = .ok bytes) :
    ∀ c ∈ text, c.isSurrogate = false := by
  have hdrop : text.dropWhile (!·.isSurrogate) = [] := by
    cases hdrop : text.dropWhile (!·.isSurrogate) with
    | nil => rfl
    | cons d rest =>
      have hd : d.isSurrogate = true := by
        have hhead := List.head?_dropWhile_not (!·.isSurrogate) text
        rw [hdrop] at hhead
        simpa using hhead
      cases d with
      | char c => cases hd
      | surrogate n =>
        rw [encode, hdrop] at h
        cases h
  intro c hc
  simpa using List.dropWhile_eq_nil_iff.mp hdrop c hc

/-- What has bytes are the texts of characters. -/
theorem encode_eq_ok : encode text = .ok bytes ↔
    ∃ cs, text = Text.ofChars cs ∧ bytes = encodeChars cs := by
  constructor
  · intro h
    obtain ⟨cs, rfl⟩ := exists_ofChars (isSurrogate_of_encode h)
    rw [encode_ofChars] at h
    exact ⟨cs, rfl, (Except.ok.inj h).symm⟩
  · rintro ⟨cs, rfl, rfl⟩
    exact encode_ofChars cs

/-- A text of characters only. -/
def HasBytes (text : Text) : Prop := ∀ c ∈ text, c.isSurrogate = false

theorem hasBytes_append {more : Text} :
    HasBytes (text ++ more) ↔ HasBytes text ∧ HasBytes more :=
  List.forall_mem_append

theorem hasBytes_ofChars (cs : List Char) : HasBytes (Text.ofChars cs) := by
  intro c hc
  obtain ⟨d, -, rfl⟩ := List.mem_map.mp hc
  rfl

theorem hasBytes_ofString (s : String) : HasBytes (Text.ofString s) := hasBytes_ofChars s.toList

/-! ## Names of files -/

end XmlHarvest.Text.Utf8
