/-! # Code points

A text is a list of code points: characters, and surrogates, which are no
characters and have no bytes. -/
set_option autoImplicit false

namespace XmlHarvest

inductive CodePoint where
  | char (c : Char)
  /-- The surrogate `U+D800 + n`. -/
  | surrogate (n : Fin 2048)
  deriving DecidableEq, Repr

abbrev Text : Type := List CodePoint

instance : LawfulBEq Text := inferInstanceAs (LawfulBEq (List CodePoint))

namespace CodePoint

instance : Coe Char CodePoint := ⟨char⟩

def toNat : CodePoint → Nat
  | char c => c.toNat
  | surrogate n => 0xD800 + n

/-- The code point of a number; numbers above `10FFFF` give `U+0000`. -/
def ofNat (n : Nat) : CodePoint :=
  if h : 0xD800 ≤ n ∧ n < 0xE000 then surrogate ⟨n - 0xD800, by omega⟩ else char (Char.ofNat n)

def char? : CodePoint → Option Char
  | char c => some c
  | surrogate _ => none

/-- The lower case of the letters `A` to `Z`. -/
def toLower : CodePoint → CodePoint
  | char c => char c.toLower
  | surrogate n => surrogate n

/-- The upper case of the letters `a` to `z`. -/
def toUpper : CodePoint → CodePoint
  | char c => char c.toUpper
  | surrogate n => surrogate n

def isSurrogate : CodePoint → Bool
  | char _ => false
  | surrogate _ => true

instance : LE CodePoint := ⟨fun a b => a.toNat ≤ b.toNat⟩

instance : DecidableLE CodePoint := fun a b => inferInstanceAs (Decidable (a.toNat ≤ b.toNat))

instance : LT CodePoint := ⟨fun a b => a.toNat < b.toNat⟩

instance : DecidableLT CodePoint := fun a b => inferInstanceAs (Decidable (a.toNat < b.toNat))

@[simp] theorem toNat_char (c : Char) : (char c).toNat = c.toNat := rfl

@[simp] theorem toNat_surrogate (n : Fin 2048) : (surrogate n).toNat = 0xD800 + n := rfl

variable {c d : CodePoint}

theorem toNat_char_valid (c : Char) :
    (char c).toNat < 0xD800 ∨ 0xDFFF < (char c).toNat ∧ (char c).toNat < 0x110000 := c.valid

theorem toNat_lt (c : CodePoint) : c.toNat < 0x110000 := by
  cases c with
  | char c =>
    have := toNat_char_valid c
    omega
  | surrogate n =>
    rw [toNat_surrogate]
    omega

theorem ofNat_toNat (c : CodePoint) : ofNat c.toNat = c := by
  cases c with
  | char c =>
    have hvalid := toNat_char_valid c
    have hrange : ¬ (0xD800 ≤ (char c).toNat ∧ (char c).toNat < 0xE000) := by omega
    rw [ofNat, dif_neg hrange, toNat_char, Char.ofNat_toNat]
  | surrogate n =>
    have hrange : 0xD800 ≤ 0xD800 + n.val ∧ 0xD800 + n.val < 0xE000 := by omega
    rw [toNat_surrogate, ofNat, dif_pos hrange]
    simp

theorem toNat_ofNat (n : Nat) : (ofNat n).toNat = if n < 0x110000 then n else 0 := by
  by_cases hrange : 0xD800 ≤ n ∧ n < 0xE000
  · rw [ofNat, dif_pos hrange, toNat_surrogate, if_pos (by omega)]
    exact Nat.add_sub_cancel' hrange.1
  · rw [ofNat, dif_neg hrange, toNat_char]
    by_cases hbound : n < 0x110000
    · have hvalid : n.isValidChar := by
        rw [Nat.isValidChar]
        omega
      rw [if_pos hbound]
      exact congrArg Char.toNat (dif_pos hvalid)
    · have hvalid : ¬ n.isValidChar := by
        rw [Nat.isValidChar]
        omega
      rw [if_neg hbound]
      exact congrArg Char.toNat (dif_neg hvalid)

theorem toNat_inj : c.toNat = d.toNat ↔ c = d := by
  constructor
  · intro h
    rw [← ofNat_toNat c, h, ofNat_toNat]
  · exact congrArg toNat

end CodePoint

namespace Text

def ofChars (cs : List Char) : Text := cs.map .char

def ofString (s : String) : Text := ofChars s.toList

instance : Coe String Text := ⟨ofString⟩

def digits (base n : Nat) : Text := ofChars (Nat.toDigits base n)

@[simp] theorem ofChars_inj {cs ds : List Char} : ofChars cs = ofChars ds ↔ cs = ds :=
  List.map_inj_right fun _ _ => CodePoint.char.inj

@[simp] theorem ofString_inj {s t : String} : ofString s = ofString t ↔ s = t := by
  rw [ofString, ofString, ofChars_inj, String.toList_inj]

@[simp] theorem ofChars_nil : ofChars [] = [] := rfl

@[simp] theorem ofChars_cons (c : Char) (cs : List Char) :
    ofChars (c :: cs) = .char c :: ofChars cs := rfl

@[simp] theorem ofChars_append (cs ds : List Char) :
    ofChars (cs ++ ds) = ofChars cs ++ ofChars ds :=
  List.map_append

@[simp] theorem length_ofChars (cs : List Char) : (ofChars cs).length = cs.length :=
  List.length_map _

@[simp] theorem length_digits (base n : Nat) :
    (digits base n).length = (Nat.toDigits base n).length :=
  length_ofChars _

@[simp] theorem ofString_empty : ofString "" = [] := rfl

end Text
end XmlHarvest
