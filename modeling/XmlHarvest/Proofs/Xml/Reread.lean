import Mathlib.Data.List.Basic
import XmlHarvest.Xml.Encoding

/-! # The end of a text in another encoding

Bytes of ASCII characters stand for the same characters in every encoding, and
other bytes never stand for one.  So the last character of a text, if it is ASCII
under the declared encoding, was that character all along. -/
set_option autoImplicit false

namespace XmlHarvest.Xml.Charset

/-- An ASCII character other than the character zero. -/
def IsAscii (c : Char) : Prop := 0 < c.toNat ∧ c.toNat < 0x80
  deriving Decidable

variable {charset : Charset} {c : Char}

/-- A number from 80 on is no ASCII character; where it is no character at all, the
character zero stands for it. -/
theorem not_isAscii_ofNat {n : Nat} (h : 0x80 ≤ n) : ¬ IsAscii (Char.ofNat n) := by
  rintro ⟨hpos, hlt⟩
  by_cases hvalid : n.isValidChar
  · have hval : (Char.ofNat n).toNat = n := congrArg Char.toNat (dif_pos hvalid)
    omega
  · have hval : (Char.ofNat n).toNat = 0 := congrArg Char.toNat (dif_neg hvalid)
    omega

theorem latin9Table_large {b : Nat} (hb : 0x80 ≤ b) : 0x80 ≤ (latin9Table.lookup b).getD b := by
  cases h : latin9Table.lookup b with
  | none => exact hb
  | some n =>
    obtain ⟨before, after, htable, -⟩ := List.lookup_eq_some_iff.mp h
    have hmem : (b, n) ∈ latin9Table := by
      rw [htable]
      exact List.mem_append_right _ List.mem_cons_self
    have hlarge : ∀ p ∈ latin9Table, 0x80 ≤ p.2 := by decide
    exact hlarge _ hmem

theorem windowsTable_large {b n : Nat} (h : windowsTable[b]? = some n) (hn : n ≠ 0) :
    0x80 ≤ n := by
  have hlarge : ∀ n ∈ windowsTable, n ≠ 0 → 0x80 ≤ n := by decide
  exact hlarge n (List.mem_of_getElem? h) hn

theorem ofByte?_ascii {b : Nat} (h : charset.ofByte? b = some c) (hc : IsAscii c) :
    b < 0x80 ∧ c = Char.ofNat b := by
  rw [ofByte?.eq_def] at h
  split at h
  · rename_i hb
    exact ⟨hb, (Option.some.inj h).symm⟩
  · rename_i hb
    have hlarge : ∀ n, 0x80 ≤ n → Char.ofNat n ≠ c := fun n hn heq =>
      not_isAscii_ofNat hn (heq ▸ hc)
    have hb : 0x80 ≤ b := by omega
    exfalso
    split at h
    · cases h
    · cases h
    · exact hlarge b hb (Option.some.inj h)
    · exact hlarge _ (latin9Table_large hb) (Option.some.inj h)
    · split at h
      · split at h
        · cases h
        · cases h
        · rename_i n hn hentry
          exact hlarge n (windowsTable_large hentry fun h0 => hn (h0 ▸ rfl)) (Option.some.inj h)
      · exact hlarge b hb (Option.some.inj h)

theorem getLast?_of_decode {bytes : List Nat} {cs : List Char}
    (h : charset.decode bytes = (cs, true)) (hlast : cs.getLast? = some c) :
    ∃ b, bytes.getLast? = some b ∧ charset.ofByte? b = some c := by
  induction bytes generalizing cs with
  | nil =>
    cases h
    cases hlast
  | cons b rest ih =>
    rw [decode] at h
    split at h
    · cases h
    · rename_i ch hb
      obtain ⟨more, whole, hrest⟩ : ∃ more whole, charset.decode rest = (more, whole) := ⟨_, _, rfl⟩
      rw [hrest] at h
      cases h
      cases rest with
      | nil =>
        cases hrest
        cases hlast
        exact ⟨b, rfl, hb⟩
      | cons b' rest =>
        cases more with
        | nil =>
          rw [decode] at hrest
          split at hrest <;> cases hrest
        | cons d more =>
          rw [List.getLast?_cons_cons] at hlast ⊢
          exact ih hrest hlast

theorem utf8EncodeChar_ascii {d : Char} {b : UInt8}
    (h : (String.utf8EncodeChar d).getLast? = some b) (hb : b.toNat < 0x80) :
    d.toNat = b.toNat := by
  have hlow : ∀ n, (UInt8.ofNat (n % 0x40 + 0x80)).toNat = n % 0x40 + 0x80 := fun n => by
    rw [UInt8.toNat_ofNat']
    omega
  unfold String.utf8EncodeChar at h
  dsimp only at h
  split at h
  · have hlast : b = UInt8.ofNat d.toNat := (Option.some.inj h).symm
    have hval : d.toNat = d.val.toNat := rfl
    rw [hlast, UInt8.toNat_ofNat']
    omega
  · have hlast : b = UInt8.ofNat (d.val.toNat % 0x40 + 0x80) := by
      split at h
      · exact (Option.some.inj h).symm
      · split at h <;> exact (Option.some.inj h).symm
    rw [hlast, hlow] at hb
    omega

theorem eq_nil_of_decode {bytes : List Nat} (h : charset.decode bytes = ([], true)) :
    bytes = [] := by
  cases bytes with
  | nil => rfl
  | cons b rest =>
    rw [decode] at h
    split at h <;> cases h

/-- In another encoding than its own, a text is decoded from its bytes. -/
theorem reread_cases {cs : List Char} {p : List Char × Bool} (h : charset.reread cs = p) :
    p = (cs, true) ∨
      charset.decode (cs.flatMap fun ch => (String.utf8EncodeChar ch).map UInt8.toNat) = p := by
  cases charset with
  | utf8 => exact .inl h.symm
  | ascii => exact .inr h
  | latin1 => exact .inr h
  | latin9 => exact .inr h
  | windows1252 => exact .inr h

theorem reread_nil : charset.reread [] = ([], true) := by
  cases charset <;> rfl

theorem getLast?_of_reread {cs cs' : List Char} (h : charset.reread cs = (cs', true))
    (hlast : cs'.getLast? = some c) (hc : IsAscii c) : cs.getLast? = some c := by
  obtain hsame | hdecode := reread_cases h
  · cases hsame
    exact hlast
  · obtain ⟨n, hn, hbyte⟩ := getLast?_of_decode hdecode hlast
    obtain ⟨hsmall, rfl⟩ := ofByte?_ascii hbyte hc
    obtain rfl | ⟨front, d, rfl⟩ := cs.eq_nil_or_concat'
    · cases hn
    · rw [List.flatMap_append, List.flatMap_singleton, List.getLast?_append,
        List.getLast?_map] at hn
      cases hd : (String.utf8EncodeChar d).getLast? with
      | none => exact absurd (List.getLast?_eq_none_iff.mp hd) String.utf8EncodeChar_ne_nil
      | some b =>
        rw [hd] at hn
        have hb : b.toNat = n := Option.some.inj hn
        rw [List.getLast?_concat, ← hb, ← utf8EncodeChar_ascii hd (by omega), Char.ofNat_toNat]

theorem eq_nil_of_reread {cs : List Char} (h : charset.reread cs = ([], true)) : cs = [] := by
  obtain hsame | hdecode := reread_cases h
  · cases hsame
    rfl
  · cases cs with
    | nil => rfl
    | cons c cs =>
      have hbytes := eq_nil_of_decode hdecode
      rw [List.flatMap_cons, List.append_eq_nil_iff, List.map_eq_nil_iff] at hbytes
      exact absurd hbytes.1 String.utf8EncodeChar_ne_nil

end XmlHarvest.Xml.Charset
