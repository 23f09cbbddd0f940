import XmlHarvest.Proofs.Json.Scalars
import XmlHarvest.Proofs.Text.Split
import XmlHarvest.Proofs.Text.Utf8

/-! # Values whose JSON has bytes

All that is written besides the texts of a value is ASCII, so what is written has bytes exactly
when the texts of the value have, keys included. -/
set_option autoImplicit false

namespace XmlHarvest

open Text.Utf8

def Scalar.HasBytes : Scalar → Prop
  | .str s => Text.Utf8.HasBytes s
  | _ => True

def Value.HasBytes (v : Value) : Prop := ∀ s, v.Holds s → s.HasBytes

namespace Json

variable {cs text : Text} {l : Layout} {depth : Nat}

theorem hasBytes_of_ascii (h : Ascii cs) : HasBytes cs := by
  intro c hc
  have hascii := h c hc
  cases c with
  | char c => rfl
  | surrogate n =>
    rw [CodePoint.toNat_surrogate] at hascii
    omega

theorem hasBytes_singleton {c : CodePoint} : HasBytes [c] ↔ c.isSurrogate = false :=
  List.forall_mem_singleton

theorem hasBytes_escapeChar (c : CodePoint) :
    HasBytes (escapeChar c) ↔ c.isSurrogate = false := by
  cases c with
  | char c =>
    refine iff_of_true ?_ rfl
    have hnone : Ascii [] := by decide
    obtain ⟨e, hascii, -, -, hescape⟩ | ⟨hcontrol, hescape⟩ | ⟨-, -, -, hescape⟩ :=
      escapeChar_cases (.char c)
    · rw [hescape]
      exact hasBytes_of_ascii ((hnone.cons hascii).cons (by decide))
    · rw [hescape]
      exact hasBytes_of_ascii (ascii_numbered (by omega))
    · rw [hescape]
      exact hasBytes_singleton.mpr rfl
  | surrogate n => rw [escapeChar_surrogate, hasBytes_singleton]

theorem hasBytes_quoted (s : Text) : HasBytes (quoted s) ↔ HasBytes s := by
  have hquote : HasBytes "\"" := hasBytes_ofString _
  have hbody : HasBytes (s.flatMap escapeChar) ↔ HasBytes s := by
    simp only [HasBytes, List.forall_mem_flatMap]
    exact forall₂_congr fun c _ => hasBytes_escapeChar c
  rw [quoted, hasBytes_append, hasBytes_append, hbody]
  exact ⟨fun h => h.1.2, fun h => ⟨⟨hquote, h⟩, hquote⟩⟩

theorem hasBytes_scalarText {s : Scalar} (h : scalarText s = .ok text) :
    HasBytes text ↔ s.HasBytes := by
  cases s with
  | null =>
    cases h
    exact iff_of_true (hasBytes_ofString _) trivial
  | bool b =>
    refine iff_of_true ?_ trivial
    cases b <;> cases h <;> exact hasBytes_ofString _
  | int i => exact iff_of_true (hasBytes_of_ascii (ascii_integerText h)) trivial
  | float x =>
    cases h
    exact iff_of_true (hasBytes_of_ascii (ascii_numberText x)) trivial
  | str s =>
    cases h
    exact hasBytes_quoted s
  | time t => cases h

theorem hasBytes_keyText {k : Scalar} (h : keyText k = .ok text) :
    HasBytes text ↔ k.HasBytes := by
  have hscalar : (scalarText k >>= fun t => .ok (quoted t)) = .ok text →
      (HasBytes text ↔ k.HasBytes) := by
    intro h
    obtain ⟨t, ht, hquoted⟩ := (Outcome.bind_eq_ok _ _ _).mp h
    cases hquoted
    rw [hasBytes_quoted, hasBytes_scalarText ht]
  cases k with
  | str s =>
    cases h
    exact hasBytes_quoted s
  | time t => cases h
  | null | bool | int | float => exact hscalar h

theorem hasBytes_lineStart (l : Layout) (depth : Nat) : HasBytes (l.lineStart depth) := by
  cases l with
  | compact => exact hasBytes_ofString ""
  | indented width =>
    intro c hc
    rcases List.mem_cons.mp hc with rfl | hc
    · rfl
    · rw [List.eq_of_mem_replicate hc]
      rfl

theorem hasBytes_separator (l : Layout) (depth : Nat) : HasBytes (l.separator depth) := by
  cases l with
  | compact => exact hasBytes_ofString ", "
  | indented width =>
    rw [Layout.separator, hasBytes_append]
    exact ⟨hasBytes_ofString ",", hasBytes_lineStart (.indented width) depth⟩

theorem hasBytes_joinWith {between : Text} (hbetween : HasBytes between) (texts : List Text) :
    HasBytes (Text.joinWith between texts) ↔ ∀ t ∈ texts, HasBytes t := by
  fun_induction Text.joinWith between texts with
  | case1 => exact iff_of_true (hasBytes_ofChars []) (by simp)
  | case2 piece => exact List.forall_mem_singleton.symm
  | case3 piece more hmore ih =>
    rw [hasBytes_append, hasBytes_append, ih, List.forall_mem_cons, and_iff_left hbetween]

theorem hasBytes_enclose {left right : Text} (hleft : HasBytes left) (hright : HasBytes right)
    (texts : List Text) :
    HasBytes (l.enclose left right depth texts) ↔ ∀ t ∈ texts, HasBytes t := by
  cases texts with
  | nil => exact iff_of_true (hasBytes_append.mpr ⟨hleft, hright⟩) (by simp)
  | cons t texts =>
    have hstart := hasBytes_lineStart l
    simp only [Layout.enclose, hasBytes_append, hasBytes_joinWith (hasBytes_separator l _), hleft,
      hright, hstart, true_and, and_true]

mutual

theorem hasBytes_valueText (l : Layout) (depth : Nat) (v : Value) {text : Text}
    (h : valueText l depth v = .ok text) : HasBytes text ↔ v.HasBytes := by
  cases v with
  | scalar s => exact (hasBytes_scalarText h).trans Value.forall_holds_scalar.symm
  | list items =>
    rw [valueText] at h
    obtain ⟨texts, htexts, h⟩ := (Outcome.bind_eq_ok _ _ _).mp h
    cases h
    rw [hasBytes_enclose (hasBytes_ofString _) (hasBytes_ofString _), Value.HasBytes,
      Value.forall_holds_list]
    exact hasBytes_itemTexts l (depth + 1) items htexts
  | map entries =>
    rw [valueText] at h
    obtain ⟨texts, htexts, h⟩ := (Outcome.bind_eq_ok _ _ _).mp h
    cases h
    rw [hasBytes_enclose (hasBytes_ofString _) (hasBytes_ofString _),
      Value.HasBytes, Value.forall_holds_map]
    exact hasBytes_memberTexts l (depth + 1) entries htexts

theorem hasBytes_itemTexts (l : Layout) (depth : Nat) (items : List Value) {texts : List Text}
    (h : itemTexts l depth items = .ok texts) :
    (∀ t ∈ texts, HasBytes t) ↔ ∀ v ∈ items, v.HasBytes := by
  cases items with
  | nil =>
    cases h
    simp
  | cons v rest =>
    rw [itemTexts] at h
    obtain ⟨first, hfirst, h⟩ := (Outcome.bind_eq_ok _ _ _).mp h
    obtain ⟨others, hothers, h⟩ := (Outcome.bind_eq_ok _ _ _).mp h
    cases h
    rw [List.forall_mem_cons, List.forall_mem_cons, hasBytes_valueText l depth v hfirst,
      hasBytes_itemTexts l depth rest hothers]

theorem hasBytes_memberTexts (l : Layout) (depth : Nat) (entries : List (Scalar × Value))
    {texts : List Text} (h : memberTexts l depth entries = .ok texts) :
    (∀ t ∈ texts, HasBytes t) ↔ ∀ e ∈ entries, e.1.HasBytes ∧ e.2.HasBytes := by
  cases entries with
  | nil =>
    cases h
    simp
  | cons e rest =>
    obtain ⟨k, v⟩ := e
    rw [memberTexts] at h
    obtain ⟨key, hkey, h⟩ := (Outcome.bind_eq_ok _ _ _).mp h
    obtain ⟨text, htext, h⟩ := (Outcome.bind_eq_ok _ _ _).mp h
    obtain ⟨others, hothers, h⟩ := (Outcome.bind_eq_ok _ _ _).mp h
    cases h
    rw [List.forall_mem_cons, List.forall_mem_cons, hasBytes_append, hasBytes_append,
      hasBytes_keyText hkey, hasBytes_valueText l depth v htext,
      hasBytes_memberTexts l depth rest hothers, and_iff_left (hasBytes_ofString _)]

end

end Json
end XmlHarvest
