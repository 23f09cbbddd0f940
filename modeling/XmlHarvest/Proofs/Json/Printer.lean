import XmlHarvest.Json.Printer
import XmlHarvest.Proofs.Value.Writable

/-! # Values that can be written as JSON

Texts, numbers and truth values are written wherever they stand, as long as integers keep
within the digit limit.  Dates and times are written nowhere, not even as keys. -/
set_option autoImplicit false

namespace XmlHarvest

def Scalar.Printable : Scalar → Prop
  | .time _ => False
  | s => s.Writable

def Value.Printable (v : Value) : Prop := ∀ s, v.Holds s → s.Printable

namespace Json

theorem exists_scalarText (s : Scalar) : (∃ text, scalarText s = .ok text) ↔ s.Printable := by
  cases s with
  | int i =>
    have htext := (integerText_failsIff i).eq_ok_iff
    rw [not_not] at htext
    exact htext
  | bool b => cases b <;> simp [scalarText, Scalar.Printable, Scalar.Writable]
  | time t => simp [scalarText, Scalar.Printable]
  | null | float | str => simp [scalarText, Scalar.Printable, Scalar.Writable]

theorem exists_keyText (k : Scalar) : (∃ text, keyText k = .ok text) ↔ k.Printable := by
  have hscalar := exists_scalarText k
  cases k with
  | str s => simp [keyText, Scalar.Printable, Scalar.Writable]
  | time t => simp [keyText, Scalar.Printable]
  | null | bool | int | float =>
    rw [← hscalar]
    simp [keyText, Outcome.exists_bind_eq_ok]

mutual

theorem exists_valueText (l : Layout) (depth : Nat) (v : Value) :
    (∃ text, valueText l depth v = .ok text) ↔ v.Printable := by
  cases v with
  | scalar s =>
    rw [valueText, exists_scalarText]
    exact Value.forall_holds_scalar.symm
  | list items =>
    rw [valueText, Outcome.exists_bind_eq_ok, Value.Printable, Value.forall_holds_list]
    simpa [Value.Printable] using exists_itemTexts l (depth + 1) items
  | map entries =>
    rw [valueText, Outcome.exists_bind_eq_ok, Value.Printable, Value.forall_holds_map]
    simpa [Value.Printable] using exists_memberTexts l (depth + 1) entries

theorem exists_itemTexts (l : Layout) (depth : Nat) (items : List Value) :
    (∃ texts, itemTexts l depth items = .ok texts) ↔ ∀ v ∈ items, v.Printable := by
  cases items with
  | nil => simp [itemTexts]
  | cons v rest =>
    rw [itemTexts, List.forall_mem_cons, ← exists_valueText l depth v,
      ← exists_itemTexts l depth rest]
    simp [Outcome.exists_bind_eq_ok]

theorem exists_memberTexts (l : Layout) (depth : Nat) (entries : List (Scalar × Value)) :
    (∃ texts, memberTexts l depth entries = .ok texts) ↔
      ∀ kv ∈ entries, kv.1.Printable ∧ kv.2.Printable := by
  cases entries with
  | nil => simp [memberTexts]
  | cons kv rest =>
    obtain ⟨k, v⟩ := kv
    rw [memberTexts, List.forall_mem_cons, ← exists_keyText k, ← exists_valueText l depth v,
      ← exists_memberTexts l depth rest]
    simp [Outcome.exists_bind_eq_ok, and_assoc]

end

end Json
end XmlHarvest
