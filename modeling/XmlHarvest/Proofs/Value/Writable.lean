import XmlHarvest.Proofs.Outcome
import XmlHarvest.Value.Text

/-! # Values whose text can be formed

Forming the text of a value fails for one reason only: an integer somewhere in
the value has more digits than the limit allows. -/
set_option autoImplicit false

namespace XmlHarvest

/-- A scalar occurs in a value, as a part or as a key. -/
inductive Value.Holds : Value → Scalar → Prop
  | scalar (s : Scalar) : Holds (.scalar s) s
  | item {items : List Value} {v : Value} {s : Scalar} (member : v ∈ items)
      (within : Holds v s) : Holds (.list items) s
  | key {entries : List (Scalar × Value)} {k : Scalar} {v : Value}
      (member : (k, v) ∈ entries) : Holds (.map entries) k
  | entry {entries : List (Scalar × Value)} {k s : Scalar} {v : Value}
      (member : (k, v) ∈ entries) (within : Holds v s) : Holds (.map entries) s

def Scalar.Writable : Scalar → Prop
  | .int i => i.natAbs < tenTo digitLimit
  | _ => True

def Value.Writable (v : Value) : Prop := ∀ s, v.Holds s → s.Writable

namespace Value

section Holding

variable {P : Scalar → Prop}

theorem forall_holds_scalar {s : Scalar} : (∀ t, (Value.scalar s).Holds t → P t) ↔ P s := by
  constructor
  · intro h
    exact h s (.scalar s)
  · intro h t ht
    cases ht
    exact h

theorem forall_holds_list {items : List Value} :
    (∀ s, (Value.list items).Holds s → P s) ↔ ∀ v ∈ items, ∀ s, v.Holds s → P s := by
  constructor
  · intro h v hv s hs
    exact h s (.item hv hs)
  · intro h s hs
    cases hs with
    | item hv within => exact h _ hv s within

theorem forall_holds_map {entries : List (Scalar × Value)} :
    (∀ s, (Value.map entries).Holds s → P s) ↔
      ∀ kv ∈ entries, P kv.1 ∧ ∀ s, kv.2.Holds s → P s := by
  constructor
  · intro h kv hkv
    exact ⟨h _ (.key hkv), fun s hs => h s (.entry hkv hs)⟩
  · intro h s hs
    cases hs with
    | key hkv => exact (h _ hkv).1
    | entry hkv within => exact (h _ hkv).2 s within

end Holding

theorem writable_scalar {s : Scalar} : (Value.scalar s).Writable ↔ s.Writable :=
  forall_holds_scalar

theorem tenTo_le_tenTo {m n : Nat} (h : m ≤ n) : tenTo m ≤ tenTo n :=
  Nat.pow_le_pow_right (by decide) h

/-- A power of ten with more zeros than the digit limit admits. -/
theorem not_writable_power {n : Nat} (h : digitLimit ≤ n) : ¬ (Value.int (tenTo n)).Writable := by
  rw [Value.int, Value.writable_scalar, Scalar.Writable, Int.natAbs_natCast]
  exact Nat.not_lt.mpr (tenTo_le_tenTo h)

theorem writable_list {items : List Value} :
    (Value.list items).Writable ↔ ∀ v ∈ items, v.Writable := forall_holds_list

theorem writable_map {entries : List (Scalar × Value)} :
    (Value.map entries).Writable ↔ ∀ kv ∈ entries, kv.1.Writable ∧ kv.2.Writable :=
  forall_holds_map

end Value

theorem length_toDigits_le (n k : Nat) (hk : 0 < k) :
    (Nat.toDigits 10 n).length ≤ k ↔ n < tenTo k :=
  Nat.length_toDigits_le_iff (by decide) hk

/-- What is written of an integer are its sign and its digits. -/
theorem integerText_eq_ok {i : Int} {text : Text} : integerText i = .ok text ↔
    (Text.digits 10 i.natAbs).length ≤ digitLimit ∧
      text = (if decide (i < 0) then [.char '-'] else []) ++ Text.digits 10 i.natAbs := by
  simp only [integerText]
  split
  · rename_i hlong
    exact iff_of_false (by simp) fun h => absurd h.1 (Nat.not_le.mpr hlong)
  · rename_i hshort
    rw [and_iff_right (Nat.not_lt.mp hshort), Except.ok.injEq, eq_comm]
    by_cases hi : i < 0 <;> simp [hi]

theorem integerText_failsIff (i : Int) :
    FailsIff (integerText i) .longInteger (¬ (Scalar.int i).Writable) := by
  have hdigits := length_toDigits_le i.natAbs digitLimit (by decide)
  intro fault
  rw [integerText, Scalar.Writable, ← hdigits, Nat.not_le, Text.length_digits]
  split
  · rename_i hlong
    simp only [hlong, and_true, Except.error.injEq]
    exact eq_comm
  · rename_i hshort
    simp only [hshort, and_false, reduceCtorEq]

namespace Scalar

theorem display?_failsIff (s : Scalar) : FailsIff s.display? .longInteger (¬ s.Writable) := by
  cases s with
  | int i => exact integerText_failsIff i
  | bool b => cases b <;> exact (FailsIff.ok _ _).congr (by simp [Writable])
  | null | float | str | time => exact (FailsIff.ok _ _).congr (by simp [Writable])

theorem text?_failsIff (s : Scalar) : FailsIff s.text? .longInteger (¬ s.Writable) := by
  cases s with
  | str | time => exact (FailsIff.ok _ _).congr (by simp [Writable])
  | null => exact display?_failsIff .null
  | bool b => exact display?_failsIff (.bool b)
  | int i => exact display?_failsIff (.int i)
  | float x => exact display?_failsIff (.float x)

end Scalar

namespace Value

mutual

theorem display?_failsIff (v : Value) : FailsIff v.display? .longInteger (¬ v.Writable) := by
  cases v with
  | scalar s =>
    rw [display?, writable_scalar]
    exact s.display?_failsIff
  | list items =>
    rw [display?, writable_list]
    exact ((displayItems_failsIff items).then_ok _).congr (by simp)
  | map entries =>
    rw [display?, writable_map]
    exact ((displayEntries_failsIff entries).then_ok _).congr (by simp)

theorem displayItems_failsIff (items : List Value) :
    FailsIff (displayItems items) .longInteger (∃ v ∈ items, ¬ v.Writable) := by
  cases items with
  | nil => exact (FailsIff.ok _ _).congr (by simp)
  | cons v rest =>
    rw [displayItems]
    have hrest := displayItems_failsIff rest
    exact ((display?_failsIff v).bind fun first _ => hrest.then_ok (first :: ·)).congr (by simp)

theorem displayEntries_failsIff (entries : List (Scalar × Value)) :
    FailsIff (displayEntries entries) .longInteger
      (∃ kv ∈ entries, ¬ (kv.1.Writable ∧ kv.2.Writable)) := by
  cases entries with
  | nil => exact (FailsIff.ok _ _).congr (by simp)
  | cons kv rest =>
    obtain ⟨k, v⟩ := kv
    rw [displayEntries]
    have hrest := displayEntries_failsIff rest
    refine (k.display?_failsIff.bind fun key _ => (display?_failsIff v).bind fun value _ =>
      hrest.then_ok ((key ++ ": " ++ value) :: ·)).congr ?_
    simp only [List.mem_cons, exists_eq_or_imp, not_and_or, or_assoc]

end

/-- The text of a value cannot be formed exactly when a long integer occurs in
it. -/
theorem text?_failsIff (v : Value) : FailsIff v.text? .longInteger (¬ v.Writable) := by
  cases v with
  | scalar s =>
    rw [text?, writable_scalar]
    exact s.text?_failsIff
  | list items => exact display?_failsIff (.list items)
  | map entries => exact display?_failsIff (.map entries)

end Value
end XmlHarvest
