import XmlHarvest.Number.Reading
import XmlHarvest.Proofs.Number.Rounding
import XmlHarvest.Proofs.Ordered
import XmlHarvest.Proofs.Value.Keys
import XmlHarvest.Proofs.Value.Writable

/-! # Clean values

Values that lose nothing in a text format of null, truth values, numbers, texts, lists
and maps: their integers keep within the digit limit, no number is a NaN, there are no
times, and the keys of maps are texts. -/
set_option autoImplicit false

namespace XmlHarvest

def Scalar.Clean : Scalar → Prop
  | .int i => (Scalar.int i).Writable
  | .float x => x.Canonical ∧ x ≠ .nan
  | .time _ => False
  | .null | .bool _ | .str _ => True

theorem natAbs_signed (negative : Bool) (n : Nat) : (signed negative n).natAbs = n := by
  cases negative with
  | false => exact Int.natAbs_natCast n
  | true => exact (Int.natAbs_neg _).trans (Int.natAbs_natCast n)

theorem writable_signed (negative : Bool) {n : Nat} (h : n < tenTo digitLimit) :
    (Scalar.int (signed negative n)).Writable := by
  rw [Scalar.Writable, natAbs_signed]
  exact h

def TextKeys (entries : List (Scalar × Value)) : Prop := ∀ e ∈ entries, ∃ name, e.1 = .str name

inductive Value.Clean : Value → Prop
  | scalar {s : Scalar} (clean : s.Clean) : Clean (.scalar s)
  | list {items : List Value} (each : ∀ v ∈ items, v.Clean) : Clean (.list items)
  | map {entries : List (Scalar × Value)} (texts : TextKeys entries)
      (different : (Ordered.keys entries).Nodup) (each : ∀ e ∈ entries, e.2.Clean) :
      Clean (.map entries)

namespace Value

variable {s : Scalar} {items : List Value} {entries : List (Scalar × Value)} {name : Text}
  {v : Value}

theorem clean_scalar : (Value.scalar s).Clean ↔ s.Clean := by
  constructor
  · intro h
    cases h with
    | scalar h => exact h
  · exact .scalar

theorem clean_list : (Value.list items).Clean ↔ ∀ v ∈ items, v.Clean := by
  constructor
  · intro h
    cases h with
    | list h => exact h
  · exact .list

theorem clean_map : (Value.map entries).Clean ↔
    TextKeys entries ∧ (Ordered.keys entries).Nodup ∧ ∀ e ∈ entries, e.2.Clean := by
  constructor
  · intro h
    cases h with
    | map texts different each => exact ⟨texts, different, each⟩
  · intro h
    exact .map h.1 h.2.1 h.2.2

theorem clean_null : Value.null.Clean := .scalar trivial

theorem clean_str (text : Text) : (Value.str text).Clean := .scalar trivial

theorem Clean.of_entry (h : (Value.map entries).Clean) (hentry : entry? entries name = some v) :
    v.Clean :=
  (clean_map.mp h).2.2 _ (entry?_eq_some hentry)

theorem Clean.getD_entry (h : (Value.map entries).Clean) (name : Text) :
    ((Value.entry? entries name).getD .null).Clean := by
  cases hentry : entry? entries name with
  | none => exact clean_null
  | some v => exact h.of_entry hentry

/-- All that occurs in a clean value is clean, keys included. -/
theorem Clean.of_holds (h : v.Clean) (hs : v.Holds s) : s.Clean := by
  induction hs with
  | scalar => exact clean_scalar.mp h
  | item member _ ih => exact ih (clean_list.mp h _ member)
  | key member =>
    obtain ⟨name, hname⟩ := (clean_map.mp h).1 _ member
    dsimp only at hname
    rw [hname]
    trivial
  | entry member _ ih => exact ih ((clean_map.mp h).2.2 _ member)

end Value

/-! ## Tables with texts as keys -/

theorem putBy_same_str (name : Text) (v : Value) (table : List (Scalar × Value)) :
    Ordered.putBy Scalar.same (.str name) v table = Ordered.put (.str name) v table := by
  induction table with
  | nil => rfl
  | cons e table ih =>
    obtain ⟨k, w⟩ := e
    rw [Ordered.put, Ordered.putBy, Ordered.putBy, ih, Ordered.put]
    simp only [Scalar.same_str, beq_iff_eq]

theorem ofEntries_of_textKeys {entries : List (Scalar × Value)} (h : TextKeys entries) :
    Value.ofEntries entries = .map (Ordered.ofList entries) := by
  have hfold : ∀ table,
      entries.foldl (fun t (e : Scalar × Value) => Ordered.putBy Scalar.same e.1 e.2 t) table =
        Ordered.update table entries := by
    induction entries with
    | nil => intro table; rfl
    | cons e entries ih =>
      intro table
      obtain ⟨name, hname⟩ := h e (by simp)
      obtain ⟨k, v⟩ := e
      dsimp only at hname
      subst hname
      rw [List.foldl_cons, putBy_same_str, Ordered.update_cons]
      exact ih (fun e he => h e (by simp [he])) _
  rw [Value.ofEntries, Ordered.ofListBy, Ordered.ofList_eq_update, ← hfold]

end XmlHarvest
