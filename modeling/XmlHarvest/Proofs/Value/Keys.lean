import XmlHarvest.Proofs.Outcome
import XmlHarvest.Schema.Reading

/-! # Maps and their keys

A map is looked up by texts.  A text is the same key as itself and as nothing else,
so which keys of a map are known, and which known keys it has, is decided by the
keys that are texts.  What is read of a map is read of its entries in turn, which
are values themselves. -/
set_option autoImplicit false

namespace XmlHarvest

def KeysAmong (names : List Text) (entries : List (Scalar × Value)) : Prop :=
  ∀ e ∈ entries, ∃ name ∈ names, e.1 = .str name

variable {names : List Text} {entries entries' : List (Scalar × Value)} {name : Text}
  {k : Scalar} {v : Value}

theorem Scalar.same_str : k.same (.str name) = true ↔ k = .str name := by
  cases k <;> simp [same, integer?]

namespace Value

/-- To show something of every value, show it of a value whose parts have it. -/
theorem induction_on_parts {motive : Value → Prop} (scalar : ∀ s, motive (.scalar s))
    (list : ∀ items, (∀ v ∈ items, motive v) → motive (.list items))
    (map : ∀ entries, (∀ e ∈ entries, motive e.2) → motive (.map entries)) (v : Value) :
    motive v := by
  refine @Value.rec motive (fun items => ∀ v ∈ items, motive v)
    (fun entries => ∀ e ∈ entries, motive e.2) (fun e => motive e.2) scalar list map
    ?noItems ?item ?noEntries ?entry ?pair v
  case noItems => simp
  case item => exact fun v items hv hitems => List.forall_mem_cons.mpr ⟨hv, hitems⟩
  case noEntries => simp
  case entry => exact fun e entries he hentries => List.forall_mem_cons.mpr ⟨he, hentries⟩
  case pair => exact fun k v hv => hv

theorem entry?_eq_some (h : entry? entries name = some v) : (.str name, v) ∈ entries := by
  induction entries with
  | nil => simp [Value.entry?, Ordered.find?] at h
  | cons e rest ih =>
    obtain ⟨k, w⟩ := e
    rw [Value.entry?, Ordered.find?] at h
    split at h
    · rename_i hsame
      cases h
      rw [Scalar.same_str.mp hsame]
      exact List.mem_cons_self
    · exact List.mem_cons_of_mem _ (ih h)

theorem entry?_eq_none : entry? entries name = none ↔ ∀ e ∈ entries, e.1 ≠ .str name := by
  induction entries with
  | nil => simp [Value.entry?, Ordered.find?]
  | cons e rest ih =>
    obtain ⟨k, w⟩ := e
    rw [Value.entry?, Ordered.find?, List.forall_mem_cons, ← ih, Value.entry?]
    by_cases hk : k.same (.str name) = true
    · have heq : k = .str name := Scalar.same_str.mp hk
      rw [if_pos hk]
      simp [heq]
    · have hne : k ≠ .str name := fun heq => hk (Scalar.same_str.mpr heq)
      simp [hk, hne]

theorem isSome_entry?_of_keys (h : Ordered.keys entries = Ordered.keys entries') :
    (Value.entry? entries name).isSome = (Value.entry? entries' name).isSome := by
  have hnone : ∀ es : List (Scalar × Value),
      entry? es name = none ↔ .str name ∉ Ordered.keys es := by
    intro es
    simp only [Value.entry?_eq_none, Ordered.keys, List.mem_map, not_exists, not_and, ne_eq]
  rw [Bool.eq_iff_iff, Option.isSome_iff_ne_none, Option.isSome_iff_ne_none, Ne, Ne, hnone, hnone,
    h]

section Replaced

variable (front back : List (Scalar × Value)) (v w : Value)

theorem entry?_replaced (hkey : k ≠ .str name) :
    entry? (front ++ (k, v) :: back) name = entry? (front ++ (k, w) :: back) name := by
  induction front with
  | nil =>
    have hother : ¬ k.same (.str name) = true := fun h => hkey (Scalar.same_str.mp h)
    simp [Value.entry?, Ordered.find?, hother]
  | cons e front ih =>
    simp only [Value.entry?] at ih
    simp only [List.cons_append, entry?, Ordered.find?, ih]

/-- Replacing the value of an entry replaces what is found under its key, unless an earlier
entry is found there. -/
theorem entry?_replaced_self :
    entry? (front ++ (.str name, v) :: back) name = entry? (front ++ (.str name, w) :: back) name ∨
      entry? (front ++ (.str name, v) :: back) name = some v ∧
        entry? (front ++ (.str name, w) :: back) name = some w := by
  induction front with
  | nil =>
    have hsame : (Scalar.str name).same (.str name) = true := Scalar.same_str.mpr rfl
    exact .inr ⟨by simp [Value.entry?, Ordered.find?, hsame],
      by simp [Value.entry?, Ordered.find?, hsame]⟩
  | cons e front ih =>
    simp only [Value.entry?] at ih
    simp only [List.cons_append, entry?, Ordered.find?]
    split
    · exact .inl rfl
    · exact ih

end Replaced

end Value

/-- A key that is not among the known ones is not there. -/
theorem KeysAmong.entry?_eq_none (h : KeysAmong names entries) (hname : name ∉ names) :
    Value.entry? entries name = none := by
  refine Value.entry?_eq_none.mpr fun e he heq => ?_
  obtain ⟨known, hknown, hkey⟩ := h e he
  rw [heq] at hkey
  cases hkey
  exact hname hknown

theorem unknownKeys_eq_nil : unknownKeys names entries = .ok [] ↔ KeysAmong names entries := by
  rw [unknownKeys, Outcome.bind_eq_ok]
  have hstrangers : (∃ texts, (entries.filter fun e => !(names.any fun n => e.1.same (.str n))).mapM
      (fun e => e.1.text?) = .ok texts ∧ texts.mergeSort (fun a b => decide (a ≤ b)) = []) ↔
      (entries.filter fun e => !(names.any fun n => e.1.same (.str n))) = [] := by
    constructor
    · rintro ⟨texts, htexts, hsorted⟩
      have hlength : (texts.mergeSort fun a b => decide (a ≤ b)).length = texts.length :=
        List.length_mergeSort texts
      rw [hsorted] at hlength
      rw [List.length_eq_zero_iff.mp hlength.symm, Outcome.mapM_eq_ok] at htexts
      exact List.forall₂_nil_right_iff.mp htexts
    · intro hnone
      rw [hnone]
      exact ⟨[], rfl, by simp⟩
  have hsplit : ∀ texts : List Text,
      (Except.ok (texts.mergeSort fun a b => decide (a ≤ b)) : Except Fault (List Text)) =
        .ok [] ↔ texts.mergeSort (fun a b => decide (a ≤ b)) = [] := by
    intro texts
    simp
  simp only [hsplit]
  rw [hstrangers, List.filter_eq_nil_iff]
  simp [KeysAmong, Scalar.same_str]

/-- A reader that refuses unknown keys reads the maps without any. -/
theorem unknownKeys_bind_eq_ok {α : Type} {f : List Text → Outcome α} {a : α}
    (hrefuse : ∀ unknown, unknown ≠ [] → f unknown ≠ .ok a) :
    (Outcome.ofFault (unknownKeys names entries) >>= f) = .ok a ↔
      KeysAmong names entries ∧ f [] = .ok a := by
  simp only [Outcome.bind_eq_ok, Outcome.ofFault_eq_ok]
  rw [← unknownKeys_eq_nil]
  constructor
  · rintro ⟨unknown, hunknown, h⟩
    by_cases hnil : unknown = []
    · subst hnil
      exact ⟨hunknown, h⟩
    · exact absurd h (hrefuse unknown hnil)
  · rintro ⟨hnone, h⟩
    exact ⟨[], hnone, h⟩

theorem exists_unknownKeys_bind {α : Type} {f : List Text → Outcome α}
    (hrefuse : ∀ unknown a, unknown ≠ [] → f unknown ≠ .ok a) :
    (∃ a, (Outcome.ofFault (unknownKeys names entries) >>= f) = .ok a) ↔
      KeysAmong names entries ∧ ∃ a, f [] = .ok a := by
  rw [← exists_and_left]
  exact exists_congr fun a => unknownKeys_bind_eq_ok fun unknown => hrefuse unknown a

theorem presentKeys_eq_nil :
    presentKeys names entries = [] ↔ ∀ name ∈ names, Value.entry? entries name = none := by
  simp [presentKeys, List.filter_eq_nil_iff]

/-- Which keys of a map are unknown is decided by its keys, and so is which are present. -/
theorem unknownKeys_eq_of_keys (h : Ordered.keys entries = Ordered.keys entries') :
    unknownKeys names entries = unknownKeys names entries' := by
  have hstrangers : ∀ es : List (Scalar × Value),
      (es.filter fun e => !(names.any fun n => e.1.same (.str n))).mapM (fun e => e.1.text?) =
        ((Ordered.keys es).filter fun k => !(names.any fun n => k.same (.str n))).mapM
          Scalar.text? := by
    intro es
    rw [Ordered.keys, List.filter_map, List.mapM_map]
    rfl
  rw [unknownKeys, unknownKeys, hstrangers, hstrangers, h]

theorem presentKeys_eq_of_keys (h : Ordered.keys entries = Ordered.keys entries') :
    presentKeys names entries = presentKeys names entries' := by
  simp only [presentKeys, Value.isSome_entry?_of_keys h]

end XmlHarvest
