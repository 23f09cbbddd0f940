import XmlHarvest.Proofs.Parts
import XmlHarvest.Proofs.References

/-! # Declarations in another order

Collections and fields may be declared in any order, at every depth.  The order of
the entries of a record follows them; nothing else depends on it. -/
set_option autoImplicit false

namespace XmlHarvest

open Xml

mutual

/-- The same field, with the fields inside it in another order. -/
def FieldSpec.Rearranged : FieldSpec → FieldSpec → Prop
  | .shorthand p, other => other = .shorthand p
  | .full f, other => other = .full f
  | .nested anchor fields, other =>
    ∃ fields', other = .nested anchor fields' ∧ FieldSpec.RearrangedFields fields fields'

def FieldSpec.RearrangedFields : List (Text × FieldSpec) → List (Text × FieldSpec) → Prop
  | [], others => others = []
  | (name, spec) :: rest, others =>
    ∃ spec' front back, others = front ++ (name, spec') :: back ∧ spec.Rearranged spec' ∧
      FieldSpec.RearrangedFields rest (front ++ back)

end

/-- The same collections and mappers, with all declarations in another order. -/
def Schema.Rearranged (schema other : Schema) : Prop :=
  FieldSpec.RearrangedFields schema.fields other.fields ∧
    ∀ name, Ordered.get? schema.mappers name = Ordered.get? other.mappers name

def Anchor.Same (record : List (Scalar × Value) → List (Scalar × Value) → Prop) :
    Anchor → Value → Value → Prop
  | .here, v, w | .within _, v, w => ∃ a b, v = .map a ∧ w = .map b ∧ record a b
  | .each _, v, w =>
    ∃ as bs, v = .list (as.map .map) ∧ w = .list (bs.map .map) ∧ List.Forall₂ record as bs

mutual

/-- Two values of a field that differ at most in the order of entries that its own fields
give. -/
def FieldSpec.Same : FieldSpec → Value → Value → Prop
  | .shorthand _, v, w | .full _, v, w => v = w
  | .nested anchor fields, v, w => anchor.Same (FieldSpec.SameRecord fields) v w

def FieldSpec.SameRecord :
    List (Text × FieldSpec) → List (Scalar × Value) → List (Scalar × Value) → Prop
  | [], a, b => a = [] ∧ b = []
  | (name, spec) :: rest, a, b =>
    ∃ v w others front back, a = (.str name, v) :: others ∧
      b = front ++ (.str name, w) :: back ∧ spec.Same v w ∧
      FieldSpec.SameRecord rest others (front ++ back)

end

/-- Two outputs of a schema that differ at most in the order of entries. -/
def Schema.Same (schema : Schema) (v w : Value) : Prop :=
  ∃ a b, v = .map a ∧ w = .map b ∧ FieldSpec.SameRecord schema.fields a b

/-- What has the one property is related to something that has the other, and the other
way round. -/
def Corresponding {α β : Type} (R : α → β → Prop) (P : α → Prop) (Q : β → Prop) : Prop :=
  (∀ a, P a → ∃ b, Q b ∧ R a b) ∧ ∀ b, Q b → ∃ a, P a ∧ R a b

theorem corresponding_self {α : Type} {R : α → α → Prop} {P : α → Prop} (h : ∀ a, P a → R a a) :
    Corresponding R P P :=
  ⟨fun a ha => ⟨a, ha, h a ha⟩, fun a ha => ⟨a, ha, h a ha⟩⟩

section Anchors

variable {R : List (Scalar × Value) → List (Scalar × Value) → Prop}
  {A B : Element → List (Scalar × Value) → Prop} {P Q : List (Scalar × Value) → Prop}

theorem corresponding_map (h : Corresponding R P Q) :
    Corresponding (fun v w => ∃ a b, v = Value.map a ∧ w = .map b ∧ R a b)
      (fun v => ∃ a, v = Value.map a ∧ P a) (fun w => ∃ b, w = Value.map b ∧ Q b) := by
  constructor
  · rintro _ ⟨a, rfl, ha⟩
    obtain ⟨b, hb, hab⟩ := h.1 a ha
    exact ⟨.map b, ⟨b, rfl, hb⟩, a, b, rfl, rfl, hab⟩
  · rintro _ ⟨b, rfl, hb⟩
    obtain ⟨a, ha, hab⟩ := h.2 b hb
    exact ⟨.map a, ⟨a, rfl, ha⟩, a, b, rfl, rfl, hab⟩

theorem corresponding_forall₂ (h : ∀ e, Corresponding R (A e) (B e)) (es : List Element) :
    Corresponding (List.Forall₂ R) (List.Forall₂ A es) (List.Forall₂ B es) := by
  constructor
  · intro as has
    induction has with
    | nil => exact ⟨[], .nil, .nil⟩
    | cons ha _ ih =>
      obtain ⟨b, hb, hab⟩ := (h _).1 _ ha
      obtain ⟨bs, hbs, hasbs⟩ := ih
      exact ⟨b :: bs, .cons hb hbs, .cons hab hasbs⟩
  · intro bs hbs
    induction hbs with
    | nil => exact ⟨[], .nil, .nil⟩
    | cons hb _ ih =>
      obtain ⟨a, ha, hab⟩ := (h _).2 _ hb
      obtain ⟨as, has, hasbs⟩ := ih
      exact ⟨a :: as, .cons ha has, .cons hab hasbs⟩

/-- If the records of a collection correspond, then so do its values. -/
theorem corresponding_yields (h : ∀ e, Corresponding R (A e) (B e)) (anchor : Anchor)
    (e : Element) : Corresponding (anchor.Same R) (anchor.Yields A e) (anchor.Yields B e) := by
  cases anchor with
  | here => exact corresponding_map (h e)
  | within p =>
    constructor
    · rintro _ ⟨target, a, htarget, rfl, ha⟩
      obtain ⟨b, hb, hab⟩ := (h target).1 a ha
      exact ⟨.map b, ⟨target, b, htarget, rfl, hb⟩, a, b, rfl, rfl, hab⟩
    · rintro _ ⟨target, b, htarget, rfl, hb⟩
      obtain ⟨a, ha, hab⟩ := (h target).2 b hb
      exact ⟨.map a, ⟨target, a, htarget, rfl, ha⟩, a, b, rfl, rfl, hab⟩
  | each p =>
    constructor
    · rintro _ ⟨parent, selected, as, hparent, hselected, rfl, has⟩
      obtain ⟨bs, hbs, hab⟩ := (corresponding_forall₂ h _).1 as has
      exact ⟨.list (bs.map .map), ⟨parent, selected, bs, hparent, hselected, rfl, hbs⟩, as, bs,
        rfl, rfl, hab⟩
    · rintro _ ⟨parent, selected, bs, hparent, hselected, rfl, hbs⟩
      obtain ⟨as, has, hab⟩ := (corresponding_forall₂ h _).2 bs hbs
      exact ⟨.list (as.map .map), ⟨parent, selected, as, hparent, hselected, rfl, has⟩, as, bs,
        rfl, rfl, hab⟩

end Anchors

section Orders

mutual

theorem FieldSpec.rearranged_refl (spec : FieldSpec) : spec.Rearranged spec := by
  cases spec with
  | shorthand p => rw [FieldSpec.Rearranged]
  | full f => rw [FieldSpec.Rearranged]
  | nested anchor fields =>
    rw [FieldSpec.Rearranged]
    exact ⟨fields, rfl, FieldSpec.rearrangedFields_refl fields⟩

theorem FieldSpec.rearrangedFields_refl (fields : List (Text × FieldSpec)) :
    FieldSpec.RearrangedFields fields fields := by
  cases fields with
  | nil => rw [FieldSpec.RearrangedFields]
  | cons field rest =>
    obtain ⟨name, spec⟩ := field
    rw [FieldSpec.RearrangedFields]
    exact ⟨spec, [], rest, rfl, spec.rearranged_refl, FieldSpec.rearrangedFields_refl rest⟩

end

theorem FieldSpec.rearrangedFields_of_perm {fields others : List (Text × FieldSpec)}
    (h : fields.Perm others) : FieldSpec.RearrangedFields fields others := by
  induction fields generalizing others with
  | nil =>
    rw [FieldSpec.RearrangedFields]
    exact h.nil_eq.symm
  | cons field rest ih =>
    obtain ⟨name, spec⟩ := field
    obtain ⟨front, back, rfl⟩ := List.append_of_mem (h.subset List.mem_cons_self)
    rw [FieldSpec.RearrangedFields]
    exact ⟨spec, front, back, rfl, spec.rearranged_refl,
      ih (List.Perm.cons_inv (h.trans List.perm_middle))⟩

/-- Collections may be declared in any order. -/
theorem Schema.rearranged_of_perm {schema other : Schema}
    (hcollections : schema.collections.Perm other.collections)
    (hmappers : ∀ name, Ordered.get? schema.mappers name = Ordered.get? other.mappers name) :
    schema.Rearranged other :=
  ⟨FieldSpec.rearrangedFields_of_perm (hcollections.map _), hmappers⟩

end Orders

section Records

variable {s s' : Scope} {e : Element} {name : Text} {spec : FieldSpec}
  {fields front back : List (Text × FieldSpec)} {entries : List (Scalar × Value)}

theorem yieldsRecord_append : FieldSpec.YieldsRecord s (front ++ back) e entries ↔
    ∃ first rest, entries = first ++ rest ∧ FieldSpec.YieldsRecord s front e first ∧
      FieldSpec.YieldsRecord s back e rest := by
  induction front generalizing entries with
  | nil => simp [FieldSpec.YieldsRecord]
  | cons field front ih =>
    obtain ⟨name, spec⟩ := field
    simp only [List.cons_append, yieldsRecord_cons, ih]
    constructor
    · rintro ⟨v, _, rfl, hv, first, rest, rfl, hfirst, hrest⟩
      exact ⟨_, rest, rfl, ⟨v, first, rfl, hv, hfirst⟩, hrest⟩
    · rintro ⟨_, rest, rfl, ⟨v, first, rfl, hv, hfirst⟩, hrest⟩
      exact ⟨v, _, rfl, hv, first, rest, rfl, hfirst, hrest⟩

/-- The entry of a field stands among those of the others where the field does. -/
theorem yieldsRecord_insert :
    FieldSpec.YieldsRecord s (front ++ (name, spec) :: back) e entries ↔
      ∃ first v rest, entries = first ++ (.str name, v) :: rest ∧ spec.Yields s e v ∧
        FieldSpec.YieldsRecord s front e first ∧ FieldSpec.YieldsRecord s back e rest := by
  simp only [yieldsRecord_append, yieldsRecord_cons]
  constructor
  · rintro ⟨first, _, rfl, hfirst, v, rest, rfl, hv, hrest⟩
    exact ⟨first, v, rest, rfl, hv, hfirst, hrest⟩
  · rintro ⟨first, v, rest, rfl, hv, hfirst, hrest⟩
    exact ⟨first, _, rfl, hfirst, v, rest, rfl, hv, hrest⟩

/-- Where a field is declared among others decides where its entry stands among
theirs. -/
theorem corresponding_insert {spec' : FieldSpec} {rest : List (Text × FieldSpec)}
    (hspec : Corresponding spec.Same (spec.Yields s e) (spec'.Yields s' e))
    (hrest : Corresponding (FieldSpec.SameRecord rest) (FieldSpec.YieldsRecord s rest e)
      (FieldSpec.YieldsRecord s' (front ++ back) e)) :
    Corresponding (FieldSpec.SameRecord ((name, spec) :: rest))
      (FieldSpec.YieldsRecord s ((name, spec) :: rest) e)
      (FieldSpec.YieldsRecord s' (front ++ (name, spec') :: back) e) := by
  constructor
  · intro entries h
    obtain ⟨v, others, rfl, hv, hothers⟩ := yieldsRecord_cons.mp h
    obtain ⟨w, hw, hvw⟩ := hspec.1 v hv
    obtain ⟨moved, hmoved, hsame⟩ := hrest.1 others hothers
    obtain ⟨first, last, rfl, hfirst, hlast⟩ := yieldsRecord_append.mp hmoved
    refine ⟨first ++ (.str name, w) :: last,
      yieldsRecord_insert.mpr ⟨first, w, last, rfl, hw, hfirst, hlast⟩, ?_⟩
    rw [FieldSpec.SameRecord]
    exact ⟨v, w, others, first, last, rfl, rfl, hvw, hsame⟩
  · intro entries h
    obtain ⟨first, w, last, rfl, hw, hfirst, hlast⟩ := yieldsRecord_insert.mp h
    obtain ⟨v, hv, hvw⟩ := hspec.2 w hw
    obtain ⟨others, hothers, hsame⟩ := hrest.2 (first ++ last)
      (yieldsRecord_append.mpr ⟨first, last, rfl, hfirst, hlast⟩)
    refine ⟨(.str name, v) :: others, yieldsRecord_cons.mpr ⟨v, others, rfl, hv, hothers⟩, ?_⟩
    rw [FieldSpec.SameRecord]
    exact ⟨v, w, others, first, last, rfl, rfl, hvw, hsame⟩

mutual

theorem corresponding_field (hfull : ∀ e f, s.runFull e f = s'.runFull e f)
    (spec other : FieldSpec) (e : Element) (h : spec.Rearranged other) :
    Corresponding spec.Same (spec.Yields s e) (other.Yields s' e) := by
  cases spec with
  | shorthand p =>
    rw [FieldSpec.Rearranged] at h
    subst h
    have hyields : FieldSpec.Yields s (.shorthand p) e = FieldSpec.Yields s' (.shorthand p) e := rfl
    rw [hyields]
    exact corresponding_self fun v _ => by rw [FieldSpec.Same]
  | full f =>
    rw [FieldSpec.Rearranged] at h
    subst h
    have hyields : FieldSpec.Yields s (.full f) e = FieldSpec.Yields s' (.full f) e := by
      funext v
      rw [FieldSpec.Yields, FieldSpec.Yields, hfull]
    rw [hyields]
    exact corresponding_self fun v _ => by rw [FieldSpec.Same]
  | nested anchor fields =>
    rw [FieldSpec.Rearranged] at h
    obtain ⟨fields', rfl, hfields⟩ := h
    have hrecord := fun target => corresponding_record hfull fields fields' target hfields
    exact corresponding_yields hrecord anchor e

theorem corresponding_record (hfull : ∀ e f, s.runFull e f = s'.runFull e f)
    (fields others : List (Text × FieldSpec)) (e : Element)
    (h : FieldSpec.RearrangedFields fields others) :
    Corresponding (FieldSpec.SameRecord fields) (FieldSpec.YieldsRecord s fields e)
      (FieldSpec.YieldsRecord s' others e) := by
  cases fields with
  | nil =>
    rw [FieldSpec.RearrangedFields] at h
    subst h
    have hyields : FieldSpec.YieldsRecord s [] e = FieldSpec.YieldsRecord s' [] e := rfl
    rw [hyields]
    refine corresponding_self fun entries hentries => ?_
    rw [FieldSpec.YieldsRecord] at hentries
    rw [FieldSpec.SameRecord]
    exact ⟨hentries, hentries⟩
  | cons field rest =>
    obtain ⟨name, spec⟩ := field
    rw [FieldSpec.RearrangedFields] at h
    obtain ⟨spec', front, back, rfl, hspec, hrest⟩ := h
    exact corresponding_insert (corresponding_field hfull spec spec' e hspec)
      (corresponding_record hfull rest (front ++ back) e hrest)

end

end Records

/-- Of its mappers a full field sees what they are under their names. -/
theorem runFull_congr (registry : Registry) {mappers mappers' : Mappers}
    (h : ∀ name, Ordered.get? mappers name = Ordered.get? mappers' name) (e : Element)
    (f : FullField) :
    Scope.runFull ⟨registry, mappers⟩ e f = Scope.runFull ⟨registry, mappers'⟩ e f := by
  apply runFull_eq_of_sameIn
  refine ⟨fun name _ => rfl, fun name _ v debug => ?_, rfl⟩
  simp only [Mappers.map, h]

/-- A schema and the same one with its declarations in another order give corresponding
outputs. -/
theorem corresponding_extract {schema other : Schema} (registry : Registry) (root : Element)
    (h : schema.Rearranged other) :
    Corresponding schema.Same (fun v => schema.extract registry root = .ok v)
      (fun w => other.extract registry root = .ok w) := by
  obtain ⟨hfields, hmappers⟩ := h
  have hrecord := corresponding_record (runFull_congr registry hmappers) _ _ root hfields
  simp only [extract_eq_ok_iff_record]
  exact corresponding_map hrecord

/-- The declarations of a schema do not interact.  Wherever it is split in two, it gives
something exactly when both parts do, and then what they give, merged in its own order.
In another order it gives the same, but for the order of entries, or nothing either. -/
theorem declarations_do_not_interact (schema : Schema) (registry : Registry) (root : Element) :
    (∀ split output, schema.extract registry root = .ok output ↔
      ∃ a b, (schema.part split true).extract registry root = .ok a ∧
        (schema.part split false).extract registry root = .ok b ∧
        output = schema.merge split a b) ∧
    ∀ other, schema.Rearranged other →
      ((∃ output, schema.extract registry root = .ok output) ↔
        ∃ output, other.extract registry root = .ok output) ∧
      ∀ v w, schema.extract registry root = .ok v → other.extract registry root = .ok w →
        schema.Same v w := by
  refine ⟨fun split output => extract_eq_ok_iff_parts schema split, ?_⟩
  intro other h
  obtain ⟨honward, hback⟩ := corresponding_extract registry root h
  refine ⟨⟨?_, ?_⟩, ?_⟩
  · rintro ⟨v, hv⟩
    obtain ⟨w, hw, -⟩ := honward v hv
    exact ⟨w, hw⟩
  · rintro ⟨w, hw⟩
    obtain ⟨v, hv, -⟩ := hback w hw
    exact ⟨v, hv⟩
  · intro v w hv hw
    obtain ⟨w', hw', hsame⟩ := honward v hv
    obtain rfl : w' = w := Except.ok.inj (hw'.symm.trans hw)
    exact hsame

end XmlHarvest
