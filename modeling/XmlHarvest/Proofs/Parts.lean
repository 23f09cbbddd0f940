import XmlHarvest.Proofs.Conformity

/-! # A schema in two parts

A schema is split where one of its collections, or the schema itself, has a list of
named declarations: one part keeps some of the names, the other one the rest.  Both
parts keep all that is around the list, and what they give is merged into what the
whole gives: record by record on the way to the list, and there entry by entry. -/
set_option autoImplicit false

namespace XmlHarvest

open Xml

def Schema.fields (schema : Schema) : List (Text × FieldSpec) :=
  schema.collections.map fun c => (c.1, c.2.asField)

/-- Where a schema is split: in a list of declarations, or inside the one that has a
name. -/
inductive Split where
  | here (keep : Text → Bool)
  | inside (name : Text) (split : Split)

def FieldSpec.mapFields (f : List (Text × FieldSpec) → List (Text × FieldSpec)) :
    FieldSpec → FieldSpec
  | .nested anchor fields => .nested anchor (f fields)
  | .shorthand p => .shorthand p
  | .full field => .full field

def Split.fields (side : Bool) : Split → List (Text × FieldSpec) → List (Text × FieldSpec)
  | .here keep, fields => fields.filter fun f => keep f.1 == side
  | .inside name split, fields => fields.map fun f =>
      if f.1 = name then (f.1, f.2.mapFields (split.fields side)) else f

def Split.collections (side : Bool) :
    Split → List (Text × CollectionSpec) → List (Text × CollectionSpec)
  | .here keep, collections => collections.filter fun c => keep c.1 == side
  | .inside name split, collections => collections.map fun c =>
      if c.1 = name then (c.1, { c.2 with fields := split.fields side c.2.fields }) else c

def Schema.part (schema : Schema) (split : Split) (side : Bool) : Schema :=
  { schema with collections := split.collections side schema.collections }

/-- Two lists in one, taking turns as the flags say. -/
def weave {α : Type} : List Bool → List α → List α → List α
  | true :: flags, x :: xs, ys => x :: weave flags xs ys
  | false :: flags, xs, y :: ys => y :: weave flags xs ys
  | _, _, _ => []

example : weave [true, false, true] ["title", "pages"] ["author"] =
    ["title", "author", "pages"] := rfl

def Value.mergeMaps (merge : List (Scalar × Value) → List (Scalar × Value) →
    List (Scalar × Value)) : Value → Value → Value
  | .map a, .map b => .map (merge a b)
  | v, _ => v

/-- Merges two records, or two lists of records member by member. -/
def Value.mergeRecords (merge : List (Scalar × Value) → List (Scalar × Value) →
    List (Scalar × Value)) : Value → Value → Value
  | .list as, .list bs => .list (List.zipWith (mergeMaps merge) as bs)
  | v, w => mergeMaps merge v w

/-- Merges what the parts of a field give.  A field that has no fields of its own is the
same in both parts. -/
def FieldSpec.merge (merge : List (Text × FieldSpec) → List (Scalar × Value) →
    List (Scalar × Value) → List (Scalar × Value)) : FieldSpec → Value → Value → Value
  | .nested _ fields, v, w => Value.mergeRecords (merge fields) v w
  | .shorthand _, v, _ | .full _, v, _ => v

/-- Merges entry by entry what the parts of fields give, if each part has all of the
fields. -/
def mergeEntries (merge : Text × FieldSpec → Value → Value → Value) :
    List (Text × FieldSpec) → List (Scalar × Value) → List (Scalar × Value) →
      List (Scalar × Value)
  | f :: fields, (k, v) :: a, (_, w) :: b => (k, merge f v w) :: mergeEntries merge fields a b
  | _, _, _ => []

/-- Merges what the two parts of a list of fields give, in the order of the list. -/
def Split.merge : Split → List (Text × FieldSpec) → List (Scalar × Value) →
    List (Scalar × Value) → List (Scalar × Value)
  | .here keep, fields, a, b => weave (fields.map fun f => keep f.1) a b
  | .inside name split, fields, a, b =>
    mergeEntries (fun f v w => if f.1 = name then f.2.merge split.merge v w else v) fields a b

/-- Merges what the two parts of a schema give. -/
def Schema.merge (schema : Schema) (split : Split) : Value → Value → Value :=
  Value.mergeMaps (split.merge schema.fields)

section Anchors

variable {R A B : Element → List (Scalar × Value) → Prop}
  {merge : List (Scalar × Value) → List (Scalar × Value) → List (Scalar × Value)}

theorem reaches_unique {e target target' : Element} {segments : List Text}
    (h : Reaches e segments target) (h' : Reaches e segments target') : target = target' :=
  Except.ok.inj (((descend_eq_ok segments).mpr h).symm.trans ((descend_eq_ok segments).mpr h'))

theorem forall₂_merge (hmerge : ∀ e c, R e c ↔ ∃ a b, A e a ∧ B e b ∧ c = merge a b)
    (es : List Element) (cs : List (List (Scalar × Value))) :
    List.Forall₂ R es cs ↔ ∃ as bs, List.Forall₂ A es as ∧ List.Forall₂ B es bs ∧
      cs = List.zipWith merge as bs := by
  induction es generalizing cs with
  | nil => simp
  | cons e es ih =>
    simp only [List.forall₂_cons_left_iff, ih, hmerge]
    constructor
    · rintro ⟨_, _, ⟨a, b, ha, hb, rfl⟩, ⟨as, bs, has, hbs, rfl⟩, rfl⟩
      exact ⟨_, _, ⟨a, as, ha, has, rfl⟩, ⟨b, bs, hb, hbs, rfl⟩, rfl⟩
    · rintro ⟨_, _, ⟨a, as, ha, has, rfl⟩, ⟨b, bs, hb, hbs, rfl⟩, rfl⟩
      exact ⟨_, _, ⟨a, b, ha, hb, rfl⟩, ⟨as, bs, has, hbs, rfl⟩, rfl⟩

theorem zipWith_map_map (as bs : List (List (Scalar × Value))) :
    List.zipWith (Value.mergeMaps merge) (as.map .map) (bs.map .map) =
      (List.zipWith merge as bs).map .map := by
  rw [List.zipWith_map, List.map_zipWith]
  rfl

/-- If the records of a collection are merged ones, then so are its values. -/
theorem yields_merge (hmerge : ∀ e c, R e c ↔ ∃ a b, A e a ∧ B e b ∧ c = merge a b)
    (anchor : Anchor) (e : Element) (v : Value) :
    anchor.Yields R e v ↔ ∃ x y, anchor.Yields A e x ∧ anchor.Yields B e y ∧
      v = Value.mergeRecords merge x y := by
  cases anchor with
  | here =>
    simp only [Anchor.Yields, hmerge]
    constructor
    · rintro ⟨_, rfl, a, b, ha, hb, rfl⟩
      exact ⟨_, _, ⟨a, rfl, ha⟩, ⟨b, rfl, hb⟩, rfl⟩
    · rintro ⟨_, _, ⟨a, rfl, ha⟩, ⟨b, rfl, hb⟩, rfl⟩
      exact ⟨_, rfl, a, b, ha, hb, rfl⟩
  | within p =>
    simp only [Anchor.Yields, hmerge]
    constructor
    · rintro ⟨target, _, htarget, rfl, a, b, ha, hb, rfl⟩
      exact ⟨_, _, ⟨target, a, htarget, rfl, ha⟩, ⟨target, b, htarget, rfl, hb⟩, rfl⟩
    · rintro ⟨_, _, ⟨target, a, htarget, rfl, ha⟩, ⟨target', b, htarget', rfl, hb⟩, rfl⟩
      obtain rfl : target = target' := reaches_unique htarget htarget'
      exact ⟨target, _, htarget, rfl, a, b, ha, hb, rfl⟩
  | each p =>
    simp only [Anchor.Yields, forall₂_merge hmerge]
    constructor
    · rintro ⟨parent, selected, _, hparent, hselected, rfl, as, bs, has, hbs, rfl⟩
      refine ⟨_, _, ⟨parent, selected, as, hparent, hselected, rfl, has⟩,
        ⟨parent, selected, bs, hparent, hselected, rfl, hbs⟩, ?_⟩
      rw [Value.mergeRecords, zipWith_map_map]
    · rintro ⟨_, _, ⟨parent, selected, as, hparent, hselected, rfl, has⟩,
        ⟨parent', selected', bs, hparent', hselected', rfl, hbs⟩, rfl⟩
      obtain rfl : parent = parent' := reaches_unique hparent hparent'
      obtain rfl : selected = selected' := lists_unique hselected hselected'
      refine ⟨parent, selected, _, hparent, hselected, ?_, as, bs, has, hbs, rfl⟩
      rw [Value.mergeRecords, zipWith_map_map]

end Anchors

section Records

variable {s : Scope} {e : Element} {name : Text} {spec : FieldSpec}
  {fields : List (Text × FieldSpec)} {entries : List (Scalar × Value)}

theorem yieldsRecord_cons : FieldSpec.YieldsRecord s ((name, spec) :: fields) e entries ↔
    ∃ v others, entries = (.str name, v) :: others ∧ spec.Yields s e v ∧
      FieldSpec.YieldsRecord s fields e others := by
  rw [FieldSpec.YieldsRecord]

/-- Records whose fields are shared out are woven together. -/
theorem yieldsRecord_weave (keep : Text → Bool) : FieldSpec.YieldsRecord s fields e entries ↔
    ∃ a b, FieldSpec.YieldsRecord s (fields.filter fun f => keep f.1 == true) e a ∧
      FieldSpec.YieldsRecord s (fields.filter fun f => keep f.1 == false) e b ∧
      entries = weave (fields.map fun f => keep f.1) a b := by
  induction fields generalizing entries with
  | nil => simp [FieldSpec.YieldsRecord, weave]
  | cons field fields ih =>
    obtain ⟨name, spec⟩ := field
    rw [yieldsRecord_cons]
    simp only [ih, List.filter_cons, List.map_cons]
    cases hkeep : keep name with
    | true =>
      simp only [beq_self_eq_true, if_true, Bool.true_beq, Bool.false_eq_true, if_false,
        yieldsRecord_cons]
      constructor
      · rintro ⟨v, _, rfl, hv, a, b, ha, hb, rfl⟩
        exact ⟨_, b, ⟨v, a, rfl, hv, ha⟩, hb, rfl⟩
      · rintro ⟨_, b, ⟨v, a, rfl, hv, ha⟩, hb, rfl⟩
        exact ⟨v, _, rfl, hv, a, b, ha, hb, rfl⟩
    | false =>
      simp only [beq_self_eq_true, if_true, Bool.false_beq, Bool.not_true, Bool.false_eq_true,
        if_false, yieldsRecord_cons]
      constructor
      · rintro ⟨v, _, rfl, hv, a, b, ha, hb, rfl⟩
        exact ⟨a, _, ha, ⟨v, b, rfl, hv, hb⟩, rfl⟩
      · rintro ⟨a, _, ha, ⟨v, b, rfl, hv, hb⟩, rfl⟩
        exact ⟨v, _, rfl, hv, a, b, ha, hb, rfl⟩

/-- If the values of each field are merged ones, then so are the records. -/
theorem yieldsRecord_mergeEntries {f g : Text × FieldSpec → FieldSpec}
    {merge : Text × FieldSpec → Value → Value → Value}
    (hmerge : ∀ field v, field.2.Yields s e v ↔ ∃ x y, (f field).Yields s e x ∧
      (g field).Yields s e y ∧ v = merge field x y) :
    FieldSpec.YieldsRecord s fields e entries ↔
      ∃ a b, FieldSpec.YieldsRecord s (fields.map fun field => (field.1, f field)) e a ∧
        FieldSpec.YieldsRecord s (fields.map fun field => (field.1, g field)) e b ∧
        entries = mergeEntries merge fields a b := by
  induction fields generalizing entries with
  | nil => simp [FieldSpec.YieldsRecord, mergeEntries]
  | cons field fields ih =>
    obtain ⟨name, spec⟩ := field
    have hspec := hmerge (name, spec)
    rw [yieldsRecord_cons]
    simp only [ih, hspec, List.map_cons, yieldsRecord_cons]
    constructor
    · rintro ⟨_, _, rfl, ⟨x, y, hx, hy, rfl⟩, a, b, ha, hb, rfl⟩
      exact ⟨_, _, ⟨x, a, rfl, hx, ha⟩, ⟨y, b, rfl, hy, hb⟩, rfl⟩
    · rintro ⟨_, _, ⟨x, a, rfl, hx, ha⟩, ⟨y, b, rfl, hy, hb⟩, rfl⟩
      exact ⟨_, _, rfl, ⟨x, y, hx, hy, rfl⟩, a, b, ha, hb, rfl⟩

/-- What is the same in both parts is its own merge. -/
theorem yields_same (v : Value) :
    spec.Yields s e v ↔ ∃ x y, spec.Yields s e x ∧ spec.Yields s e y ∧ v = x := by
  constructor
  · intro h
    exact ⟨v, v, h, h, rfl⟩
  · rintro ⟨x, y, hx, -, rfl⟩
    exact hx

theorem yieldsRecord_parts (split : Split) (fields : List (Text × FieldSpec)) (e : Element)
    (entries : List (Scalar × Value)) :
    FieldSpec.YieldsRecord s fields e entries ↔
      ∃ a b, FieldSpec.YieldsRecord s (split.fields true fields) e a ∧
        FieldSpec.YieldsRecord s (split.fields false fields) e b ∧
        entries = split.merge fields a b := by
  induction split generalizing fields e entries with
  | here keep => exact yieldsRecord_weave keep
  | inside name split ih =>
    have hmap : ∀ side, (Split.inside name split).fields side fields = fields.map fun field =>
        (field.1, if field.1 = name then field.2.mapFields (split.fields side) else field.2) := by
      intro side
      rw [Split.fields]
      refine List.map_congr_left fun field _ => ?_
      split <;> rfl
    rw [hmap, hmap]
    refine yieldsRecord_mergeEntries fun field v => ?_
    obtain ⟨own, spec⟩ := field
    by_cases hname : own = name
    · simp only [hname, if_true]
      cases spec with
      | shorthand p => exact yields_same v
      | full f => exact yields_same v
      | nested anchor inner =>
        simp only [FieldSpec.mapFields, FieldSpec.Yields]
        exact yields_merge (fun e c => ih inner e c) anchor e v
    · simp only [hname, if_false]
      exact yields_same v

end Records

section Schemas

variable {registry : Registry} {root : Element} {output : Value}

theorem mapM_collection_eq_ok {s : Scope} (collections : List (Text × CollectionSpec))
    (entries : List (Scalar × Value)) :
    (collections.mapM fun (name, c) => do
        let v ← s.collection (some name) c root
        .ok (Scalar.str name, v)) = (.ok entries : Outcome _) ↔
      FieldSpec.YieldsRecord s (collections.map fun c => (c.1, c.2.asField)) root entries := by
  induction collections generalizing entries with
  | nil =>
    rw [List.mapM_nil, List.map_nil, FieldSpec.YieldsRecord]
    exact ⟨fun h => (Except.ok.inj h).symm, fun h => by rw [h]; rfl⟩
  | cons c collections ih =>
    obtain ⟨name, c⟩ := c
    have hfield : ∀ v, c.asField.Yields s root v ↔ c.Yields s root v := by
      intro v
      rw [CollectionSpec.asField, FieldSpec.Yields, CollectionSpec.Yields]
    rw [List.mapM_cons, List.map_cons, yieldsRecord_cons]
    simp only [Outcome.bind_eq_ok, ih, collection_eq_ok, hfield]
    constructor
    · rintro ⟨_, ⟨v, hv, h⟩, others, hothers, hentries⟩
      cases h
      cases hentries
      exact ⟨v, others, rfl, hv, hothers⟩
    · rintro ⟨v, others, rfl, hv, hothers⟩
      exact ⟨_, ⟨v, hv, rfl⟩, others, hothers, rfl⟩

/-- A schema gives the record of its collections at the root. -/
theorem extract_eq_ok_iff_record {schema : Schema} : schema.extract registry root = .ok output ↔
    ∃ entries, output = .map entries ∧
      FieldSpec.YieldsRecord ⟨registry, schema.mappers⟩ schema.fields root entries := by
  simp only [Schema.extract, Outcome.bind_eq_ok, mapM_collection_eq_ok, Except.ok.injEq]
  exact ⟨fun ⟨entries, h, hout⟩ => ⟨entries, hout.symm, h⟩,
    fun ⟨entries, hout, h⟩ => ⟨entries, h, hout.symm⟩⟩

theorem fields_part (schema : Schema) (split : Split) (side : Bool) :
    (schema.part split side).fields = split.fields side schema.fields := by
  cases split with
  | here keep =>
    rw [Schema.fields, Schema.fields, Schema.part, Split.fields, List.filter_map]
    rfl
  | inside name split =>
    simp only [Schema.fields, Schema.part, Split.fields, Split.collections, List.map_map]
    refine List.map_congr_left fun c _ => ?_
    by_cases hname : c.1 = name
    · simp [hname, CollectionSpec.asField, FieldSpec.mapFields]
    · simp [hname]

/-- A schema gives what its parts give, merged. -/
theorem extract_eq_ok_iff_parts (schema : Schema) (split : Split) :
    schema.extract registry root = .ok output ↔
      ∃ a b, (schema.part split true).extract registry root = .ok a ∧
        (schema.part split false).extract registry root = .ok b ∧
        output = schema.merge split a b := by
  simp only [extract_eq_ok_iff_record, fields_part]
  constructor
  · rintro ⟨entries, rfl, h⟩
    obtain ⟨a, b, ha, hb, rfl⟩ := (yieldsRecord_parts split _ _ _).mp h
    exact ⟨_, _, ⟨a, rfl, ha⟩, ⟨b, rfl, hb⟩, rfl⟩
  · rintro ⟨_, _, ⟨a, rfl, ha⟩, ⟨b, rfl, hb⟩, rfl⟩
    exact ⟨_, rfl, (yieldsRecord_parts split _ _ _).mpr ⟨a, b, ha, hb, rfl⟩⟩

end Schemas
end XmlHarvest
