import XmlHarvest.Extraction
import XmlHarvest.Proofs.Children
import XmlHarvest.Proofs.Outcome
import XmlHarvest.Proofs.Path

/-! # The shape of what is extracted

Which values a schema admits at an element, stated without failures and order of
evaluation: every path is followed by first matches, a collection that selects
elements has one record for each of them, and a record has one entry for each
field.  An extraction succeeds with exactly the value that is admitted. -/
set_option autoImplicit false

namespace XmlHarvest

open Xml

/-- The tags lead from an element to another one, each to the first child
element that has it. -/
inductive Reaches : Element → List Text → Element → Prop
  | here (e : Element) : Reaches e [] e
  | step {e child target : Element} {tag : Text} {rest : List Text}
      {before after : List Element} (children : e.elements = before ++ child :: after)
      (first : ∀ c ∈ before, c.tag ≠ tag) (tagged : child.tag = tag)
      (onward : Reaches child rest target) : Reaches e (tag :: rest) target

/-- The values of a collection whose records at an element are those that
`record` admits there. -/
def Anchor.Yields (record : Element → List (Scalar × Value) → Prop) :
    Anchor → Element → Value → Prop
  | .here, e, v => ∃ entries, v = .map entries ∧ record e entries
  | .within p, e, v =>
    ∃ target entries, Reaches e p.segments target ∧ v = .map entries ∧ record target entries
  | .each p, e, v =>
    ∃ parent selected records, Reaches e p.parent parent ∧ parent.Lists p.terminal selected ∧
      v = .list (records.map .map) ∧ List.Forall₂ record selected records

mutual

/-- The values that a field admits at an element. -/
def FieldSpec.Yields (s : Scope) : FieldSpec → Element → Value → Prop
  | .shorthand p, e, v => ∃ target, Reaches e p.segments target ∧ v = .str target.text
  | .full f, e, v => s.runFull e f = .ok v
  | .nested anchor fields, e, v => anchor.Yields (FieldSpec.YieldsRecord s fields) e v

def FieldSpec.YieldsRecord (s : Scope) :
    List (Text × FieldSpec) → Element → List (Scalar × Value) → Prop
  | [], _, entries => entries = []
  | (name, spec) :: rest, e, entries =>
    ∃ v others, entries = (.str name, v) :: others ∧ spec.Yields s e v ∧
      FieldSpec.YieldsRecord s rest e others

end

def CollectionSpec.Yields (s : Scope) (c : CollectionSpec) (e : Element) (v : Value) : Prop :=
  c.anchor.Yields (FieldSpec.YieldsRecord s c.fields) e v

/-- The keys of a record are the names of the fields, in their order. -/
theorem keys_of_yieldsRecord {s : Scope} {fields : List (Text × FieldSpec)} {e : Element}
    {entries : List (Scalar × Value)} (h : FieldSpec.YieldsRecord s fields e entries) :
    Ordered.keys entries = fields.map fun field => .str field.1 := by
  induction fields generalizing entries with
  | nil =>
    rw [FieldSpec.YieldsRecord] at h
    rw [h]
    rfl
  | cons field rest ih =>
    obtain ⟨name, spec⟩ := field
    rw [FieldSpec.YieldsRecord] at h
    obtain ⟨v, others, rfl, -, hrest⟩ := h
    have hkeys := ih hrest
    rw [Ordered.keys] at hkeys ⊢
    rw [List.map_cons, List.map_cons, hkeys]

section Resolving

variable {e target : Element}

theorem child?_eq_some {tag : Text} {child : Element} :
    e.child? tag = some child ↔ child.tag = tag ∧
      ∃ before after, e.elements = before ++ child :: after ∧ ∀ c ∈ before, c.tag ≠ tag := by
  rw [Element.child?, List.find?_eq_some_iff_append]
  simp

theorem descend_eq_ok (segments : List Text) :
    descend e segments = .ok target ↔ Reaches e segments target := by
  induction segments generalizing e with
  | nil =>
    rw [descend]
    constructor
    · intro h
      cases h
      exact .here _
    · intro h
      cases h
      rfl
  | cons tag rest ih =>
    rw [descend]
    constructor
    · intro h
      cases hchild : e.child? tag with
      | none =>
        rw [hchild] at h
        cases h
      | some child =>
        rw [hchild] at h
        obtain ⟨htag, before, after, hchildren, hfirst⟩ := child?_eq_some.mp hchild
        exact .step hchildren hfirst htag (ih.mp h)
    · intro h
      cases h with
      | @step _ child _ _ _ before after hchildren hfirst htag onward =>
        rw [child?_eq_some.mpr ⟨htag, before, after, hchildren, hfirst⟩]
        exact ih.mpr onward

variable {p : Path}

theorem follow_eq_ok (segments : List Text) :
    p.follow segments e = .ok target ↔ Reaches e segments target := by
  rw [← descend_eq_ok, Path.follow]
  cases descend e segments with
  | ok t => simp
  | error tag => simp

theorem textAt_eq_ok {text : Text} :
    p.textAt e = .ok text ↔ ∃ target, Reaches e p.segments target ∧ target.text = text := by
  rw [Path.textAt, Outcome.map_eq_ok]
  simp only [Path.node, follow_eq_ok]

theorem nodes_eq_ok {selected : List Element} : p.nodes e = .ok selected ↔
    ∃ parent, Reaches e p.parent parent ∧ parent.Lists p.terminal selected := by
  rw [Path.nodes, Outcome.map_eq_ok]
  simp only [follow_eq_ok, lists_iff]

end Resolving

theorem withinPlace_eq_ok {α : Type} {collection field path : Option Text} {x : Outcome α}
    {a : α} : withinPlace collection field path x = .ok a ↔ x = .ok a := by
  cases x with
  | ok b => rfl
  | error failure => simp [withinPlace, Outcome.within, Except.mapError]

section Evaluation

variable {s : Scope}

theorem forall₂_exists_eq_map {α β γ : Type} {R : α → β → Prop} {f : β → γ} {as : List α}
    {cs : List γ} : List.Forall₂ (fun a c => ∃ b, c = f b ∧ R a b) as cs ↔
      ∃ bs, cs = bs.map f ∧ List.Forall₂ R as bs := by
  constructor
  · intro h
    induction h with
    | nil => exact ⟨[], rfl, .nil⟩
    | cons head _ ih =>
      obtain ⟨b, rfl, hab⟩ := head
      obtain ⟨bs, rfl, hbs⟩ := ih
      exact ⟨b :: bs, rfl, .cons hab hbs⟩
  · rintro ⟨bs, rfl, h⟩
    rw [List.forall₂_map_right_iff]
    exact h.imp fun a b hab => ⟨b, rfl, hab⟩

variable {record : Element → Outcome (List (Scalar × Value))}
  {admitted : Element → List (Scalar × Value) → Prop}

theorem one_eq_ok (hrecord : ∀ e entries, record e = .ok entries ↔ admitted e entries)
    (target : Element) (v : Value) :
    (do .ok (Value.map (← record target)) : Outcome Value) = .ok v ↔
      ∃ entries, v = .map entries ∧ admitted target entries := by
  simp only [Outcome.bind_eq_ok, hrecord, Except.ok.injEq]
  exact ⟨fun ⟨entries, h, hv⟩ => ⟨entries, hv.symm, h⟩,
    fun ⟨entries, hv, h⟩ => ⟨entries, h, hv.symm⟩⟩

/-- If `admitted` describes what `record` gives, then the values of a collection
are the admitted ones. -/
theorem collect_eq_ok (hrecord : ∀ e entries, record e = .ok entries ↔ admitted e entries)
    (name : Option Text) (anchor : Anchor) (e : Element) (v : Value) :
    Scope.collect name e anchor record = .ok v ↔ anchor.Yields admitted e v := by
  rw [Scope.collect, Outcome.bind_eq_ok]
  cases anchor with
  | here =>
    simp only [Scope.anchored, Except.ok.injEq, exists_eq_left']
    exact one_eq_ok hrecord e v
  | within p =>
    simp only [Scope.anchored, withinPlace_eq_ok, Outcome.map_eq_ok, Path.node, follow_eq_ok]
    constructor
    · rintro ⟨_, ⟨target, htarget, rfl⟩, h⟩
      obtain ⟨entries, hv, hentries⟩ := (one_eq_ok hrecord target v).mp h
      exact ⟨target, entries, htarget, hv, hentries⟩
    · rintro ⟨target, entries, htarget, hv, hentries⟩
      exact ⟨_, ⟨target, htarget, rfl⟩, (one_eq_ok hrecord target v).mpr ⟨entries, hv, hentries⟩⟩
  | each p =>
    simp only [Scope.anchored, withinPlace_eq_ok, Outcome.map_eq_ok, nodes_eq_ok]
    constructor
    · rintro ⟨_, ⟨selected, ⟨parent, hparent, hselected⟩, rfl⟩, h⟩
      obtain ⟨values, hvalues, hv⟩ := (Outcome.bind_eq_ok _ _ _).mp h
      simp only [Outcome.mapM_eq_ok, one_eq_ok hrecord, forall₂_exists_eq_map] at hvalues
      obtain ⟨records, rfl, hrecords⟩ := hvalues
      exact ⟨parent, selected, records, hparent, hselected, (Except.ok.inj hv).symm, hrecords⟩
    · rintro ⟨parent, selected, records, hparent, hselected, rfl, hrecords⟩
      refine ⟨_, ⟨selected, ⟨parent, hparent, hselected⟩, rfl⟩, (Outcome.bind_eq_ok _ _ _).mpr ?_⟩
      refine ⟨records.map .map, ?_, rfl⟩
      simp only [Outcome.mapM_eq_ok, one_eq_ok hrecord, forall₂_exists_eq_map]
      exact ⟨records, rfl, hrecords⟩

mutual

/-- A field gives a value exactly when it admits that value. -/
theorem field_eq_ok (spec : FieldSpec) (name : Option Text) (e : Element) (v : Value) :
    s.field name spec e = .ok v ↔ spec.Yields s e v := by
  cases spec with
  | shorthand p =>
    rw [Scope.field, FieldSpec.Yields, Outcome.map_eq_ok]
    simp only [textAt_eq_ok]
    constructor
    · rintro ⟨_, ⟨target, htarget, rfl⟩, hv⟩
      exact ⟨target, htarget, hv.symm⟩
    · rintro ⟨target, htarget, hv⟩
      exact ⟨_, ⟨target, htarget, rfl⟩, hv.symm⟩
  | full f => rw [Scope.field, FieldSpec.Yields]
  | nested anchor fields =>
    rw [Scope.field, FieldSpec.Yields]
    exact collect_eq_ok (record_eq_ok fields name) name anchor e v

theorem record_eq_ok (fields : List (Text × FieldSpec)) (collection : Option Text)
    (e : Element) (entries : List (Scalar × Value)) :
    s.record collection fields e = .ok entries ↔ FieldSpec.YieldsRecord s fields e entries := by
  cases fields with
  | nil =>
    rw [Scope.record, FieldSpec.YieldsRecord]
    exact ⟨fun h => (Except.ok.inj h).symm, fun h => by rw [h]⟩
  | cons field rest =>
    obtain ⟨name, spec⟩ := field
    rw [Scope.record, FieldSpec.YieldsRecord]
    simp only [Outcome.bind_eq_ok, withinPlace_eq_ok, field_eq_ok spec, record_eq_ok rest,
      Except.ok.injEq]
    constructor
    · rintro ⟨v, hv, others, hothers, hentries⟩
      exact ⟨v, others, hentries.symm, hv, hothers⟩
    · rintro ⟨v, others, hentries, hv, hothers⟩
      exact ⟨v, hv, others, hothers, hentries.symm⟩

end

theorem collection_eq_ok (c : CollectionSpec) (name : Option Text) (e : Element) (v : Value) :
    s.collection name c e = .ok v ↔ c.Yields s e v :=
  collect_eq_ok (record_eq_ok c.fields name) name c.anchor e v

end Evaluation

/-- An extraction gives exactly the value with one entry for each collection, in
order and under its name, that the collection admits at the root. -/
theorem extract_eq_ok_iff_yields (schema : Schema) (registry : Registry) (root : Element)
    (output : Value) :
    schema.extract registry root = .ok output ↔ ∃ entries, output = .map entries ∧
      List.Forall₂ (fun (c : Text × CollectionSpec) (entry : Scalar × Value) =>
        entry.1 = .str c.1 ∧ c.2.Yields ⟨registry, schema.mappers⟩ root entry.2)
      schema.collections entries := by
  rw [Schema.extract]
  simp only [Outcome.bind_eq_ok, Outcome.mapM_eq_ok, collection_eq_ok, Except.ok.injEq]
  have hentry : ∀ (c : Text × CollectionSpec) (entry : Scalar × Value),
      (∃ v, c.2.Yields ⟨registry, schema.mappers⟩ root v ∧ (Scalar.str c.1, v) = entry) ↔
        (entry.1 = .str c.1 ∧ c.2.Yields ⟨registry, schema.mappers⟩ root entry.2) := by
    intro c entry
    constructor
    · rintro ⟨v, hv, rfl⟩
      exact ⟨rfl, hv⟩
    · rintro ⟨hkey, hv⟩
      exact ⟨entry.2, hv, by rw [← hkey]⟩
  simp only [hentry]
  exact ⟨fun ⟨entries, h, hout⟩ => ⟨entries, hout.symm, h⟩,
    fun ⟨entries, hout, h⟩ => ⟨entries, h, hout.symm⟩⟩

section Orders

theorem isPlainTag_order : isPlainTag "order" = true := by decide +kernel

theorem isPlainTag_line : isPlainTag "line" = true := by decide +kernel

theorem isPlainTag_sku : isPlainTag "sku" = true := by decide +kernel

def ordersSchema : Schema where
  collections := [("orders", ⟨.each (.ofTag "order" isPlainTag_order),
    [("lines", .nested (.each (.ofTag "line" isPlainTag_line))
      [("sku", .shorthand (.ofTag "sku" isPlainTag_sku))])]⟩)]
  mappers := []

def skuLine (sku : Text) : Node := .element "line" [.element "sku" [.text sku]]

def ordersRoot : Element :=
  ⟨"shop", [.element "order" [skuLine "a", .comment "gift", .element "note" [], skuLine "b"],
    .text "and", .element "order" []]⟩

def linesRecord (skus : List Text) : Value :=
  .record [("lines", .list (skus.map fun sku => .record [("sku", .str sku)]))]

theorem orders_have_their_lines :
    ∃ entries, Value.record [("orders", .list [linesRecord ["a", "b"], linesRecord []])] =
        .map entries ∧
      List.Forall₂ (fun (c : Text × CollectionSpec) (entry : Scalar × Value) =>
        entry.1 = .str c.1 ∧ c.2.Yields ⟨.standard none, []⟩ ordersRoot entry.2)
      ordersSchema.collections entries :=
  (extract_eq_ok_iff_yields ordersSchema (.standard none) ordersRoot _).mp rfl

end Orders
end XmlHarvest
