import XmlHarvest.Proofs.Chain
import XmlHarvest.Proofs.Location

/-! # No reference is skipped

Which full fields an extraction meets, and at which elements, follows from the schema and
the document alone: those of every collection whose anchor selects an element, down to any
depth.  When an extraction returns, every reference of every field it met was resolved; and
where it meets a name that cannot be resolved, it ends with that name. -/
set_option autoImplicit false

namespace XmlHarvest

open Xml

/-! ## The fields that are met -/

/-- The elements at which the records of a collection are evaluated. -/
inductive Anchor.Selects : Anchor → Element → Element → Prop
  | here (e : Element) : Selects .here e e
  | within {p : Path} {e target : Element} (reached : Reaches e p.segments target) :
      Selects (.within p) e target
  | each {p : Path} {e parent target : Element} (reached : Reaches e p.parent parent)
      (child : target ∈ parent.elements) (tagged : target.tag = p.terminal) :
      Selects (.each p) e target

/-- A full field is met at an element: it is the field itself, or one of the fields of a
collection that selects an element.  The names are those of what is evaluated and of all that
is around it, innermost first. -/
inductive FieldSpec.Meets (f : FullField) (place : Element) (path : List Text) :
    List Text → FieldSpec → Element → Prop
  | full : Meets f place path path (.full f) place
  | nested {names : List Text} {anchor : Anchor} {fields : List (Text × FieldSpec)}
      {e target : Element} {name : Text} {spec : FieldSpec}
      (selected : anchor.Selects e target) (field : (name, spec) ∈ fields)
      (inner : Meets f place path (name :: names) spec target) :
      Meets f place path names (.nested anchor fields) e

/-- An extraction meets a full field at an element, under names. -/
def Schema.Meets (schema : Schema) (root : Element) (path : List Text) (place : Element)
    (f : FullField) : Prop :=
  ∃ name c, (name, c) ∈ schema.collections ∧ FieldSpec.Meets f place path [name] c.asField root

section Agenda

variable {f : FullField} {place e target : Element} {path names : List Text}

/-- The agenda of a collection has the steps of its records at the elements that the anchor
selects; following the anchor's path evaluates no field. -/
theorem full_mem_visits {anchor : Anchor} {record : Element → List Visit} :
    ⟨path, place, .full f⟩ ∈ anchor.visits names record e ↔
      ∃ target, anchor.Selects e target ∧ ⟨path, place, .full f⟩ ∈ record target := by
  cases anchor with
  | here =>
    rw [Anchor.visits]
    constructor
    · exact fun h => ⟨e, .here e, h⟩
    · rintro ⟨_, ⟨⟩, h⟩
      exact h
  | within p =>
    have hselects : ∀ target, (Anchor.within p).Selects e target ↔
        descend e p.segments = .ok target := by
      intro target
      rw [descend_eq_ok]
      constructor
      · intro h
        cases h with
        | within h => exact h
      · exact .within
    simp only [Anchor.visits, List.mem_cons, Visit.mk.injEq, reduceCtorEq, and_false, false_or,
      hselects]
    cases descend e p.segments with
    | ok target => simp
    | error tag => simp
  | each p =>
    have hselects : ∀ target, (Anchor.each p).Selects e target ↔
        ∃ parent, descend e p.parent = .ok parent ∧ target ∈ parent.childrenTagged p.terminal := by
      intro target
      simp only [descend_eq_ok, Element.childrenTagged, List.mem_filter, beq_iff_eq]
      constructor
      · intro h
        cases h with
        | each h hc ht => exact ⟨_, h, hc, ht⟩
      · rintro ⟨parent, h, hc, ht⟩
        exact .each h hc ht
    simp only [Anchor.visits, List.mem_cons, Visit.mk.injEq, reduceCtorEq, and_false, false_or,
      hselects]
    cases descend e p.parent with
    | ok parent => simp
    | error tag => simp

mutual

/-- The full fields on the agenda of a field are those that it meets. -/
theorem full_mem_visits_iff_meets (spec : FieldSpec) (names : List Text) (e : Element) :
    ⟨path, place, .full f⟩ ∈ spec.visits names e ↔ FieldSpec.Meets f place path names spec e := by
  cases spec with
  | shorthand p =>
    rw [FieldSpec.visits]
    constructor
    · intro h
      cases List.mem_singleton.mp h
    · intro h
      cases h
  | full g =>
    rw [FieldSpec.visits, List.mem_singleton]
    constructor
    · rintro ⟨⟩
      exact .full
    · rintro ⟨⟩
      rfl
  | nested anchor fields =>
    rw [FieldSpec.visits, full_mem_visits]
    constructor
    · rintro ⟨target, hselected, h⟩
      obtain ⟨name, spec, hfield, hinner⟩ := (full_mem_recordVisits_iff_meets fields names target).mp h
      exact .nested hselected hfield hinner
    · rintro (_ | ⟨hselected, hfield, hinner⟩)
      exact ⟨_, hselected,
        (full_mem_recordVisits_iff_meets fields names _).mpr ⟨_, _, hfield, hinner⟩⟩

theorem full_mem_recordVisits_iff_meets (fields : List (Text × FieldSpec)) (names : List Text)
    (e : Element) : ⟨path, place, .full f⟩ ∈ FieldSpec.recordVisits names fields e ↔
      ∃ name spec, (name, spec) ∈ fields ∧ FieldSpec.Meets f place path (name :: names) spec e := by
  cases fields with
  | nil => simp [FieldSpec.recordVisits]
  | cons field rest =>
    obtain ⟨name, spec⟩ := field
    rw [FieldSpec.recordVisits, List.mem_append, full_mem_visits_iff_meets spec,
      full_mem_recordVisits_iff_meets rest]
    simp [or_and_right, exists_or]

end

theorem full_mem_agenda {schema : Schema} {root : Element} :
    ⟨path, place, .full f⟩ ∈ schema.visits root ↔ schema.Meets root path place f := by
  simp only [Schema.visits, List.mem_flatMap, Prod.exists, Schema.Meets]
  refine exists_congr fun name => exists_congr fun c => and_congr_right fun _ => ?_
  rw [← full_mem_visits_iff_meets, CollectionSpec.asField, FieldSpec.visits]

end Agenda

/-! ## Names that can be resolved -/

def Registry.Offers (r : Registry) (name : Text) : Prop :=
  (∃ entry ∈ r.builtins, entry.1 = name) ∨ ∃ c, r.capability = some c ∧ c.knows name = true

/-- Every name in a full field can be resolved. -/
structure FullField.Resolved (s : Scope) (f : FullField) : Prop where
  modifiers : ∀ name ∈ f.modifierNames, s.registry.Offers name
  mapper : ∀ name, f.mapper = some name → name ∈ Ordered.keys s.mappers

/-- The paths of a field and its modifiers up to a name return, but the name cannot be
resolved: that of the next modifier or, after all of them, that of the mapper. -/
inductive FullField.Unresolved (s : Scope) (e : Element) (f : FullField) : Problem → Prop
  | modifier {ref : ModifierRef} {values : List Value} (applied : s.Applies e f.chain ref values)
      (unknown : ¬ s.registry.Offers ref.name) : Unresolved s e f (.unknownModifier ref.name)
  | mapper {name : Text} {v : Value} (value : s.runChain e f.chain = .ok v)
      (named : f.mapper = some name) (undeclared : name ∉ Ordered.keys s.mappers) :
      Unresolved s e f (.unknownMapper name)

section Names

variable {r : Registry} {name : Text} {s : Scope} {e : Element} {f : FullField} {v w : Value}

theorem resolve_iff_offers : (∃ transform, r.resolve name = .ok transform) ↔ r.Offers name := by
  have hnone : r.builtin? name = none ↔ ¬ ∃ entry ∈ r.builtins, entry.1 = name := by
    rw [Registry.builtin?_eq_none]
    push Not
    rfl
  simp only [Registry.resolve_eq_ok, Registry.Offers]
  cases hbuiltin : r.builtin? name with
  | some f =>
    have hoffered : ∃ entry ∈ r.builtins, entry.1 = name :=
      not_not.mp fun h => by cases hbuiltin.symm.trans (hnone.mpr h)
    exact iff_of_true ⟨f, .builtin hbuiltin⟩ (.inl hoffered)
  | none =>
    constructor
    · rintro ⟨transform, hcalls⟩
      cases hcalls with
      | builtin hfound => cases hbuiltin.symm.trans hfound
      | custom _ hcapability hknown => exact .inr ⟨_, hcapability, hknown⟩
    · intro h
      obtain ⟨c, hcapability, hknown⟩ := h.resolve_left (hnone.mp hbuiltin)
      exact ⟨_, .custom (Registry.builtin?_eq_none.mp hbuiltin) hcapability hknown⟩

theorem resolve_eq_unknown :
    r.resolve name = .raise (.unknownModifier name) ↔ ¬ r.Offers name := by
  rw [← resolve_iff_offers]
  cases hresolve : r.resolve name with
  | ok transform => simp [Outcome.raise]
  | error failure => simp [resolve_eq_error hresolve, Outcome.raise]

/-- A reference that is applied with success has been resolved. -/
theorem offers_of_apply {ref : ModifierRef} {values : List Value}
    (h : r.apply ref values = .ok v) : r.Offers ref.name := by
  obtain ⟨transform, hresolve, -⟩ := apply_eq_ok.mp h
  exact resolve_iff_offers.mp ⟨transform, hresolve⟩

theorem offers_of_applyAll {modifiers : List ModifierRef} (h : s.applyAll modifiers v = .ok w) :
    ∀ ref ∈ modifiers, s.registry.Offers ref.name := by
  induction modifiers generalizing v with
  | nil => simp
  | cons m rest ih =>
    rw [applyAll_cons, Outcome.bind_eq_ok] at h
    obtain ⟨next, hfirst, hrest⟩ := h
    exact List.forall_mem_cons.mpr ⟨offers_of_apply hfirst, ih hrest⟩

theorem offers_of_runChain {c : Chain} (h : s.runChain e c = .ok v) :
    ∀ ref ∈ c.modifiers, s.registry.Offers ref.name := by
  cases hmodifiers : c.modifiers with
  | nil => simp
  | cons m rest =>
    rw [runChain_eq_texts hmodifiers, Outcome.bind_eq_ok] at h
    obtain ⟨texts, -, h⟩ := h
    obtain ⟨first, hfirst, hrest⟩ := (Outcome.bind_eq_ok _ _ _).mp h
    exact List.forall_mem_cons.mpr ⟨offers_of_apply hfirst, offers_of_applyAll hrest⟩

theorem declared_of_mapped {mapper : Option Text} (h : s.mapped mapper v = .ok w) :
    ∀ name, mapper = some name → name ∈ Ordered.keys s.mappers := by
  rintro name rfl
  by_contra hundeclared
  rw [Scope.mapped, Mappers.map, Ordered.get?_eq_none.mpr hundeclared] at h
  cases h

/-- A field that has a value has been resolved. -/
theorem resolved_of_runFull (h : s.runFull e f = .ok v) : f.Resolved s := by
  rw [runFull_eq_mapped, Outcome.bind_eq_ok] at h
  obtain ⟨value, hchain, hmapped⟩ := h
  refine ⟨?_, declared_of_mapped hmapped⟩
  intro name hname
  obtain ⟨ref, href, rfl⟩ := List.mem_map.mp hname
  exact offers_of_runChain hchain ref href

/-- A field fails with a name that cannot be resolved where it comes to such a name, and
nowhere else. -/
theorem fails_unresolved_iff {problem : Problem} {path : Option Text} :
    (Action.full f).Fails s e problem path ∧
        (problem.kind = .unknownModifier ∨ problem.kind = .unknownMapper) ↔
      f.Unresolved s e problem ∧ path = none := by
  constructor
  · rintro ⟨hfails, hkind⟩
    cases hfails with
    | path => simp [Problem.kind] at hkind
    | modifier => simp [Problem.kind] at hkind
    | unknownModifier happlied hunknown =>
      exact ⟨.modifier happlied (resolve_eq_unknown.mp hunknown), rfl⟩
    | mapper hvalue hnamed hunknown =>
      exact ⟨.mapper hvalue hnamed (Ordered.get?_eq_none.mp hunknown), rfl⟩
  · rintro ⟨hunresolved, rfl⟩
    cases hunresolved with
    | modifier happlied hunknown =>
      exact ⟨.unknownModifier happlied (resolve_eq_unknown.mpr hunknown), .inl rfl⟩
    | mapper hvalue hnamed hundeclared =>
      exact ⟨.mapper hvalue hnamed (Ordered.get?_eq_none.mpr hundeclared), .inr rfl⟩

end Names

/-! ## Extractions that return, and those that come to an unknown name -/

/-- An extraction comes to a step of its agenda: all that is before it returns. -/
def Schema.ComesTo (schema : Schema) (registry : Registry) (root : Element) (visit : Visit) :
    Prop :=
  ∃ before after, schema.visits root = before ++ visit :: after ∧
    ∀ v ∈ before, v.run ⟨registry, schema.mappers⟩ = .ok ()

section Extractions

variable {schema : Schema} {registry : Registry} {root : Element} {visit : Visit}

theorem extract_eq_error_iff_comesTo {failure : Failure} :
    schema.extract registry root = .error failure ↔ ∃ visit, schema.ComesTo registry root visit ∧
      visit.run ⟨registry, schema.mappers⟩ = .error failure := by
  rw [extract_eq_error]
  constructor
  · rintro ⟨before, visit, after, hvisits, hbefore, hfails⟩
    exact ⟨visit, ⟨before, after, hvisits, hbefore⟩, hfails⟩
  · rintro ⟨visit, ⟨before, after, hvisits, hbefore⟩, hfails⟩
    exact ⟨before, visit, after, hvisits, hbefore, hfails⟩

/-- An extraction that returns has been through its agenda. -/
theorem run_of_extract {v : Value} (h : schema.extract registry root = .ok v) :
    ∀ visit ∈ schema.visits root, visit.run ⟨registry, schema.mappers⟩ = .ok () := by
  have heffect := effect_extract schema registry root
  rw [h] at heffect
  exact (Outcome.forM_eq_ok _ _).mp heffect.symm

theorem meets_of_comesTo {names : List Text} {e : Element} {f : FullField}
    (h : schema.ComesTo registry root ⟨names, e, .full f⟩) : schema.Meets root names e f := by
  obtain ⟨before, after, hvisits, -⟩ := h
  rw [← full_mem_agenda, hvisits]
  exact List.mem_append_cons_self

theorem runFull_of_run {s : Scope} {names : List Text} {e : Element} {f : FullField}
    (h : Visit.run s ⟨names, e, .full f⟩ = .ok ()) : ∃ v, s.runFull e f = .ok v := by
  rw [Visit.run, outward, Outcome.mapError_eq_ok] at h
  exact Outcome.effect_eq_ok.mp h

end Extractions

/-- When an extraction returns, every name in every full field that it met can be resolved,
whatever the field's value.  When it comes to a full field in which a name cannot be resolved
after all that precedes the name has returned, it fails with just that name.  And it reports
an unknown name for no other reason. -/
theorem no_reference_is_skipped (schema : Schema) (registry : Registry) (root : Element) :
    (∀ v, schema.extract registry root = .ok v → ∀ names e f, schema.Meets root names e f →
      f.Resolved ⟨registry, schema.mappers⟩) ∧
    (∀ names e f problem, schema.ComesTo registry root ⟨names, e, .full f⟩ →
      f.Unresolved ⟨registry, schema.mappers⟩ e problem →
      schema.extract registry root =
        .error (.error ⟨problem, Visit.place ⟨names, e, .full f⟩ none⟩)) ∧
    ∀ err, schema.extract registry root = .error (.error err) →
      err.kind = .unknownModifier ∨ err.kind = .unknownMapper →
      ∃ names e f, schema.Meets root names e f ∧
        schema.ComesTo registry root ⟨names, e, .full f⟩ ∧
        f.Unresolved ⟨registry, schema.mappers⟩ e err.problem ∧
        err.place = Visit.place ⟨names, e, .full f⟩ none := by
  refine ⟨?_, ?_, ?_⟩
  · intro v hextract names e f hmeets
    obtain ⟨value, hvalue⟩ := runFull_of_run (run_of_extract hextract _ (full_mem_agenda.mpr hmeets))
    exact resolved_of_runFull hvalue
  · intro names e f problem hcomes hunresolved
    have hfails := (fails_unresolved_iff.mpr ⟨hunresolved, rfl⟩).1
    exact extract_eq_error_iff_comesTo.mpr
      ⟨_, hcomes, visit_eq_error.mpr ⟨problem, none, hfails, rfl⟩⟩
  · intro err hextract hkind
    obtain ⟨⟨names, e, action⟩, hcomes, hrun⟩ := extract_eq_error_iff_comesTo.mp hextract
    obtain ⟨problem, path, hfails, rfl⟩ := visit_eq_error.mp hrun
    cases action with
    | reach p segments =>
      cases hfails
      simp [Error.kind, Problem.kind] at hkind
    | text p =>
      cases hfails
      simp [Error.kind, Problem.kind] at hkind
    | full f =>
      obtain ⟨hunresolved, rfl⟩ := fails_unresolved_iff.mp ⟨hfails, hkind⟩
      exact ⟨names, e, f, meets_of_comesTo hcomes, hcomes, hunresolved, rfl⟩

theorem isPlainTag_item : isPlainTag "item" = true := by decide +kernel

theorem isPlainTag_price : isPlainTag "price" = true := by decide +kernel

theorem isBlankText_toI : Text.isBlankText "to_i" = false := by decide +kernel

def halved : ModifierRef := ⟨"halve", [], by decide +kernel⟩

def halvedField : FullField :=
  ⟨.single (.ofTag "price" isPlainTag_price) [⟨"to_i", [], isBlankText_toI⟩, halved], some "m"⟩

def halvedSchema : Schema :=
  ⟨[("items", ⟨.each (.ofTag "item" isPlainTag_item), [("price", .full halvedField)]⟩)], []⟩

/-- Without items nothing is looked up.  At the first item the extraction comes to the
modifier that is not known, and never to the mapper, which is not declared either. -/
theorem unknown_modifier_at_first_item :
    halvedSchema.extract (.standard none) ⟨"r", []⟩ = .ok (.map [(.str "items", .list [])]) ∧
    halvedSchema.extract (.standard none)
        ⟨"r", [.element "item" [.element "price" [.text "7"]], .element "item" []]⟩ =
      .error (.error ⟨.unknownModifier "halve",
        { collection := some "items", field := some "price" }⟩) := by
  have happlied : Scope.Applies ⟨.standard none, []⟩ ⟨"item", [.element "price" [.text "7"]]⟩
      halvedField.chain halved [.int 7] :=
    @Scope.Applies.single _ _ _ [_] [] _ "7" _ rfl rfl
  have hunknown : ¬ (Registry.standard none).Offers halved.name := by
    have hothers : ∀ entry ∈ (Registry.standard none).builtins, entry.1 ≠ halved.name :=
      Registry.builtin?_eq_none.mp rfl
    rintro (⟨entry, hentry, hname⟩ | ⟨c, hc, -⟩)
    · exact hothers entry hentry hname
    · cases hc
  refine ⟨rfl, ?_⟩
  refine (no_reference_is_skipped halvedSchema (.standard none) _).2.1 ["price", "items"] _
    halvedField (.unknownModifier halved.name) ⟨[_], [_], rfl, ?_⟩ (.modifier happlied hunknown)
  exact List.forall_mem_singleton.mpr rfl

end XmlHarvest
