import XmlHarvest.Extraction
import XmlHarvest.Proofs.Ordered
import XmlHarvest.Proofs.Outcome
import XmlHarvest.Proofs.Path

/-! # What a schema refers to

A schema refers to modifiers and mappers by name.  Of the capability it is run with
an extraction sees what that supplies under the names of modifiers that are not built
in, and of the mappers those that are named; whatever else there is makes no
difference. -/
set_option autoImplicit false

namespace XmlHarvest

open Xml

/-! ## The names in a schema -/

mutual

def FieldSpec.fullFields : FieldSpec → List FullField
  | .shorthand _ => []
  | .full f => [f]
  | .nested _ fields => FieldSpec.fullFieldsOfAll fields

def FieldSpec.fullFieldsOfAll : List (Text × FieldSpec) → List FullField
  | [] => []
  | (_, spec) :: rest => spec.fullFields ++ FieldSpec.fullFieldsOfAll rest

end

def FullField.modifierNames (f : FullField) : List Text := f.chain.modifiers.map (·.name)

namespace Schema

def fullFields (schema : Schema) : List FullField :=
  schema.collections.flatMap fun (_, c) => FieldSpec.fullFieldsOfAll c.fields

def customNames (schema : Schema) (registry : Registry) : List Text :=
  (schema.fullFields.flatMap FullField.modifierNames).filter fun name =>
    (registry.builtin? name).isNone

def mapperNames (schema : Schema) : List Text := schema.fullFields.filterMap (·.mapper)

/-- The schema without the mappers that it does not refer to. -/
def pruned (schema : Schema) : Schema :=
  { schema with mappers := schema.mappers.filter fun e => schema.mapperNames.contains e.1 }

end Schema

/-! ## What is found under a name -/

namespace Capability

/-- What is supplied under a name: nothing, or a modifier with all that it does. -/
def supplied? (capability : Option Capability) (name : Text) : Option Transform :=
  match capability with
  | some c => if c.knows name then some (c.call name) else none
  | none => none

def only (c : Capability) (names : List Text) : Capability where
  knows name := names.contains name && c.knows name
  call := c.call

end Capability

/-- Mappers that give every text the same output. -/
structure Mapper.Same (m m' : Mapper) : Prop where
  default : m.default = m'.default
  options : ∀ text, Ordered.get? m.options text = Ordered.get? m'.options text

/-- Either both sections declare a mapper of the name, and the same one, or neither does. -/
def Mappers.SameAt (mappers mappers' : Mappers) (name : Text) : Prop :=
  Option.Rel Mapper.Same (Ordered.get? mappers name) (Ordered.get? mappers' name)

section Names

variable {r : Registry} {P P' : Option Capability} {name : Text}

/-- A name that is not built in is looked up in the capability. -/
theorem resolve_of_custom (h : r.builtin? name = none) :
    r.resolve name =
      match Capability.supplied? r.capability name with
      | some f => .ok f
      | none => .raise (.unknownModifier name) := by
  rw [Registry.resolve, h]
  cases r.capability with
  | none => rfl
  | some c =>
    by_cases hknown : c.knows name = true
    · have hinvoke : c.invoke name = c.call name := by
        funext args
        exact if_pos hknown
      simp [Capability.supplied?, hknown, hinvoke]
    · simp [Capability.supplied?, hknown]

theorem resolve_eq_of_supplied
    (h : r.builtin? name = none → Capability.supplied? P name = Capability.supplied? P' name) :
    Registry.resolve { r with capability := P } name =
      Registry.resolve { r with capability := P' } name := by
  have hbuiltin : ∀ Q, Registry.builtin? { r with capability := Q } name = r.builtin? name :=
    fun _ => rfl
  cases hfound : r.builtin? name with
  | some f => simp only [Registry.resolve, hbuiltin, hfound]
  | none =>
    rw [resolve_of_custom ((hbuiltin P).trans hfound), resolve_of_custom ((hbuiltin P').trans hfound),
      h hfound]

theorem supplied?_only {c : Capability} {names : List Text} (h : name ∈ names) :
    Capability.supplied? (some (c.only names)) name = Capability.supplied? (some c) name := by
  simp [Capability.supplied?, Capability.only, h]

/-- A table and an object with the same members differ in private names only. -/
theorem supplied?_ofObject {members : List (Text × Member)}
    (h : Capability.isPrivate name = false) :
    Capability.supplied? (some (.ofObject members)) name =
      Capability.supplied? (some (.ofTable members)) name := by
  have hfind : (if Capability.isPrivate name then none else Capability.function? members name) =
      Capability.function? members name := by
    simp [h]
  simp only [Capability.supplied?, Capability.ofObject, Capability.ofTable, Capability.ofFind,
    hfind]
  rfl

variable {mappers mappers' : Mappers}

theorem Mapper.map_eq_of_same {m m' : Mapper} (h : m.Same m') (v : Value) (debug : Bool) :
    m.map v debug = m'.map v debug := by
  simp only [Mapper.map, h.default, h.options]

theorem Mappers.map_eq_of_sameAt (h : mappers.SameAt mappers' name) (v : Value) (debug : Bool) :
    mappers.map name v debug = mappers'.map name v debug := by
  rw [Mappers.SameAt] at h
  rw [Mappers.map, Mappers.map]
  generalize Ordered.get? mappers name = found at h
  generalize Ordered.get? mappers' name = found' at h
  cases h with
  | none => rfl
  | some hsame => exact Mapper.map_eq_of_same hsame v debug

theorem Mappers.sameAt_of_eq (h : Ordered.get? mappers name = Ordered.get? mappers' name) :
    mappers.SameAt mappers' name := by
  rw [Mappers.SameAt, h]
  cases Ordered.get? mappers' name with
  | none => exact .none
  | some m => exact .some ⟨rfl, fun _ => rfl⟩

end Names

/-! ## Extraction with what is found -/

section Extraction

variable {s s' : Scope} {e : Element} {name : Option Text}

/-- Two scopes do the same under the names in a full field. -/
structure FullField.SameIn (s s' : Scope) (f : FullField) : Prop where
  modifiers : ∀ m ∈ f.modifierNames, s.registry.resolve m = s'.registry.resolve m
  mapper : ∀ m, f.mapper = some m → ∀ v debug, s.mappers.map m v debug = s'.mappers.map m v debug
  debug : s.registry.debug = s'.registry.debug

theorem apply_eq_of_resolve {r r' : Registry} {ref : ModifierRef}
    (h : r.resolve ref.name = r'.resolve ref.name) (hdebug : r.debug = r'.debug)
    (values : List Value) : r.apply ref values = r'.apply ref values := by
  rw [Registry.apply, Registry.apply, Registry.show?, Registry.show?, h, hdebug]

theorem applyAll_eq_of_resolve {modifiers : List ModifierRef}
    (hdebug : s.registry.debug = s'.registry.debug)
    (h : ∀ m ∈ modifiers, s.registry.resolve m.name = s'.registry.resolve m.name) (v : Value) :
    s.applyAll modifiers v = s'.applyAll modifiers v := by
  induction modifiers generalizing v with
  | nil => rfl
  | cons m rest ih =>
    have hfirst : s.registry.apply m [v] = s'.registry.apply m [v] :=
      apply_eq_of_resolve (h m List.mem_cons_self) hdebug [v]
    have hrest : ∀ w, s.applyAll rest w = s'.applyAll rest w := fun w =>
      ih (fun m' hm' => h m' (List.mem_cons_of_mem m hm')) w
    rw [Scope.applyAll, Scope.applyAll, List.foldlM_cons, List.foldlM_cons, hfirst]
    exact congrArg (s'.registry.apply m [v] >>= ·) (funext hrest)

theorem runChain_eq_of_resolve {c : Chain} (hdebug : s.registry.debug = s'.registry.debug)
    (h : ∀ m ∈ c.modifiers, s.registry.resolve m.name = s'.registry.resolve m.name) :
    s.runChain e c = s'.runChain e c := by
  cases c with
  | single p modifiers =>
    have hall : s.applyAll modifiers = s'.applyAll modifiers := by
      funext v
      exact applyAll_eq_of_resolve hdebug h v
    rw [Scope.runChain, Scope.runChain, hall]
  | combined p others combiner modifiers =>
    have hfirst := h combiner List.mem_cons_self
    have hall : s.applyAll modifiers = s'.applyAll modifiers := by
      funext v
      exact applyAll_eq_of_resolve hdebug (fun m hm => h m (List.mem_cons_of_mem combiner hm)) v
    simp only [Scope.runChain, apply_eq_of_resolve hfirst hdebug, hall]

theorem runFull_eq_of_sameIn {f : FullField} (h : f.SameIn s s') :
    s.runFull e f = s'.runFull e f := by
  have hchain : s.runChain e f.chain = s'.runChain e f.chain := by
    apply runChain_eq_of_resolve h.debug
    intro m hm
    exact h.modifiers m.name (List.mem_map_of_mem hm)
  rw [Scope.runFull, Scope.runFull, hchain]
  cases hmapper : f.mapper with
  | none => rfl
  | some m => simp only [h.mapper m hmapper, h.debug]

mutual

theorem field_eq_of_sameIn (spec : FieldSpec) (name : Option Text) (e : Element)
    (h : ∀ f ∈ spec.fullFields, f.SameIn s s') : s.field name spec e = s'.field name spec e := by
  cases spec with
  | shorthand p => rfl
  | full f =>
    rw [FieldSpec.fullFields] at h
    exact runFull_eq_of_sameIn (h f (List.mem_singleton_self f))
  | nested anchor fields =>
    rw [FieldSpec.fullFields] at h
    have hrecord : s.record name fields = s'.record name fields := by
      funext target
      exact record_eq_of_sameIn fields name target h
    rw [Scope.field, Scope.field, hrecord]

theorem record_eq_of_sameIn (fields : List (Text × FieldSpec)) (name : Option Text)
    (e : Element) (h : ∀ f ∈ FieldSpec.fullFieldsOfAll fields, f.SameIn s s') :
    s.record name fields e = s'.record name fields e := by
  cases fields with
  | nil => rfl
  | cons field rest =>
    obtain ⟨fieldName, spec⟩ := field
    rw [FieldSpec.fullFieldsOfAll] at h
    have hfield := field_eq_of_sameIn spec (some fieldName) e
      (fun f hf => h f (List.mem_append_left _ hf))
    have hrest := record_eq_of_sameIn rest name e (fun f hf => h f (List.mem_append_right _ hf))
    rw [Scope.record, Scope.record, hfield, hrest]

end

theorem collection_eq_of_sameIn {c : CollectionSpec}
    (h : ∀ f ∈ FieldSpec.fullFieldsOfAll c.fields, f.SameIn s s') :
    s.collection name c e = s'.collection name c e := by
  have hrecord : s.record name c.fields = s'.record name c.fields := by
    funext target
    exact record_eq_of_sameIn c.fields name target h
  rw [Scope.collection, Scope.collection, hrecord]

end Extraction

section Schemas

variable {schema other : Schema} {r r' : Registry} {P P' : Option Capability} {root : Element}

theorem extract_eq_of_sameIn (hcollections : other.collections = schema.collections)
    (h : ∀ f ∈ schema.fullFields,
      f.SameIn ⟨r, schema.mappers⟩ ⟨r', other.mappers⟩) :
    schema.extract r root = other.extract r' root := by
  have hvalue : ∀ entry ∈ schema.collections, ∀ name,
      Scope.collection ⟨r, schema.mappers⟩ name entry.2 root =
        Scope.collection ⟨r', other.mappers⟩ name entry.2 root := by
    intro entry hentry name
    apply collection_eq_of_sameIn
    intro f hf
    exact h f (List.mem_flatMap.mpr ⟨entry, hentry, hf⟩)
  rw [Schema.extract, Schema.extract, hcollections]
  refine congrArg (· >>= _) (Outcome.mapM_congr ?_)
  intro entry hentry
  simp only [hvalue entry hentry]

theorem extract_eq_of_references (hcollections : other.collections = schema.collections)
    (hmodifiers : ∀ name ∈ schema.customNames r,
      Capability.supplied? P name = Capability.supplied? P' name)
    (hmappers : ∀ name ∈ schema.mapperNames, schema.mappers.SameAt other.mappers name) :
    schema.extract { r with capability := P } root =
      other.extract { r with capability := P' } root := by
  apply extract_eq_of_sameIn hcollections
  intro f hf
  refine ⟨?_, ?_, rfl⟩
  · intro name hname
    apply resolve_eq_of_supplied
    intro hcustom
    apply hmodifiers
    simp only [Schema.customNames, List.mem_filter, List.mem_flatMap, hcustom, Option.isNone_none,
      and_true]
    exact ⟨f, hf, hname⟩
  · intro name hname v debug
    have hmem : name ∈ schema.mapperNames := List.mem_filterMap.mpr ⟨f, hf, hname⟩
    exact Mappers.map_eq_of_sameAt (hmappers name hmem) v debug

end Schemas

/-- An extraction depends on what is supplied under the names of modifiers that it refers
to and that are not built in, and on the mappers that it refers to.  So all the rest may be
taken away: a modifier of the capability that has the name of a built-in one is never used.
And it does not matter whether modifiers come as a table or as an object, unless a name that
is private in an object is referred to. -/
theorem extract_depends_on_references (schema : Schema) (r : Registry) (root : Element) :
    (∀ (other : Schema) (P P' : Option Capability), other.collections = schema.collections →
      (∀ name ∈ schema.customNames r,
        Capability.supplied? P name = Capability.supplied? P' name) →
      (∀ name ∈ schema.mapperNames, schema.mappers.SameAt other.mappers name) →
      schema.extract { r with capability := P } root =
        other.extract { r with capability := P' } root) ∧
    (∀ c : Capability, schema.extract { r with capability := some c } root =
      schema.pruned.extract { r with capability := some (c.only (schema.customNames r)) } root) ∧
    ∀ members, (∀ name ∈ schema.customNames r, Capability.isPrivate name = false) →
      schema.extract { r with capability := some (.ofTable members) } root =
        schema.extract { r with capability := some (.ofObject members) } root := by
  refine ⟨?_, ?_, ?_⟩
  · intro other P P' hcollections hmodifiers hmappers
    exact extract_eq_of_references hcollections hmodifiers hmappers
  · intro c
    have hcollections : schema.pruned.collections = schema.collections := rfl
    apply extract_eq_of_references hcollections
    · intro name hname
      exact (supplied?_only hname).symm
    · intro name hname
      have hkept : schema.mapperNames.contains name = true := List.contains_iff_mem.mpr hname
      exact Mappers.sameAt_of_eq (Ordered.get?_filter hkept).symm
  · intro members hpublic
    have hcollections : schema.collections = schema.collections := rfl
    apply extract_eq_of_references hcollections
    · intro name hname
      exact (supplied?_ofObject (hpublic name hname)).symm
    · intro name _
      exact Mappers.sameAt_of_eq rfl

def priceSchema (mappers : Mappers) : Schema where
  collections := [("prices", ⟨.each (.ofTag "item" (by decide +kernel)),
    [("price", .full ⟨.single (.ofTag "a" (by decide +kernel))
      [⟨"to_i", [], by decide +kernel⟩, ⟨"twice", [], by decide +kernel⟩], some "m"⟩)]⟩)]
  mappers := mappers

def twice : Transform
  | [.scalar (.int i)] => .ok (.int (2 * i))
  | _ => .error (.fault (.raised .type "not an amount"))

def priceTable : List (Text × Member) :=
  [("to_i", .function fun _ => .ok (.str "custom")), ("twice", .function twice)]

def priceObject : List (Text × Member) :=
  [("label", .constant), ("twice", .function twice), ("unused", .function fun _ => .ok .null)]

def priceMappers : Mappers :=
  [("m", ⟨"m", .str "dear", [("14", .str "cheap"), ("0", .str "free")]⟩)]

def otherMappers : Mappers :=
  [("n", ⟨"n", .null, []⟩), ("m", ⟨"m", .str "dear", [("0", .str "free"), ("14", .str "cheap")]⟩)]

theorem sameAt_otherMappers : priceMappers.SameAt otherMappers "m" := by
  have hsame : Mapper.Same ⟨"m", .str "dear", [("14", .str "cheap"), ("0", .str "free")]⟩
      ⟨"m", .str "dear", [("0", .str "free"), ("14", .str "cheap")]⟩ := by
    refine ⟨rfl, ?_⟩
    intro text
    by_cases hcheap : "14" = text
    · subst hcheap
      rfl
    · by_cases hfree : "0" = text
      · subst hfree
        rfl
      · rw [Ordered.get?_cons_of_ne hcheap, Ordered.get?_cons_of_ne hfree,
          Ordered.get?_cons_of_ne hfree, Ordered.get?_cons_of_ne hcheap]
  exact Option.Rel.some hsame

def priceRoot : Element :=
  ⟨"r", [.element "item" [.element "a" [.text "7 EUR"]], .element "item" [.element "a" [.text "9"]]]⟩

theorem extract_prices_by_reference :
    (∀ name ∈ (priceSchema priceMappers).customNames (.standard none),
      Capability.supplied? (some (.ofTable priceTable)) name =
        Capability.supplied? (some (.ofObject priceObject)) name) ∧
    (∀ name ∈ (priceSchema priceMappers).mapperNames, priceMappers.SameAt otherMappers name) ∧
    (priceSchema priceMappers).extract (.standard (some (.ofTable priceTable))) priceRoot =
      (priceSchema otherMappers).extract (.standard (some (.ofObject priceObject))) priceRoot ∧
    (priceSchema priceMappers).extract (.standard (some (.ofTable priceTable))) priceRoot =
      .ok (.map [(.str "prices",
        .list [.map [(.str "price", .str "cheap")], .map [(.str "price", .str "dear")]])]) := by
  have hcustom : (priceSchema priceMappers).customNames (.standard none) =
      (["twice"] : List Text) := by decide +kernel
  have hmodifiers : ∀ name ∈ (priceSchema priceMappers).customNames (.standard none),
      Capability.supplied? (some (.ofTable priceTable)) name =
        Capability.supplied? (some (.ofObject priceObject)) name := by
    intro name hname
    rw [hcustom, List.mem_singleton] at hname
    subst hname
    rfl
  have hmappers : ∀ name ∈ (priceSchema priceMappers).mapperNames,
      priceMappers.SameAt otherMappers name := by
    intro name hname
    obtain rfl : name = "m" := List.mem_singleton.mp hname
    exact sameAt_otherMappers
  have hextract := (extract_depends_on_references (priceSchema priceMappers) (.standard none)
    priceRoot).1
    (priceSchema otherMappers) (some (.ofTable priceTable)) (some (.ofObject priceObject)) rfl
    hmodifiers hmappers
  exact ⟨hmodifiers, hmappers, hextract, rfl⟩

end XmlHarvest
