import XmlHarvest.Proofs.Mapper
import XmlHarvest.Proofs.Schema.Entries

/-! # The grammar of schema documents

Which values are schema documents, said form by form and without the order in which
a reader checks them.  A document is read into a schema exactly when it has this
form, as long as the integers in it can be written. -/
set_option autoImplicit false

namespace XmlHarvest

namespace Value

def IsPath (v : Value) : Prop := ∃ raw p, v = .scalar (.str raw) ∧ Path.WrittenBy p raw

def IsName (v : Value) : Prop := ∃ s, v = .scalar (.str s) ∧ Text.isBlankText s = false

/-- A modifier: a name alone, or a map with a name and perhaps parameters. -/
inductive IsModifier : Value → Prop
  | name {v : Value} (named : v.IsName) : IsModifier v
  | map {entries : List (Scalar × Value)} {v : Value} (keys : KeysAmong ["name", "params"] entries)
      (entry : entry? entries "name" = some v) (named : v.IsName) : IsModifier (.map entries)

def modifiersOf : Option Value → List Value
  | none => []
  | some (.scalar .null) => []
  | some (.list items) => items
  | some v => [v]

/-- What names a mapper, if there is anything but null, is a text that is not empty. -/
def IsMapperName (declared : Option Value) : Prop :=
  ∀ v, declared = some v → v = .null ∨ ∃ s, v = .scalar (.str s) ∧ s ≠ []

/-- A field with a path, or with several paths and at least one modifier. -/
structure IsFullField (entries : List (Scalar × Value)) : Prop where
  keys : KeysAmong ["path", "modifier", "mapper"] entries
  path : ∃ v, entry? entries "path" = some v ∧ (v.IsPath ∨
    ∃ items, v = .list items ∧ items ≠ [] ∧ (∀ item ∈ items, item.IsPath) ∧
      modifiersOf (Value.entry? entries "modifier") ≠ [])
  modifiers : ∀ m ∈ modifiersOf (Value.entry? entries "modifier"), m.IsModifier
  mapper : IsMapperName (Value.entry? entries "mapper")

/-- Each of the two keys that anchor a collection has a path, and one is missing. -/
structure IsAnchored (entries : List (Scalar × Value)) : Prop where
  arrayOf : ∀ v, entry? entries "array_of" = some v → v.IsPath
  within : ∀ v, entry? entries "within" = some v → v.IsPath
  single : entry? entries "array_of" = none ∨ entry? entries "within" = none

/-- The forms of a field. -/
inductive IsField : Value → Prop
  | path {v : Value} (written : v.IsPath) : IsField v
  | full {entries : List (Scalar × Value)} (field : IsFullField entries) : IsField (.map entries)
  | collection {entries : List (Scalar × Value)}
      (unmixed : ∀ key ∈ (["path", "modifier", "mapper"] : List Text), entry? entries key = none)
      (anchored : IsAnchored entries) (nonempty : fieldEntries entries ≠ [])
      (fields : ∀ e ∈ fieldEntries entries, IsField e.2) : IsField (.map entries)

def IsCollection (v : Value) : Prop :=
  ∃ entries, v = .map entries ∧ IsAnchored entries ∧ fieldEntries entries ≠ [] ∧
    ∀ e ∈ fieldEntries entries, e.2.IsField

def rawValuesOf : Option Value → List Value
  | some (.map options) => options.flatMap fun e => Mapper.rawValues e.2
  | _ => []

/-- A mapper: no two of the raw values that it lists have the same text. -/
def IsMapper (v : Value) : Prop :=
  ∃ entries, v = .map entries ∧ KeysAmong ["default", "options"] entries ∧
    (∀ options, entry? entries "options" = some options →
      options.truthy = false ∨ ∃ table, options = .map table) ∧
    (rawValuesOf (Value.entry? entries "options")).Pairwise fun a b => a.text? ≠ b.text?

def IsSchemaDocument (sections : Sections) (v : Value) : Prop :=
  ∃ entries collections, v = .map entries ∧
    KeysAmong [sections.schemas, sections.mappers] entries ∧
    entry? entries sections.schemas = some (.map collections) ∧ collections ≠ [] ∧
    (∀ e ∈ collections, e.2.IsCollection) ∧
    ∀ mappers, entry? entries sections.mappers = some mappers →
      mappers.truthy = false ∨ ∃ table, mappers = .map table ∧ ∀ e ∈ table, e.2.IsMapper

end Value

section Acceptance

variable {name : Option Text} {v : Value} {entries : List (Scalar × Value)}

theorem Path.exists_ofValue : (∃ p, Path.ofValue v = .ok p) ↔ v.IsPath := by
  simp only [Path.ofValue_eq_ok, Value.IsPath]
  exact exists_comm

namespace ModifierRef

theorem exists_ofName {s : Text} {params : List Value} :
    (∃ m, ofName s params = .ok m) ↔ Text.isBlankText s = false := by
  rw [ofName]
  split
  · rename_i h
    simp [h]
  · rename_i h
    simp [h, Outcome.raise]

theorem exists_ofValue {params : List Value} :
    (∃ m, ofValue v params = .ok m) ↔ v.IsName := by
  unfold ofValue
  split
  · simp [exists_ofName, Value.IsName]
  · rename_i hv
    have hnoname : ¬ v.IsName := by
      rintro ⟨s, rfl, -⟩
      exact hv s rfl
    rw [Outcome.exists_bind_eq_ok]
    simp [Outcome.raise, hnoname]

theorem exists_read_map : (∃ m, read (.map entries) = .ok m) ↔
    KeysAmong ["name", "params"] entries ∧
      ∃ v, Value.entry? entries "name" = some v ∧ v.IsName := by
  have hname : ((Value.entry? entries "name").getD .null).IsName ↔
      ∃ v, Value.entry? entries "name" = some v ∧ v.IsName := by
    cases Value.entry? entries "name" with
    | none => simp [Value.IsName, Value.null]
    | some v => simp
  rw [read, exists_unknownKeys_bind fun unknown m hne => by simp [hne, Outcome.raise], ← hname]
  simp only [List.isEmpty_nil, Bool.not_true, Bool.false_eq_true, if_false, exists_ofValue]

/-- A value is read as a modifier when it has the form of one. -/
theorem exists_read : (∃ m, read v = .ok m) ↔ v.IsModifier := by
  cases v with
  | scalar s =>
    have hform : (Value.scalar s).IsModifier ↔ (Value.scalar s).IsName := by
      constructor
      · intro h
        cases h with
        | name named => exact named
      · exact .name
    rw [hform]
    cases s with
    | str s => simp [read, exists_ofName, Value.IsName]
    | null | bool | int | float | time =>
      rw [read, Outcome.exists_bind_eq_ok]
      · simp [Outcome.raise, Value.IsName]
      · simp
      · simp
  | list items =>
    have hform : ¬ (Value.list items).IsModifier := by
      rintro ⟨s, hs, -⟩
      cases hs
    rw [read, Outcome.exists_bind_eq_ok]
    · simp [Outcome.raise, hform]
    · simp
    · simp
  | map entries =>
    rw [exists_read_map]
    constructor
    · rintro ⟨keys, v, entry, named⟩
      exact .map keys entry named
    · intro h
      cases h with
      | name named =>
        obtain ⟨s, hs, -⟩ := named
        cases hs
      | map keys entry named => exact ⟨keys, _, entry, named⟩

theorem readAll_eq_mapM (declared : Option Value) :
    readAll (declared.getD .null) = (Value.modifiersOf declared).mapM read := by
  have hsingle : ∀ v : Value, (do .ok [← read v] : Outcome (List ModifierRef)) = [v].mapM read := by
    intro v
    rw [List.mapM_cons]
    cases read v <;> rfl
  cases declared with
  | none => rfl
  | some v =>
    cases v with
    | list items => rfl
    | map entries => exact hsingle (.map entries)
    | scalar s =>
      cases s with
      | null => rfl
      | bool b => exact hsingle (.scalar (.bool b))
      | int i => exact hsingle (.scalar (.int i))
      | float x => exact hsingle (.scalar (.float x))
      | str s => exact hsingle (.scalar (.str s))
      | time t => exact hsingle (.scalar (.time t))

end ModifierRef

theorem Chain.exists_ofParts {paths : List Path} {modifiers : List ModifierRef} {combined : Bool} :
    (∃ chain, Chain.ofParts paths modifiers combined = .ok chain) ↔
      paths ≠ [] ∧ if combined then modifiers ≠ [] else paths.length = 1 := by
  cases combined with
  | true =>
    cases paths with
    | nil => simp [ofParts, Outcome.raise]
    | cons p paths => cases modifiers <;> simp [ofParts, Outcome.raise]
  | false =>
    cases paths with
    | nil => simp [ofParts, Outcome.raise]
    | cons p paths => cases paths <;> simp [ofParts, Outcome.raise]

namespace FullField

theorem exists_mapperName (declared : Option Value) :
    (∃ n, mapperName (declared.getD .null) = .ok n) ↔ Value.IsMapperName declared := by
  have hother : ∀ shown : Outcome Text, ¬ ∃ n, (shown >>= fun s =>
      .raise (.malformedField ("mapper must be a mapper name, got " ++ s)) :
        Outcome (Option Text)) = .ok n := by
    intro shown
    rw [Outcome.exists_bind_eq_ok]
    simp [Outcome.raise]
  cases declared with
  | none => simp [Value.IsMapperName, mapperName, Value.null]
  | some v =>
    simp only [Value.IsMapperName, Option.some.injEq, forall_eq', Option.getD_some]
    cases v with
    | list items =>
      rw [mapperName]
      · simp [hother, Value.null]
      · simp
      · simp
    | map entries =>
      rw [mapperName]
      · simp [hother, Value.null]
      · simp
      · simp
    | scalar s =>
      cases s with
      | null => simp [mapperName, Value.null]
      | str s => by_cases hs : s = [] <;> simp [mapperName, hs, Outcome.raise, Value.null]
      | bool | int | float | time =>
        rw [mapperName]
        · simp [hother, Value.null]
        · simp
        · simp

theorem exists_ofParts {paths : List Path} {modifiers : List ModifierRef} {combined : Bool}
    {declared : Option Value} :
    (∃ f, ofParts paths modifiers (declared.getD .null) combined = .ok f) ↔
      (paths ≠ [] ∧ if combined then modifiers ≠ [] else paths.length = 1) ∧
        Value.IsMapperName declared := by
  simp only [ofParts, Outcome.exists_bind_eq_ok, Except.ok.injEq, exists_eq', and_true,
    exists_mapperName]
  rw [exists_and_right, Chain.exists_ofParts]

/-- What is read after the paths of a field. -/
theorem exists_readRest {paths : List Path} {combined : Bool} {e : Failure}
    {modifier mapper : Option Value} :
    (∃ f, (ModifierRef.readAll (modifier.getD .null) >>= fun modifiers =>
      if combined && modifiers.isEmpty then .error e
      else ofParts paths modifiers (mapper.getD .null) combined) = .ok f) ↔
      (∀ m ∈ Value.modifiersOf modifier, m.IsModifier) ∧
        (paths ≠ [] ∧ if combined then Value.modifiersOf modifier ≠ [] else paths.length = 1) ∧
          Value.IsMapperName mapper := by
  rw [ModifierRef.readAll_eq_mapM, Outcome.exists_bind_eq_ok]
  have hrest : ∀ modifiers, (Value.modifiersOf modifier).mapM ModifierRef.read = .ok modifiers →
      ((∃ f, (if combined && modifiers.isEmpty then .error e
        else ofParts paths modifiers (mapper.getD .null) combined) = .ok f) ↔
        (paths ≠ [] ∧ if combined then Value.modifiersOf modifier ≠ [] else paths.length = 1) ∧
          Value.IsMapperName mapper) := by
    intro modifiers hread
    have hlength := ((Outcome.mapM_eq_ok _ _ _).mp hread).length_eq
    have hnil : modifiers = [] ↔ Value.modifiersOf modifier = [] := by
      rw [← List.length_eq_zero_iff, ← List.length_eq_zero_iff, hlength]
    cases combined with
    | true => by_cases hmodifiers : modifiers = [] <;> simp [hmodifiers, exists_ofParts, ← hnil]
    | false => simp [exists_ofParts]
  have hmodifiers := Outcome.exists_mapM_eq_ok ModifierRef.read (Value.modifiersOf modifier)
  simp only [ModifierRef.exists_read] at hmodifiers
  rw [← hmodifiers]
  constructor
  · rintro ⟨modifiers, hread, hf⟩
    exact ⟨⟨modifiers, hread⟩, (hrest modifiers hread).mp hf⟩
  · rintro ⟨⟨modifiers, hread⟩, hf⟩
    exact ⟨modifiers, hread, (hrest modifiers hread).mpr hf⟩

theorem exists_read_list {items : List Value} : (∃ f, read name entries (.list items) = .ok f) ↔
    (items ≠ [] ∧ (∀ item ∈ items, item.IsPath) ∧
      Value.modifiersOf (Value.entry? entries "modifier") ≠ []) ∧
    (∀ m ∈ Value.modifiersOf (Value.entry? entries "modifier"), m.IsModifier) ∧
    Value.IsMapperName (Value.entry? entries "mapper") := by
  have hread : read name entries (.list items) = items.mapM Path.ofValue >>= fun paths =>
      ModifierRef.readAll ((Value.entry? entries "modifier").getD .null) >>= fun modifiers =>
        if true && modifiers.isEmpty then .error (.error ⟨.missingModifier, { field := name }⟩)
        else ofParts paths modifiers ((Value.entry? entries "mapper").getD .null) true := by
    rw [read]
    cases items.mapM Path.ofValue <;> rfl
  have hpaths := Outcome.exists_mapM_eq_ok Path.ofValue items
  simp only [Path.exists_ofValue] at hpaths
  rw [hread, Outcome.exists_bind_eq_ok, ← hpaths]
  simp only [exists_readRest, if_true]
  constructor
  · rintro ⟨paths, hmap, hmodifiers, ⟨hne, hsome⟩, hmapper⟩
    have hlength := ((Outcome.mapM_eq_ok _ _ _).mp hmap).length_eq
    have hitems : items ≠ [] := by
      rintro rfl
      exact hne (List.length_eq_zero_iff.mp hlength.symm)
    exact ⟨⟨hitems, ⟨paths, hmap⟩, hsome⟩, hmodifiers, hmapper⟩
  · rintro ⟨⟨hitems, ⟨paths, hmap⟩, hsome⟩, hmodifiers, hmapper⟩
    have hlength := ((Outcome.mapM_eq_ok _ _ _).mp hmap).length_eq
    have hne : paths ≠ [] := by
      rintro rfl
      exact hitems (List.length_eq_zero_iff.mp hlength)
    exact ⟨paths, hmap, hmodifiers, ⟨hne, hsome⟩, hmapper⟩

theorem exists_read_single {path : Value} (h : ∀ items, path ≠ .list items) :
    (∃ f, read name entries path = .ok f) ↔ path.IsPath ∧
      (∀ m ∈ Value.modifiersOf (Value.entry? entries "modifier"), m.IsModifier) ∧
      Value.IsMapperName (Value.entry? entries "mapper") := by
  have hread : read name entries path = Path.ofValue path >>= fun p =>
      ModifierRef.readAll ((Value.entry? entries "modifier").getD .null) >>= fun modifiers =>
        if false && modifiers.isEmpty then .error (.error ⟨.missingModifier, { field := name }⟩)
        else ofParts [p] modifiers ((Value.entry? entries "mapper").getD .null) false := by
    cases path with
    | list items => exact absurd rfl (h items)
    | scalar s =>
      rw [read]
      · cases Path.ofValue (.scalar s) <;> rfl
      · exact h
    | map own =>
      rw [read]
      · cases Path.ofValue (.map own) <;> rfl
      · exact h
  rw [hread, Outcome.exists_bind_eq_ok, ← Path.exists_ofValue]
  simp only [exists_readRest]
  simp

end FullField

theorem Value.IsPath.ne_list {path : Value} (h : path.IsPath) (items : List Value) :
    path ≠ .list items := by
  obtain ⟨raw, p, rfl, -⟩ := h
  simp

/-- A map is read as a full field when it has the form of one. -/
theorem FullField.exists_read (name : Option Text) :
    (KeysAmong ["path", "modifier", "mapper"] entries ∧ ∃ path f,
      Value.entry? entries "path" = some path ∧ read name entries path = .ok f) ↔
      Value.IsFullField entries := by
  constructor
  · rintro ⟨hkeys, path, f, hpath, hf⟩
    by_cases hlist : ∃ items, path = .list items
    · obtain ⟨items, rfl⟩ := hlist
      obtain ⟨⟨hitems, hall, hsome⟩, hmodifiers, hmapper⟩ := exists_read_list.mp ⟨f, hf⟩
      exact ⟨hkeys, ⟨_, hpath, .inr ⟨items, rfl, hitems, hall, hsome⟩⟩, hmodifiers, hmapper⟩
    · obtain ⟨hwritten, hmodifiers, hmapper⟩ :=
        (exists_read_single (not_exists.mp hlist)).mp ⟨f, hf⟩
      exact ⟨hkeys, ⟨_, hpath, .inl hwritten⟩, hmodifiers, hmapper⟩
  · rintro ⟨hkeys, ⟨path, hpath, hwritten | ⟨items, rfl, hitems, hall, hsome⟩⟩, hmodifiers, hmapper⟩
    · obtain ⟨f, hf⟩ := (exists_read_single hwritten.ne_list).mpr ⟨hwritten, hmodifiers, hmapper⟩
      exact ⟨hkeys, path, f, hpath, hf⟩
    · obtain ⟨f, hf⟩ := exists_read_list.mpr ⟨⟨hitems, hall, hsome⟩, hmodifiers, hmapper⟩
      exact ⟨hkeys, _, f, hpath, hf⟩

/-- Entries are read when their values have a form, whatever their keys are. -/
theorem exists_readEach_iff {α : Type} {read : Text → Value → Outcome α} {form : Value → Prop}
    (hkeys : ∀ e ∈ entries, e.1.Writable)
    (hread : ∀ e ∈ entries, ∀ name, (∃ a, read name e.2 = .ok a) ↔ form e.2) :
    (∃ built, ReadEach read entries built) ↔ ∀ e ∈ entries, form e.2 := by
  rw [exists_readEach]
  refine forall₂_congr fun e he => ?_
  constructor
  · rintro ⟨name, -, ha⟩
    exact (hread e he name).mp ha
  · intro hform
    obtain ⟨name, hname⟩ := e.1.text?_failsIff.eq_ok_iff.mpr (not_not.mpr (hkeys e he))
    exact ⟨name, hname, (hread e he name).mpr hform⟩

section Collections

theorem isPath_of_entry {key : Text} {v w : Value} {p : Path}
    (hentry : Value.entry? entries key = some v) (hp : Path.ofValue v = .ok p)
    (hw : Value.entry? entries key = some w) : w.IsPath := by
  rw [hentry] at hw
  cases hw
  exact Path.exists_ofValue.mp ⟨p, hp⟩

theorem exists_anchor : (∃ anchor : Anchor, readPathAt entries "array_of" = .ok anchor.arrayOf? ∧
    readPathAt entries "within" = .ok anchor.within?) ↔ Value.IsAnchored entries := by
  constructor
  · rintro ⟨anchor, harray, hwithin⟩
    cases anchor with
    | here =>
      have hnoarray := readPathAt_eq_none.mp harray
      have hnowithin := readPathAt_eq_none.mp hwithin
      exact ⟨by simp [hnoarray], by simp [hnowithin], .inl hnoarray⟩
    | within p =>
      have hnoarray := readPathAt_eq_none.mp harray
      obtain ⟨v, hentry, hp⟩ := readPathAt_eq_some.mp hwithin
      exact ⟨by simp [hnoarray], fun w => isPath_of_entry hentry hp, .inl hnoarray⟩
    | each p =>
      have hnowithin := readPathAt_eq_none.mp hwithin
      obtain ⟨v, hentry, hp⟩ := readPathAt_eq_some.mp harray
      exact ⟨fun w => isPath_of_entry hentry hp, by simp [hnowithin], .inr hnowithin⟩
  · rintro ⟨harray, hwithin, hsingle⟩
    cases harrayOf : Value.entry? entries "array_of" with
    | some v =>
      obtain ⟨p, hp⟩ := Path.exists_ofValue.mpr (harray v harrayOf)
      have hnowithin : Value.entry? entries "within" = none := by simpa [harrayOf] using hsingle
      exact ⟨.each p, readPathAt_eq_some.mpr ⟨v, harrayOf, hp⟩, readPathAt_eq_none.mpr hnowithin⟩
    | none =>
      cases hwithinOf : Value.entry? entries "within" with
      | none =>
        exact ⟨.here, readPathAt_eq_none.mpr harrayOf, readPathAt_eq_none.mpr hwithinOf⟩
      | some v =>
        obtain ⟨p, hp⟩ := Path.exists_ofValue.mpr (hwithin v hwithinOf)
        exact ⟨.within p, readPathAt_eq_none.mpr harrayOf,
          readPathAt_eq_some.mpr ⟨v, hwithinOf, hp⟩⟩

/-- A map is read as a collection when it has the form of one, if its entries are
read as fields when they have that form. -/
theorem CollectionSpec.exists_read (h : (Value.map entries).Writable)
    (hread : ∀ e ∈ fieldEntries entries, ∀ name,
      (∃ spec, FieldSpec.read (some name) e.2 = .ok spec) ↔ e.2.IsField) :
    (∃ c, CollectionSpec.read entries = .ok c) ↔ Value.IsAnchored entries ∧
      fieldEntries entries ≠ [] ∧ ∀ e ∈ fieldEntries entries, e.2.IsField := by
  have hkeys : ∀ e ∈ fieldEntries entries, e.1.Writable := fun e he =>
    (Value.writable_map.mp h e (mem_of_mem_fieldEntries he)).1
  rw [← exists_readEach_iff hkeys hread]
  simp only [CollectionSpec.read_eq_ok]
  constructor
  · rintro ⟨c, harray, hwithin, built, hbuilt, hne, -⟩
    have hentries : fieldEntries entries ≠ [] := fun hnil => hne (hbuilt.eq_nil_iff.mpr hnil)
    exact ⟨exists_anchor.mp ⟨_, harray, hwithin⟩, hentries, built, hbuilt⟩
  · rintro ⟨hanchored, hentries, built, hbuilt⟩
    obtain ⟨anchor, harray, hwithin⟩ := exists_anchor.mpr hanchored
    have hne : built ≠ [] := fun hnil => hentries (hbuilt.eq_nil_iff.mp hnil)
    exact ⟨⟨anchor, Ordered.ofList built⟩, harray, hwithin, built, hbuilt, hne, rfl⟩

/-- A value is read as a field exactly when it has one of the forms of a field. -/
theorem FieldSpec.exists_read (v : Value) (h : v.Writable) (name : Option Text) :
    (∃ spec, FieldSpec.read name v = .ok spec) ↔ v.IsField := by
  induction v using Value.induction_on_parts generalizing name with
  | scalar s =>
    simp only [FieldSpec.read_scalar_eq_ok]
    constructor
    · rintro ⟨spec, raw, p, rfl, hp, -⟩
      exact .path ⟨raw, p, rfl, hp⟩
    · intro h
      cases h with
      | path written =>
        obtain ⟨raw, p, hraw, hp⟩ := written
        cases hraw
        exact ⟨_, raw, p, rfl, hp, rfl⟩
  | list items =>
    have hform : ¬ (Value.list items).IsField := by
      intro h
      cases h with
      | path written => exact written.ne_list items rfl
    simp [FieldSpec.read_list_ne_ok, hform]
  | map entries ih =>
    -- the fields of a collection are parts of the map, for which the statement is given
    have hcollection : (∃ c, CollectionSpec.read entries = .ok c) ↔ _ :=
      CollectionSpec.exists_read h fun e he name =>
        have hmem := mem_of_mem_fieldEntries he
        ih e hmem (Value.writable_map.mp h e hmem).2 (some name)
    constructor
    · rintro ⟨spec, hspec⟩
      rcases FieldSpec.read_map_eq_ok.mp hspec with
        ⟨hkeys, path, f, hpath, hf, -⟩ | ⟨hunmixed, c, hc, -⟩
      · exact .full ((FullField.exists_read name).mp ⟨hkeys, path, f, hpath, hf⟩)
      · obtain ⟨hanchored, hnonempty, hall⟩ := hcollection.mp ⟨c, hc⟩
        exact .collection hunmixed hanchored hnonempty hall
    · intro hform
      cases hform with
      | path written =>
        obtain ⟨raw, p, hraw, -⟩ := written
        cases hraw
      | full hfull =>
        obtain ⟨hkeys, path, f, hpath, hf⟩ := (FullField.exists_read name).mpr hfull
        exact ⟨_, FieldSpec.read_map_eq_ok.mpr (.inl ⟨hkeys, path, f, hpath, hf, rfl⟩)⟩
      | collection hunmixed hanchored hnonempty hall =>
        obtain ⟨c, hc⟩ := hcollection.mpr ⟨hanchored, hnonempty, hall⟩
        exact ⟨_, FieldSpec.read_map_eq_ok.mpr (.inr ⟨hunmixed, c, hc, rfl⟩)⟩

theorem Schema.exists_readCollection {own : Text} (h : v.Writable) :
    (∃ c, Schema.readCollection own v = .ok c) ↔ v.IsCollection := by
  have hread : ∀ {entries : List (Scalar × Value)}, (Value.map entries).Writable →
      ((∃ c, CollectionSpec.read entries = .ok c) ↔ _) := fun {entries} hentries =>
    CollectionSpec.exists_read hentries fun e he name =>
      have hmem := mem_of_mem_fieldEntries he
      FieldSpec.exists_read e.2 (Value.writable_map.mp hentries e hmem).2 (some name)
  simp only [Schema.readCollection_eq_ok, Value.IsCollection]
  constructor
  · rintro ⟨c, entries, rfl, hc⟩
    exact ⟨entries, rfl, (hread h).mp ⟨c, hc⟩⟩
  · rintro ⟨entries, rfl, hform⟩
    obtain ⟨c, hc⟩ := (hread h).mpr hform
    exact ⟨c, entries, rfl, hc⟩

theorem Schema.exists_readCollections (h : (Value.map entries).Writable) :
    (∃ built, ReadEach Schema.readCollection entries built) ↔
      ∀ e ∈ entries, e.2.IsCollection := by
  have hwritable := Value.writable_map.mp h
  exact exists_readEach_iff (fun e he => (hwritable e he).1)
    fun e he name => Schema.exists_readCollection (hwritable e he).2

end Collections

section Sections

variable {declared : Option Value} {options : List (Scalar × Value)}

theorem Mapper.exists_section? : (∃ options, Mapper.section? declared = some options) ↔
    ∀ v, declared = some v → v.truthy = false ∨ ∃ table, v = .map table := by
  cases declared with
  | none => simp [Mapper.section?]
  | some v => cases v <;> simp [Mapper.section?]

theorem Value.rawValuesOf_eq (h : Mapper.section? declared = some options) :
    Value.rawValuesOf declared = (Mapper.listed options).map (·.2) := by
  have hlisted : (Mapper.listed options).map (·.2) =
      options.flatMap fun e => Mapper.rawValues e.2 := by
    simp [Mapper.listed, List.map_flatMap, Function.comp_def]
  rcases Mapper.section?_eq_some h with rfl | rfl
  · cases declared with
    | none => rfl
    | some v =>
      cases v with
      | map entries =>
        cases h
        rfl
      | scalar s => rfl
      | list items => rfl
  · exact hlisted.symm

theorem exists_readMapper {own : Text} (h : v.Writable) :
    (∃ m, readMapper own v = .ok m) ↔ v.IsMapper := by
  rw [exists_readMapper_iff, Mapper.exists_read h, Value.IsMapper]
  constructor
  · rintro ⟨entries, options, rfl, hkeys, hsection, hdifferent⟩
    refine ⟨entries, rfl, hkeys, Mapper.exists_section?.mp ⟨options, hsection⟩, ?_⟩
    rwa [Value.rawValuesOf_eq hsection]
  · rintro ⟨entries, rfl, hkeys, hform, hdifferent⟩
    obtain ⟨options, hsection⟩ := Mapper.exists_section?.mpr hform
    rw [Value.rawValuesOf_eq hsection] at hdifferent
    exact ⟨entries, options, rfl, hkeys, hsection, hdifferent⟩

/-- A section of mappers is read when it counts as false or has only mappers. -/
theorem exists_mappers (h : ∀ v, declared = some v → v.Writable) :
    (∃ mappers, Mapper.section? declared = some mappers ∧
      ∃ built, ReadEach readMapper mappers built) ↔
      ∀ v, declared = some v → v.truthy = false ∨
        ∃ table, v = .map table ∧ ∀ e ∈ table, e.2.IsMapper := by
  cases declared with
  | none => simp [Mapper.section?, readEach_nil]
  | some v =>
    have hv : v.Writable := h v rfl
    simp only [Option.some.injEq, forall_eq']
    cases v with
    | map entries =>
      have hwritable := Value.writable_map.mp hv
      have hmappers : (∃ built, ReadEach readMapper entries built) ↔ ∀ e ∈ entries, e.2.IsMapper :=
        exists_readEach_iff (fun e he => (hwritable e he).1)
          fun e he name => exists_readMapper (hwritable e he).2
      simp only [Mapper.section?, Option.some.injEq, exists_eq_left', hmappers, Value.map.injEq]
      constructor
      · exact .inr
      · rintro (hempty | hall)
        · have hnil : entries = [] := by simpa [Value.truthy] using hempty
          simp [hnil]
        · exact hall
    | scalar s =>
      cases htruthy : (Value.scalar s).truthy <;> simp [Mapper.section?, htruthy, readEach_nil]
    | list items =>
      cases htruthy : (Value.list items).truthy <;> simp [Mapper.section?, htruthy, readEach_nil]

end Sections
end Acceptance

/-- A value is read into a schema exactly when it is a schema document. -/
theorem Schema.reads_iff_isSchemaDocument (sections : Sections) {data : Value} (h : data.Writable) :
    (∃ result, Schema.readWith sections data = .ok result) ↔ data.IsSchemaDocument sections := by
  have hentry : ∀ {entries : List (Scalar × Value)} {key : Text} {v : Value},
      (Value.map entries).Writable → Value.entry? entries key = some v → v.Writable :=
    fun hentries hv => (Value.writable_map.mp hentries _ (Value.entry?_eq_some hv)).2
  constructor
  · rintro ⟨⟨schema, notices⟩, hread⟩
    obtain ⟨entries, collections, mappers, rfl, hkeys, hcollection, hmapper,
      ⟨built, hbuilt, hne, -⟩, builtMappers, hbuiltMappers, -⟩ :=
      Schema.readWith_eq_ok.mp ⟨notices, hread⟩
    refine ⟨entries, collections, rfl, hkeys, hcollection, ?_, ?_, ?_⟩
    · exact fun hnil => hne (hbuilt.eq_nil_iff.mpr hnil)
    · exact (Schema.exists_readCollections (hentry h hcollection)).mp ⟨built, hbuilt⟩
    · exact (exists_mappers fun v => hentry h).mp ⟨mappers, hmapper, builtMappers, hbuiltMappers⟩
  · rintro ⟨entries, collections, rfl, hkeys, hcollection, hne, hall, hmappers⟩
    obtain ⟨built, hbuilt⟩ := (Schema.exists_readCollections (hentry h hcollection)).mpr hall
    obtain ⟨mappers, hmapper, builtMappers, hbuiltMappers⟩ :=
      (exists_mappers fun v => hentry h).mpr hmappers
    have hbuiltne : built ≠ [] := fun hnil => hne (hbuilt.eq_nil_iff.mp hnil)
    obtain ⟨notices, hread⟩ : ∃ notices, Schema.readWith sections (.map entries) =
        .ok (⟨Ordered.ofList built, Ordered.ofList builtMappers⟩, notices) :=
      Schema.readWith_eq_ok.mpr ⟨entries, collections, mappers, rfl, hkeys, hcollection, hmapper,
        ⟨built, hbuilt, hbuiltne, rfl⟩, builtMappers, hbuiltMappers, rfl⟩
    exact ⟨_, hread⟩

/-- One record for each book on a shelf, with its title and the last of its notes. -/
def shelfDocument : Value := .map [(.str "schemas", .map [(.str "books", .map [
  (.str "array_of", .str " shelf/book/"),
  (.str "title", .str "title"),
  (.str "note", .map [(.str "path", .list [.str "note"]), (.str "modifier", .str "last")])])])]

theorem reads_shelfDocument :
    shelfDocument.Writable ∧ ∃ result, Schema.readWith {} shelfDocument = .ok result := by
  have hwritable : shelfDocument.Writable := by
    simp [shelfDocument, Value.writable_map, Value.writable_list, Value.writable_scalar, Value.str,
      Scalar.Writable]
  have hpath : (Value.str " shelf/book/").IsPath :=
    ⟨_, ⟨["shelf", "book"], by decide, by decide +kernel⟩, rfl, [' '], [], ['/'], [],
      by decide +kernel, by simp [show Text.isBlank ' ' = true from rfl]⟩
  have htitle : (Value.str "title").IsPath :=
    ⟨_, .ofTag "title" (by decide +kernel), rfl, Path.ofTag_writtenBy _⟩
  have hnote : (Value.str "note").IsPath :=
    ⟨_, .ofTag "note" (by decide +kernel), rfl, Path.ofTag_writtenBy _⟩
  have hfull : Value.IsFullField
      [(.str "path", .list [.str "note"]), (.str "modifier", .str "last")] := by
    refine ⟨by simp [KeysAmong], ⟨_, rfl, .inr ⟨_, rfl, by simp, ?_, by decide⟩⟩, ?_, ?_⟩
    · simpa using hnote
    · intro m hm
      rw [List.mem_singleton.mp hm]
      exact .name ⟨"last", rfl, by decide⟩
    · intro v hv
      cases hv
  have hform : shelfDocument.IsSchemaDocument {} := by
    refine ⟨_, _, rfl, by simp [KeysAmong], rfl, by simp, ?_, fun mappers h => ?_⟩
    · intro e he
      rw [List.mem_singleton.mp he]
      refine ⟨_, rfl, ⟨?_, ?_, .inr rfl⟩, by decide, ?_⟩
      · intro v hv
        cases hv
        exact hpath
      · intro v hv
        cases hv
      · intro e he
        have hentry : e = (.str "title", .str "title") ∨ e = (.str "note",
            .map [(.str "path", .list [.str "note"]), (.str "modifier", .str "last")]) := by
          simpa [fieldEntries, isAnchorKey, Scalar.same] using he
        rcases hentry with rfl | rfl
        · exact .path htitle
        · exact .full hfull
    · cases h
  exact ⟨hwritable, (Schema.reads_iff_isSchemaDocument {} hwritable).mpr hform⟩

end XmlHarvest
