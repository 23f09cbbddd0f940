import XmlHarvest.Proofs.Ordered
import XmlHarvest.Proofs.Path
import XmlHarvest.Proofs.Value.Keys

/-! # What the tables of a schema are made of

The collections of a schema, its mappers and the fields of a collection are read
entry by entry, and each is written under the text of its key into the table that
there is so far.  So each table is made of what its entries give one by one. -/
set_option autoImplicit false

namespace XmlHarvest

/-- What entries give that are read one by one: the text of each key, with what is
read of its value. -/
def ReadEach {α : Type} (read : Text → Value → Outcome α) (entries : List (Scalar × Value))
    (built : List (Text × α)) : Prop :=
  List.Forall₂ (fun e b => e.1.text? = .ok b.1 ∧ read b.1 e.2 = .ok b.2) entries built

def fieldEntries (entries : List (Scalar × Value)) : List (Scalar × Value) :=
  entries.filter fun e => !isAnchorKey e.1

theorem mem_of_mem_fieldEntries {entries : List (Scalar × Value)} {e : Scalar × Value}
    (h : e ∈ fieldEntries entries) : e ∈ entries := (List.mem_filter.mp h).1

abbrev ReadFields (entries : List (Scalar × Value)) (built : List (Text × FieldSpec)) : Prop :=
  ReadEach (fun name => FieldSpec.read (some name)) (fieldEntries entries) built

section Tables

variable {α : Type} {read : Text → Value → Outcome α} {entries : List (Scalar × Value)}
  {acc t : List (Text × α)} {k : Scalar} {v : Value}

theorem readEach_nil : ReadEach read [] t ↔ t = [] := List.forall₂_nil_left_iff

theorem readEach_cons : ReadEach read ((k, v) :: entries) t ↔
    ∃ name a rest, k.text? = .ok name ∧ read name v = .ok a ∧ ReadEach read entries rest ∧
      t = (name, a) :: rest := by
  rw [ReadEach, List.forall₂_cons_left_iff]
  constructor
  · rintro ⟨⟨name, a⟩, rest, ⟨hname, ha⟩, hrest, rfl⟩
    exact ⟨name, a, rest, hname, ha, hrest, rfl⟩
  · rintro ⟨name, a, rest, hname, ha, hrest, rfl⟩
    exact ⟨(name, a), rest, ⟨hname, ha⟩, hrest, rfl⟩

/-- Entries are read exactly when each of them is. -/
theorem exists_readEach : (∃ built, ReadEach read entries built) ↔
    ∀ e ∈ entries, ∃ name, e.1.text? = .ok name ∧ ∃ a, read name e.2 = .ok a := by
  induction entries with
  | nil => simp [readEach_nil]
  | cons e entries ih =>
    obtain ⟨k, v⟩ := e
    rw [List.forall_mem_cons, ← ih]
    simp only [readEach_cons]
    constructor
    · rintro ⟨_, name, a, rest, hname, ha, hrest, -⟩
      exact ⟨⟨name, hname, a, ha⟩, rest, hrest⟩
    · rintro ⟨⟨name, hname, a, ha⟩, rest, hrest⟩
      exact ⟨_, name, a, rest, hname, ha, hrest, rfl⟩

theorem ReadEach.mem_keys (h : ReadEach read entries t) (name : Text) :
    name ∈ Ordered.keys t ↔ ∃ e ∈ entries, e.1.text? = .ok name :=
  Ordered.mem_keys_of_keyed (List.Forall₂.imp (fun _ _ hentry => hentry.1) h)

theorem ReadEach.eq_nil_iff (h : ReadEach read entries t) : t = [] ↔ entries = [] := by
  rw [← List.length_eq_zero_iff, ← List.length_eq_zero_iff, List.Forall₂.length_eq h]

/-- Entries that are written one by one into a table. -/
theorem foldlM_put_eq_ok :
    entries.foldlM (fun table (k, v) => do
      let name ← Outcome.ofFault k.text?
      let a ← read name v
      .ok (Ordered.put name a table)) acc = .ok t ↔
    ∃ built, ReadEach read entries built ∧ Ordered.update acc built = t := by
  induction entries generalizing acc with
  | nil =>
    simp only [List.foldlM_nil, readEach_nil, exists_eq_left, Ordered.update_nil]
    exact ⟨fun h => Except.ok.inj h, fun h => by rw [h]; rfl⟩
  | cons e entries ih =>
    obtain ⟨k, v⟩ := e
    simp only [List.foldlM_cons, Outcome.bind_eq_ok, Outcome.ofFault_eq_ok, ih, readEach_cons]
    constructor
    · rintro ⟨_, ⟨name, hname, a, ha, hput⟩, built, hbuilt, rfl⟩
      cases hput
      exact ⟨_, ⟨name, a, built, hname, ha, hbuilt, rfl⟩, rfl⟩
    · rintro ⟨_, ⟨name, a, built, hname, ha, hbuilt, rfl⟩, rfl⟩
      exact ⟨_, ⟨name, hname, a, ha, rfl⟩, built, hbuilt, rfl⟩

end Tables

section Fields

variable {entries : List (Scalar × Value)} {name : Option Text} {c : CollectionSpec}

theorem readFields_eq_ok {acc t : List (Text × FieldSpec)} :
    FieldSpec.readFields acc entries = .ok t ↔
      ∃ built, ReadFields entries built ∧ Ordered.update acc built = t := by
  induction entries generalizing acc with
  | nil =>
    simp only [FieldSpec.readFields, ReadFields, fieldEntries, List.filter_nil, readEach_nil,
      exists_eq_left, Ordered.update_nil, Except.ok.injEq]
  | cons e entries ih =>
    obtain ⟨k, v⟩ := e
    simp only [ReadFields, fieldEntries] at ih ⊢
    rw [FieldSpec.readFields]
    by_cases hk : isAnchorKey k = true
    · rw [if_pos hk, ih, List.filter_cons_of_neg (by simpa using hk)]
    · rw [if_neg hk, List.filter_cons_of_pos (by simpa using hk)]
      simp only [Outcome.bind_eq_ok, Outcome.ofFault_eq_ok, withinField, Outcome.within_eq_ok, ih,
        readEach_cons]
      constructor
      · rintro ⟨name, hname, spec, hspec, built, hbuilt, rfl⟩
        exact ⟨_, ⟨name, spec, built, hname, hspec, hbuilt, rfl⟩, rfl⟩
      · rintro ⟨_, ⟨name, spec, built, hname, hspec, hbuilt, rfl⟩, rfl⟩
        exact ⟨name, hname, spec, hspec, built, hbuilt, rfl⟩

theorem ofParts_eq_ok {fields : List (Text × FieldSpec)} {arrayOf within : Option Path} :
    CollectionSpec.ofParts fields arrayOf within = .ok c ↔
      fields ≠ [] ∧ c.fields = fields ∧ c.anchor.arrayOf? = arrayOf ∧
        c.anchor.within? = within := by
  obtain ⟨anchor, own⟩ := c
  unfold CollectionSpec.ofParts
  by_cases hfields : fields = []
  · simp [hfields, Outcome.raise]
  · have hnonempty : ¬ fields.isEmpty = true := by simpa using hfields
    rw [if_neg hnonempty]
    cases arrayOf <;> cases within <;> cases anchor <;>
      simp [hfields, Outcome.raise, Anchor.arrayOf?, Anchor.within?, eq_comm, and_comm]

theorem readPathAt_eq_none {key : Text} :
    readPathAt entries key = .ok none ↔ Value.entry? entries key = none := by
  rw [readPathAt]
  cases Value.entry? entries key with
  | none => simp
  | some v => simp [Outcome.bind_eq_ok]

theorem readPathAt_eq_some {key : Text} {p : Path} : readPathAt entries key = .ok (some p) ↔
    ∃ v, Value.entry? entries key = some v ∧ Path.ofValue v = .ok p := by
  rw [readPathAt]
  cases Value.entry? entries key with
  | none => simp
  | some v => simp [Outcome.bind_eq_ok]

/-- A collection is read from its two paths and from the fields that it declares. -/
theorem CollectionSpec.read_eq_ok : CollectionSpec.read entries = .ok c ↔
    readPathAt entries "array_of" = .ok c.anchor.arrayOf? ∧
    readPathAt entries "within" = .ok c.anchor.within? ∧
    ∃ built, ReadFields entries built ∧ built ≠ [] ∧ c.fields = Ordered.ofList built := by
  simp only [CollectionSpec.read, CollectionSpec.readWith, Outcome.bind_eq_ok, ofParts_eq_ok,
    readFields_eq_ok]
  constructor
  · rintro ⟨_, harray, _, hwithin, _, ⟨built, hbuilt, rfl⟩, hne, hfields, rfl, rfl⟩
    exact ⟨harray, hwithin, built, hbuilt, by simpa [Ordered.update_eq_nil] using hne, hfields⟩
  · rintro ⟨harray, hwithin, built, hbuilt, hne, hfields⟩
    exact ⟨_, harray, _, hwithin, _, ⟨built, hbuilt, rfl⟩,
      by simpa [Ordered.update_eq_nil] using hne, hfields, rfl, rfl⟩

theorem malformed_ne_ok {α : Type} {field : Option Text} {message : Text} {a : α} :
    malformed field message ≠ .ok a := by
  simp [malformed]

/-- A map with a path and no keys but those of a full field is one. -/
theorem FieldShape.of_eq_full {path : Value} : FieldShape.of name entries = .ok (.full path) ↔
    KeysAmong ["path", "modifier", "mapper"] entries ∧ Value.entry? entries "path" = some path := by
  cases harray : Value.entry? entries "array_of" with
  | some v =>
    have hkeys : ¬ KeysAmong ["path", "modifier", "mapper"] entries := fun h => by
      rw [h.entry?_eq_none (by decide)] at harray
      cases harray
    simp only [FieldShape.of, harray, hkeys, false_and, iff_false]
    split
    · simp
    · exact malformed_ne_ok
  | none =>
    cases hpath : Value.entry? entries "path" with
    | none =>
      simp only [FieldShape.of, harray, hpath, reduceCtorEq, and_false, iff_false]
      split
      · simp
      · exact malformed_ne_ok
    | some v =>
      simp only [FieldShape.of, harray, hpath]
      rw [unknownKeys_bind_eq_ok fun unknown hne => by
        simp only [List.isEmpty_iff, hne, if_false]
        exact malformed_ne_ok]
      simp [eq_comm]

/-- A map without any key of a full field declares a collection. -/
theorem FieldShape.of_eq_collection : FieldShape.of name entries = .ok .collection ↔
    ∀ key ∈ (["path", "modifier", "mapper"] : List Text), Value.entry? entries key = none := by
  have hkeys : (∀ key ∈ (["path", "modifier", "mapper"] : List Text), Value.entry? entries key = none) ↔
      Value.entry? entries "path" = none ∧
        ∀ key ∈ (["mapper", "modifier"] : List Text), Value.entry? entries key = none := by
    simp only [List.forall_mem_cons]
    tauto
  cases harray : Value.entry? entries "array_of" with
  | some v =>
    simp only [FieldShape.of, harray]
    split
    · rename_i hpresent
      have hnone := presentKeys_eq_nil.mp hpresent
      simp only [List.forall_mem_cons] at hnone ⊢
      tauto
    · rename_i hpresent
      refine iff_of_false malformed_ne_ok fun hnone => hpresent (presentKeys_eq_nil.mpr ?_)
      simp only [List.forall_mem_cons] at hnone ⊢
      tauto
  | none =>
    cases hpath : Value.entry? entries "path" with
    | some v =>
      simp only [FieldShape.of, harray, hpath]
      rw [unknownKeys_bind_eq_ok fun unknown hne => by
        simp only [List.isEmpty_iff, hne, if_false]
        exact malformed_ne_ok]
      simp [hpath]
    | none =>
      rw [hkeys, hpath, ← presentKeys_eq_nil]
      simp only [FieldShape.of, harray, hpath, true_and]
      split
      · rename_i hpresent
        simp [hpresent]
      · rename_i hpresent
        exact iff_of_false malformed_ne_ok hpresent

theorem CollectionSpec.read_nil_ne_ok : CollectionSpec.read [] ≠ .ok c := by
  intro h
  obtain ⟨-, -, built, hbuilt, hne, -⟩ := CollectionSpec.read_eq_ok.mp h
  exact hne (hbuilt.eq_nil_iff.mpr rfl)

/-- A field that is a map is a full field or a collection of its own. -/
theorem FieldSpec.read_map_eq_ok {spec : FieldSpec} :
    FieldSpec.read name (.map entries) = .ok spec ↔
      (KeysAmong ["path", "modifier", "mapper"] entries ∧ ∃ path f,
        Value.entry? entries "path" = some path ∧ FullField.read name entries path = .ok f ∧
          spec = .full f) ∨
      ((∀ key ∈ (["path", "modifier", "mapper"] : List Text), Value.entry? entries key = none) ∧
        ∃ c, CollectionSpec.read entries = .ok c ∧ spec = c.asField) := by
  cases entries with
  | nil =>
    simp [FieldSpec.read, malformed_ne_ok, Value.entry?, Ordered.find?,
      CollectionSpec.read_nil_ne_ok]
  | cons e more =>
    rw [FieldSpec.read, Outcome.bind_eq_ok]
    constructor
    · rintro ⟨shape, hshape, h⟩
      cases shape with
      | full path =>
        obtain ⟨hkeys, hpath⟩ := FieldShape.of_eq_full.mp hshape
        obtain ⟨f, hf, h⟩ := (Outcome.bind_eq_ok _ _ _).mp h
        exact .inl ⟨hkeys, path, f, hpath, hf, (Except.ok.inj h).symm⟩
      | collection =>
        obtain ⟨c, hc, h⟩ := (Outcome.bind_eq_ok _ _ _).mp h
        exact .inr ⟨FieldShape.of_eq_collection.mp hshape, c, hc, (Except.ok.inj h).symm⟩
    · rintro (⟨hkeys, path, f, hpath, hf, rfl⟩ | ⟨hnone, c, hc, rfl⟩)
      · exact ⟨_, FieldShape.of_eq_full.mpr ⟨hkeys, hpath⟩, (Outcome.bind_eq_ok _ _ _).mpr
          ⟨f, hf, rfl⟩⟩
      · exact ⟨_, FieldShape.of_eq_collection.mpr hnone, (Outcome.bind_eq_ok _ _ _).mpr
          ⟨c, hc, rfl⟩⟩

/-- A field that is no map is a path. -/
theorem FieldSpec.read_scalar_eq_ok {s : Scalar} {spec : FieldSpec} :
    FieldSpec.read name (.scalar s) = .ok spec ↔
      ∃ raw p, s = .str raw ∧ Path.WrittenBy p raw ∧ spec = .shorthand p := by
  cases s with
  | str raw =>
    have hread : FieldSpec.read name (.scalar (.str raw)) =
        Path.lift (Path.parse raw) >>= fun p => .ok (FieldSpec.shorthand p) := rfl
    simp only [hread, Outcome.bind_eq_ok, Path.lift_eq_ok, Path.parse_eq_ok, Scalar.str.injEq,
      exists_and_left, exists_eq_left']
    exact exists_congr fun p => and_congr_right fun _ =>
      ⟨fun h => (Except.ok.inj h).symm, fun h => by rw [h]⟩
  | null | bool | int | float | time =>
    refine iff_of_false (fun h => ?_) (by simp)
    obtain ⟨shown, -, hshown⟩ := (Outcome.bind_eq_ok _ _ _).mp h
    exact malformed_ne_ok hshown

theorem FieldSpec.read_list_ne_ok {items : List Value} {spec : FieldSpec} :
    FieldSpec.read name (.list items) ≠ .ok spec := by
  intro h
  obtain ⟨shown, -, hshown⟩ := (Outcome.bind_eq_ok _ _ _).mp h
  exact malformed_ne_ok hshown

end Fields

section Sections

variable {entries : List (Scalar × Value)} {mappers : Mappers}

/-- A mapper without the warnings that its table gives rise to. -/
def readMapper (name : Text) (definition : Value) : Outcome Mapper :=
  Prod.fst <$> Mapper.read name definition

theorem exists_readMapper_iff {name : Text} {definition : Value} :
    (∃ m, readMapper name definition = .ok m) ↔ ∃ m, Mapper.read name definition = .ok m := by
  simp [readMapper, Outcome.map_eq_ok]

theorem Mappers.foldlM_eq_ok {acc : Mappers × List Text} :
    (∃ notices, entries.foldlM (fun (mappers, notices) (k, definition) => do
        let name ← Outcome.ofFault k.text?
        let (m, more) ← Mapper.read name definition
        .ok (Ordered.put name m mappers, notices ++ more)) acc = .ok (mappers, notices)) ↔
      ∃ built, ReadEach readMapper entries built ∧ Ordered.update acc.1 built = mappers := by
  induction entries generalizing acc with
  | nil =>
    simp only [List.foldlM_nil, readEach_nil, exists_eq_left, Ordered.update_nil]
    constructor
    · rintro ⟨notices, h⟩
      rw [Except.ok.inj h]
    · intro h
      exact ⟨acc.2, by rw [← h]; rfl⟩
  | cons e entries ih =>
    obtain ⟨k, v⟩ := e
    simp only [List.foldlM_cons, Outcome.bind_eq_ok, Outcome.ofFault_eq_ok, readEach_cons,
      readMapper, Outcome.map_eq_ok]
    constructor
    · rintro ⟨notices, next, ⟨name, hname, ⟨m, more⟩, hm, hnext⟩, hrest⟩
      cases hnext
      obtain ⟨built, hbuilt, rfl⟩ := ih.mp ⟨notices, hrest⟩
      exact ⟨_, ⟨name, m, built, hname, ⟨_, hm, rfl⟩, hbuilt, rfl⟩, rfl⟩
    · rintro ⟨_, ⟨name, m, built, hname, ⟨⟨_, more⟩, hm, rfl⟩, hbuilt, rfl⟩, rfl⟩
      obtain ⟨notices, hrest⟩ := (@ih (Ordered.put name _ acc.1, acc.2 ++ more)).mpr
        ⟨built, hbuilt, rfl⟩
      exact ⟨notices, _, ⟨name, hname, _, hm, rfl⟩, hrest⟩

theorem Mappers.read_eq_ok : (∃ notices, Mappers.read entries = .ok (mappers, notices)) ↔
    ∃ built, ReadEach readMapper entries built ∧ mappers = Ordered.ofList built := by
  rw [Mappers.read, Mappers.foldlM_eq_ok]
  exact exists_congr fun built => and_congr_right fun _ => eq_comm

/-- A section of mappers that counts as false declares none. -/
theorem readOptionalMappers_eq_ok {sections : Sections} {declared : Option Value} :
    (∃ notices, Schema.readOptionalMappers sections declared = .ok (mappers, notices)) ↔
      ∃ entries built, Mapper.section? declared = some entries ∧
        ReadEach readMapper entries built ∧ mappers = Ordered.ofList built := by
  cases declared with
  | none => simp [Schema.readOptionalMappers, Mapper.section?, readEach_nil, eq_comm]
  | some v =>
    cases v with
    | map entries =>
      have hread : Schema.readOptionalMappers sections (some (.map entries)) =
          Mappers.read entries := by
        cases entries <;> rfl
      simp only [hread, Mappers.read_eq_ok, Mapper.section?, Option.some.injEq,
        exists_and_left, exists_eq_left']
    | scalar s =>
      cases htruthy : (Value.scalar s).truthy <;>
        simp [Schema.readOptionalMappers, Schema.readMappers, Mapper.section?, htruthy,
          Outcome.raise, readEach_nil, eq_comm]
    | list items =>
      cases htruthy : (Value.list items).truthy <;>
        simp [Schema.readOptionalMappers, Schema.readMappers, Mapper.section?, htruthy,
          Outcome.raise, readEach_nil, eq_comm]

theorem Schema.readCollection_eq_ok {name : Text} {v : Value} {c : CollectionSpec} :
    Schema.readCollection name v = .ok c ↔
      ∃ own, v = .map own ∧ CollectionSpec.read own = .ok c := by
  cases v with
  | scalar s => simp [readCollection, malformed_ne_ok]
  | list items => simp [readCollection, malformed_ne_ok]
  | map own =>
    cases own with
    | nil => simp [readCollection, malformed_ne_ok, CollectionSpec.read_nil_ne_ok]
    | cons e more => simp [readCollection, Outcome.within_eq_ok]

theorem Schema.readCollections_eq_ok {collections : List (Text × CollectionSpec)} :
    Schema.readCollections entries = .ok collections ↔
      ∃ built, ReadEach Schema.readCollection entries built ∧
        collections = Ordered.ofList built := by
  rw [Schema.readCollections, foldlM_put_eq_ok]
  exact exists_congr fun built => and_congr_right fun _ => eq_comm

theorem Schema.ofParts_eq_ok {collections : List (Text × CollectionSpec)} {schema : Schema} :
    Schema.ofParts collections mappers = .ok schema ↔
      collections ≠ [] ∧ schema = ⟨collections, mappers⟩ := by
  rw [Schema.ofParts]
  by_cases hnone : collections = []
  · simp [hnone, Outcome.raise]
  · simp only [List.isEmpty_iff, hnone, if_false, ne_eq, not_false_eq_true, true_and,
      Except.ok.injEq]
    exact eq_comm

/-- A schema is read from the entries of its two sections. -/
theorem Schema.readWith_eq_ok {sections : Sections} {data : Value} {schema : Schema} :
    (∃ notices, Schema.readWith sections data = .ok (schema, notices)) ↔
      ∃ entries collections mappers, data = .map entries ∧
        KeysAmong [sections.schemas, sections.mappers] entries ∧
        Value.entry? entries sections.schemas = some (.map collections) ∧
        Mapper.section? (Value.entry? entries sections.mappers) = some mappers ∧
        (∃ built, ReadEach Schema.readCollection collections built ∧ built ≠ [] ∧
          schema.collections = Ordered.ofList built) ∧
        ∃ built, ReadEach readMapper mappers built ∧ schema.mappers = Ordered.ofList built := by
  cases data with
  | scalar s => simp [Schema.readWith, Outcome.raise]
  | list items => simp [Schema.readWith, Outcome.raise]
  | map entries =>
    simp only [Schema.readWith, Value.map.injEq]
    constructor
    · rintro ⟨notices, h⟩
      rw [unknownKeys_bind_eq_ok fun unknown hne => by simp [hne, Outcome.raise]] at h
      obtain ⟨hkeys, h⟩ := h
      simp only [List.isEmpty_nil, Bool.not_true, Bool.false_eq_true, if_false] at h
      split at h
      · rename_i entry more hcollections
        obtain ⟨⟨mappers, notices'⟩, hmappers, h⟩ := (Outcome.bind_eq_ok _ _ _).mp h
        obtain ⟨collections, hbuilt, h⟩ := (Outcome.bind_eq_ok _ _ _).mp h
        obtain ⟨schema', hschema, h⟩ := (Outcome.bind_eq_ok _ _ _).mp h
        cases h
        obtain ⟨hne, rfl⟩ := Schema.ofParts_eq_ok.mp hschema
        obtain ⟨built, hread, rfl⟩ := Schema.readCollections_eq_ok.mp hbuilt
        obtain ⟨declared, builtMappers, hdeclared, hreadMappers, rfl⟩ :=
          readOptionalMappers_eq_ok.mp ⟨_, hmappers⟩
        have hbuiltne : built ≠ [] := by simpa [Ordered.ofList_eq_nil] using hne
        exact ⟨entries, _, declared, rfl, hkeys, hcollections, hdeclared,
          ⟨built, hread, hbuiltne, rfl⟩, builtMappers, hreadMappers, rfl⟩
      · cases h
    · rintro ⟨_, collections, mappers, rfl, hkeys, hcollections, hdeclared,
        ⟨built, hread, hne, hbuilt⟩, builtMappers, hreadMappers, hmappers⟩
      obtain ⟨notices, hoptional⟩ : ∃ notices, Schema.readOptionalMappers sections
          (Value.entry? entries sections.mappers) = .ok (schema.mappers, notices) :=
        readOptionalMappers_eq_ok.mpr ⟨mappers, builtMappers, hdeclared, hreadMappers, hmappers⟩
      have hcollection := Schema.readCollections_eq_ok.mpr ⟨built, hread, hbuilt⟩
      have hschema : Schema.ofParts schema.collections schema.mappers = .ok schema :=
        Schema.ofParts_eq_ok.mpr ⟨by simpa [hbuilt, Ordered.ofList_eq_nil] using hne, rfl⟩
      obtain ⟨entry, more, rfl⟩ : ∃ entry more, collections = entry :: more := by
        refine List.exists_cons_of_ne_nil fun hnil => hne ?_
        exact hread.eq_nil_iff.mpr hnil
      refine ⟨notices, ?_⟩
      rw [unknownKeys_bind_eq_ok fun unknown hne => by simp [hne, Outcome.raise]]
      refine ⟨hkeys, ?_⟩
      simp only [List.isEmpty_nil, Bool.not_true, Bool.false_eq_true, if_false, hcollections,
        Outcome.bind_eq_ok]
      exact ⟨_, hoptional, _, hcollection, _, hschema, rfl⟩

end Sections
end XmlHarvest
