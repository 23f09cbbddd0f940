import XmlHarvest.Proofs.Conformity
import XmlHarvest.Proofs.Schema.Entries

/-! # What is declared and what is kept

Keys of a schema document are scalars, names in a schema are texts.  Two keys of one
map may have the same text, and then the entry that is read last takes the place of
the other.  So a schema has everything that its document declares exactly when, in
each of its tables, the texts of the keys are different. -/
set_option autoImplicit false

namespace XmlHarvest

/-- What a table keeps of the entries that are read one by one. -/
abbrev Keeping : Type 1 := ∀ α : Type, List (Text × α) → List (Text × α)

def everyEntry : Keeping := fun _ built => built

def lastEntries : Keeping := fun _ built => Ordered.ofList built

/-- A field that a value declares.  The fields of a collection are kept of what its
entries declare: each has the text of its key as its name and is read from the value
of its key. -/
inductive FieldSpec.DeclaredBy (keep : Keeping) : Value → FieldSpec → Prop
  | shorthand {v : Value} {p : Path} : DeclaredBy keep v (.shorthand p)
  | full {v : Value} {f : FullField} : DeclaredBy keep v (.full f)
  | nested {entries : List (Scalar × Value)} {anchor : Anchor}
      {fields built : List (Text × FieldSpec)} (read : ReadFields entries built)
      (kept : fields = keep FieldSpec built)
      (each : List.Forall₂ (fun e f => DeclaredBy keep e.2 f.2) (fieldEntries entries) built) :
      DeclaredBy keep (.map entries) (.nested anchor fields)

/-- A schema that a document declares: collections and mappers are kept of what the
entries of the two sections declare. -/
def Schema.DeclaredBy (keep : Keeping) (sections : Sections) (data : Value) (schema : Schema) :
    Prop :=
  ∃ entries collections mappers, data = .map entries ∧
    Value.entry? entries sections.schemas = some (.map collections) ∧
    Mapper.section? (Value.entry? entries sections.mappers) = some mappers ∧
    (∃ built, ReadEach Schema.readCollection collections built ∧
      schema.collections = keep CollectionSpec built ∧
      List.Forall₂ (fun e c => c.2.asField.DeclaredBy keep e.2) collections built) ∧
    ∃ built, ReadEach readMapper mappers built ∧ schema.mappers = keep Mapper built

/-- No two keys have the same text. -/
def DifferentKeys (entries : List (Scalar × Value)) : Prop :=
  entries.Pairwise fun a b => a.1.text? ≠ b.1.text?

/-- A field in which no two keys of one collection have the same text. -/
inductive Value.Unambiguous : Value → Prop
  | scalar (s : Scalar) : Unambiguous (.scalar s)
  | full {entries : List (Scalar × Value)} {path : Value}
      (entry : Value.entry? entries "path" = some path) : Unambiguous (.map entries)
  | collection {entries : List (Scalar × Value)} (different : DifferentKeys (fieldEntries entries))
      (each : ∀ e ∈ fieldEntries entries, Unambiguous e.2) : Unambiguous (.map entries)

/-- A collection at the top of a schema of that kind. -/
def Value.UnambiguousCollection (v : Value) : Prop :=
  ∀ own, v = .map own → DifferentKeys (fieldEntries own) ∧ ∀ e ∈ fieldEntries own, e.2.Unambiguous

/-- A document in which no two keys of one table have the same text. -/
def Value.UnambiguousDocument (sections : Sections) (data : Value) : Prop :=
  ∃ entries collections mappers, data = .map entries ∧
    Value.entry? entries sections.schemas = some (.map collections) ∧
    Mapper.section? (Value.entry? entries sections.mappers) = some mappers ∧
    DifferentKeys collections ∧ DifferentKeys mappers ∧
    ∀ e ∈ collections, e.2.UnambiguousCollection

section Tables

variable {α : Type} {read : Text → Value → Outcome α} {entries : List (Scalar × Value)}
  {built built' : List (Text × α)}

theorem ReadEach.unique (h : ReadEach read entries built) (h' : ReadEach read entries built') :
    built = built' := by
  induction h generalizing built' with
  | nil => exact (readEach_nil.mp h').symm
  | @cons e b entries built hb _ ih =>
    obtain ⟨name, a, rest, hname, ha, hrest, rfl⟩ := readEach_cons.mp h'
    obtain ⟨hb₁, hb₂⟩ := hb
    have hfirst : b.1 = name := Except.ok.inj (hb₁.symm.trans hname)
    have hsecond : b.2 = a := by
      rw [← hfirst] at ha
      exact Except.ok.inj (hb₂.symm.trans ha)
    rw [ih hrest, ← hfirst, ← hsecond]

theorem ReadEach.nodup_iff (h : ReadEach read entries built) :
    (Ordered.keys built).Nodup ↔ DifferentKeys entries :=
  Ordered.nodup_keys_of_keyed (List.Forall₂.imp (fun _ _ hentry => hentry.1) h)

/-- Nothing is replaced exactly when the texts of the keys are different. -/
theorem ReadEach.kept_iff (h : ReadEach read entries built) :
    lastEntries α built = everyEntry α built ↔ DifferentKeys entries := by
  rw [← h.nodup_iff]
  exact Ordered.ofList_eq_self_iff

theorem ReadEach.imp (deep : Value → α → Prop) (h : ReadEach read entries built)
    (himp : ∀ e ∈ entries, ∀ name a, read name e.2 = .ok a → deep e.2 a) :
    List.Forall₂ (fun e b => deep e.2 b.2) entries built := by
  induction h with
  | nil => exact .nil
  | @cons e b entries built hb _ ih =>
    have hrest := ih fun e' he' => himp e' (List.mem_cons_of_mem e he')
    exact .cons (himp e List.mem_cons_self b.1 b.2 hb.2) hrest

/-- What holds of the entries one by one, if it holds of each with what it gives. -/
theorem ReadEach.forall₂_iff (deep : Value → α → Prop) (good : Value → Prop)
    (h : ReadEach read entries built)
    (hiff : ∀ e ∈ entries, ∀ name a, read name e.2 = .ok a → (deep e.2 a ↔ good e.2)) :
    List.Forall₂ (fun e b => deep e.2 b.2) entries built ↔ ∀ e ∈ entries, good e.2 := by
  induction h with
  | nil => simp
  | @cons e b entries built hb _ ih =>
    have hrest := ih fun e' he' => hiff e' (List.mem_cons_of_mem e he')
    have hfirst : deep e.2 b.2 ↔ good e.2 := hiff e List.mem_cons_self b.1 b.2 hb.2
    rw [List.forall₂_cons, List.forall_mem_cons, hfirst, hrest]

end Tables

section Fields

variable {entries : List (Scalar × Value)} {c : CollectionSpec}

theorem CollectionSpec.declaredBy_last (h : CollectionSpec.read entries = .ok c)
    (ih : ∀ e ∈ fieldEntries entries, ∀ name spec, FieldSpec.read (some name) e.2 = .ok spec →
      spec.DeclaredBy lastEntries e.2) : c.asField.DeclaredBy lastEntries (.map entries) := by
  obtain ⟨-, -, built, hbuilt, -, hfields⟩ := CollectionSpec.read_eq_ok.mp h
  exact .nested hbuilt hfields (hbuilt.imp (FieldSpec.DeclaredBy lastEntries) ih)

/-- A collection keeps every field when the names are different, if the collections
in it do so. -/
theorem CollectionSpec.declaredBy_every_iff (h : CollectionSpec.read entries = .ok c)
    (ih : ∀ e ∈ fieldEntries entries, ∀ name spec, FieldSpec.read (some name) e.2 = .ok spec →
      (spec.DeclaredBy everyEntry e.2 ↔ e.2.Unambiguous)) :
    c.asField.DeclaredBy everyEntry (.map entries) ↔
      DifferentKeys (fieldEntries entries) ∧ ∀ e ∈ fieldEntries entries, e.2.Unambiguous := by
  obtain ⟨-, -, built, hbuilt, -, hfields⟩ := CollectionSpec.read_eq_ok.mp h
  have heach : List.Forall₂ (fun e f => f.2.DeclaredBy everyEntry e.2) (fieldEntries entries)
      built ↔ ∀ e ∈ fieldEntries entries, e.2.Unambiguous :=
    hbuilt.forall₂_iff (FieldSpec.DeclaredBy everyEntry) Value.Unambiguous ih
  constructor
  · intro hkept
    rw [CollectionSpec.asField] at hkept
    cases hkept with
    | nested hread hkept hall =>
      -- the entries are read in one way only, so these are the fields that the reader has
      have hsame := ReadEach.unique hread hbuilt
      subst hsame
      exact ⟨hbuilt.kept_iff.mp (hfields.symm.trans hkept), heach.mp hall⟩
  · rintro ⟨hdifferent, hall⟩
    exact .nested hbuilt (hfields.trans (hbuilt.kept_iff.mpr hdifferent)) (heach.mpr hall)

variable {v : Value} {name : Option Text} {spec : FieldSpec}

theorem FieldSpec.declaredBy_last (h : FieldSpec.read name v = .ok spec) :
    spec.DeclaredBy lastEntries v := by
  induction v using Value.induction_on_parts generalizing name spec with
  | scalar s =>
    obtain ⟨raw, p, rfl, -, rfl⟩ := FieldSpec.read_scalar_eq_ok.mp h
    exact .shorthand
  | list items ih => exact absurd h FieldSpec.read_list_ne_ok
  | map entries ih =>
    rcases FieldSpec.read_map_eq_ok.mp h with ⟨-, path, f, -, -, rfl⟩ | ⟨-, c, hc, rfl⟩
    · exact .full
    · refine CollectionSpec.declaredBy_last hc fun e he name spec hspec => ?_
      exact ih e (mem_of_mem_fieldEntries he) hspec

/-- A field keeps everything that it declares exactly when it is unambiguous. -/
theorem FieldSpec.declaredBy_every_iff (h : FieldSpec.read name v = .ok spec) :
    spec.DeclaredBy everyEntry v ↔ v.Unambiguous := by
  induction v using Value.induction_on_parts generalizing name spec with
  | scalar s =>
    obtain ⟨raw, p, rfl, -, rfl⟩ := FieldSpec.read_scalar_eq_ok.mp h
    exact ⟨fun _ => .scalar _, fun _ => .shorthand⟩
  | list items ih => exact absurd h FieldSpec.read_list_ne_ok
  | map entries ih =>
    rcases FieldSpec.read_map_eq_ok.mp h with ⟨-, path, f, hpath, -, rfl⟩ | ⟨hnone, c, hc, rfl⟩
    · exact ⟨fun _ => .full hpath, fun _ => .full⟩
    · have hcollection := CollectionSpec.declaredBy_every_iff hc fun e he name spec hspec =>
        ih e (mem_of_mem_fieldEntries he) hspec
      rw [hcollection]
      constructor
      · rintro ⟨hdifferent, hall⟩
        exact .collection hdifferent hall
      · intro hclear
        cases hclear with
        | full hpath =>
          -- a map that was read as a collection has no path
          rw [hnone "path" (by simp)] at hpath
          cases hpath
        | collection hdifferent hall => exact ⟨hdifferent, hall⟩

end Fields

def SameName (declared output : Scalar × Value) : Prop :=
  ∃ name, declared.1.text? = .ok name ∧ output.1 = .str name

/-- An output in which each record has one entry for each field that its collection
declares. -/
inductive Value.Answers : Value → Value → Prop
  | text {s : Scalar} {output : Value} : Answers (.scalar s) output
  | full {entries : List (Scalar × Value)} {path output : Value}
      (entry : Value.entry? entries "path" = some path) : Answers (.map entries) output
  | record {entries record : List (Scalar × Value)}
      (named : List.Forall₂ SameName (fieldEntries entries) record)
      (each : List.Forall₂ (fun d o => Answers d.2 o.2) (fieldEntries entries) record) :
      Answers (.map entries) (.map record)
  | records {entries : List (Scalar × Value)} {records : List (List (Scalar × Value))}
      (named : ∀ record ∈ records, List.Forall₂ SameName (fieldEntries entries) record)
      (each : ∀ record ∈ records,
        List.Forall₂ (fun d o => Answers d.2 o.2) (fieldEntries entries) record) :
      Answers (.map entries) (.list (records.map .map))

/-- A record with one entry for each field that a collection declares, and so on in
the collections in it. -/
def OneForEach (entries record : List (Scalar × Value)) : Prop :=
  List.Forall₂ SameName (fieldEntries entries) record ∧
    List.Forall₂ (fun d o => Value.Answers d.2 o.2) (fieldEntries entries) record

def Value.AnswersCollection (declared output : Value) : Prop :=
  ∃ entries, declared = .map entries ∧
    ((∃ record, output = .map record ∧ OneForEach entries record) ∨
      ∃ records : List (List (Scalar × Value)), output = .list (records.map .map) ∧
        ∀ record ∈ records, OneForEach entries record)

section Outputs

variable {s : Scope} {entries : List (Scalar × Value)} {e : Xml.Element}

theorem oneForEach_of_yieldsRecord {built : List (Text × FieldSpec)}
    {record : List (Scalar × Value)} (hread : ReadFields entries built)
    (hanswers : List.Forall₂ (fun d f => ∀ v, f.2.Yields s e v → Value.Answers d.2 v)
      (fieldEntries entries) built)
    (hrecord : FieldSpec.YieldsRecord s built e record) : OneForEach entries record := by
  rw [OneForEach]
  rw [ReadFields] at hread
  generalize fieldEntries entries = declared at hread hanswers ⊢
  induction hread generalizing record with
  | nil =>
    rw [FieldSpec.YieldsRecord] at hrecord
    subst hrecord
    exact ⟨.nil, .nil⟩
  | @cons d f declared built hd _ ih =>
    obtain ⟨name, spec⟩ := f
    rw [FieldSpec.YieldsRecord] at hrecord
    obtain ⟨v, others, rfl, hv, hothers⟩ := hrecord
    obtain ⟨hfirst, hrest⟩ := List.forall₂_cons.mp hanswers
    obtain ⟨hnamed, heach⟩ := ih hothers hrest
    exact ⟨.cons ⟨name, hd.1, rfl⟩ hnamed, .cons (hfirst v hv) heach⟩

theorem answersCollection_of_yields {anchor : Anchor} {built : List (Text × FieldSpec)}
    {output : Value} (hread : ReadFields entries built)
    (hanswers : ∀ e, List.Forall₂ (fun d f => ∀ v, f.2.Yields s e v → Value.Answers d.2 v)
      (fieldEntries entries) built)
    (h : anchor.Yields (FieldSpec.YieldsRecord s built) e output) :
    Value.AnswersCollection (.map entries) output := by
  refine ⟨entries, rfl, ?_⟩
  cases anchor with
  | here =>
    obtain ⟨record, rfl, hrecord⟩ := h
    exact .inl ⟨record, rfl, oneForEach_of_yieldsRecord hread (hanswers e) hrecord⟩
  | within p =>
    obtain ⟨target, record, -, rfl, hrecord⟩ := h
    exact .inl ⟨record, rfl, oneForEach_of_yieldsRecord hread (hanswers target) hrecord⟩
  | each p =>
    obtain ⟨parent, selected, records, -, -, rfl, hrecords⟩ := h
    refine .inr ⟨records, rfl, fun record hrecord => ?_⟩
    obtain ⟨child, -, hchild⟩ := mem_forall₂_right hrecords hrecord
    exact oneForEach_of_yieldsRecord hread (hanswers child) hchild

theorem Value.AnswersCollection.answers {declared output : Value}
    (h : Value.AnswersCollection declared output) : Value.Answers declared output := by
  obtain ⟨entries, rfl, ⟨record, rfl, hnamed, heach⟩ | ⟨records, rfl, hall⟩⟩ := h
  · exact .record hnamed heach
  · exact .records (fun record hrecord => (hall record hrecord).1)
      fun record hrecord => (hall record hrecord).2

theorem CollectionSpec.answers {c : CollectionSpec} {output : Value}
    (hread : CollectionSpec.read entries = .ok c)
    (hdifferent : DifferentKeys (fieldEntries entries))
    (ih : ∀ d ∈ fieldEntries entries, ∀ name spec, FieldSpec.read (some name) d.2 = .ok spec →
      ∀ e v, spec.Yields s e v → Value.Answers d.2 v)
    (h : c.anchor.Yields (FieldSpec.YieldsRecord s c.fields) e output) :
    Value.AnswersCollection (.map entries) output := by
  obtain ⟨-, -, built, hbuilt, -, hfields⟩ := CollectionSpec.read_eq_ok.mp hread
  have hkept : c.fields = built := hfields.trans (hbuilt.kept_iff.mpr hdifferent)
  rw [hkept] at h
  refine answersCollection_of_yields hbuilt (fun e => ?_) h
  exact hbuilt.imp (fun v spec => ∀ w, spec.Yields s e w → v.Answers w)
    fun d hd name spec hspec => ih d hd name spec hspec e

/-- Where nothing that is declared is lost, all of it is in the output. -/
theorem FieldSpec.answers {v output : Value} {spec : FieldSpec} {name : Option Text}
    (hread : FieldSpec.read name v = .ok spec) (hclear : v.Unambiguous)
    (h : spec.Yields s e output) : Value.Answers v output := by
  induction v using Value.induction_on_parts generalizing name spec e output with
  | scalar t => exact .text
  | list items ih => exact absurd hread FieldSpec.read_list_ne_ok
  | map entries ih =>
    rcases FieldSpec.read_map_eq_ok.mp hread with
      ⟨-, path, f, hpath, -, -⟩ | ⟨hnone, c, hc, rfl⟩
    · exact .full hpath
    · cases hclear with
      | full hpath => exact .full hpath
      | collection hdifferent hall =>
        have hcollection := CollectionSpec.answers hc hdifferent (fun d hd name spec hspec e v hv =>
          ih d (mem_of_mem_fieldEntries hd) hspec (hall d hd) hv) h
        exact hcollection.answers

theorem Schema.answers_of_readCollection {own : Text} {v output : Value} {c : CollectionSpec}
    (hread : Schema.readCollection own v = .ok c) (hclear : v.UnambiguousCollection)
    (h : c.Yields s e output) : v.AnswersCollection output := by
  obtain ⟨entries, rfl, hc⟩ := Schema.readCollection_eq_ok.mp hread
  obtain ⟨hdifferent, hall⟩ := hclear entries rfl
  refine CollectionSpec.answers hc hdifferent ?_ h
  intro d hd name spec hspec e v hv
  exact FieldSpec.answers hspec (hall d hd) hv

/-- The output that a document asks for: one value for each collection, under the text
of its key. -/
def Value.AnswersDocument (sections : Sections) (data output : Value) : Prop :=
  ∃ entries collections out, data = .map entries ∧
    Value.entry? entries sections.schemas = some (.map collections) ∧ output = .map out ∧
    List.Forall₂ SameName collections out ∧
    List.Forall₂ (fun d o => Value.AnswersCollection d.2 o.2) collections out

theorem answers_of_forall₂ {collections out : List (Scalar × Value)}
    {built : List (Text × CollectionSpec)}
    (hread : ReadEach Schema.readCollection collections built)
    (hclear : ∀ d ∈ collections, d.2.UnambiguousCollection)
    (hout : List.Forall₂ (fun c o => ∃ v, c.2.Yields s e v ∧ (Scalar.str c.1, v) = o) built out) :
    List.Forall₂ SameName collections out ∧
      List.Forall₂ (fun d o => Value.AnswersCollection d.2 o.2) collections out := by
  induction hread generalizing out with
  | nil =>
    cases hout
    exact ⟨.nil, .nil⟩
  | @cons d c collections built hd _ ih =>
    obtain ⟨o, rest, ⟨v, hv, rfl⟩, hrest, rfl⟩ := List.forall₂_cons_left_iff.mp hout
    obtain ⟨hfirst, hothers⟩ := List.forall_mem_cons.mp hclear
    obtain ⟨hnamed, heach⟩ := ih hothers hrest
    have hanswer : Value.AnswersCollection d.2 v :=
      Schema.answers_of_readCollection hd.2 hfirst hv
    exact ⟨.cons ⟨c.1, hd.1, rfl⟩ hnamed, .cons hanswer heach⟩

end Outputs

section Documents

variable {sections : Sections} {data : Value} {schema : Schema} {notices : List Text}

theorem CollectionSpec.declaredBy_last_of_read {own : Text} {v : Value} {c : CollectionSpec}
    (h : Schema.readCollection own v = .ok c) : c.asField.DeclaredBy lastEntries v := by
  obtain ⟨entries, rfl, hc⟩ := Schema.readCollection_eq_ok.mp h
  exact CollectionSpec.declaredBy_last hc fun e he name spec hspec =>
    FieldSpec.declaredBy_last hspec

theorem CollectionSpec.declaredBy_every_iff_of_read {own : Text} {v : Value}
    {c : CollectionSpec} (h : Schema.readCollection own v = .ok c) :
    c.asField.DeclaredBy everyEntry v ↔ v.UnambiguousCollection := by
  obtain ⟨entries, rfl, hc⟩ := Schema.readCollection_eq_ok.mp h
  rw [CollectionSpec.declaredBy_every_iff hc fun e he name spec hspec =>
    FieldSpec.declaredBy_every_iff hspec]
  simp [Value.UnambiguousCollection]

theorem Schema.declaredBy_last (h : Schema.readWith sections data = .ok (schema, notices)) :
    schema.DeclaredBy lastEntries sections data := by
  obtain ⟨entries, collections, mappers, rfl, -, hcollections, hmappers,
    ⟨built, hbuilt, -, hschema⟩, builtMappers, hbuiltMappers, hschemaMappers⟩ :=
    Schema.readWith_eq_ok.mp ⟨notices, h⟩
  have heach := hbuilt.imp (fun v c => c.asField.DeclaredBy lastEntries v)
    fun e he name c hc => CollectionSpec.declaredBy_last_of_read hc
  exact ⟨entries, collections, mappers, rfl, hcollections, hmappers,
    ⟨built, hbuilt, hschema, heach⟩, builtMappers, hbuiltMappers, hschemaMappers⟩

theorem Schema.declaredBy_every_iff (h : Schema.readWith sections data = .ok (schema, notices)) :
    schema.DeclaredBy everyEntry sections data ↔ data.UnambiguousDocument sections := by
  obtain ⟨entries, collections, mappers, rfl, -, hcollections, hmappers,
    ⟨built, hbuilt, -, hschema⟩, builtMappers, hbuiltMappers, hschemaMappers⟩ :=
    Schema.readWith_eq_ok.mp ⟨notices, h⟩
  have heach : List.Forall₂ (fun e c => c.2.asField.DeclaredBy everyEntry e.2) collections built ↔
      ∀ e ∈ collections, e.2.UnambiguousCollection :=
    hbuilt.forall₂_iff (fun v c => c.asField.DeclaredBy everyEntry v) Value.UnambiguousCollection
      fun e he name c hc => CollectionSpec.declaredBy_every_iff_of_read hc
  constructor
  · rintro ⟨_, collections', mappers', hdata, hcollections', hmappers',
      ⟨built', hbuilt', hkept, hall⟩, builtMappers', hbuiltMappers', hkeptMappers⟩
    cases hdata
    cases hcollections.symm.trans hcollections'
    cases hmappers.symm.trans hmappers'
    cases hbuilt'.unique hbuilt
    cases hbuiltMappers'.unique hbuiltMappers
    exact ⟨entries, collections, mappers, rfl, hcollections, hmappers,
      hbuilt.kept_iff.mp (hschema.symm.trans hkept),
      hbuiltMappers.kept_iff.mp (hschemaMappers.symm.trans hkeptMappers), heach.mp hall⟩
  · rintro ⟨_, collections', mappers', hdata, hcollections', hmappers', hdifferent,
      hdifferentMappers, hclear⟩
    cases hdata
    cases hcollections.symm.trans hcollections'
    cases hmappers.symm.trans hmappers'
    exact ⟨entries, collections, mappers, rfl, hcollections, hmappers,
      ⟨built, hbuilt, hschema.trans (hbuilt.kept_iff.mpr hdifferent), heach.mpr hclear⟩,
      builtMappers, hbuiltMappers,
      hschemaMappers.trans (hbuiltMappers.kept_iff.mpr hdifferentMappers)⟩

theorem Schema.answersDocument (h : Schema.readWith sections data = .ok (schema, notices))
    (hclear : data.UnambiguousDocument sections) {registry : Registry} {root : Xml.Element}
    {output : Value} (hout : schema.extract registry root = .ok output) :
    data.AnswersDocument sections output := by
  obtain ⟨entries, collections, mappers, rfl, -, hcollections, -, ⟨built, hbuilt, -, hschema⟩, -⟩ :=
    Schema.readWith_eq_ok.mp ⟨notices, h⟩
  obtain ⟨_, collections', _, hdata, hcollections', -, hdifferent, -, hclear⟩ := hclear
  cases hdata
  cases hcollections.symm.trans hcollections'
  have hkept : schema.collections = built := hschema.trans (hbuilt.kept_iff.mpr hdifferent)
  simp only [Schema.extract, Outcome.bind_eq_ok, Outcome.mapM_eq_ok, collection_eq_ok,
    Except.ok.injEq, hkept] at hout
  obtain ⟨out, hentries, rfl⟩ := hout
  obtain ⟨hnamed, heach⟩ := answers_of_forall₂ hbuilt hclear hentries
  exact ⟨entries, collections, out, rfl, hcollections, rfl, hnamed, heach⟩

end Documents

section Pairs

variable {second : Scalar}

def pairEntries (second : Scalar) : List (Scalar × Value) :=
  [(.int 1, .str "a"), (second, .str "b")]

def pairDocument (second : Scalar) : Value :=
  .map [(.str "schemas", .map [(.str "c", .map (pairEntries second))])]

theorem isPlainTag_a : isPlainTag "a" = true := by decide +kernel

def pathA : Path := .ofTag "a" isPlainTag_a

def pathB : Path := .ofTag "b" (by decide +kernel)

def pairSchema (name : Text) : Schema :=
  ⟨[("c", ⟨.here, Ordered.ofList [("1", .shorthand pathA), (name, .shorthand pathB)]⟩)], []⟩

theorem fieldEntries_pairEntries (harray : second ≠ .str "array_of")
    (hwithin : second ≠ .str "within") :
    fieldEntries (pairEntries second) = pairEntries second := by
  have hsecond : isAnchorKey second = false := by
    simp [isAnchorKey, Bool.eq_false_iff, Scalar.same_str, harray, hwithin]
  rw [fieldEntries, pairEntries, List.filter_cons_of_pos (by decide),
    List.filter_cons_of_pos (by simp [hsecond])]
  rfl

theorem pairDocument_read {name : Text} (hname : second.text? = .ok name)
    (harray : second ≠ .str "array_of") (hwithin : second ≠ .str "within") :
    ∃ notices, Schema.readWith {} (pairDocument second) = .ok (pairSchema name, notices) := by
  have ha : pathA.WrittenBy "a" := Path.ofTag_writtenBy _
  have hb : pathB.WrittenBy "b" := Path.ofTag_writtenBy _
  have hbuilt : ReadFields (pairEntries second)
      [("1", .shorthand pathA), (name, .shorthand pathB)] := by
    rw [ReadFields, fieldEntries_pairEntries harray hwithin]
    refine .cons ⟨rfl, ?_⟩ (.cons ⟨hname, ?_⟩ .nil)
    · exact FieldSpec.read_scalar_eq_ok.mpr ⟨_, _, rfl, ha, rfl⟩
    · exact FieldSpec.read_scalar_eq_ok.mpr ⟨_, _, rfl, hb, rfl⟩
  have hread : CollectionSpec.read (pairEntries second) = .ok ⟨.here,
      Ordered.ofList [("1", .shorthand pathA), (name, .shorthand pathB)]⟩ := by
    refine CollectionSpec.read_eq_ok.mpr ⟨?_, ?_, _, hbuilt, List.cons_ne_nil _ _, rfl⟩
    · exact readPathAt_eq_none.mpr (Value.entry?_eq_none.mpr (by simp [pairEntries, harray]))
    · exact readPathAt_eq_none.mpr (Value.entry?_eq_none.mpr (by simp [pairEntries, hwithin]))
  have hcollections : ReadEach Schema.readCollection [(.str "c", .map (pairEntries second))]
      (pairSchema name).collections :=
    .cons ⟨rfl, Schema.readCollection_eq_ok.mpr ⟨_, rfl, hread⟩⟩ .nil
  refine Schema.readWith_eq_ok.mpr ⟨_, _, [], rfl, ?_, rfl, rfl,
    ⟨_, hcollections, List.cons_ne_nil _ _, rfl⟩, [], .nil, rfl⟩
  simp [KeysAmong]

theorem pairDocument_unambiguous_iff (harray : second ≠ .str "array_of")
    (hwithin : second ≠ .str "within") :
    (pairDocument second).UnambiguousDocument {} ↔ second.text? ≠ .ok "1" := by
  have hone : (Scalar.int 1).text? = .ok "1" := rfl
  have hfields : DifferentKeys (fieldEntries (pairEntries second)) ↔ second.text? ≠ .ok "1" := by
    rw [fieldEntries_pairEntries harray hwithin, pairEntries, DifferentKeys]
    simp [hone, eq_comm]
  constructor
  · rintro ⟨_, collections, -, hdata, hcollections, -, -, -, hclear⟩
    cases hdata
    have hcollection : collections = [(.str "c", .map (pairEntries second))] := by
      cases hcollections
      rfl
    subst hcollection
    exact hfields.mp (hclear _ List.mem_cons_self _ rfl).1
  · intro hdifferent
    refine ⟨_, _, [], rfl, rfl, rfl, by simp [DifferentKeys], by simp [DifferentKeys], ?_⟩
    intro e he own hown
    cases List.mem_singleton.mp he
    cases hown
    refine ⟨hfields.mpr hdifferent, ?_⟩
    rw [fieldEntries_pairEntries harray hwithin, pairEntries]
    intro f hf
    simp only [List.mem_cons, List.not_mem_nil, or_false] at hf
    rcases hf with rfl | rfl
    · exact .scalar _
    · exact .scalar _

end Pairs

/-- Of the entries of one table whose keys have the same text, a schema has the last,
in the place of the first.  So it has every entry, and its outputs answer all of
them, exactly when the keys of each table have different texts. -/
theorem schema_keeps_every_entry_iff {sections : Sections} {data : Value} {schema : Schema}
    {notices : List Text} (h : Schema.readWith sections data = .ok (schema, notices)) :
    schema.DeclaredBy lastEntries sections data ∧
    (schema.DeclaredBy everyEntry sections data ↔ data.UnambiguousDocument sections) ∧
    (data.UnambiguousDocument sections → ∀ registry root output,
      schema.extract registry root = .ok output → data.AnswersDocument sections output) := by
  refine ⟨Schema.declaredBy_last h, Schema.declaredBy_every_iff h, ?_⟩
  intro hclear registry root output hout
  exact Schema.answersDocument h hclear hout

/-- With different texts as their keys, both fields are kept. -/
theorem pairDocument_keeps_both : ∃ notices,
    Schema.readWith {} (pairDocument (.str "2")) = .ok (pairSchema "2", notices) ∧
      (pairSchema "2").DeclaredBy everyEntry {} (pairDocument (.str "2")) := by
  have hclear : (pairDocument (.str "2")).UnambiguousDocument {} :=
    (pairDocument_unambiguous_iff (by simp) (by simp)).mpr (by decide)
  obtain ⟨notices, h⟩ : ∃ notices, Schema.readWith {} (pairDocument (.str "2")) = _ :=
    pairDocument_read rfl (by simp) (by simp)
  exact ⟨notices, h, (schema_keeps_every_entry_iff h).2.1.mpr hclear⟩

/-- The number one and the text `1` are different keys but one name, under which the
field of the second key is kept alone. -/
theorem pairDocument_loses_one : ∃ notices,
    Schema.readWith {} (pairDocument (.str "1")) = .ok (pairSchema "1", notices) ∧
      (pairSchema "1").collections =
        ([("c", ⟨.here, [("1", .shorthand pathB)]⟩)] : List (Text × CollectionSpec)) ∧
      ¬ (pairSchema "1").DeclaredBy everyEntry {} (pairDocument (.str "1")) := by
  obtain ⟨notices, h⟩ : ∃ notices, Schema.readWith {} (pairDocument (.str "1")) = _ :=
    pairDocument_read rfl (by simp) (by simp)
  refine ⟨notices, h, rfl, ?_⟩
  rw [Schema.declaredBy_every_iff h, pairDocument_unambiguous_iff (by simp) (by simp)]
  exact fun hdifferent => hdifferent rfl

end XmlHarvest
