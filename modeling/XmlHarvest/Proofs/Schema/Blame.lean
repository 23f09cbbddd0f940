import XmlHarvest.Proofs.Location
import XmlHarvest.Proofs.Schema.Refusal

/-! # Where the error of a schema comes from

The entries of a schema are read in turn and the first one that is no collection
ends the reading.  Inside it the same holds of the fields, at every depth: the first
field that is none is to blame, or, if it is a collection of its own, what is to blame
inside it. -/
set_option autoImplicit false

namespace XmlHarvest

open Value

variable {entries : List (Scalar × Value)} {name : Text} {names : List Text} {v : Value}

def AnchorsArePaths (entries : List (Scalar × Value)) : Prop :=
  ∀ key ∈ (["array_of", "within"] : List Text), ∀ v, entry? entries key = some v → v.IsPath

/-- The first of the fields of a collection that is no field has the given name and
value, unless the value is a field after all. -/
def FieldsUpTo (entries : List (Scalar × Value)) (name : Text) (v : Value) : Prop :=
  ∃ before k after, fieldEntries entries = before ++ (k, v) :: after ∧
    (∀ e ∈ before, e.2.IsField) ∧ k.text? = .ok name

/-- The names of the fields, from the outermost one inward, that lead to what is to blame
in the entries of a collection. -/
inductive BlamedAt : List (Scalar × Value) → List Text → Prop
  /-- A path of the collection itself is none. -/
  | anchor {entries : List (Scalar × Value)} (rejected : ¬ AnchorsArePaths entries) :
      BlamedAt entries []
  /-- The collection itself has no fields, or both paths. -/
  | fieldSet {entries : List (Scalar × Value)} (anchors : AnchorsArePaths entries)
      (fields : ∀ e ∈ fieldEntries entries, e.2.IsField)
      (rejected : fieldEntries entries = [] ∨ ¬ IsAnchored entries) : BlamedAt entries []
  /-- A field without fields of its own is none. -/
  | leaf {entries : List (Scalar × Value)} {name : Text} {v : Value}
      (anchors : AnchorsArePaths entries) (upTo : FieldsUpTo entries name v)
      (form : ¬ v.IsNested) (rejected : ¬ v.IsField) : BlamedAt entries [name]
  | nested {entries own : List (Scalar × Value)} {name : Text} {names : List Text}
      (anchors : AnchorsArePaths entries) (upTo : FieldsUpTo entries name (.map own))
      (form : (Value.map own).IsNested) (within : BlamedAt own names) :
      BlamedAt entries (name :: names)

theorem FieldsUpTo.isField (h : FieldsUpTo entries name v)
    (hall : ∀ e ∈ fieldEntries entries, e.2.IsField) : v.IsField := by
  obtain ⟨before, k, after, hsplit, -, -⟩ := h
  exact hall (k, v) (by simp [hsplit])

theorem Value.IsNested.forms (h : (Value.map entries).IsNested)
    (hfield : (Value.map entries).IsField) :
    IsAnchored entries ∧ fieldEntries entries ≠ [] ∧ ∀ e ∈ fieldEntries entries, e.2.IsField := by
  obtain ⟨own, heq, -, hunmixed⟩ := h
  cases heq
  cases hfield with
  | path written =>
    obtain ⟨raw, p, hraw, -⟩ := written
    cases hraw
  | full field =>
    obtain ⟨path, hpath, -⟩ := field.path
    rw [hunmixed "path" (by simp)] at hpath
    cases hpath
  | collection unmixed anchored nonempty fields => exact ⟨anchored, nonempty, fields⟩

theorem BlamedAt.not_forms (h : BlamedAt entries names) :
    ¬ (IsAnchored entries ∧ fieldEntries entries ≠ [] ∧ ∀ e ∈ fieldEntries entries, e.2.IsField) := by
  induction h with
  | anchor rejected =>
    intro ⟨hanchored, _, _⟩
    apply rejected
    intro key hkey v hv
    rcases List.mem_pair.mp hkey with rfl | rfl
    · exact hanchored.arrayOf v hv
    · exact hanchored.within v hv
  | fieldSet anchors fields rejected =>
    intro ⟨hanchored, hnonempty, _⟩
    exact rejected.elim hnonempty fun h => h hanchored
  | leaf anchors upTo form rejected =>
    intro ⟨_, _, hfields⟩
    exact rejected (upTo.isField hfields)
  | nested anchors upTo form within ih =>
    intro ⟨_, _, hfields⟩
    exact ih (form.forms (upTo.isField hfields))

theorem BlamedAt.not_field (h : BlamedAt entries names) (hform : (Value.map entries).IsNested) :
    ¬ (Value.map entries).IsField := fun hfield => h.not_forms (hform.forms hfield)

theorem first_unique {α : Type} {p : α → Prop} {before before' after after' : List α} {a a' : α}
    (h : before ++ a :: after = before' ++ a' :: after') (hbefore : ∀ b ∈ before, p b)
    (hbefore' : ∀ b ∈ before', p b) (ha : ¬ p a) (ha' : ¬ p a') : a = a' := by
  induction before generalizing before' with
  | nil =>
    cases before' with
    | nil => exact (List.cons.inj h).1
    | cons b before' =>
      obtain ⟨rfl, -⟩ := List.cons.inj h
      exact absurd (hbefore' a List.mem_cons_self) ha
  | cons b before ih =>
    cases before' with
    | nil =>
      obtain ⟨rfl, -⟩ := List.cons.inj h
      exact absurd (hbefore b List.mem_cons_self) ha'
    | cons b' before' =>
      exact ih (List.cons.inj h).2 (List.forall_mem_cons.mp hbefore).2
        (List.forall_mem_cons.mp hbefore').2

theorem FieldsUpTo.unique {name' : Text} {v' : Value} (h : FieldsUpTo entries name v)
    (h' : FieldsUpTo entries name' v') (hv : ¬ v.IsField) (hv' : ¬ v'.IsField) :
    name = name' ∧ v = v' := by
  obtain ⟨before, k, after, hsplit, hbefore, hname⟩ := h
  obtain ⟨before', k', after', hsplit', hbefore', hname'⟩ := h'
  have heq : (k, v) = (k', v') :=
    first_unique (p := fun e : Scalar × Value => e.2.IsField) (hsplit.symm.trans hsplit') hbefore
      hbefore' hv hv'
  cases heq
  rw [hname] at hname'
  cases hname'
  exact ⟨rfl, rfl⟩

/-- What is to blame lies at one place. -/
theorem BlamedAt.unique {names' : List Text} (h : BlamedAt entries names)
    (h' : BlamedAt entries names') : names = names' := by
  induction h generalizing names' with
  | anchor rejected =>
    cases h' with
    | anchor _ => rfl
    | fieldSet anchors => exact absurd anchors rejected
    | leaf anchors => exact absurd anchors rejected
    | nested anchors => exact absurd anchors rejected
  | fieldSet anchors fields rejected =>
    cases h' with
    | anchor rejected' => exact absurd anchors rejected'
    | fieldSet => rfl
    | leaf _ upTo _ rejected' => exact absurd (upTo.isField fields) rejected'
    | nested _ upTo form within => exact absurd (upTo.isField fields) (within.not_field form)
  | leaf anchors upTo form rejected =>
    cases h' with
    | anchor rejected' => exact absurd anchors rejected'
    | fieldSet _ fields => exact absurd (upTo.isField fields) rejected
    | leaf _ upTo' _ rejected' => rw [(upTo.unique upTo' rejected rejected').1]
    | nested _ upTo' form' within' =>
      obtain ⟨-, rfl⟩ := upTo.unique upTo' rejected (within'.not_field form')
      exact absurd form' form
  | nested anchors upTo form within ih =>
    have hblamed := within.not_field form
    cases h' with
    | anchor rejected' => exact absurd anchors rejected'
    | fieldSet _ fields => exact absurd (upTo.isField fields) hblamed
    | leaf _ upTo' form' rejected' =>
      obtain ⟨-, rfl⟩ := upTo.unique upTo' hblamed rejected'
      exact absurd form form'
    | nested _ upTo' form' within' =>
      obtain ⟨rfl, heq⟩ := upTo.unique upTo' hblamed (within'.not_field form')
      cases heq
      rw [ih within']

theorem forall_isField_of_readEach {built : List (Text × FieldSpec)}
    (h : ReadEach (fun name => FieldSpec.read (some name)) entries built)
    (hread : ∀ e ∈ entries, ∀ name spec, FieldSpec.read (some name) e.2 = .ok spec → e.2.IsField) :
    ∀ e ∈ entries, e.2.IsField := by
  intro e he
  obtain ⟨name, -, spec, hspec⟩ := exists_readEach.mp ⟨built, h⟩ e he
  exact hread e he name spec hspec

theorem CollectionSpec.forms_of_read {c : CollectionSpec} (h : CollectionSpec.read entries = .ok c)
    (hread : ∀ e ∈ fieldEntries entries, ∀ name spec,
      FieldSpec.read (some name) e.2 = .ok spec → e.2.IsField) :
    IsAnchored entries ∧ fieldEntries entries ≠ [] ∧ ∀ e ∈ fieldEntries entries, e.2.IsField := by
  obtain ⟨harray, hwithin, built, hbuilt, hne, -⟩ := CollectionSpec.read_eq_ok.mp h
  have hentries : fieldEntries entries ≠ [] := fun hnil => hne (hbuilt.eq_nil_iff.mpr hnil)
  exact ⟨exists_anchor.mp ⟨_, harray, hwithin⟩, hentries, forall_isField_of_readEach hbuilt hread⟩

/-- What is read as a field has a form of one, long integers or not. -/
theorem FieldSpec.isField_of_read {field : Option Text} {spec : FieldSpec}
    (h : FieldSpec.read field v = .ok spec) : v.IsField := by
  induction v using Value.induction_on_parts generalizing field spec with
  | scalar s =>
    obtain ⟨raw, p, rfl, hp, -⟩ := FieldSpec.read_scalar_eq_ok.mp h
    exact .path ⟨raw, p, rfl, hp⟩
  | list items => exact absurd h FieldSpec.read_list_ne_ok
  | map entries ih =>
    rcases FieldSpec.read_map_eq_ok.mp h with ⟨hkeys, path, f, hpath, hf, -⟩ | ⟨hunmixed, c, hc, -⟩
    · exact .full ((FullField.exists_read field).mp ⟨hkeys, path, f, hpath, hf⟩)
    · obtain ⟨hanchored, hnonempty, hall⟩ := CollectionSpec.forms_of_read hc
        fun e he name spec hspec => ih e (mem_of_mem_fieldEntries he) hspec
      exact .collection hunmixed hanchored hnonempty hall

theorem Schema.isCollection_of_read {c : CollectionSpec}
    (h : Schema.readCollection name v = .ok c) : v.IsCollection := by
  obtain ⟨entries, rfl, hc⟩ := Schema.readCollection_eq_ok.mp h
  exact ⟨entries, rfl, CollectionSpec.forms_of_read hc
    fun e _ field spec hspec => FieldSpec.isField_of_read hspec⟩

theorem FieldSpec.exists_read_leaf {field : Option Text} (hform : ¬ v.IsNested) :
    (∃ spec, FieldSpec.read field v = .ok spec) ↔ v.IsField := by
  constructor
  · intro ⟨spec, hspec⟩
    exact isField_of_read hspec
  · intro hfield
    cases hfield with
    | path written =>
      obtain ⟨raw, p, rfl, hp⟩ := written
      exact ⟨_, FieldSpec.read_scalar_eq_ok.mpr ⟨raw, p, rfl, hp, rfl⟩⟩
    | full field' =>
      obtain ⟨hkeys, path, f, hpath, hf⟩ := (FullField.exists_read field).mpr field'
      exact ⟨_, FieldSpec.read_map_eq_ok.mpr (.inl ⟨hkeys, path, f, hpath, hf, rfl⟩)⟩
    | @collection entries unmixed anchored nonempty fields =>
      have hne : entries ≠ [] := by
        intro hnil
        apply nonempty
        rw [hnil]
        rfl
      exact absurd ⟨entries, rfl, hne, unmixed⟩ hform

section Reading

variable {failure : Failure}

/-- Entries that are written one by one into a table fail at the first one that has no
name or is not read. -/
theorem foldlM_put_eq_error {α : Type} {read : Text → Value → Outcome α}
    {acc : List (Text × α)}
    (h : entries.foldlM (fun table (k, v) => do
      let name ← Outcome.ofFault k.text?
      let a ← read name v
      .ok (Ordered.put name a table)) acc = .error failure) :
    ∃ before k v after, entries = before ++ (k, v) :: after ∧ (∃ built, ReadEach read before built) ∧
      ((failure = .fault .longInteger ∧ ¬ k.Writable) ∨
        ∃ name, k.text? = .ok name ∧ read name v = .error failure) := by
  induction entries generalizing acc with
  | nil => cases h
  | cons e entries ih =>
    obtain ⟨k, v⟩ := e
    rw [List.foldlM_cons] at h
    rcases (Outcome.bind_eq_error _ _ _).mp h with hstep | ⟨table, hstep, hrest⟩
    · refine ⟨[], k, v, entries, rfl, ⟨[], readEach_nil.mpr rfl⟩, ?_⟩
      rcases (Outcome.bind_eq_error _ _ _).mp hstep with hname | ⟨name, hname, hread⟩
      · exact .inl ((k.text?_failsIff.ofFault failure).mp hname)
      · rcases (Outcome.bind_eq_error _ _ _).mp hread with ha | ⟨a, -, hput⟩
        · exact .inr ⟨name, Outcome.ofFault_eq_ok.mp hname, ha⟩
        · cases hput
    · obtain ⟨name, hname, hread⟩ := (Outcome.bind_eq_ok _ _ _).mp hstep
      obtain ⟨a, ha, -⟩ := (Outcome.bind_eq_ok _ _ _).mp hread
      obtain ⟨before, k', v', after, rfl, ⟨built, hbuilt⟩, hfail⟩ := ih hrest
      refine ⟨(k, v) :: before, k', v', after, rfl, ⟨(name, a) :: built, ?_⟩, hfail⟩
      exact readEach_cons.mpr ⟨name, a, built, Outcome.ofFault_eq_ok.mp hname, ha, hbuilt, rfl⟩

theorem readFields_eq_foldlM {acc : List (Text × FieldSpec)} :
    FieldSpec.readFields acc entries = (fieldEntries entries).foldlM (fun table (k, v) => do
      let name ← Outcome.ofFault k.text?
      let field ← withinField name (FieldSpec.read (some name) v)
      .ok (Ordered.put name field table)) acc := by
  induction entries generalizing acc with
  | nil => rfl
  | cons e entries ih =>
    obtain ⟨k, v⟩ := e
    rw [FieldSpec.readFields, fieldEntries]
    by_cases hk : isAnchorKey k = true
    · rw [if_pos hk, List.filter_cons_of_neg (by simpa using hk)]
      exact ih
    · rw [if_neg hk, List.filter_cons_of_pos (by simpa using hk), List.foldlM_cons, bind_assoc]
      refine bind_congr fun name => ?_
      rw [bind_assoc]
      exact bind_congr fun field => ih

/-- The error of a collection carries the name of the innermost field to blame. -/
def CarriesField (entries : List (Scalar × Value)) (e : Error) : Prop :=
  (Failure.error e).isDefinition = true ∧ ∃ names, BlamedAt entries names ∧
    ([] ∉ names → e.place = { field := names.getLast? })

theorem Place.fill_known (s : Text) (found : Option Text) :
    Place.fill (some s) found = some s := rfl

theorem Place.fill_name (h : name ≠ []) : Place.fill none (some name) = some name := by
  simp [Place.fill, h]

theorem Place.within_field {e : Error} (hplace : e.place = { field := names.getLast? })
    (hname : name ≠ []) :
    (e.within { field := some name }).place = { field := (name :: names).getLast? } := by
  cases names with
  | nil => simp [Error.within, Place.within, hplace, Place.fill_name hname, fill_none]
  | cons inner names =>
    simp [Error.within, Place.within, hplace, List.getLast?_eq_some_getLast, Place.fill_known,
      fill_none]

theorem Place.within_collection {e : Error} {field : Option Text}
    (hplace : e.place = { field := field }) (hname : name ≠ []) :
    (e.within { collection := some name }).place = { collection := some name, field := field } := by
  simp [Error.within, Place.within, hplace, Place.fill_name hname, fill_none]

theorem BlamedAt.of_path {key : Text} (hkey : key ∈ (["array_of", "within"] : List Text))
    (h : readPathAt entries key = .error failure) : BlamedAt entries [] := by
  refine .anchor fun hpaths => ?_
  rw [readPathAt] at h
  split at h
  · cases h
  · rename_i v hentry
    obtain ⟨p, hp⟩ := Path.exists_ofValue.mpr (hpaths key hkey v hentry)
    rw [hp] at h
    cases h

theorem AnchorsArePaths.of_read {arrayOf within : Option Path}
    (harray : readPathAt entries "array_of" = .ok arrayOf)
    (hwithin : readPathAt entries "within" = .ok within) : AnchorsArePaths entries := by
  have hpath : ∀ {key : Text} {path : Option Path}, readPathAt entries key = .ok path →
      ∀ v, entry? entries key = some v → v.IsPath := by
    intro key path h v hentry
    cases path with
    | none =>
      rw [readPathAt_eq_none.mp h] at hentry
      cases hentry
    | some p =>
      obtain ⟨w, hw, hp⟩ := readPathAt_eq_some.mp h
      exact isPath_of_entry hw hp hentry
  intro key hkey
  rcases List.mem_pair.mp hkey with rfl | rfl
  · exact hpath harray
  · exact hpath hwithin

theorem refuses_readPathAt (key : Text) :
    Refuses (ShapeError none) (¬ (Value.map entries).Writable) (readPathAt entries key) := by
  rw [readPathAt]
  split
  · exact Refuses.ok none
  · rename_i v hentry
    refine Refuses.bind ?_ fun p _ => Refuses.ok (some p)
    exact (Path.refuses_ofValue v).mono (fun e he => he) (not_writable_of_entry hentry)

theorem refuses_fieldSet {long : Prop} (fields : List (Text × FieldSpec))
    (arrayOf within : Option Path) :
    Refuses (ShapeError none) long (CollectionSpec.ofParts fields arrayOf within) := by
  unfold CollectionSpec.ofParts
  split
  · exact refuses_raise rfl
  · split
    · exact refuses_raise rfl
    · exact Refuses.ok _
    · exact Refuses.ok _
    · exact Refuses.ok _

theorem CarriesField.of_shapeError {e : Error} (h : ShapeError none e)
    (hblamed : BlamedAt entries []) : CarriesField entries e :=
  ⟨h.1, [], hblamed, fun _ => h.2.elim id id⟩

theorem FieldSpec.read_nested_eq_error {field : Option Text} {own : List (Scalar × Value)}
    (hform : (Value.map own).IsNested) (h : FieldSpec.read field (.map own) = .error failure) :
    CollectionSpec.read own = .error failure := by
  obtain ⟨_, heq, hne, hunmixed⟩ := hform
  cases heq
  cases own with
  | nil => exact absurd rfl hne
  | cons entry more =>
    rw [FieldSpec.read, FieldShape.of_eq_collection.mpr hunmixed] at h
    rcases (Outcome.bind_eq_error _ _ _).mp h with hshape | ⟨shape, hshape, h⟩
    · cases hshape
    cases hshape
    rcases (Outcome.bind_eq_error _ _ _).mp h with hc | ⟨c, -, hc⟩
    · exact hc
    · cases hc

/-- The error that leaves the first field that is none. -/
theorem FieldSpec.refuses_first (hanchors : AnchorsArePaths entries)
    (hupTo : FieldsUpTo entries name v)
    (hnested : ∀ own, v = .map own →
      Refuses (CarriesField own) (¬ v.Writable) (CollectionSpec.read own)) :
    Refuses (CarriesField entries) (¬ v.Writable)
      (withinField name (FieldSpec.read (some name) v)) := by
  intro failure h
  obtain ⟨inner, hinner, rfl⟩ := Outcome.mapError_eq_error.mp h
  by_cases hform : v.IsNested
  · obtain ⟨own, rfl, hown⟩ := id hform
    have hread := FieldSpec.read_nested_eq_error hform hinner
    rcases hnested own rfl inner hread with ⟨e, rfl, hdefinition, names, hblamed, hplace⟩ | ⟨rfl, hl⟩
    · refine .inl ⟨_, rfl, hdefinition, name :: names, .nested hanchors hupTo hform hblamed, ?_⟩
      intro hnames
      rw [List.mem_cons, not_or] at hnames
      exact Place.within_field (hplace hnames.2) (Ne.symm hnames.1)
    · exact .inr ⟨rfl, hl⟩
  · have hrejected : ¬ v.IsField := by
      intro hfield
      obtain ⟨spec, hspec⟩ := (FieldSpec.exists_read_leaf hform).mpr hfield
      rw [hinner] at hspec
      cases hspec
    rcases FieldSpec.refuses_leaf hform inner hinner with ⟨e, rfl, hdefinition, hplace⟩ | ⟨rfl, hl⟩
    · refine .inl ⟨_, rfl, hdefinition, [name], .leaf hanchors hupTo hform hrejected, ?_⟩
      intro hnames
      have hname : name ≠ [] := by simpa [eq_comm] using hnames
      rcases hplace with hplace | hplace
      · exact @Place.within_field name [] e hplace hname
      · exact @Place.within_field name [name] e hplace hname
    · exact .inr ⟨rfl, hl⟩

theorem fieldSet_of_ofParts {fields : List (Text × FieldSpec)} {arrayOf within : Option Path}
    (harray : readPathAt entries "array_of" = .ok arrayOf)
    (hwithin : readPathAt entries "within" = .ok within)
    (hfields : FieldSpec.readFields [] entries = .ok fields)
    (h : CollectionSpec.ofParts fields arrayOf within = .error failure) :
    fieldEntries entries = [] ∨ ¬ IsAnchored entries := by
  apply or_iff_not_and_not.mpr
  intro ⟨hnonempty, hanchored⟩
  obtain ⟨anchor, harray', hwithin'⟩ := exists_anchor.mpr (not_not.mp hanchored)
  obtain ⟨built, hbuilt, rfl⟩ := readFields_eq_ok.mp hfields
  have hne : Ordered.update [] built ≠ [] := by
    simpa [Ordered.update_eq_nil] using fun hnil => hnonempty (hbuilt.eq_nil_iff.mp hnil)
  rw [harray] at harray'
  rw [hwithin] at hwithin'
  have hok : CollectionSpec.ofParts (Ordered.update [] built) arrayOf within =
      .ok ⟨anchor, Ordered.update [] built⟩ :=
    ofParts_eq_ok.mpr ⟨hne, rfl, (Except.ok.inj harray').symm, (Except.ok.inj hwithin').symm⟩
  rw [hok] at h
  cases h

/-- The readers of a collection blame what is to blame in its entries. -/
theorem CollectionSpec.refuses_read (v : Value) : ∀ entries, v = .map entries →
    Refuses (CarriesField entries) (¬ v.Writable) (CollectionSpec.read entries) := by
  induction v using Value.induction_on_parts with
  | scalar s =>
    intro entries h
    cases h
  | list items =>
    intro entries h
    cases h
  | map entries ih =>
    intro _ heq
    cases heq
    intro failure h
    rw [CollectionSpec.read, CollectionSpec.readWith] at h
    -- each of the four steps is either the one that fails or has succeeded before it
    rcases (Outcome.bind_eq_error _ _ _).mp h with harray | ⟨arrayOf, harray, h⟩
    · have hblamed := BlamedAt.of_path (by simp) harray
      exact (refuses_readPathAt _).mono (fun e he => .of_shapeError he hblamed) id failure harray
    rcases (Outcome.bind_eq_error _ _ _).mp h with hwithin | ⟨within, hwithin, h⟩
    · have hblamed := BlamedAt.of_path (by simp) hwithin
      exact (refuses_readPathAt _).mono (fun e he => .of_shapeError he hblamed) id failure hwithin
    have hanchors : AnchorsArePaths entries := AnchorsArePaths.of_read harray hwithin
    rcases (Outcome.bind_eq_error _ _ _).mp h with hfields | ⟨fields, hfields, h⟩
    · rw [readFields_eq_foldlM] at hfields
      obtain ⟨before, k, v, after, hsplit, ⟨built, hbuilt⟩, hfail⟩ := @foldlM_put_eq_error _ failure _
        (fun name v => withinField name (FieldSpec.read (some name) v)) [] hfields
      have hbefore : ∀ e ∈ before, e.2.IsField := by
        intro e he
        obtain ⟨name, -, spec, hspec⟩ := exists_readEach.mp ⟨built, hbuilt⟩ e he
        exact FieldSpec.isField_of_read (Outcome.within_eq_ok.mp hspec)
      have hmem : (k, v) ∈ entries := mem_of_mem_fieldEntries (by simp [hsplit])
      rcases hfail with ⟨rfl, hk⟩ | ⟨name, hname, hfail⟩
      · exact .inr ⟨rfl, fun hwritable => hk (Value.writable_map.mp hwritable _ hmem).1⟩
      have hupTo : FieldsUpTo entries name v := ⟨before, k, after, hsplit, hbefore, hname⟩
      refine (FieldSpec.refuses_first hanchors hupTo (ih (k, v) hmem)).mono (fun e he => he) ?_
        failure hfail
      exact fun hv hwritable => hv (Value.writable_map.mp hwritable _ hmem).2
    · have hall : ∀ e ∈ fieldEntries entries, e.2.IsField := by
        obtain ⟨built, hbuilt, -⟩ := readFields_eq_ok.mp hfields
        exact forall_isField_of_readEach hbuilt fun e _ name spec hspec =>
          FieldSpec.isField_of_read hspec
      have hblamed : BlamedAt entries [] :=
        .fieldSet hanchors hall (fieldSet_of_ofParts harray hwithin hfields h)
      exact (refuses_fieldSet _ _ _).mono (fun e he => .of_shapeError he hblamed) id failure h

theorem Schema.refuses_collection {own : List (Scalar × Value)} (hne : own ≠ []) :
    Refuses (fun e => (Failure.error e).isDefinition = true ∧ ∃ names, BlamedAt own names ∧
        ([] ∉ name :: names → e.place = { collection := some name, field := names.getLast? }))
      (¬ (Value.map own).Writable) (Schema.readCollection name (.map own)) := by
  cases own with
  | nil => exact absurd rfl hne
  | cons entry more =>
    have hread := (CollectionSpec.refuses_read (.map (entry :: more)) _ rfl).within
      { collection := some name }
    refine hread.mono (fun e he => ?_) id
    obtain ⟨inner, ⟨hdefinition, names, hblamed, hplace⟩, rfl⟩ := he
    refine ⟨hdefinition, names, hblamed, fun hnames => ?_⟩
    rw [List.mem_cons, not_or] at hnames
    exact Place.within_collection (hplace hnames.2) (Ne.symm hnames.1)

theorem Schema.readCollection_of_shape (h : ∀ own, v = .map own → own = []) :
    Schema.readCollection name v =
      malformed (some name) ("Collection '" ++ name ++ "' must be a non-empty mapping of fields") := by
  cases v with
  | scalar s => rfl
  | list items => rfl
  | map own =>
    cases h own rfl
    rfl

theorem Schema.readCollections_eq_error {sections : Sections}
    {entries collections : List (Scalar × Value)} {declared : Mappers × List Text}
    (hkeys : KeysAmong [sections.schemas, sections.mappers] entries)
    (hschemas : entry? entries sections.schemas = some (.map collections))
    (hne : collections ≠ [])
    (hmappers : Schema.readOptionalMappers sections (Value.entry? entries sections.mappers) =
      .ok declared)
    (h : Schema.readWith sections (.map entries) = .error failure) :
    Schema.readCollections collections = .error failure := by
  obtain ⟨entry, more, rfl⟩ := List.exists_cons_of_ne_nil hne
  have hread : Schema.readWith sections (.map entries) =
      (Schema.readCollections (entry :: more) >>= fun collections =>
        Schema.ofParts collections declared.1 >>= fun schema => .ok (schema, declared.2)) := by
    simp only [Schema.readWith, unknownKeys_eq_nil.mpr hkeys, Outcome.ofFault, hschemas, hmappers]
    rfl
  rw [hread] at h
  rcases (Outcome.bind_eq_error _ _ _).mp h with hcollections | ⟨read, hcollections, h⟩
  · exact hcollections
  · obtain ⟨built, hbuilt, rfl⟩ := Schema.readCollections_eq_ok.mp hcollections
    have hbuiltne : Ordered.ofList built ≠ [] := by
      simpa [Ordered.ofList_eq_nil] using fun hnil => hne (hbuilt.eq_nil_iff.mp hnil)
    rw [Schema.ofParts_eq_ok.mpr ⟨hbuiltne, rfl⟩] at h
    cases h

/-- When the collections of a schema are refused, it is because of the first entry that is
none.  If the entry is a map with entries, the error carries its name and the name of the
innermost field to blame, and no field name if none is to blame; if it is not, the error
carries the name of the entry as that of a field.  There is no error with a place if an
integer has to be shown that is too long. -/
theorem schema_errors_name_their_origin {sections : Sections}
    {entries collections : List (Scalar × Value)} {declared : Mappers × List Text}
    (hkeys : KeysAmong [sections.schemas, sections.mappers] entries)
    (hschemas : entry? entries sections.schemas = some (.map collections))
    (hne : collections ≠ [])
    (hmappers : Schema.readOptionalMappers sections (Value.entry? entries sections.mappers) =
      .ok declared)
    (h : Schema.readWith sections (.map entries) = .error failure) :
    ∃ before k v after, collections = before ++ (k, v) :: after ∧
      (∀ e ∈ before, e.2.IsCollection) ∧
      ((failure = .fault .longInteger ∧ ¬ (k.Writable ∧ v.Writable)) ∨
        ∃ name e, k.text? = .ok name ∧ failure = .error e ∧ failure.isDefinition = true ∧
          ¬ v.IsCollection ∧
          ((∀ own, v = .map own → own = []) →
            e = ⟨.malformedField
              ("Collection '" ++ name ++ "' must be a non-empty mapping of fields"),
              { field := some name }⟩) ∧
          ∀ own, v = .map own → own ≠ [] → (∃ names, BlamedAt own names) ∧
            ∀ names, BlamedAt own names → [] ∉ name :: names →
              e.place = { collection := some name, field := names.getLast? }) := by
  have hcollections := Schema.readCollections_eq_error hkeys hschemas hne hmappers h
  obtain ⟨before, k, v, after, hsplit, ⟨built, hbuilt⟩, hfail⟩ := foldlM_put_eq_error hcollections
  refine ⟨before, k, v, after, hsplit, ?_, ?_⟩
  · intro e he
    obtain ⟨name, -, c, hc⟩ := exists_readEach.mp ⟨built, hbuilt⟩ e he
    exact Schema.isCollection_of_read hc
  rcases hfail with ⟨rfl, hk⟩ | ⟨name, hname, hfail⟩
  · exact .inl ⟨rfl, fun hwritable => hk hwritable.1⟩
  by_cases hshape : ∀ own, v = .map own → own = []
  · rw [Schema.readCollection_of_shape hshape] at hfail
    cases hfail
    refine .inr ⟨name, _, hname, rfl, rfl, ?_, fun _ => rfl, fun own hown hown' => ?_⟩
    · intro ⟨own, hown, _, hnonempty, _⟩
      rw [hshape own hown] at hnonempty
      exact hnonempty rfl
    · exact absurd (hshape own hown) hown'
  · push Not at hshape
    obtain ⟨own, rfl, hown⟩ := hshape
    rcases Schema.refuses_collection hown failure hfail with
      ⟨e, rfl, hdefinition, names, hblamed, hplace⟩ | ⟨rfl, hl⟩
    · refine .inr ⟨name, e, hname, rfl, hdefinition, ?_, fun hempty => ?_, ?_⟩
      · intro ⟨own', heq, hforms⟩
        cases heq
        exact hblamed.not_forms hforms
      · exact absurd (hempty own rfl) hown
      · intro own' heq _
        cases heq
        refine ⟨⟨names, hblamed⟩, fun names' hblamed' => ?_⟩
        rw [hblamed'.unique hblamed]
        exact hplace
    · exact .inl ⟨rfl, fun hwritable => hl hwritable.2⟩

/-- The entries of a collection in which the field `title` inside `info` is null. -/
def untitledBooks : List (Scalar × Value) := [(.str "array_of", .str "book"),
  (.str "info", .map [(.str "title", .null)])]

theorem untitledBooks_blamedAt : BlamedAt untitledBooks ["info", "title"] := by
  have hbook : (Value.str "book").IsPath :=
    ⟨"book", _, rfl, Path.ofTag_writtenBy (by decide)⟩
  have hanchors : AnchorsArePaths untitledBooks := by
    intro key hkey v hv
    rcases List.mem_pair.mp hkey with rfl | rfl
    · cases hv
      exact hbook
    · cases hv
  have hinner : AnchorsArePaths [(.str "title", .null)] := by
    intro key hkey v hv
    rcases List.mem_pair.mp hkey with rfl | rfl <;> cases hv
  have hinfo : (Value.map [(.str "title", .null)]).IsNested := by
    refine ⟨_, rfl, by simp, fun key hkey => ?_⟩
    simp only [List.mem_cons, List.not_mem_nil, or_false] at hkey
    rcases hkey with rfl | rfl | rfl <;> rfl
  refine .nested hanchors ⟨[], .str "info", [], rfl, by simp, rfl⟩ hinfo ?_
  refine @BlamedAt.leaf _ "title" .null hinner ⟨[], .str "title", [], rfl, by simp, rfl⟩ ?_ ?_
  · intro h
    obtain ⟨own, h, -⟩ := h
    cases h
  · intro h
    cases h with
    | path written =>
      obtain ⟨raw, p, hraw, -⟩ := written
      cases hraw

theorem untitledBooks_names_title : ∃ e,
    Schema.readWith {} (.map [(.str "schemas", .map [(.str "books", .map untitledBooks)])]) =
        .error (.error e) ∧
      e.place = { collection := some "books", field := some "title" } := by
  have hkeys : KeysAmong ["schemas", "mappers"]
      [(.str "schemas", .map [(.str "books", .map untitledBooks)])] := by simp [KeysAmong]
  have hread : ∃ e, Schema.readWith {}
      (.map [(.str "schemas", .map [(.str "books", .map untitledBooks)])]) = .error (.error e) := by
    rw [Schema.readWith, unknownKeys_eq_nil.mpr hkeys]
    exact ⟨_, rfl⟩
  obtain ⟨e, hread⟩ := hread
  obtain ⟨before, k, v, after, hsplit, -, hcase⟩ :=
    schema_errors_name_their_origin hkeys rfl (by simp) rfl hread
  obtain ⟨rfl, hentry⟩ : before = [] ∧ [(.str "books", .map untitledBooks)] = (k, v) :: after := by
    cases before with
    | nil => exact ⟨rfl, hsplit⟩
    | cons b before => simp at hsplit
  cases hentry
  rcases hcase with ⟨hfault, -⟩ | ⟨name, e', hname, he, -, -, -, hplace⟩
  · cases hfault
  · cases hname
    cases he
    exact ⟨e, hread, (hplace untitledBooks rfl (by simp [untitledBooks])).2 _ untitledBooks_blamedAt
      (by decide)⟩

/-- An entry that is no map is reported as a field of no collection. -/
theorem plain_entry_named_as_field :
    Schema.readWith {} (.map [(.str "schemas", .map [(.str "c", .int 5)])]) =
      .error (.error ⟨.malformedField "Collection 'c' must be a non-empty mapping of fields",
        { collection := none, field := some "c" }⟩) := by
  rw [Schema.readWith, unknownKeys_eq_nil.mpr (by simp [KeysAmong])]
  rfl

end Reading

end XmlHarvest
