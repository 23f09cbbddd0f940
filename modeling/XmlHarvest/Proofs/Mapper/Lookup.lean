import XmlHarvest.Proofs.Field
import XmlHarvest.Proofs.Mapper
import XmlHarvest.Proofs.Schema.Entries

/-! # Looking values up

A mapper that was read from a definition maps as the definition says: the text of a
value is listed by at most one raw value, whose output is found, and a text that no
raw value has gets the default.  In a section of mappers each name maps as the
definition that was last declared under it. -/
set_option autoImplicit false

namespace XmlHarvest

namespace Mapper

variable {raws options : List (Scalar × Value)} {table : List (Text × Value)} {key name : Text}
  {e : Scalar × Value} {definition default v : Value} {m : Mapper}

/-- The output of a listed raw value is found under its text. -/
theorem get?_of_turned (h : List.Forall₂ Turned raws table) (hdifferent : DifferentTexts raws)
    (he : e ∈ raws) (hkey : e.2.text? = .ok key) :
    Ordered.get? table key = some (.scalar e.1) := by
  induction h with
  | nil => cases he
  | @cons first entry raws table hentry hrest ih =>
    obtain ⟨hnew, hdifferent⟩ := List.pairwise_cons.mp hdifferent
    obtain ⟨text, output⟩ := entry
    obtain ⟨htext, houtput⟩ := hentry
    rcases List.mem_cons.mp he with rfl | he
    · have hsame : text = key := Except.ok.inj (htext.symm.trans hkey)
      have hfound : output = .scalar e.1 := houtput
      rw [hsame, hfound]
      exact Ordered.get?_cons_self
    · have hne : text ≠ key := by
        rintro rfl
        exact hnew e he (htext.trans hkey.symm)
      rw [Ordered.get?_cons_of_ne hne]
      exact ih hdifferent he

/-- Mapping follows a table: the text of a listed raw value gives its output, any other
text the default. -/
def Follows (map : Value → Outcome Value) (options : List (Scalar × Value)) (default : Value) :
    Prop :=
  ∀ v key, v.text? = .ok key →
    (∀ e ∈ listed options, e.2.text? = .ok key → map v = .ok (.scalar e.1)) ∧
    ((∀ e ∈ listed options, e.2.text? ≠ .ok key) → map v = .ok default)

theorem map_of_text (hkey : v.text? = .ok key) :
    m.map v = .ok ((Ordered.get? m.options key).getD m.default) := by
  rw [Mapper.map, Outcome.bind_eq_ok]
  refine ⟨key, Outcome.ofFault_eq_ok.mpr hkey, ?_⟩
  cases Ordered.get? m.options key <;> rfl

theorem follows_of_read {notices : List Text} (h : read name definition = .ok (m, notices)) :
    ∃ options default, Declares definition options default ∧ DifferentTexts (listed options) ∧
      Follows m.map options default := by
  obtain ⟨options, default, table, hdeclares, -, hturned, hnodup, rfl⟩ :=
    read_eq_ok.mp ⟨notices, h⟩
  have hdifferent : DifferentTexts (listed options) := (nodup_of_turned hturned).mp hnodup
  refine ⟨options, default, hdeclares, hdifferent, ?_⟩
  intro v key hkey
  constructor
  · intro e he hraw
    dsimp only
    rw [map_of_text hkey, get?_of_turned hturned hdifferent he hraw]
    rfl
  · intro hnone
    have hmissing : key ∉ Ordered.keys table := by
      intro hmem
      obtain ⟨e, he, hraw⟩ := (mem_keys_of_turned hturned key).mp hmem
      exact hnone e he hraw
    dsimp only
    rw [map_of_text hkey, Ordered.get?_eq_none.mpr hmissing]
    rfl

end Mapper

variable {entries : List (Scalar × Value)} {name : Text} {definition : Value}

/-- What is declared under a name: the definition of the last entry whose key has the
name as its text. -/
def LastDeclared (entries : List (Scalar × Value)) (name : Text) (definition : Value) : Prop :=
  ∃ before k after, entries = before ++ (k, definition) :: after ∧ k.text? = .ok name ∧
    ∀ e ∈ after, e.1.text? ≠ .ok name

section Tables

variable {α : Type} {read : Text → Value → Outcome α} {built : List (Text × α)}

/-- What is read of one entry stands where the entry stood. -/
theorem ReadEach.split {before after : List (Scalar × Value)} {k : Scalar}
    (h : ReadEach read (before ++ (k, definition) :: after) built) (hname : k.text? = .ok name) :
    ∃ first a rest, built = first ++ (name, a) :: rest ∧ read name definition = .ok a ∧
      ReadEach read after rest := by
  induction before generalizing built with
  | nil =>
    obtain ⟨name', a, rest, hname', ha, hrest, rfl⟩ := readEach_cons.mp h
    obtain rfl : name' = name := Except.ok.inj (hname'.symm.trans hname)
    exact ⟨[], a, rest, rfl, ha, hrest⟩
  | cons e before ih =>
    obtain ⟨name', a', built, -, -, hbuilt, rfl⟩ := readEach_cons.mp h
    obtain ⟨first, a, rest, rfl, ha, hrest⟩ := ih hbuilt
    exact ⟨(name', a') :: first, a, rest, rfl, ha, hrest⟩

theorem ReadEach.get?_of_lastDeclared (h : ReadEach read entries built)
    (hlast : LastDeclared entries name definition) :
    ∃ a, read name definition = .ok a ∧ Ordered.get? (Ordered.ofList built) name = some a := by
  obtain ⟨before, k, after, rfl, hname, hafter⟩ := hlast
  obtain ⟨first, a, rest, rfl, ha, hrest⟩ := h.split hname
  have hlater : name ∉ Ordered.keys rest := by
    intro hmem
    obtain ⟨e, he, htext⟩ := (hrest.mem_keys name).mp hmem
    exact hafter e he htext
  exact ⟨a, ha, Ordered.get?_ofList_of_last hlater⟩

theorem ReadEach.get?_eq_none (h : ReadEach read entries built) :
    Ordered.get? (Ordered.ofList built) name = none ↔ ∀ e ∈ entries, e.1.text? ≠ .ok name := by
  rw [Ordered.get?_ofList_eq_none, h.mem_keys name]
  push Not
  rfl

end Tables

namespace Mappers

variable {mappers : Mappers} {m : Mapper} {v : Value} {notices : List Text}

theorem map_of_get? (h : Ordered.get? mappers name = some m) : mappers.map name v = m.map v := by
  rw [map, h]

theorem map_eq_unknownMapper : mappers.map name v = .error (.of (.unknownMapper name)) ↔
    Ordered.get? mappers name = none := by
  simp [map_eq_error, Failure.of]

/-- A section is read when each of its entries is. -/
theorem exists_read : (∃ mappers notices, read entries = .ok (mappers, notices)) ↔
    ∀ e ∈ entries, ∃ name, e.1.text? = .ok name ∧ ∃ m, Mapper.read name e.2 = .ok m := by
  have heach : (∃ built, ReadEach readMapper entries built) ↔
      ∀ e ∈ entries, ∃ name, e.1.text? = .ok name ∧ ∃ m, readMapper name e.2 = .ok m :=
    exists_readEach
  simp only [exists_readMapper_iff] at heach
  rw [← heach]
  simp only [read_eq_ok]
  constructor
  · rintro ⟨mappers, built, hbuilt, -⟩
    exact ⟨built, hbuilt⟩
  · rintro ⟨built, hbuilt⟩
    exact ⟨_, built, hbuilt, rfl⟩

/-- A name that is declared maps as its own definition does, whatever else the section
declares. -/
theorem follows_of_lastDeclared (h : read entries = .ok (mappers, notices))
    (hlast : LastDeclared entries name definition) :
    ∃ m own options default, Mapper.read name definition = .ok (m, own) ∧
      mappers.map name = m.map ∧ Mapper.Declares definition options default ∧
      Mapper.Follows m.map options default := by
  obtain ⟨built, hbuilt, rfl⟩ := read_eq_ok.mp ⟨notices, h⟩
  obtain ⟨m, hm, hget⟩ := hbuilt.get?_of_lastDeclared hlast
  obtain ⟨⟨_, own⟩, hread, rfl⟩ := (Outcome.map_eq_ok _ _ _).mp hm
  obtain ⟨options, default, hdeclares, -, hfollows⟩ := Mapper.follows_of_read hread
  exact ⟨_, own, options, default, hread, funext fun v => map_of_get? hget, hdeclares, hfollows⟩

theorem map_unknown_iff (h : read entries = .ok (mappers, notices)) :
    mappers.map name v = .error (.of (.unknownMapper name)) ↔
      ∀ e ∈ entries, e.1.text? ≠ .ok name := by
  obtain ⟨built, hbuilt, rfl⟩ := read_eq_ok.mp ⟨notices, h⟩
  rw [map_eq_unknownMapper, hbuilt.get?_eq_none]

end Mappers

/-- From the definitions to the values: which definitions are read, and what mapping
through the names of a section gives. -/
theorem mappers_follow_definitions (entries : List (Scalar × Value)) :
    (∀ name definition, (∃ m, Mapper.read name definition = .ok m) ↔
      ∃ options default, Mapper.Declares definition options default ∧
        (∀ e ∈ Mapper.listed options, Mapper.Listable e) ∧
        Mapper.DifferentTexts (Mapper.listed options)) ∧
    ((∃ mappers notices, Mappers.read entries = .ok (mappers, notices)) ↔
      ∀ e ∈ entries, ∃ name, e.1.text? = .ok name ∧ ∃ m, Mapper.read name e.2 = .ok m) ∧
    ∀ mappers notices, Mappers.read entries = .ok (mappers, notices) →
      (∀ name definition, LastDeclared entries name definition →
        ∃ m own options default, Mapper.read name definition = .ok (m, own) ∧
          mappers.map name = m.map ∧ Mapper.Declares definition options default ∧
          Mapper.Follows m.map options default) ∧
      ∀ name v, mappers.map name v = .error (.of (.unknownMapper name)) ↔
        ∀ e ∈ entries, e.1.text? ≠ .ok name := by
  refine ⟨fun name definition => Mapper.exists_read_iff_declares, Mappers.exists_read, ?_⟩
  intro mappers notices h
  constructor
  · intro name definition hlast
    exact Mappers.follows_of_lastDeclared h hlast
  · intro name v
    exact Mappers.map_unknown_iff h

def longOutput : Scalar := .int (tenTo digitLimit)

def longOutputOptions : List (Scalar × Value) := [(longOutput, .scalar (.bool true))]

theorem text?_longOutput : longOutput.text? = .error .longInteger := by
  refine (Scalar.text?_failsIff _ _).mpr ⟨rfl, fun h => ?_⟩
  exact Value.not_writable_power (Nat.le_refl _) (Value.writable_scalar.mpr h)

theorem addOutput_longOutput (name : Text) :
    longOutputOptions.foldlM (Mapper.addOutput name) {} = .error (.fault .longInteger) := by
  have hadd : Mapper.addOutput name {} (longOutput, .scalar (.bool true)) =
      .error (.fault .longInteger) := by
    simp only [Mapper.addOutput, Mapper.rawValues, List.foldlM_cons, Mapper.addRaw,
      text?_longOutput, Outcome.ofFault]
    rfl
  rw [longOutputOptions, List.foldlM_cons, hadd]
  rfl

/-- Its raw value has a text and no rival, but the notice about it cannot be written. -/
theorem long_output_refused : ∃ definition,
    Mapper.Declares definition longOutputOptions .null ∧
    (∀ e ∈ Mapper.listed longOutputOptions, e.2.Writable) ∧
    Mapper.DifferentTexts (Mapper.listed longOutputOptions) ∧
    ∀ name, Mapper.read name definition = .error (.fault .longInteger) := by
  have hkeys : KeysAmong ["default", "options"] [(.str "options", .map longOutputOptions)] :=
    List.forall_mem_singleton.mpr ⟨"options", by decide, rfl⟩
  have hlisted : Mapper.listed longOutputOptions = longOutputOptions := rfl
  have hwritable : (Value.scalar (.bool true)).Writable := Value.writable_scalar.mpr trivial
  refine ⟨.map [(.str "options", .map longOutputOptions)], ⟨_, rfl, hkeys, rfl, rfl⟩, ?_, ?_, ?_⟩
  · rw [hlisted]
    exact List.forall_mem_singleton.mpr hwritable
  · rw [hlisted]
    exact List.pairwise_singleton _ _
  · intro name
    have hsection : Mapper.section? (Value.entry? [(.str "options", .map longOutputOptions)]
        "options") = some longOutputOptions := rfl
    simp only [Mapper.read, unknownKeys_eq_nil.mpr hkeys, Outcome.ofFault, hsection,
      addOutput_longOutput]
    rfl

end XmlHarvest
