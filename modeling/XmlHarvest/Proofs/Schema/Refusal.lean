import XmlHarvest.Proofs.Schema.Grammar

/-! # With what a schema is refused

A reader of a schema fails in two ways: it reports an error of the shape that it
reads, or an integer that has to be shown has too many digits.  The readers of the
parts of a field report the error at the field, or at no place at all; the place is
then filled in further out.  Mappers report theirs at no place. -/
set_option autoImplicit false

namespace XmlHarvest

variable {α β : Type} {entries : List (Scalar × Value)} {name : Option Text}

/-- A failing `x` reports an error that is allowed, or it fails to write an integer;
the latter only if `long`. -/
def Refuses (allowed : Error → Prop) (long : Prop) (x : Outcome α) : Prop :=
  ∀ failure, x = .error failure →
    (∃ e, failure = .error e ∧ allowed e) ∨ (failure = .fault .longInteger ∧ long)

namespace Refuses

variable {allowed : Error → Prop} {long : Prop} {x : Outcome α}

theorem ok (a : α) : Refuses allowed long (.ok a : Outcome α) := by
  intro failure h
  cases h

theorem error {e : Error} (h : allowed e) : Refuses allowed long (.error (.error e) : Outcome α) := by
  intro failure hfailure
  cases hfailure
  exact .inl ⟨e, rfl, h⟩

theorem ofFault {y : Except Fault α} {p : Prop} (h : FailsIff y .longInteger p) (hp : p → long) :
    Refuses allowed long (Outcome.ofFault y) := by
  intro failure hfailure
  obtain ⟨rfl, hlong⟩ := (h.ofFault failure).mp hfailure
  exact .inr ⟨rfl, hp hlong⟩

theorem bind {f : α → Outcome β} (h : Refuses allowed long x)
    (hf : ∀ a, x = .ok a → Refuses allowed long (f a)) : Refuses allowed long (x >>= f) := by
  intro failure hfailure
  rcases (Outcome.bind_eq_error _ _ _).mp hfailure with hx | ⟨a, ha, hfa⟩
  · exact h failure hx
  · exact hf a ha failure hfa

theorem mapM {f : α → Outcome β} {as : List α} (h : ∀ a ∈ as, Refuses allowed long (f a)) :
    Refuses allowed long (as.mapM f) := by
  intro failure hfailure
  obtain ⟨before, a, after, rfl, -, ha⟩ := (Outcome.mapM_eq_error _ _ _).mp hfailure
  exact h a (by simp) failure ha

/-- A run over a list that keeps an invariant refuses as its steps do. -/
theorem foldlM {f : β → α → Outcome β} {as : List α} {acc : β} (inv : β → Prop) (hacc : inv acc)
    (h : ∀ b a, inv b → a ∈ as → Refuses allowed long (f b a) ∧ ∀ c, f b a = .ok c → inv c) :
    Refuses allowed long (as.foldlM f acc) := by
  induction as generalizing acc with
  | nil => exact ok acc
  | cons a as ih =>
    rw [List.foldlM_cons]
    obtain ⟨hstep, hkeep⟩ := h acc a hacc List.mem_cons_self
    refine hstep.bind fun b hb => ih (hkeep b hb) ?_
    intro c a' hc ha'
    exact h c a' hc (List.mem_cons_of_mem a ha')

theorem mono {allowed' : Error → Prop} {long' : Prop} (h : Refuses allowed long x)
    (hallowed : ∀ e, allowed e → allowed' e) (hlong : long → long') : Refuses allowed' long' x := by
  intro failure hfailure
  rcases h failure hfailure with ⟨e, rfl, he⟩ | ⟨rfl, hl⟩
  · exact .inl ⟨e, rfl, hallowed e he⟩
  · exact .inr ⟨rfl, hlong hl⟩

theorem within (h : Refuses allowed long x) (outer : Place) :
    Refuses (fun e => ∃ inner, allowed inner ∧ e = inner.within outer) long (x.within outer) := by
  intro failure hfailure
  obtain ⟨inner, hinner, rfl⟩ := Outcome.mapError_eq_error.mp hfailure
  rcases h inner hinner with ⟨e, rfl, he⟩ | ⟨rfl, hl⟩
  · exact .inl ⟨_, rfl, e, he, rfl⟩
  · exact .inr ⟨rfl, hl⟩

theorem shown {v : Value} {f : Text → Outcome α} (hlong : ¬ v.Writable → long)
    (hf : ∀ s, Refuses allowed long (f s)) :
    Refuses allowed long (Outcome.ofFault v.display? >>= f) :=
  (ofFault v.display?_failsIff hlong).bind fun s _ => hf s

theorem unknownKeys {names : List Text} {f : List Text → Outcome α}
    (hlong : ¬ (Value.map entries).Writable → long)
    (hf : ∀ unknown, Refuses allowed long (f unknown)) :
    Refuses allowed long (Outcome.ofFault (unknownKeys names entries) >>= f) := by
  refine bind ?_ fun unknown _ => hf unknown
  intro failure hfailure
  obtain ⟨fault, rfl, hfault⟩ := Outcome.ofFault_eq_error.mp hfailure
  have htexts : ((entries.filter fun e => !(names.any fun n => e.1.same (.str n))).mapM
      fun e => e.1.text?) = .error fault := by
    rcases (Outcome.bind_eq_error _ _ _).mp hfault with h | ⟨texts, -, h⟩
    · exact h
    · cases h
  obtain ⟨before, e, after, hsplit, -, he⟩ := (Outcome.mapM_eq_error _ _ _).mp htexts
  obtain ⟨rfl, hkey⟩ := (e.1.text?_failsIff fault).mp he
  have hstranger : e ∈ entries.filter fun e => !(names.any fun n => e.1.same (.str n)) := by
    rw [hsplit]
    exact List.mem_append_right before List.mem_cons_self
  have hmem : e ∈ entries := (List.mem_filter.mp hstranger).1
  exact .inr ⟨rfl, hlong fun hwritable => hkey (Value.writable_map.mp hwritable e hmem).1⟩

end Refuses

def ShapeError (name : Option Text) (e : Error) : Prop :=
  (Failure.error e).isDefinition = true ∧ (e.place = {} ∨ e.place = { field := name })

theorem not_writable_of_entry {key : Text} {v : Value}
    (hentry : Value.entry? entries key = some v) (hv : ¬ v.Writable) :
    ¬ (Value.map entries).Writable :=
  fun h => hv (Value.writable_map.mp h _ (Value.entry?_eq_some hentry)).2

theorem not_writable_of_getD {key : Text}
    (hv : ¬ ((Value.entry? entries key).getD .null).Writable) : ¬ (Value.map entries).Writable := by
  cases hentry : Value.entry? entries key with
  | none =>
    rw [hentry] at hv
    have hnull : (Value.scalar .null).Writable := Value.writable_scalar.mpr trivial
    exact absurd hnull hv
  | some v =>
    rw [hentry] at hv
    exact not_writable_of_entry hentry hv

theorem not_writable_of_item {items : List Value} {v : Value} (hmem : v ∈ items)
    (hv : ¬ v.Writable) : ¬ (Value.list items).Writable :=
  fun h => hv (Value.writable_list.mp h v hmem)

theorem refuses_raise {long : Prop} {p : Problem} (h : (Failure.of p).isDefinition = true) :
    Refuses (ShapeError name) long (Outcome.raise p : Outcome α) :=
  Refuses.error ⟨h, .inl rfl⟩

theorem refuses_malformed {long : Prop} (message : Text) :
    Refuses (ShapeError name) long (malformed name message : Outcome α) :=
  Refuses.error ⟨rfl, .inr rfl⟩

namespace Path

theorem refuses_lift {long : Prop} (x : Except PathFault α) :
    Refuses (ShapeError name) long (lift x) := by
  cases x with
  | ok a => exact Refuses.ok a
  | error fault => exact refuses_raise rfl

theorem refuses_ofValue (v : Value) : Refuses (ShapeError name) (¬ v.Writable) (ofValue v) := by
  unfold ofValue
  split
  · exact refuses_lift _
  · exact Refuses.shown id fun s => refuses_lift _

end Path

namespace ModifierRef

theorem refuses_ofName {long : Prop} (s : Text) (params : List Value) :
    Refuses (ShapeError name) long (ofName s params) := by
  unfold ofName
  split
  · exact Refuses.ok _
  · exact refuses_raise rfl

theorem refuses_ofValue (v : Value) (params : List Value) :
    Refuses (ShapeError name) (¬ v.Writable) (ofValue v params) := by
  unfold ofValue
  split
  · exact refuses_ofName _ params
  · exact Refuses.shown id fun s => refuses_raise rfl

theorem refuses_read (v : Value) : Refuses (ShapeError name) (¬ v.Writable) (read v) := by
  unfold read
  split
  · exact refuses_ofName _ []
  · rename_i entries
    refine Refuses.unknownKeys id fun unknown => ?_
    split
    · exact refuses_raise rfl
    · exact (refuses_ofValue _ _).mono (fun e he => he) not_writable_of_getD
  · exact Refuses.shown id fun s => refuses_raise rfl

theorem refuses_readAll (v : Value) : Refuses (ShapeError name) (¬ v.Writable) (readAll v) := by
  unfold readAll
  split
  · exact Refuses.ok []
  · exact Refuses.mapM fun item hitem =>
      (refuses_read item).mono (fun e he => he) (not_writable_of_item hitem)
  · exact (refuses_read v).bind fun ref _ => Refuses.ok [ref]

end ModifierRef

namespace FullField

theorem refuses_mapperName (v : Value) : Refuses (ShapeError name) (¬ v.Writable) (mapperName v) := by
  unfold mapperName
  split
  · exact Refuses.ok none
  · split
    · exact refuses_raise rfl
    · exact Refuses.ok _
  · exact Refuses.shown id fun s => refuses_raise rfl

theorem refuses_chain {long : Prop} (paths : List Path) (modifiers : List ModifierRef)
    (combined : Bool) : Refuses (ShapeError name) long (Chain.ofParts paths modifiers combined) := by
  unfold Chain.ofParts
  split
  · exact refuses_raise rfl
  · exact refuses_raise rfl
  · exact Refuses.ok _
  · exact Refuses.ok _
  · exact refuses_raise rfl

theorem refuses_readRest (paths : List Path) (combined : Bool) :
    Refuses (ShapeError name) (¬ (Value.map entries).Writable)
      (ModifierRef.readAll ((Value.entry? entries "modifier").getD .null) >>= fun modifiers =>
        if combined && modifiers.isEmpty then .error (.error ⟨.missingModifier, { field := name }⟩)
        else ofParts paths modifiers ((Value.entry? entries "mapper").getD .null) combined) := by
  refine Refuses.bind ?_ fun modifiers _ => ?_
  · exact (ModifierRef.refuses_readAll _).mono (fun e he => he) not_writable_of_getD
  · split
    · exact Refuses.error ⟨rfl, .inr rfl⟩
    · refine (refuses_chain paths modifiers combined).bind fun chain _ => ?_
      refine Refuses.bind ?_ fun mapper _ => Refuses.ok _
      exact (refuses_mapperName _).mono (fun e he => he) not_writable_of_getD

theorem refuses_read {path : Value} (hpath : Value.entry? entries "path" = some path) :
    Refuses (ShapeError name) (¬ (Value.map entries).Writable) (read name entries path) := by
  have hlong : ¬ path.Writable → ¬ (Value.map entries).Writable := not_writable_of_entry hpath
  unfold read
  split
  · rename_i items
    refine Refuses.bind (Refuses.mapM fun item hitem => ?_) fun paths _ => refuses_readRest paths true
    exact (Path.refuses_ofValue item).mono (fun e he => he) fun h =>
      hlong (not_writable_of_item hitem h)
  · refine Refuses.bind ?_ fun p _ => refuses_readRest [p] false
    exact (Path.refuses_ofValue path).mono (fun e he => he) hlong

end FullField

theorem FieldShape.refuses_of :
    Refuses (ShapeError name) (¬ (Value.map entries).Writable) (FieldShape.of name entries) := by
  unfold FieldShape.of
  split
  · split
    · exact Refuses.ok _
    · exact refuses_malformed _
  · refine Refuses.unknownKeys id fun unknown => ?_
    split
    · exact Refuses.ok _
    · exact refuses_malformed _
  · split
    · exact Refuses.ok _
    · exact refuses_malformed _

/-- A map that is read as a collection of its own: it has an entry, and no key of a full
field. -/
def Value.IsNested (v : Value) : Prop :=
  ∃ own, v = .map own ∧ own ≠ [] ∧
    ∀ key ∈ (["path", "modifier", "mapper"] : List Text), Value.entry? own key = none

/-- A field without fields of its own reports an error at itself or at no place. -/
theorem FieldSpec.refuses_leaf {v : Value} (h : ¬ v.IsNested) :
    Refuses (ShapeError name) (¬ v.Writable) (FieldSpec.read name v) := by
  cases v with
  | scalar s =>
    cases s with
    | str raw => exact (Path.refuses_lift _).bind fun p _ => Refuses.ok _
    | null | bool | int | float | time => exact Refuses.shown id fun s => refuses_malformed _
  | list items => exact Refuses.shown id fun s => refuses_malformed _
  | map entries =>
    cases entries with
    | nil => exact refuses_malformed _
    | cons entry more =>
      rw [FieldSpec.read]
      refine FieldShape.refuses_of.bind fun shape hshape => ?_
      cases shape with
      | full path =>
        have hpath := (FieldShape.of_eq_full.mp hshape).2
        exact (FullField.refuses_read hpath).bind fun f _ => Refuses.ok _
      | collection =>
        have hunmixed := FieldShape.of_eq_collection.mp hshape
        exact absurd ⟨_, rfl, List.cons_ne_nil entry more, hunmixed⟩ h

namespace Mapper

variable {mapper : Text} {output : Scalar} {raw definition : Value} {acc : Inversion} {long : Prop}

theorem refuses_addKey {notices : List Text} (hacc : ∀ o ∈ acc.options, ¬ o.2.Writable → long)
    (houtput : ¬ output.Writable → long) (hraw : ¬ raw.Writable → long) :
    Refuses (ShapeError name) long (addKey mapper output acc raw notices) := by
  unfold addKey
  refine (Refuses.ofFault raw.text?_failsIff hraw).bind fun key _ => ?_
  split
  · rename_i other hother
    have hlisted := Ordered.mem_of_get? hother
    exact (Refuses.ofFault other.text?_failsIff (hacc _ hlisted)).bind fun first _ =>
      (Refuses.ofFault output.text?_failsIff houtput).bind fun second _ => refuses_raise rfl
  · exact Refuses.ok _

theorem refuses_addRaw (hacc : ∀ o ∈ acc.options, ¬ o.2.Writable → long)
    (houtput : ¬ output.Writable → long) (hraw : ¬ raw.Writable → long) :
    Refuses (ShapeError name) long (addRaw mapper output acc raw) := by
  cases raw with
  | list items => exact refuses_addKey hacc houtput hraw
  | map entries => exact refuses_addKey hacc houtput hraw
  | scalar s =>
    cases s with
    | bool b =>
      refine (Refuses.ofFault output.text?_failsIff houtput).bind fun shown _ => ?_
      refine (Refuses.ofFault (Scalar.bool b).text?_failsIff fun h => absurd trivial h).bind
        fun truth _ => ?_
      exact refuses_addKey hacc houtput hraw
    | null | int | float | str | time => exact refuses_addKey hacc houtput hraw

/-- An output is shown when a raw value of its own or one listed before is shown with it. -/
theorem refuses_table {options : List (Scalar × Value)}
    (hlong : ∀ e ∈ listed options, (¬ e.1.Writable → long) ∧ (¬ e.2.Writable → long)) :
    Refuses (ShapeError name) long (options.foldlM (addOutput mapper) {}) := by
  rw [foldlM_addOutput]
  refine Refuses.foldlM (fun acc => ∀ o ∈ acc.options, ¬ o.2.Writable → long) (by simp) ?_
  intro acc e hacc he
  refine ⟨refuses_addRaw hacc (hlong e he).1 (hlong e he).2, fun next hnext => ?_⟩
  obtain ⟨table, notices⟩ := next
  obtain ⟨-, entry, hturned, -, rfl⟩ := addListed_eq_ok.mp ⟨notices, hnext⟩
  intro o ho
  rcases List.mem_append.mp ho with ho | ho
  · exact hacc o ho
  · rw [List.mem_singleton.mp ho, hturned.2, Value.writable_scalar]
    exact (hlong e he).1

theorem refuses_read (definition : Value) :
    Refuses (ShapeError name) (¬ definition.Writable) (read mapper definition) := by
  unfold read
  split
  · rename_i entries
    refine Refuses.unknownKeys id fun unknown => ?_
    split
    · exact refuses_raise rfl
    · split
      · exact refuses_raise rfl
      · rename_i options hoptions
        refine Refuses.bind (refuses_table ?_) fun inverted _ => Refuses.ok _
        intro e he
        rcases section?_eq_some hoptions with rfl | hentry
        · cases he
        · have hmem := Value.entry?_eq_some hentry
          have hwritable : (Value.map entries).Writable → e.1.Writable ∧ e.2.Writable := fun h =>
            writable_listed (Value.writable_map.mp h _ hmem).2 e he
          exact ⟨fun hkey h => hkey (hwritable h).1, fun hraw h => hraw (hwritable h).2⟩
  · exact refuses_raise rfl

end Mapper

theorem Mappers.refuses_read :
    Refuses (ShapeError name) (¬ (Value.map entries).Writable) (Mappers.read entries) := by
  refine Refuses.foldlM (fun _ => True) trivial fun acc e _ he => ⟨?_, fun _ _ => trivial⟩
  have hwritable := fun h => Value.writable_map.mp h e he
  refine (Refuses.ofFault e.1.text?_failsIff fun hk h => hk (hwritable h).1).bind fun mapper _ => ?_
  refine Refuses.bind ?_ fun m _ => Refuses.ok _
  exact (Mapper.refuses_read e.2).mono (fun _ h => h) fun hv h => hv (hwritable h).2

end XmlHarvest
