import XmlHarvest.Proofs.Conformity
import XmlHarvest.Proofs.Json.Documents
import XmlHarvest.Proofs.Json.RoundTrip
import XmlHarvest.Proofs.Mapper
import XmlHarvest.Proofs.Modifier.Builtin
import XmlHarvest.Proofs.Parts
import XmlHarvest.Proofs.Schema.Entries
import XmlHarvest.Proofs.Schema.Grammar
import XmlHarvest.Proofs.Schema.Parameters

/-! # What extraction gives

All values of an output come from three places: texts of the document, what built-in
modifiers make of clean values, and the values that the schema holds itself, which are
parameters of modifiers, outputs of mappers and their defaults.  Those of a clean schema
document are clean, and so the output is. -/
set_option autoImplicit false

namespace XmlHarvest

open Xml

/-! ## Values that a schema holds -/

def ModifierRef.Clean (m : ModifierRef) : Prop := ∀ p ∈ m.params, p.Clean

def Mapper.Clean (m : Mapper) : Prop := m.default.Clean ∧ ∀ o ∈ m.options, o.2.Clean

namespace ModifierRef

variable {m : ModifierRef} {params : List Value} {v : Value}

theorem params_of_ofName {name : Text} (h : ofName name params = .ok m) : m.params = params := by
  unfold ofName at h
  split at h
  · cases h
    rfl
  · cases h

theorem params_of_ofValue (h : ofValue v params = .ok m) : m.params = params := by
  unfold ofValue at h
  split at h
  · exact params_of_ofName h
  · obtain ⟨shown, -, h⟩ := (Outcome.bind_eq_ok _ _ _).mp h
    cases h

theorem clean_readParams {declared : Option Value} (h : ∀ v, declared = some v → v.Clean) :
    ∀ p ∈ readParams declared, p.Clean := by
  unfold readParams
  split
  · simp
  · exact Value.clean_list.mp (h _ rfl)
  · split
    · exact List.forall_mem_singleton.mpr (h _ rfl)
    · simp

theorem clean_of_read (hv : v.Clean) (h : read v = .ok m) : m.Clean := by
  unfold read at h
  split at h
  · rw [Clean, params_of_ofName h]
    simp
  · obtain ⟨unknown, -, h⟩ := (Outcome.bind_eq_ok _ _ _).mp h
    split at h
    · cases h
    · rw [Clean, params_of_ofValue h]
      exact clean_readParams fun w hw => hv.of_entry hw
  · obtain ⟨shown, -, h⟩ := (Outcome.bind_eq_ok _ _ _).mp h
    cases h

theorem clean_of_readAll {ms : List ModifierRef} (hv : v.Clean) (h : readAll v = .ok ms) :
    ∀ m ∈ ms, m.Clean := by
  have hmembers : ∀ w ∈ Value.modifiersOf (some v), w.Clean := by
    unfold Value.modifiersOf
    split
    · simp
    · simp
    · rename_i items heq
      cases heq
      exact Value.clean_list.mp hv
    · rename_i w _ _ heq
      cases heq
      exact List.forall_mem_singleton.mpr hv
  have hall : (Value.modifiersOf (some v)).mapM read = .ok ms := (readAll_eq_mapM (some v)).symm.trans h
  rw [Outcome.mapM_eq_ok] at hall
  intro m hm
  obtain ⟨w, hw, hread⟩ := mem_forall₂_right hall hm
  exact clean_of_read (hmembers w hw) hread

end ModifierRef

theorem Chain.modifiers_of_ofParts {paths : List Path} {modifiers : List ModifierRef} {combined : Bool}
    {c : Chain} (h : Chain.ofParts paths modifiers combined = .ok c) : c.modifiers = modifiers := by
  unfold Chain.ofParts at h
  split at h <;> cases h <;> rfl

section FullFields

variable {name : Option Text} {entries : List (Scalar × Value)} {f : FullField}

theorem FullField.clean_of_readRest {paths : List Path} (combined : Bool)
    (hentries : (Value.map entries).Clean)
    (h : (ModifierRef.readAll ((Value.entry? entries "modifier").getD .null) >>= fun modifiers =>
      if combined && modifiers.isEmpty then .error (.error ⟨.missingModifier, { field := name }⟩)
      else ofParts paths modifiers ((Value.entry? entries "mapper").getD .null) combined) = .ok f) :
    ∀ m ∈ f.chain.modifiers, m.Clean := by
  obtain ⟨modifiers, hmodifiers, h⟩ := (Outcome.bind_eq_ok _ _ _).mp h
  split at h
  · cases h
  · obtain ⟨chain, hchain, h⟩ := (Outcome.bind_eq_ok _ _ _).mp h
    obtain ⟨mapper, -, h⟩ := (Outcome.bind_eq_ok _ _ _).mp h
    cases h
    rw [Chain.modifiers_of_ofParts hchain]
    exact ModifierRef.clean_of_readAll (hentries.getD_entry "modifier") hmodifiers

theorem FullField.clean_of_read {path : Value} (hentries : (Value.map entries).Clean)
    (h : read name entries path = .ok f) : ∀ m ∈ f.chain.modifiers, m.Clean := by
  unfold read at h
  split at h
  · obtain ⟨paths, -, h⟩ := (Outcome.bind_eq_ok _ _ _).mp h
    exact clean_of_readRest true hentries h
  · obtain ⟨p, -, h⟩ := (Outcome.bind_eq_ok _ _ _).mp h
    exact clean_of_readRest false hentries h

end FullFields

theorem Mapper.clean_of_read {name : Text} {definition : Value} {m : Mapper} (hv : definition.Clean)
    (h : readMapper name definition = .ok m) : m.Clean := by
  obtain ⟨⟨m', notices⟩, hm, rfl⟩ := (Outcome.map_eq_ok _ _ _).mp h
  obtain ⟨options, default, table, ⟨entries, rfl, -, hsection, rfl⟩, -, hturned, -, rfl⟩ :=
    Mapper.read_eq_ok.mp ⟨notices, hm⟩
  refine ⟨hv.getD_entry "default", fun o ho => ?_⟩
  obtain ⟨⟨output, raw⟩, hlisted, -, hvalue⟩ := mem_forall₂_right hturned ho
  -- an output is a key of the options, so it is a text
  have hoptions : TextKeys options := by
    rcases Mapper.section?_eq_some hsection with rfl | hentry
    · simp [TextKeys]
    · exact (Value.clean_map.mp (hv.of_entry hentry)).1
  obtain ⟨e, he, hmember⟩ := List.mem_flatMap.mp hlisted
  obtain ⟨raw', -, heq⟩ := List.mem_map.mp hmember
  cases heq
  obtain ⟨text, htext⟩ := hoptions e he
  rw [hvalue]
  dsimp only
  rw [htext]
  exact Value.clean_str text

/-! ## Fields -/

section Fields

variable {r : Registry} {mappers : Mappers} {v w : Value}

theorem Mappers.clean_map {name : Text} {debug : Bool} (hmappers : ∀ m ∈ mappers, m.2.Clean)
    (h : mappers.map name v debug = .ok w) : w.Clean := by
  unfold Mappers.map at h
  split at h
  · rename_i m hfound
    have hm : m.Clean := hmappers _ (Ordered.mem_of_get? hfound)
    obtain ⟨key, -, rfl⟩ := Mapper.map_eq_ok h
    cases hoption : Ordered.get? m.options key with
    | none => exact hm.1
    | some output => exact hm.2 _ (Ordered.mem_of_get? hoption)
  · cases h

theorem Scope.clean_applyAll (hr : r.IsBuiltin) {modifiers : List ModifierRef}
    (hmodifiers : ∀ m ∈ modifiers, m.Clean) (hv : v.Clean)
    (h : Scope.applyAll ⟨r, mappers⟩ modifiers v = .ok w) : w.Clean := by
  induction modifiers generalizing v with
  | nil =>
    cases h
    exact hv
  | cons m modifiers ih =>
    rw [Scope.applyAll, List.foldlM_cons] at h
    obtain ⟨next, hnext, h⟩ := (Outcome.bind_eq_ok _ _ _).mp h
    have hclean : next.Clean := Registry.clean_apply hr (hmodifiers m (by simp))
      (List.forall_mem_singleton.mpr hv) hnext
    exact ih (fun m' hm' => hmodifiers m' (by simp [hm'])) hclean h

theorem Scope.clean_runChain (hr : r.IsBuiltin) {e : Element} {chain : Chain}
    (hmodifiers : ∀ m ∈ chain.modifiers, m.Clean)
    (h : Scope.runChain ⟨r, mappers⟩ e chain = .ok w) : w.Clean := by
  cases chain with
  | single p modifiers =>
    obtain ⟨text, -, h⟩ := (Outcome.bind_eq_ok _ _ _).mp h
    exact Scope.clean_applyAll hr hmodifiers (Value.clean_str text) h
  | combined p others combiner modifiers =>
    obtain ⟨texts, -, h⟩ := (Outcome.bind_eq_ok _ _ _).mp h
    obtain ⟨first, hfirst, h⟩ := (Outcome.bind_eq_ok _ _ _).mp h
    have htexts : ∀ a ∈ texts.map Value.str, a.Clean := by
      intro a ha
      obtain ⟨t, -, rfl⟩ := List.mem_map.mp ha
      exact Value.clean_str t
    have hclean : first.Clean :=
      Registry.clean_apply hr (hmodifiers combiner (by simp [Chain.modifiers])) htexts hfirst
    exact Scope.clean_applyAll hr (fun m hm => hmodifiers m (by simp [Chain.modifiers, hm])) hclean h

theorem Scope.clean_runFull (hr : r.IsBuiltin) {e : Element} {f : FullField}
    (hmappers : ∀ m ∈ mappers, m.2.Clean) (hmodifiers : ∀ m ∈ f.chain.modifiers, m.Clean)
    (h : Scope.runFull ⟨r, mappers⟩ e f = .ok w) : w.Clean := by
  obtain ⟨v, hv, h⟩ := (Outcome.bind_eq_ok _ _ _).mp h
  split at h
  · cases h
    exact Scope.clean_runChain hr hmodifiers hv
  · exact Mappers.clean_map hmappers h

end Fields

/-! ## Records -/

section Records

variable {s : Scope} {fields : List (Text × FieldSpec)} {e : Element}
  {entries : List (Scalar × Value)} {output : Value}

theorem clean_record (hdifferent : (Ordered.keys fields).Nodup)
    (hfields : ∀ f ∈ fields, ∀ v, f.2.Yields s e v → v.Clean)
    (h : FieldSpec.YieldsRecord s fields e entries) : (Value.map entries).Clean := by
  have hkeys := keys_of_yieldsRecord h
  refine .map (fun entry hentry => ?_) ?_ ?_
  · have hkey : entry.1 ∈ Ordered.keys entries := List.mem_map_of_mem hentry
    rw [hkeys] at hkey
    obtain ⟨f, -, hname⟩ := List.mem_map.mp hkey
    exact ⟨f.1, hname.symm⟩
  · have hnames : Ordered.keys entries = (Ordered.keys fields).map .str := by
      rw [hkeys, Ordered.keys, List.map_map]
      rfl
    rw [hnames]
    exact hdifferent.map fun a b hab => Scalar.str.inj hab
  · clear hkeys hdifferent
    induction fields generalizing entries with
    | nil =>
      rw [FieldSpec.YieldsRecord] at h
      rw [h]
      simp
    | cons f rest ih =>
      obtain ⟨name, spec⟩ := f
      rw [FieldSpec.YieldsRecord] at h
      obtain ⟨v, others, rfl, hv, hothers⟩ := h
      refine List.forall_mem_cons.mpr ⟨hfields (name, spec) (by simp) v hv, ?_⟩
      exact ih (fun f hf => hfields f (by simp [hf])) hothers

theorem clean_of_anchor {record : Element → List (Scalar × Value) → Prop}
    (hrecord : ∀ e entries, record e entries → (Value.map entries).Clean) {anchor : Anchor}
    (h : anchor.Yields record e output) : output.Clean := by
  cases anchor with
  | here =>
    obtain ⟨entries, rfl, h⟩ := h
    exact hrecord _ _ h
  | within p =>
    obtain ⟨target, entries, -, rfl, h⟩ := h
    exact hrecord _ _ h
  | each p =>
    obtain ⟨parent, selected, records, -, -, rfl, h⟩ := h
    refine .list fun v hv => ?_
    obtain ⟨entries, hentries, rfl⟩ := List.mem_map.mp hv
    obtain ⟨target, -, htarget⟩ := mem_forall₂_right h hentries
    exact hrecord _ _ htarget

end Records

section Documents

variable {r : Registry} {mappers : Mappers} {e : Element} {output : Value}

theorem CollectionSpec.clean_of_yields {s : Scope} {entries : List (Scalar × Value)}
    {c : CollectionSpec}
    (hread : CollectionSpec.read entries = .ok c)
    (hfields : ∀ d ∈ entries, ∀ name spec, FieldSpec.read (some name) d.2 = .ok spec →
      ∀ e v, spec.Yields s e v → v.Clean) (h : c.Yields s e output) : output.Clean := by
  obtain ⟨-, -, built, hbuilt, -, hown⟩ := CollectionSpec.read_eq_ok.mp hread
  refine clean_of_anchor (fun target record hrecord => ?_) h
  rw [hown] at hrecord
  refine clean_record Ordered.nodup_ofList (fun f hf v hv => ?_) hrecord
  have hmem : f ∈ built := (Ordered.mem_of_mem_update hf).resolve_left (by simp)
  obtain ⟨d, hd, -, hspec⟩ := mem_forall₂_right hbuilt hmem
  exact hfields d (mem_of_mem_fieldEntries hd) f.1 f.2 hspec target v hv

/-- What a field gives that is declared by a clean value is clean. -/
theorem FieldSpec.clean_of_yields (hr : r.IsBuiltin) {name : Option Text} {declared : Value}
    {spec : FieldSpec} (hmappers : ∀ m ∈ mappers, m.2.Clean) (hdeclared : declared.Clean)
    (hread : FieldSpec.read name declared = .ok spec)
    (h : spec.Yields ⟨r, mappers⟩ e output) : output.Clean := by
  induction declared using Value.induction_on_parts generalizing name spec e output with
  | scalar s =>
    obtain ⟨raw, p, -, -, rfl⟩ := FieldSpec.read_scalar_eq_ok.mp hread
    obtain ⟨target, -, rfl⟩ := h
    exact Value.clean_str _
  | list items ih => exact absurd hread FieldSpec.read_list_ne_ok
  | map entries ih =>
    rcases FieldSpec.read_map_eq_ok.mp hread with ⟨-, path, f, -, hf, rfl⟩ | ⟨-, c, hc, rfl⟩
    · exact Scope.clean_runFull hr hmappers (FullField.clean_of_read hdeclared hf) h
    · refine CollectionSpec.clean_of_yields hc (fun d hd name spec hspec e v hv => ?_) h
      exact ih d hd ((Value.clean_map.mp hdeclared).2.2 d hd) hspec hv

/-- An extraction by a schema that is read of a clean document gives a clean value. -/
theorem Schema.clean_extract {sections : Sections} {data : Value} {schema : Schema}
    {notices : List Text} {root : Element} (hr : r.IsBuiltin) (hdata : data.Clean)
    (hread : Schema.readWith sections data = .ok (schema, notices))
    (h : schema.extract r root = .ok output) : output.Clean := by
  obtain ⟨entries, collections, section?, rfl, -, hcollections, hsection, ⟨built, hbuilt, -, hown⟩,
    builtMappers, hbuiltMappers, hownMappers⟩ := Schema.readWith_eq_ok.mp ⟨notices, hread⟩
  have hmappers : ∀ m ∈ schema.mappers, m.2.Clean := by
    intro m hm
    rw [hownMappers] at hm
    have hmem : m ∈ builtMappers := (Ordered.mem_of_mem_update hm).resolve_left (by simp)
    obtain ⟨d, hd, -, hmapper⟩ := mem_forall₂_right hbuiltMappers hmem
    refine Mapper.clean_of_read ?_ hmapper
    rcases Mapper.section?_eq_some hsection with rfl | hentry
    · cases hd
    · exact (Value.clean_map.mp (hdata.of_entry hentry)).2.2 d hd
  have hcollection : ∀ d ∈ collections, d.2.Clean :=
    (Value.clean_map.mp (hdata.of_entry hcollections)).2.2
  have hdifferent : (Ordered.keys schema.fields).Nodup := by
    have hnames : Ordered.keys schema.fields = Ordered.keys schema.collections := by
      rw [Schema.fields, Ordered.keys, List.map_map]
      rfl
    rw [hnames, hown]
    exact Ordered.nodup_ofList
  obtain ⟨record, rfl, hrecord⟩ := extract_eq_ok_iff_record.mp h
  refine clean_record hdifferent (fun f hf v hv => ?_) hrecord
  obtain ⟨c, hc, rfl⟩ := List.mem_map.mp hf
  rw [hown] at hc
  have hmem : c ∈ built := (Ordered.mem_of_mem_update hc).resolve_left (by simp)
  obtain ⟨d, hd, -, hspec⟩ := mem_forall₂_right hbuilt hmem
  obtain ⟨own, hvalue, hc'⟩ := Schema.readCollection_eq_ok.mp hspec
  have hownClean : (Value.map own).Clean := hvalue ▸ hcollection d hd
  refine CollectionSpec.clean_of_yields hc' (fun d' hd' name spec hspec e v hv => ?_) hv
  exact FieldSpec.clean_of_yields hr hmappers ((Value.clean_map.mp hownClean).2.2 d' hd') hspec hv

end Documents

/-- Whatever document a schema of a clean value is applied to, with built-in modifiers only,
what is extracted is clean, and it can be written as JSON.  With all characters written out it
is read back as it is.  In ASCII it is read back with the halves of characters joined, hence as
it is exactly when no text of it, keys included, has the two halves of a character side by
side.  Every JSON document without a NaN is a clean value. -/
theorem output_rereads_iff_undivided {sections : Sections} {data : Value} {schema : Schema}
    {notices : List Text} {registry : Registry} {root : Element} {output : Value}
    (hregistry : registry.IsBuiltin)
    (hdata : data.Clean ∨ ∃ document, Json.read document = .ok data ∧ ¬ data.Holds (.float .nan))
    (hread : Schema.readWith sections data = .ok (schema, notices))
    (hextract : schema.extract registry root = .ok output) :
    output.Clean ∧ ∀ layout, ∃ text, Json.text layout output = .ok text ∧
      Json.read text = .ok output ∧
      Json.read (text.flatMap Json.asciiForm) = .ok (output.mapTexts Text.joinHalves) ∧
      (Json.read (text.flatMap Json.asciiForm) = .ok output ↔
        ∀ s, output.Holds (.str s) → Text.Undivided s) := by
  have hclean : data.Clean := by
    rcases hdata with hclean | ⟨document, hdocument, hnan⟩
    · exact hclean
    · exact Json.clean_of_read hdocument hnan
  have houtput : output.Clean := Schema.clean_extract hregistry hclean hread hextract
  refine ⟨houtput, fun layout => ?_⟩
  obtain ⟨text, htext, hplain⟩ := Json.exists_text_read Json.spelling_plain layout houtput
  obtain ⟨text', htext', hascii⟩ := Json.exists_text_read Json.spelling_ascii layout houtput
  obtain rfl : text' = text := Except.ok.inj (htext'.symm.trans htext)
  have hself : output.mapTexts id = output := houtput.mapTexts_eq_self.mpr fun _ _ => rfl
  rw [Json.spelled, List.flatMap_singleton', hself] at hplain
  refine ⟨text', htext, hplain, hascii, ?_⟩
  simp only [← Text.joinHalves_eq_self, ← houtput.mapTexts_eq_self]
  rw [show Json.read (text'.flatMap Json.asciiForm) = _ from hascii, Except.ok.injEq]

/-! A schema with one field and one modifier. -/

def pagesEntries (modifier : Value) : List (Scalar × Value) :=
  [(.str "path", .str "pages"), (.str "modifier", modifier)]

def pagesDocument (modifier : Value) : Value :=
  .map [(.str "schemas", .map [(.str "book", .map [(.str "pages", .map (pagesEntries modifier))])])]

def pagesPath : Path := .ofTag "pages" (by decide +kernel)

def pagesField (m : ModifierRef) : FullField := ⟨.single pagesPath [m], none⟩

def pagesSchema (m : ModifierRef) : Schema :=
  ⟨[("book", ⟨.here, [("pages", .full (pagesField m))]⟩)], []⟩

def pagesRoot (text : Text) : Element := ⟨"book", [.element "pages" [.text text]]⟩

def pagesOutput (v : Value) : Value := .map [(.str "book", .map [(.str "pages", v)])]

theorem pagesDocument_read {modifier : Value} {m : ModifierRef}
    (h : ModifierRef.readAll modifier = .ok [m]) :
    ∃ notices, Schema.readWith {} (pagesDocument modifier) = .ok (pagesSchema m, notices) := by
  have hpath : Path.ofValue (.scalar (.str "pages")) = .ok pagesPath :=
    Path.ofValue_eq_ok.mpr ⟨_, rfl, Path.ofTag_writtenBy _⟩
  have hdeclared : (Value.entry? (pagesEntries modifier) "modifier").getD .null = modifier := rfl
  have hfull : FullField.read (some "pages") (pagesEntries modifier) (.str "pages") =
      .ok (pagesField m) := by
    unfold FullField.read Value.str
    dsimp only
    rw [hpath, hdeclared, h]
    rfl
  have hfields : ReadFields [(.str "pages", .map (pagesEntries modifier))]
      [("pages", .full (pagesField m))] :=
    .cons ⟨rfl, FieldSpec.read_map_eq_ok.mpr
      (.inl ⟨by simp [KeysAmong, pagesEntries], _, _, rfl, hfull, rfl⟩)⟩ .nil
  have hcollection : CollectionSpec.read [(.str "pages", .map (pagesEntries modifier))] =
      .ok ⟨.here, [("pages", .full (pagesField m))]⟩ :=
    CollectionSpec.read_eq_ok.mpr ⟨rfl, rfl, _, hfields, List.cons_ne_nil _ _, rfl⟩
  have hcollections : ReadEach Schema.readCollection
      [(.str "book", .map [(.str "pages", .map (pagesEntries modifier))])]
      (pagesSchema m).collections :=
    .cons ⟨rfl, Schema.readCollection_eq_ok.mpr ⟨_, rfl, hcollection⟩⟩ .nil
  exact Schema.readWith_eq_ok.mpr ⟨_, _, [], rfl, by simp [KeysAmong], rfl, rfl,
    ⟨_, hcollections, List.cons_ne_nil _ _, rfl⟩, [], .nil, rfl⟩

theorem clean_pagesDocument {modifier : Value} (h : modifier.Clean) :
    (pagesDocument modifier).Clean := by
  simp [pagesDocument, pagesEntries, Value.clean_map, Value.clean_str, TextKeys, Ordered.keys, h]

theorem pagesOutput_rereads : (pagesDocument (.str "to_i")).Clean ∧
    (∃ notices, Schema.readWith {} (pagesDocument (.str "to_i")) =
      .ok (pagesSchema (Builtin.toI.ref []), notices)) ∧
    (pagesSchema (Builtin.toI.ref [])).extract (.standard none) (pagesRoot "474 pages") =
      .ok (pagesOutput (.int 474)) ∧
    ∃ text, Json.text .compact (pagesOutput (.int 474)) = .ok text ∧
      Json.read text = .ok (pagesOutput (.int 474)) := by
  have hclean := clean_pagesDocument (Value.clean_str "to_i")
  have hextract : (pagesSchema (Builtin.toI.ref [])).extract (.standard none)
      (pagesRoot "474 pages") = .ok (pagesOutput (.int 474)) := rfl
  have hmodifier : ModifierRef.readAll (.str "to_i") = .ok [Builtin.toI.ref []] := rfl
  obtain ⟨notices, hread⟩ := pagesDocument_read hmodifier
  obtain ⟨text, htext, hplain, -⟩ :=
    (output_rereads_iff_undivided .standard (.inl hclean) hread hextract).2 .compact
  exact ⟨hclean, ⟨notices, hread⟩, hextract, text, htext, hplain⟩

def halves : List Value := [.str [.surrogate 61], .str [.surrogate 1536], .str ""]

def joinDocument : Value := pagesDocument (ModifierRef.spelled (.str Builtin.join.name) (.list halves))

def joinSchema : Schema := pagesSchema (Builtin.join.ref halves)

def dividedOutput : Value := pagesOutput (.str [.surrogate 61, .surrogate 1536])

/-- Two halves that a modifier puts side by side are read back as one character. -/
theorem dividedOutput_changes : joinDocument.Clean ∧
    (∃ notices, Schema.readWith {} joinDocument = .ok (joinSchema, notices)) ∧
    joinSchema.extract (.standard none) (pagesRoot "") = .ok dividedOutput ∧
    (∃ text, Json.text .compact dividedOutput = .ok text ∧
      Json.read (text.flatMap Json.asciiForm) = .ok (pagesOutput (.str "😀"))) ∧
    dividedOutput ≠ pagesOutput (.str "😀") := by
  have hclean : joinDocument.Clean := clean_pagesDocument (by
    simp [ModifierRef.spelled, halves, Value.clean_map, Value.clean_list, Value.clean_str, TextKeys,
      Ordered.keys])
  have houtput : dividedOutput.Clean := by
    simp [dividedOutput, pagesOutput, Value.clean_map, Value.clean_str, TextKeys, Ordered.keys]
  have hmodifier : ModifierRef.readAll (ModifierRef.spelled (.str Builtin.join.name) (.list halves)) =
      .ok [Builtin.join.ref halves] := by
    refine (ModifierRef.readAll_eq_mapM (some _)).trans ?_
    change List.mapM ModifierRef.read [ModifierRef.spelled _ _] = _
    rw [List.mapM_cons, Builtin.read_spelled]
    rfl
  have hkeys : ∀ s, (pagesOutput (.str s)).mapTexts Text.joinHalves =
      pagesOutput (.str (Text.joinHalves s)) := fun _ => rfl
  have hjoined : Text.joinHalves [.surrogate 61, .surrogate 1536] = "😀" := by decide +kernel
  have hreread := Json.exists_text_read Json.spelling_ascii .compact houtput
  rw [dividedOutput, hkeys, hjoined] at hreread
  have hdifferent : ([.surrogate 61, .surrogate 1536] : Text) ≠ "😀" := by decide
  refine ⟨hclean, pagesDocument_read hmodifier, rfl, hreread, ?_⟩
  simpa [dividedOutput, pagesOutput, Value.str] using hdifferent

end XmlHarvest
