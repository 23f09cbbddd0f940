import XmlHarvest.Proofs.Chain
import XmlHarvest.Proofs.Schema.Parameters

/-! # Spellings of a field

What a schema may leave out or write in a list of one makes no difference: a path without
modifiers may stand alone, and so may the only path, the only modifier and the name of a
modifier without parameters.  What differs is the form in which the field is read; its paths,
modifiers and mapper are the same, and these decide what it gives. -/
set_option autoImplicit false

namespace XmlHarvest

open Xml

namespace FullField

structure Same (f f' : FullField) : Prop where
  paths : f.chain.paths = f'.chain.paths
  modifiers : f.chain.modifiers = f'.chain.modifiers
  mapper : f.mapper = f'.mapper

theorem Same.runFull_eq {f f' : FullField} (h : f.Same f') (s : Scope) (e : Element) :
    s.runFull e f = s.runFull e f' := by
  rw [runFull_eq_mapped, runFull_eq_mapped, runChain_eq_of_parts h.paths h.modifiers, h.mapper]

variable {name : Option Text} {entries entries' : List (Scalar × Value)} {v : Value}

def readRest (name : Option Text) (entries : List (Scalar × Value)) (paths : List Path)
    (combined : Bool) : Outcome FullField := do
  let modifiers ← ModifierRef.readAll ((Value.entry? entries "modifier").getD .null)
  if combined && modifiers.isEmpty then
    .error (.error ⟨.missingModifier, { field := name }⟩)
  else ofParts paths modifiers ((Value.entry? entries "mapper").getD .null) combined

theorem read_list (items : List Value) : read name entries (.list items) =
    items.mapM Path.ofValue >>= fun paths => readRest name entries paths true := by
  simp only [read, readRest]
  cases items.mapM Path.ofValue <;> rfl

theorem read_single (h : ∀ items, v ≠ .list items) : read name entries v =
    Path.ofValue v >>= fun p => readRest name entries [p] false := by
  cases v with
  | list items => exact absurd rfl (h items)
  | scalar s =>
    simp only [read, readRest]
    cases Path.ofValue (.scalar s) <;> rfl
  | map es =>
    simp only [read, readRest]
    cases Path.ofValue (.map es) <;> rfl

/-- What is read of a field depends on the modifiers and the mapper next to its paths. -/
theorem read_congr (hmodifier : Value.entry? entries "modifier" = Value.entry? entries' "modifier")
    (hmapper : Value.entry? entries "mapper" = Value.entry? entries' "mapper") :
    read name entries v = read name entries' v := by
  simp only [read, hmodifier, hmapper]

theorem readAll_ne_nil {declared : Option Value} {modifiers : List ModifierRef}
    (h : ModifierRef.readAll (declared.getD .null) = .ok modifiers)
    (hne : Value.modifiersOf declared ≠ []) : modifiers ≠ [] := by
  rintro rfl
  rw [ModifierRef.readAll_eq_mapM, Outcome.mapM_eq_ok, List.forall₂_nil_right_iff] at h
  exact hne h

/-- With a modifier, a single path may be listed. -/
theorem readRest_listed (hne : Value.modifiersOf (Value.entry? entries "modifier") ≠ []) (p : Path) :
    Agree Same (readRest name entries [p] false) (readRest name entries [p] true) := by
  simp only [readRest]
  cases hread : ModifierRef.readAll ((Value.entry? entries "modifier").getD .null) with
  | error failure => exact .error failure
  | ok modifiers =>
    obtain ⟨m, ms, rfl⟩ := List.exists_cons_of_ne_nil (readAll_ne_nil hread hne)
    change Agree Same (ofParts [p] (m :: ms) _ false) (ofParts [p] (m :: ms) _ true)
    simp only [ofParts, Chain.ofParts]
    cases mapperName ((Value.entry? entries "mapper").getD .null) with
    | error failure => exact .error failure
    | ok mapper => exact .ok ⟨rfl, rfl, rfl⟩

theorem read_listed (hlist : ∀ items, v ≠ .list items)
    (hne : Value.modifiersOf (Value.entry? entries "modifier") ≠ []) :
    Agree Same (read name entries v) (read name entries (.list [v])) := by
  rw [read_single hlist, read_list, List.mapM_cons, List.mapM_nil]
  cases Path.ofValue v with
  | error failure => exact .error failure
  | ok p => exact readRest_listed hne p

end FullField

/-! ## Fields with another path -/

section Replaced

variable (front back : List (Scalar × Value)) (v w : Value)

theorem entry?_of_member {k : Text} : ∃ u,
    Value.entry? (front ++ (.str k, v) :: back) k = some u := by
  refine Option.ne_none_iff_exists'.mp fun hnone => ?_
  exact Value.entry?_eq_none.mp hnone (.str k, v) (by simp) rfl

/-- Which paths are found when the path of a field is replaced. -/
theorem entry?_path_replaced : ∃ u u',
    Value.entry? (front ++ (.str "path", v) :: back) "path" = some u ∧
      Value.entry? (front ++ (.str "path", w) :: back) "path" = some u' ∧
        (u = u' ∨ u = v ∧ u' = w) := by
  obtain ⟨u, hu⟩ := entry?_of_member front back v (k := "path")
  rcases Value.entry?_replaced_self front back v w with hsame | ⟨hv, hw⟩
  · exact ⟨u, u, hu, hsame ▸ hu, .inl rfl⟩
  · exact ⟨v, w, hv, hw, .inr ⟨rfl, rfl⟩⟩

/-- A field with a path is a full field if it is one at all, whatever the path. -/
theorem FieldShape.of_replaced_path (name : Option Text) :
    Agree (fun shape shape' => ∃ u u', shape = .full u ∧ shape' = .full u' ∧
        (u = u' ∨ u = v ∧ u' = w))
      (FieldShape.of name (front ++ (.str "path", v) :: back))
      (FieldShape.of name (front ++ (.str "path", w) :: back)) := by
  have hkeys : Ordered.keys (front ++ (.str "path", v) :: back) =
      Ordered.keys (front ++ (.str "path", w) :: back) := by
    simp [Ordered.keys]
  have harray : Value.entry? (front ++ (.str "path", v) :: back) "array_of" =
      Value.entry? (front ++ (.str "path", w) :: back) "array_of" :=
    Value.entry?_replaced front back v w (by decide)
  obtain ⟨u, u', hu, hu', huu'⟩ := entry?_path_replaced front back v w
  simp only [FieldShape.of, harray, hu, hu', presentKeys_eq_of_keys hkeys,
    unknownKeys_eq_of_keys hkeys]
  cases Value.entry? (front ++ (.str "path", w) :: back) "array_of" with
  | some path =>
    have hclash : presentKeys ["mapper", "modifier", "path"]
        (front ++ (.str "path", w) :: back) ≠ [] := by
      refine List.ne_nil_of_mem (a := Text.ofString "path") (List.mem_filter.mpr ⟨by simp, ?_⟩)
      rw [hu']
      rfl
    obtain ⟨key, keys, hpresent⟩ := List.exists_cons_of_ne_nil hclash
    simp only [hpresent]
    exact .error _
  | none =>
    cases unknownKeys ["path", "modifier", "mapper"] (front ++ (.str "path", w) :: back) with
    | error fault => exact .error _
    | ok unknown =>
      cases unknown with
      | nil => exact .ok ⟨u, u', rfl, rfl, huu'⟩
      | cons key keys => exact .error _

end Replaced

namespace FieldSpec

variable {s : Scope} {name : Option Text} {e : Element}

theorem evaluate_map {entries : List (Scalar × Value)} (h : entries ≠ []) :
    evaluate s name (.map entries) e = FieldShape.of name entries >>= fun
      | .full path => FullField.read name entries path >>= fun f => s.runFull e f
      | .collection => CollectionSpec.readWith entries (FieldSpec.readFields [] entries) >>=
          fun c => s.field name c.asField e := by
  rw [evaluate, read_of_shape name h, bind_assoc]
  refine bind_congr fun shape => ?_
  cases shape with
  | full path =>
    simp only [bind_assoc]
    refine bind_congr fun f => ?_
    exact (rfl : (Except.ok (FieldSpec.full f) >>= fun spec => s.field name spec e) = _)
  | collection =>
    simp only [bind_assoc]
    exact bind_congr fun c => rfl

theorem evaluate_path_alone (p : Text) :
    evaluate s name (.str p) e = evaluate s name (.map [(.str "path", .str p)]) e := by
  have hshape : FieldShape.of name [(.str "path", .str p)] = .ok (.full (.str p)) :=
    FieldShape.of_eq_full.mpr ⟨by simp [KeysAmong], rfl⟩
  rw [evaluate_map (by simp), hshape]
  change _ = FullField.read name [(.str "path", .str p)] (.str p) >>= fun f => s.runFull e f
  rw [FullField.read_single (by simp [Value.str])]
  simp only [evaluate, Value.str, FieldSpec.read, Path.ofValue]
  cases Path.lift (Path.parse p) with
  | error failure => rfl
  | ok path =>
    have hrest : FullField.readRest name [(.str "path", .scalar (.str p))] [path] false =
        .ok ⟨.single path [], none⟩ := rfl
    change s.field name (.shorthand path) e =
      FullField.readRest name [(.str "path", .scalar (.str p))] [path] false >>= s.runFull e
    rw [hrest]
    change Value.str <$> path.textAt e = s.runFull e ⟨.single path [], none⟩
    rw [Scope.runFull, Scope.runChain]
    cases path.textAt e <;> rfl

theorem evaluate_path_listed (front back : List (Scalar × Value)) {p : Value}
    (hlist : ∀ items, p ≠ .list items)
    (hne : Value.modifiersOf (Value.entry? (front ++ (.str "path", p) :: back) "modifier") ≠ []) :
    evaluate s name (.map (front ++ (.str "path", p) :: back)) e =
      evaluate s name (.map (front ++ (.str "path", .list [p]) :: back)) e := by
  have hmodifier : Value.entry? (front ++ (.str "path", p) :: back) "modifier" =
      Value.entry? (front ++ (.str "path", .list [p]) :: back) "modifier" :=
    Value.entry?_replaced front back p _ (by decide)
  have hmapper : Value.entry? (front ++ (.str "path", p) :: back) "mapper" =
      Value.entry? (front ++ (.str "path", .list [p]) :: back) "mapper" :=
    Value.entry?_replaced front back p _ (by decide)
  rw [evaluate_map (by simp), evaluate_map (by simp)]
  refine ((FieldShape.of_replaced_path front back p (.list [p]) name).bind ?_).eq
  rintro _ _ ⟨u, u', rfl, rfl, huu'⟩
  have hread : Agree FullField.Same
      (FullField.read name (front ++ (.str "path", p) :: back) u)
      (FullField.read name (front ++ (.str "path", .list [p]) :: back) u') := by
    rw [← FullField.read_congr (v := u') hmodifier hmapper]
    rcases huu' with rfl | ⟨rfl, rfl⟩
    · cases FullField.read name (front ++ (.str "path", p) :: back) u with
      | error failure => exact .error failure
      | ok f => exact .ok ⟨rfl, rfl, rfl⟩
    · exact FullField.read_listed hlist hne
  exact hread.bind fun f f' hsame => .of_eq (hsame.runFull_eq s e)

theorem evaluate_modifier_listed (front back : List (Scalar × Value)) {r : Value}
    (hnull : r ≠ .null) (hlist : ∀ items, r ≠ .list items) :
    evaluate s name (.map (front ++ (.str "modifier", r) :: back)) e =
      evaluate s name (.map (front ++ (.str "modifier", .list [r]) :: back)) e := by
  have hone : Value.modifiersOf (some r) = [r] := by
    cases r with
    | list items => exact absurd rfl (hlist items)
    | map entries => rfl
    | scalar t =>
      cases t with
      | null => exact absurd rfl hnull
      | bool | int | float | str | time => rfl
  have hread : ModifierRef.readAll r = ModifierRef.readAll (.list [r]) := by
    have hsingle := ModifierRef.readAll_eq_mapM (some r)
    rw [hone] at hsingle
    exact hsingle
  rw [evaluate, evaluate, read_replaced front back name hread]

end FieldSpec

namespace ModifierRef

/-- A name that stands for a modifier without parameters. -/
theorem read_name (n : Text) : read (.str n) = ofName n [] := rfl

theorem read_named (n : Text) : read (.map [(.str "name", .str n)]) = ofName n [] := by
  have hkeys : KeysAmong ["name", "params"] [(.str "name", Value.str n)] := by simp [KeysAmong]
  rw [read, unknownKeys_eq_nil.mpr hkeys]
  rfl

theorem read_spelled_nil (n : Text) : read (spelled (.str n) (.list [])) = ofName n [] := by
  rw [read_spelled]
  rfl

end ModifierRef

open FieldSpec ModifierRef in
/-- The spellings of a field evaluate alike, with the same values and the same errors: a path
alone and a map with that path; the only path, with modifiers, and the list of it; the only
modifier and the list of it; and in any place of a chain the name of a modifier, a map with
that name, and one with an empty list of parameters.

A chain goes on from what its front gives: it is cut after any of its modifiers, and what is
left is applied to the value of the field that has the front for its chain and no mapper, each
modifier with its own parameters, and then mapped.  The first modifier takes the texts at all
paths, in their order and before its parameters, and without modifiers there is one text
only. -/
theorem spellings_evaluate_alike (s : Scope) (name : Option Text) (e : Element) :
    (∀ p : Text, evaluate s name (.str p) e = evaluate s name (.map [(.str "path", .str p)]) e) ∧
    (∀ front back p, (∀ items, p ≠ .list items) →
      Value.modifiersOf (Value.entry? (front ++ (.str "path", p) :: back) "modifier") ≠ [] →
      evaluate s name (.map (front ++ (.str "path", p) :: back)) e =
        evaluate s name (.map (front ++ (.str "path", .list [p]) :: back)) e) ∧
    (∀ front back r, r ≠ .null → (∀ items, r ≠ .list items) →
      evaluate s name (.map (front ++ (.str "modifier", r) :: back)) e =
        evaluate s name (.map (front ++ (.str "modifier", .list [r]) :: back)) e) ∧
    (∀ n : Text, ∀ a ∈ [.map [(.str "name", .str n)], spelled (.str n) (.list [])],
      ∀ v v', Value.Respelled (.str n) a v v' → evaluate s name v e = evaluate s name v' e) ∧
    (∀ (f : FullField) front back, f.chain.modifiers = front ++ back → front ≠ [] →
      ∃ cut : FullField, cut.chain.paths = f.chain.paths ∧
        cut.chain.isCombined = f.chain.isCombined ∧ cut.chain.modifiers = front ∧
        cut.mapper = none ∧
        s.field name (.full f) e =
          s.field name (.full cut) e >>= s.applyAll back >>= s.mapped f.mapper) ∧
    (∀ m back v transform, s.registry.Calls m.name transform → s.applyAll (m :: back) v = (do
      Outcome.ofFault (s.registry.show? m [v])
      (transform (v :: m.params)).mapError (Registry.transformation m [v])) >>= s.applyAll back) ∧
    (∀ (f : FullField) m back texts transform, f.chain.modifiers = m :: back →
      List.Forall₂ (fun p text => p.textAt e = .ok text) f.chain.paths texts →
      s.registry.Calls m.name transform → s.field name (.full f) e = (do
        Outcome.ofFault (s.registry.show? m (texts.map .str))
        (transform (texts.map .str ++ m.params)).mapError
          (Registry.transformation m (texts.map .str))) >>= s.applyAll back >>=
            s.mapped f.mapper) ∧
    ∀ f : FullField, f.chain.modifiers = [] → ∃ p, f.chain.paths = [p] ∧
      s.field name (.full f) e = p.textAt e >>= fun text => s.mapped f.mapper (.str text) := by
  refine ⟨fun p => evaluate_path_alone p, fun front back p => evaluate_path_listed front back,
    fun front back r => evaluate_modifier_listed front back, ?_, ?_, ?_, ?_, ?_⟩
  · intro n a ha v v' hv
    have hread : read (.str n) = read a := by
      rw [read_name]
      simp only [List.mem_cons, List.not_mem_nil, or_false] at ha
      rcases ha with rfl | rfl
      · exact (read_named n).symm
      · exact (read_spelled_nil n).symm
    rw [evaluate, evaluate, hv.read_eq hread name]
  · intro f front back hmodifiers hne
    obtain ⟨cut, hpaths, hform, hfront⟩ := f.chain.exists_cut hne
    refine ⟨⟨cut, none⟩, hpaths, hform, hfront, rfl, ?_⟩
    have hcut : s.runFull e ⟨cut, none⟩ = s.runChain e cut := runFull_eq_mapped.trans (bind_pure _)
    simp only [Scope.field]
    rw [hcut, ← runChain_cut hpaths hfront hne hmodifiers, runFull_eq_mapped]
  · intro m back v transform hcalls
    rw [applyAll_cons, Registry.apply_of_calls hcalls]
    rfl
  · intro f m back texts transform hmodifiers htexts hcalls
    exact runFull_of_calls hmodifiers ((Outcome.mapM_eq_ok _ _ _).mpr htexts) hcalls
  · intro f hmodifiers
    exact runFull_of_no_modifiers hmodifiers

def loudField (path : Value) : Value :=
  .map [(.str "path", path), (.str "modifier", .list [.str "strip", .str "upcase"])]

theorem evaluate_loudField :
    FieldSpec.evaluate ⟨.standard none, []⟩ none (loudField (.str "b")) pairElement =
      .ok (.str "Y") := by
  have hshape : FieldShape.of none [(.str "path", .str "b"),
      (.str "modifier", .list [.str "strip", .str "upcase"])] = .ok (.full (.str "b")) :=
    FieldShape.of_eq_full.mpr ⟨by simp [KeysAmong], rfl⟩
  rw [loudField, FieldSpec.evaluate_map (by simp), hshape]
  rfl

open FieldSpec in
/-- Its path may be listed, and its chain may be cut between the two modifiers. -/
theorem loudField_evaluates_alike :
    (∀ items, Value.str "b" ≠ .list items) ∧
    Value.modifiersOf (some (.list [.str "strip", .str "upcase"])) ≠ [] ∧
    evaluate ⟨.standard none, []⟩ none (loudField (.list [.str "b"])) pairElement =
      .ok (.str "Y") ∧
    ∃ cut : FullField, cut.chain.modifiers = [Builtin.strip.ref []] ∧
      Scope.field ⟨.standard none, []⟩ none (.full ⟨.single pathB [Builtin.strip.ref [],
          Builtin.upcase.ref []], none⟩) pairElement =
        Scope.field ⟨.standard none, []⟩ none (.full cut) pairElement >>=
          Scope.applyAll ⟨.standard none, []⟩ [Builtin.upcase.ref []] := by
  have hlist : ∀ items, Value.str "b" ≠ .list items := fun items h => by cases h
  have hne : Value.modifiersOf (some (.list [.str "strip", .str "upcase"])) ≠ [] :=
    List.cons_ne_nil _ _
  obtain ⟨-, hpath, -, -, hcut, -⟩ :=
    spellings_evaluate_alike ⟨.standard none, []⟩ none pairElement
  have hlisted := hpath [] [(.str "modifier", .list [.str "strip", .str "upcase"])] (.str "b") hlist hne
  refine ⟨hlist, hne, hlisted.symm.trans evaluate_loudField, ?_⟩
  obtain ⟨cut, -, -, hfront, -, hvalue⟩ := hcut ⟨.single pathB [Builtin.strip.ref [],
    Builtin.upcase.ref []], none⟩ [Builtin.strip.ref []] [Builtin.upcase.ref []] rfl (by simp)
  exact ⟨cut, hfront, hvalue.trans (bind_pure _)⟩

end XmlHarvest
