import XmlHarvest.Proofs.Modifier.Lookup
import XmlHarvest.Proofs.Path.RoundTrip
import XmlHarvest.Proofs.Schema.Declared
import XmlHarvest.Proofs.Schema.Grammar

/-! # A parameter without a list

A modifier with one parameter may be written with the parameter in place of the list that
holds it.  Both are read alike if the parameter counts as true; a parameter that counts as
false is read as none at all, and what is called then takes the last of its values for it
or misses it. -/
set_option autoImplicit false

namespace XmlHarvest

open Xml

namespace ModifierRef

/-- A modifier written with a name and with what stands for its parameters. -/
def spelled (name params : Value) : Value := .map [(.str "name", name), (.str "params", params)]

/-- The list that stands for the same parameters as a parameter without a list. -/
def listed (p : Value) : Value := .list (if p.truthy then [p] else [])

variable {n p : Value} {ps qs : List Value}

theorem read_spelled : read (spelled n p) = ofValue n (readParams (some p)) := by
  have hkeys : KeysAmong ["name", "params"] [(.str "name", n), (.str "params", p)] := by
    simp [KeysAmong]
  rw [spelled, read, unknownKeys_eq_nil.mpr hkeys]
  rfl

/-- A parameter that is no list stands for a list of itself, or for no parameter. -/
theorem readParams_single (hnull : p ≠ .null) (hlist : ∀ items, p ≠ .list items) :
    readParams (some p) = if p.truthy then [p] else [] := by
  cases p with
  | scalar s =>
    cases s with
    | null => exact absurd rfl hnull
    | bool | int | float | str | time => rfl
  | list items => exact absurd rfl (hlist items)
  | map entries => rfl

/-- What a name is read as tells the parameters apart. -/
theorem ofValue_eq_iff : ofValue n ps = ofValue n qs ↔ ps = qs ∨ ¬ n.IsName := by
  by_cases hname : n.IsName
  · obtain ⟨s, rfl, hs⟩ := hname
    have hof : ∀ params, ofValue (.scalar (.str s)) params = .ok ⟨s, params, hs⟩ := fun params => by
      rw [ofValue, ofName, dif_pos hs]
    rw [hof, hof]
    simp [Value.IsName, hs]
  · -- without a name the parameters are not looked at
    have hfail : ∀ params, ofValue n params = ofValue n [] := by
      intro params
      unfold ofValue
      split
      · rename_i s
        have hs : ¬ Text.isBlankText s = false := fun hs => hname ⟨s, rfl, hs⟩
        rw [ofName, ofName, dif_neg hs, dif_neg hs]
      · rfl
    rw [hfail ps, hfail qs]
    simp [hname]

/-- How a modifier with a name is read tells the parameters apart. -/
theorem readAll_spelled_eq_iff {q : Value} : readAll (spelled n p) = readAll (spelled n q) ↔
    readParams (some p) = readParams (some q) ∨ ¬ n.IsName := by
  have hsingle : ∀ x y : Outcome ModifierRef,
      ((do .ok [← x]) : Outcome (List ModifierRef)) = (do .ok [← y]) ↔ x = y := by
    intro x y
    cases x <;> cases y <;> simp [bind, Except.bind]
  rw [← ofValue_eq_iff, ← read_spelled, ← read_spelled]
  exact hsingle _ _

theorem read_spelled_single (hnull : p ≠ .null) (hlist : ∀ items, p ≠ .list items) :
    read (spelled n p) = read (spelled n (listed p)) := by
  rw [read_spelled, read_spelled, readParams_single hnull hlist]
  rfl

/-- Chains that differ in one modifier, which is read alike, are read alike. -/
theorem readAll_congr {m m' a a' : Value} {before after : List Value} (h : read a = read a')
    (hm : Value.modifiersOf (some m) = before ++ a :: after)
    (hm' : Value.modifiersOf (some m') = before ++ a' :: after) : readAll m = readAll m' := by
  have hchain : ∀ v : Value, readAll v = (Value.modifiersOf (some v)).mapM read := fun v =>
    readAll_eq_mapM (some v)
  rw [hchain, hchain, hm, hm', List.mapM_append, List.mapM_append, List.mapM_cons, List.mapM_cons,
    h]

end ModifierRef

/-! ## Fields that differ in one modifier -/

section Respelled

variable {entries : List (Scalar × Value)} (front back : List (Scalar × Value)) {m m' : Value}
  (name : Option Text)

/-- The shape of a field does not depend on its modifiers. -/
theorem FieldShape.of_replaced :
    FieldShape.of name (front ++ (.str "modifier", m) :: back) =
      FieldShape.of name (front ++ (.str "modifier", m') :: back) := by
  have hkeys : Ordered.keys (front ++ (.str "modifier", m) :: back) =
      Ordered.keys (front ++ (.str "modifier", m') :: back) := by
    simp [Ordered.keys]
  have harray : Value.entry? (front ++ (.str "modifier", m) :: back) "array_of" =
      Value.entry? (front ++ (.str "modifier", m') :: back) "array_of" :=
    Value.entry?_replaced front back m m' (by decide)
  have hpath : Value.entry? (front ++ (.str "modifier", m) :: back) "path" =
      Value.entry? (front ++ (.str "modifier", m') :: back) "path" :=
    Value.entry?_replaced front back m m' (by decide)
  simp only [FieldShape.of, harray, hpath, presentKeys_eq_of_keys hkeys,
    unknownKeys_eq_of_keys hkeys]

theorem FullField.read_replaced (path : Value)
    (h : ModifierRef.readAll m = ModifierRef.readAll m') :
    FullField.read name (front ++ (.str "modifier", m) :: back) path =
      FullField.read name (front ++ (.str "modifier", m') :: back) path := by
  have hmodifiers :
      ModifierRef.readAll ((Value.entry? (front ++ (.str "modifier", m) :: back) "modifier").getD
          .null) =
        ModifierRef.readAll ((Value.entry? (front ++ (.str "modifier", m') :: back) "modifier").getD
          .null) := by
    rcases Value.entry?_replaced_self front back m m' with hsame | ⟨hm, hm'⟩
    · rw [hsame]
    · rw [hm, hm']
      exact h
  have hmapper : Value.entry? (front ++ (.str "modifier", m) :: back) "mapper" =
      Value.entry? (front ++ (.str "modifier", m') :: back) "mapper" :=
    Value.entry?_replaced front back m m' (by decide)
  simp only [FullField.read, hmodifiers, hmapper]

/-- How a field that is a map is read depends on its shape. -/
theorem FieldSpec.read_of_shape (h : entries ≠ []) : FieldSpec.read name (.map entries) =
    (FieldShape.of name entries >>= fun
      | .full path => FullField.read name entries path >>= fun f => .ok (.full f)
      | .collection => CollectionSpec.readWith entries (FieldSpec.readFields [] entries) >>=
          fun c => .ok c.asField) := by
  cases entries with
  | nil => exact absurd rfl h
  | cons entry more =>
    unfold FieldSpec.read
    refine bind_congr fun shape => ?_
    cases shape <;> rfl

/-- A field is read alike with other modifiers that are read alike. -/
theorem FieldSpec.read_replaced (h : ModifierRef.readAll m = ModifierRef.readAll m') :
    FieldSpec.read name (.map (front ++ (.str "modifier", m) :: back)) =
      FieldSpec.read name (.map (front ++ (.str "modifier", m') :: back)) := by
  rw [FieldSpec.read_of_shape name (by simp), FieldSpec.read_of_shape name (by simp),
    FieldShape.of_replaced (m := m) front back name]
  cases hshape : FieldShape.of name (front ++ (.str "modifier", m') :: back) with
  | error failure => rfl
  | ok shape =>
    cases shape with
    | full path => simp only [bind, Except.bind, FullField.read_replaced front back name path h]
    | collection =>
      -- a collection has no modifiers
      have hnone := FieldShape.of_eq_collection.mp hshape "modifier" (by simp)
      have hmember : (.str "modifier", m') ∈ front ++ (Scalar.str "modifier", m') :: back :=
        List.mem_append_right _ List.mem_cons_self
      exact absurd rfl (Value.entry?_eq_none.mp hnone _ hmember)

end Respelled

/-- Two fields as they are written, alike but for one modifier of their chains. -/
inductive Value.Respelled (a a' : Value) : Value → Value → Prop
  | chain {front back : List (Scalar × Value)} {m m' : Value} {before after : List Value}
      (chained : modifiersOf (some m) = before ++ a :: after)
      (respelled : modifiersOf (some m') = before ++ a' :: after) :
      Respelled a a' (.map (front ++ (.str "modifier", m) :: back))
        (.map (front ++ (.str "modifier", m') :: back))

/-- Fields are read alike if the modifiers in which they differ are. -/
theorem Value.Respelled.read_eq {a a' v v' : Value} (hv : Value.Respelled a a' v v')
    (h : ModifierRef.read a = ModifierRef.read a') (name : Option Text) :
    FieldSpec.read name v = FieldSpec.read name v' := by
  cases hv with
  | chain hm hm' => exact FieldSpec.read_replaced _ _ name (ModifierRef.readAll_congr h hm hm')

def FieldSpec.evaluate (s : Scope) (name : Option Text) (written : Value) (e : Element) :
    Outcome Value := do
  s.field name (← FieldSpec.read name written) e

/-! ## Calls -/

def Registry.call (r : Registry) (written : Value) (values : List Value) : Outcome Value := do
  r.apply (← ModifierRef.read written) values

namespace Builtin

theorem name_not_blank (b : Builtin) : Text.isBlankText b.name = false := by
  cases b <;> decide +kernel

def ref (b : Builtin) (params : List Value) : ModifierRef := ⟨b.name, params, b.name_not_blank⟩

theorem read_spelled (b : Builtin) (p : Value) :
    ModifierRef.read (ModifierRef.spelled (.str b.name) p) =
      .ok (b.ref (ModifierRef.readParams (some p))) := by
  rw [ModifierRef.read_spelled, Value.str, ModifierRef.ofValue, ModifierRef.ofName,
    dif_pos b.name_not_blank]
  rfl

theorem apply_ref (b : Builtin) (capability : Option Capability) (params values : List Value) :
    (Registry.standard capability).apply (b.ref params) values =
      (Outcome.ofFault (b.apply (values ++ params))).mapError
        (Registry.transformation (b.ref params) values) := by
  have hcalls : (Registry.standard capability).Calls (b.ref params).name _ :=
    Registry.standard_calls b capability
  exact Registry.apply_quiet rfl hcalls

theorem call_spelled (b : Builtin) (capability : Option Capability) (p : Value)
    (values : List Value) :
    (Registry.standard capability).call (ModifierRef.spelled (.str b.name) p) values =
      (Outcome.ofFault (b.apply (values ++ ModifierRef.readParams (some p)))).mapError
        (Registry.transformation (b.ref (ModifierRef.readParams (some p))) values) := by
  rw [Registry.call, read_spelled]
  exact b.apply_ref capability _ values

/-- Texts are joined with the text of what comes after them. -/
theorem joinValues_texts {texts : List Text} {v : Value} {separator : Text} (h : texts ≠ [])
    (hseparator : v.text? = .ok separator) :
    joinValues (texts.map .str ++ [v]) = .ok (.str (separator.intercalate texts)) := by
  have hparts : (texts.map Value.str).mapM Value.plainText = .ok texts := by
    rw [List.mapM_map]
    have hpure : Value.plainText ∘ Value.str = fun text => (pure text : Except Fault Text) := rfl
    rw [hpure, List.mapM_pure, List.map_id']
    rfl
  cases hreversed : texts.reverse with
  | nil => exact absurd (List.reverse_eq_nil_iff.mp hreversed) h
  | cons last others =>
    have hargs : (texts.map Value.str ++ [v]).reverse = v :: .str last :: others.map .str := by
      rw [List.reverse_append, ← List.map_reverse, hreversed]
      rfl
    have htexts : (Value.str last :: others.map .str).reverse = texts.map .str := by
      rw [← List.map_cons, ← hreversed, List.map_reverse, List.reverse_reverse]
    simp only [joinValues, hargs, htexts, hseparator, hparts]
    rfl

/-- What is called with texts and one value more joins the texts with that value's text. -/
theorem call_join (capability : Option Capability) {p v : Value} {values : List Value}
    {texts : List Text} {separator : Text} (h : texts ≠ [])
    (hargs : values ++ ModifierRef.readParams (some p) = texts.map .str ++ [v])
    (hseparator : v.text? = .ok separator) :
    (Registry.standard capability).call (ModifierRef.spelled (.str "join") p) values =
      .ok (.str (separator.intercalate texts)) := by
  refine (call_spelled .join capability p values).trans ?_
  have hjoin : join.apply (texts.map .str ++ [v]) = .ok (.str (separator.intercalate texts)) :=
    joinValues_texts h hseparator
  rw [hargs, hjoin]
  rfl

theorem call_defaultIfBlank (capability : Option Capability) {p fallback : Value}
    (h : ModifierRef.readParams (some p) = [fallback]) (text : Text) :
    (Registry.standard capability).call (ModifierRef.spelled (.str "default_if_blank") p)
      [.str text] = .ok (if Text.isBlankText text then fallback else .str text) := by
  refine (call_spelled .defaultIfBlank capability p [.str text]).trans ?_
  rw [h]
  rfl

/-- Without a parameter the fallback is reported as missing. -/
theorem call_defaultIfBlank_missing (capability : Option Capability) {p : Value}
    (h : ModifierRef.readParams (some p) = []) (text : Text) :
    (Registry.standard capability).call (ModifierRef.spelled (.str "default_if_blank") p)
      [.str text] = .error (.of (.transformation
        ("Modifier 'default_if_blank' failed on value " ++ Text.quote text ++
          ": default_if_blank() missing 1 required positional argument: 'fallback'")
        (some "default_if_blank") (some (.str text))
        (some (.fault (.missingArguments "default_if_blank" ["fallback"]))))) := by
  refine (call_spelled .defaultIfBlank capability p [.str text]).trans ?_
  have hreason : (Failure.fault (.missingArguments "default_if_blank" ["fallback"])).text? =
      .ok "default_if_blank() missing 1 required positional argument: 'fallback'" := by
    decide +kernel
  have hreport : Registry.transformation (defaultIfBlank.ref []) [.str text]
      (.fault (.missingArguments "default_if_blank" ["fallback"])) = _ :=
    Registry.transformation_of_texts rfl hreason
  have hmessage : "Modifier '" ++ "default_if_blank" ++ "' failed on value " ++ Text.quote text ++
      ": " ++ "default_if_blank() missing 1 required positional argument: 'fallback'" =
        "Modifier 'default_if_blank' failed on value " ++ Text.quote text ++
          ": default_if_blank() missing 1 required positional argument: 'fallback'" := by
    have hassoc (s : Text) : s ++ ": " ++
        "default_if_blank() missing 1 required positional argument: 'fallback'" =
          s ++ ": default_if_blank() missing 1 required positional argument: 'fallback'" := by
      rw [List.append_assoc]
      rfl
    exact hassoc _
  rw [h, ← hmessage]
  exact congrArg Except.error hreport

end Builtin

open ModifierRef in
/-- A parameter that is neither null nor a list means the list that holds it exactly if it
counts as true, and no parameter otherwise, wherever in the chain of a field its modifier
stands.  So a parameter that counts as true separates what is joined and stands in for a
blank text; in place of one that counts as false the last of the texts separates the others,
and the fallback is reported as missing. -/
theorem single_parameter_is_listed_iff_true (p : Value) (hnull : p ≠ .null)
    (hlist : ∀ items, p ≠ .list items) :
    (∀ n, readAll (spelled n p) = readAll (spelled n (.list [p])) ↔
      p.truthy = true ∨ ¬ n.IsName) ∧
    (∀ n v v', Value.Respelled (spelled n p) (spelled n (listed p)) v v' →
      ∀ s name e, FieldSpec.evaluate s name v e = FieldSpec.evaluate s name v' e) ∧
    (∀ capability texts, texts ≠ [] →
      (p.truthy = true → ∀ separator, p.text? = .ok separator →
        (Registry.standard capability).call (spelled (.str "join") p) (texts.map .str) =
          .ok (.str (separator.intercalate texts))) ∧
      (p.truthy = false → ∀ last,
        (Registry.standard capability).call (spelled (.str "join") p)
          ((texts ++ [last]).map .str) = .ok (.str (last.intercalate texts)))) ∧
    ∀ capability text,
      (Registry.standard capability).call (spelled (.str "default_if_blank") p) [.str text] =
        if p.truthy then .ok (if Text.isBlankText text then p else .str text)
        else .error (.of (.transformation
          ("Modifier 'default_if_blank' failed on value " ++ Text.quote text ++
            ": default_if_blank() missing 1 required positional argument: 'fallback'")
          (some "default_if_blank") (some (.str text))
        (some (.fault (.missingArguments "default_if_blank" ["fallback"]))))) := by
  have hparams := readParams_single hnull hlist
  refine ⟨fun n => ?_, fun n v v' hv s name e => ?_, fun capability texts htexts => ⟨?_, ?_⟩,
    fun capability text => ?_⟩
  · rw [readAll_spelled_eq_iff, hparams]
    have hlisted : readParams (some (.list [p])) = [p] := rfl
    cases htruth : p.truthy <;> simp [hlisted]
  · have hread := hv.read_eq (read_spelled_single hnull hlist) name
    rw [FieldSpec.evaluate, FieldSpec.evaluate, hread]
  · intro htrue separator hseparator
    exact Builtin.call_join capability htexts (by rw [hparams, if_pos htrue]) hseparator
  · intro hfalse last
    refine Builtin.call_join capability htexts (v := .str last) ?_ rfl
    simp [hparams, hfalse]
  · cases htruth : p.truthy with
    | true => exact Builtin.call_defaultIfBlank capability (by rw [hparams, if_pos htruth]) text
    | false => exact Builtin.call_defaultIfBlank_missing capability (by simp [hparams, htruth]) text

open ModifierRef in
/-- A comma separates what is joined, as itself as in a list. -/
theorem comma_is_listed :
    ((Value.str ", " ≠ .null) ∧ ∀ items, Value.str ", " ≠ .list items) ∧
    readAll (spelled (.str "join") (.str ", ")) =
      readAll (spelled (.str "join") (.list [.str ", "])) ∧
    (Registry.standard none).call (spelled (.str "join") (.str ", ")) [.str "a", .str "b"] =
      .ok (.str "a, b") := by
  have hnull : Value.str ", " ≠ .null := by simp [Value.str, Value.null]
  have hlist : ∀ items, Value.str ", " ≠ .list items := fun items h => by cases h
  obtain ⟨hread, -, hjoin, -⟩ := single_parameter_is_listed_iff_true (.str ", ") hnull hlist
  exact ⟨⟨hnull, hlist⟩, (hread _).mpr (.inl rfl), (hjoin none ["a", "b"] (by simp)).1 rfl ", " rfl⟩

/-- A field that joins the texts at two paths with a separator. -/
def joinedField (p q : Path) (separator : Value) : Value :=
  .map [(.str "path", .list [.str p.text, .str q.text]),
    (.str "modifier", ModifierRef.spelled (.str "join") separator)]

open ModifierRef in
theorem read_joinedField (p q : Path) (separator : Value) :
    FieldSpec.read none (joinedField p q separator) =
      .ok (.full ⟨.combined p [q] (Builtin.join.ref (readParams (some separator))) [], none⟩) := by
  have hpath : ∀ p : Path, Path.ofValue (.str p.text) = .ok p := fun p =>
    Path.lift_eq_ok.mpr (Path.parse_text p)
  have hpaths : [Value.str p.text, .str q.text].mapM Path.ofValue = .ok [p, q] := by
    rw [List.mapM_cons, List.mapM_cons, hpath, hpath]
    rfl
  have hchain : readAll (spelled (.str "join") separator) =
      .ok [Builtin.join.ref (readParams (some separator))] := by
    have hread := Builtin.read_spelled .join separator
    exact congrArg (fun x : Outcome ModifierRef => x >>= fun ref => .ok [ref]) hread
  refine FieldSpec.read_map_eq_ok.mpr (.inl ⟨by simp [KeysAmong], _, _, rfl, ?_, rfl⟩)
  change ([Value.str p.text, .str q.text].mapM Path.ofValue >>= fun paths =>
    readAll (spelled (.str "join") separator) >>= fun modifiers =>
      if true && modifiers.isEmpty then _ else FullField.ofParts paths modifiers .null true) = _
  rw [hpaths, hchain]
  rfl

def pairElement : Element := ⟨"r", [.element "a" [.text "x"], .element "b" [.text "y"]]⟩

open ModifierRef in
/-- The empty text separates nothing unless it is listed: the second of two texts is taken
for the separator, and only the first is left. -/
theorem empty_separator_is_lost :
    readAll (spelled (.str "join") (.str "")) ≠
      readAll (spelled (.str "join") (.list [.str ""])) ∧
    FieldSpec.evaluate ⟨.standard none, []⟩ none (joinedField pathA pathB (.str "")) pairElement =
      .ok (.str "x") ∧
    FieldSpec.evaluate ⟨.standard none, []⟩ none (joinedField pathA pathB (.list [.str ""]))
      pairElement = .ok (.str "xy") := by
  refine ⟨?_, ?_, ?_⟩
  · rw [Ne, readAll_spelled_eq_iff, not_or, not_not]
    exact ⟨by simp [readParams, Value.str, Value.truthy, Scalar.truthy], "join", rfl,
      by decide +kernel⟩
  · rw [FieldSpec.evaluate, read_joinedField]
    rfl
  · rw [FieldSpec.evaluate, read_joinedField]
    rfl

end XmlHarvest
