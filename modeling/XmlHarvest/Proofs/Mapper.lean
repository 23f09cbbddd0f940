import XmlHarvest.Mapper
import XmlHarvest.Proofs.Ordered
import XmlHarvest.Proofs.Value.Keys
import XmlHarvest.Proofs.Value.Writable

/-! # Tables of options

A table lists raw values under outputs, and reading it goes through all of them in
turn.  It stops at a raw value whose text has been listed before, and nowhere else
when all texts can be formed. -/
set_option autoImplicit false

namespace XmlHarvest.Mapper

def listed (options : List (Scalar × Value)) : List (Scalar × Value) :=
  options.flatMap fun e => (rawValues e.2).map fun raw => (e.1, raw)

def addListed (name : Text) (acc : Inversion) (e : Scalar × Value) : Outcome Inversion :=
  addRaw name e.1 acc e.2

variable {name : Text} {acc next : Inversion} {output : Scalar} {raw : Value}
  {options : List (Scalar × Value)}

theorem foldlM_addOutput :
    options.foldlM (addOutput name) acc = (listed options).foldlM (addListed name) acc := by
  induction options generalizing acc with
  | nil => rfl
  | cons e options ih =>
    have hrest : (fun acc => options.foldlM (addOutput name) acc) =
        fun acc => (listed options).foldlM (addListed name) acc := funext fun acc => ih
    rw [listed, List.flatMap_cons, List.foldlM_append, List.foldlM_cons, List.foldlM_map, hrest]
    rfl

def addKey (name : Text) (output : Scalar) (acc : Inversion) (raw : Value)
    (notices : List Text) : Outcome Inversion := do
  let key ← Outcome.ofFault raw.text?
  match Ordered.get? acc.options key with
  | some other => do
    let first ← Outcome.ofFault other.text?
    let second ← Outcome.ofFault output.text?
    .raise (.definition ("Mapper '" ++ name ++ "' declares raw value '" ++ key ++ "' for both '" ++
      first ++ "' and '" ++ second ++ "'"))
  | none => .ok ⟨acc.options ++ [(key, .scalar output)], notices⟩

theorem addKey_eq_ok {notices : List Text} : addKey name output acc raw notices = .ok next ↔
    ∃ key, raw.text? = .ok key ∧ key ∉ Ordered.keys acc.options ∧
      next = ⟨acc.options ++ [(key, .scalar output)], notices⟩ := by
  rw [addKey, Outcome.bind_eq_ok]
  simp only [Outcome.ofFault_eq_ok, ← Ordered.get?_eq_none]
  refine exists_congr fun key => and_congr_right fun _ => ?_
  cases Ordered.get? acc.options key with
  | none => simp [eq_comm]
  | some other => simp [Outcome.bind_eq_ok, Outcome.raise]

/-- A raw value that can be listed under an output: its text can be formed, and if it
is a truth value, whose notice names the output, the output's text can be formed too. -/
def Listable (e : Scalar × Value) : Prop :=
  e.2.Writable ∧ ∀ b, e.2 = .scalar (.bool b) → e.1.Writable

/-- An entry of the table that a listed raw value gives rise to. -/
def Turned (e : Scalar × Value) (entry : Text × Value) : Prop :=
  e.2.text? = .ok entry.1 ∧ entry.2 = .scalar e.1

/-- Every raw value has a text of its own. -/
def DifferentTexts (raws : List (Scalar × Value)) : Prop :=
  raws.Pairwise fun a b => a.2.text? ≠ b.2.text?

/-- A truth value is listed with a notice, all others are listed without. -/
theorem addRaw_cases (houtput : ∀ b, raw = .scalar (.bool b) → output.Writable) : ∃ notices,
    addRaw name output acc raw = addKey name output acc raw notices := by
  cases raw with
  | list items => exact ⟨_, rfl⟩
  | map entries => exact ⟨_, rfl⟩
  | scalar s =>
    cases s with
    | bool b =>
      obtain ⟨shown, hshown⟩ := output.text?_failsIff.eq_ok_iff.mpr (not_not.mpr (houtput b rfl))
      obtain ⟨truth, htruth⟩ : ∃ truth, (Scalar.bool b).text? = .ok truth := by
        cases b <;> exact ⟨_, rfl⟩
      have hadd : addRaw name output acc (.scalar (.bool b)) =
          Outcome.ofFault output.text? >>= fun shown =>
            Outcome.ofFault (Scalar.bool b).text? >>= fun truth =>
              addKey name output acc (.scalar (.bool b))
                (acc.notices ++ [notice name shown truth]) := rfl
      rw [hadd, hshown, htruth]
      exact ⟨_, rfl⟩
    | null => exact ⟨_, rfl⟩
    | int i => exact ⟨_, rfl⟩
    | float x => exact ⟨_, rfl⟩
    | str s => exact ⟨_, rfl⟩
    | time t => exact ⟨_, rfl⟩

theorem writable_of_addRaw {b : Bool} (h : addRaw name output acc (.scalar (.bool b)) = .ok next) :
    output.Writable := by
  obtain ⟨shown, hshown, -⟩ := (Outcome.bind_eq_ok _ _ _).mp h
  exact not_not.mp (output.text?_failsIff.eq_ok_iff.mp ⟨shown, Outcome.ofFault_eq_ok.mp hshown⟩)

/-- A raw value that can be listed is, unless its text is listed already. -/
theorem addListed_eq_ok {e : Scalar × Value} {table : List (Text × Value)} :
    (∃ notices, addListed name acc e = .ok ⟨table, notices⟩) ↔
      Listable e ∧ ∃ entry, Turned e entry ∧ entry.1 ∉ Ordered.keys acc.options ∧
        table = acc.options ++ [entry] := by
  obtain ⟨output, raw⟩ := e
  constructor
  · rintro ⟨notices, h⟩
    have houtput : ∀ b, raw = .scalar (.bool b) → output.Writable := by
      rintro b rfl
      exact writable_of_addRaw h
    obtain ⟨notices', hadd⟩ : ∃ notices', addRaw name output acc raw =
        addKey name output acc raw notices' := addRaw_cases houtput
    rw [addListed, hadd, addKey_eq_ok] at h
    obtain ⟨key, hkey, hnew, htable⟩ := h
    cases htable
    have hraw : raw.Writable := not_not.mp (raw.text?_failsIff.eq_ok_iff.mp ⟨key, hkey⟩)
    exact ⟨⟨hraw, houtput⟩, (key, .scalar output), ⟨hkey, rfl⟩, hnew, rfl⟩
  · rintro ⟨⟨-, houtput⟩, ⟨key, v⟩, ⟨hkey, hv⟩, hnew, rfl⟩
    obtain ⟨notices, hadd⟩ : ∃ notices, addRaw name output acc raw =
        addKey name output acc raw notices := addRaw_cases houtput
    cases hv
    exact ⟨notices, hadd.trans (addKey_eq_ok.mpr ⟨key, hkey, hnew, rfl⟩)⟩

variable {raws : List (Scalar × Value)} {table : List (Text × Value)}

/-- Listing raw values in turn adds one entry for each of them, and keeps the texts
different. -/
theorem foldlM_addListed_eq_ok (hacc : (Ordered.keys acc.options).Nodup) :
    (∃ notices, raws.foldlM (addListed name) acc = .ok ⟨table, notices⟩) ↔
      (∀ e ∈ raws, Listable e) ∧ ∃ added, List.Forall₂ Turned raws added ∧
        table = acc.options ++ added ∧ (Ordered.keys table).Nodup := by
  -- what is listed already grows with each value, so the statement is about any of it
  induction raws generalizing acc with
  | nil =>
    simp only [List.foldlM_nil, List.forall₂_nil_left_iff, exists_eq_left, List.append_nil]
    constructor
    · rintro ⟨notices, h⟩
      cases h
      exact ⟨by simp, rfl, hacc⟩
    · rintro ⟨-, rfl, -⟩
      exact ⟨acc.notices, rfl⟩
  | cons e raws ih =>
    simp only [List.foldlM_cons, Outcome.bind_eq_ok, List.forall_mem_cons,
      List.forall₂_cons_left_iff]
    have hsplit : ∀ (entry : Text × Value) added,
        acc.options ++ entry :: added = (acc.options ++ [entry]) ++ added := by simp
    constructor
    · rintro ⟨notices, ⟨options, notices'⟩, hadd, hrest⟩
      obtain ⟨hlistable, entry, hentry, hnew, rfl⟩ := addListed_eq_ok.mp ⟨notices', hadd⟩
      obtain ⟨hall, added, hadded, htable, hnodup⟩ :=
        (ih ((Ordered.nodup_append_one hacc).mpr hnew)).mp ⟨notices, hrest⟩
      exact ⟨⟨hlistable, hall⟩, entry :: added, ⟨entry, added, hentry, hadded, rfl⟩,
        htable.trans (hsplit entry added).symm, hnodup⟩
    · rintro ⟨⟨hlistable, hall⟩, _, ⟨entry, added, hentry, hadded, rfl⟩, htable, hnodup⟩
      rw [hsplit] at htable
      have hfirst : (Ordered.keys (acc.options ++ [entry])).Nodup := by
        rw [htable, Ordered.keys_append] at hnodup
        exact hnodup.of_append_left
      obtain ⟨notices', hadd⟩ := addListed_eq_ok.mpr
        ⟨hlistable, entry, hentry, (Ordered.nodup_append_one hacc).mp hfirst, rfl⟩
      obtain ⟨notices, hrest⟩ := (@ih ⟨acc.options ++ [entry], notices'⟩ hfirst).mpr
        ⟨hall, added, hadded, htable, hnodup⟩
      exact ⟨notices, _, hadd, hrest⟩

theorem mem_keys_of_turned (h : List.Forall₂ Turned raws table) (key : Text) :
    key ∈ Ordered.keys table ↔ ∃ e ∈ raws, e.2.text? = .ok key :=
  Ordered.mem_keys_of_keyed (h.imp fun _ _ hentry => hentry.1)

theorem nodup_of_turned (h : List.Forall₂ Turned raws table) :
    (Ordered.keys table).Nodup ↔ DifferentTexts raws :=
  Ordered.nodup_keys_of_keyed (h.imp fun _ _ hentry => hentry.1)

theorem exists_turned (h : ∀ e ∈ raws, e.2.Writable) : ∃ table, List.Forall₂ Turned raws table := by
  induction raws with
  | nil => exact ⟨[], .nil⟩
  | cons e raws ih =>
    obtain ⟨hfirst, hrest⟩ := List.forall_mem_cons.mp h
    obtain ⟨key, hkey⟩ := e.2.text?_failsIff.eq_ok_iff.mpr (not_not.mpr hfirst)
    obtain ⟨table, htable⟩ := ih hrest
    exact ⟨(key, .scalar e.1) :: table, .cons ⟨hkey, rfl⟩ htable⟩

theorem writable_rawValues {v : Value} (h : v.Writable) : ∀ w ∈ rawValues v, w.Writable := by
  cases v with
  | list items => exact Value.writable_list.mp h
  | scalar s => simpa [rawValues] using h
  | map entries => simpa [rawValues] using h

theorem writable_listed (h : (Value.map options).Writable) :
    ∀ e ∈ listed options, e.1.Writable ∧ e.2.Writable := by
  intro e he
  obtain ⟨⟨k, v⟩, hkv, he⟩ := List.mem_flatMap.mp he
  obtain ⟨w, hw, rfl⟩ := List.mem_map.mp he
  obtain ⟨hk, hv⟩ := Value.writable_map.mp h _ hkv
  exact ⟨hk, writable_rawValues hv w hw⟩

theorem section?_eq_some {declared : Option Value} (h : section? declared = some options) :
    options = [] ∨ declared = some (.map options) := by
  cases declared with
  | none =>
    cases h
    exact .inl rfl
  | some v =>
    cases v with
    | map entries =>
      cases h
      exact .inr rfl
    | scalar s =>
      simp only [section?, Option.ite_none_left_eq_some, Option.some.injEq] at h
      exact .inl h.2.symm
    | list items =>
      simp only [section?, Option.ite_none_left_eq_some, Option.some.injEq] at h
      exact .inl h.2.symm

/-- What a definition declares: options, and the value for all that they do not
list. -/
def Declares (definition : Value) (options : List (Scalar × Value)) (default : Value) : Prop :=
  ∃ entries, definition = .map entries ∧ KeysAmong ["default", "options"] entries ∧
    Mapper.section? (Value.entry? entries "options") = some options ∧
    (Value.entry? entries "default").getD .null = default

/-- A mapper is read from what its definition declares: its table is the one that is
listed, turned round. -/
theorem read_eq_ok {definition : Value} {m : Mapper} :
    (∃ notices, read name definition = .ok (m, notices)) ↔
      ∃ options default table, Declares definition options default ∧
        (∀ e ∈ listed options, Listable e) ∧ List.Forall₂ Turned (listed options) table ∧
        (Ordered.keys table).Nodup ∧ m = ⟨name, default, table⟩ := by
  cases definition with
  | scalar s => simp [read, Declares, Outcome.raise]
  | list items => simp [read, Declares, Outcome.raise]
  | map entries =>
    have hempty : (Ordered.keys ({} : Inversion).options).Nodup := List.nodup_nil
    constructor
    · rintro ⟨notices, h⟩
      rw [read, unknownKeys_bind_eq_ok fun unknown hne => by simp [hne, Outcome.raise]] at h
      obtain ⟨hkeys, h⟩ := h
      simp only [List.isEmpty_nil, Bool.not_true, Bool.false_eq_true, if_false] at h
      cases hsection : section? (Value.entry? entries "options") with
      | none => simp [hsection, Outcome.raise] at h
      | some options =>
        simp only [hsection, foldlM_addOutput, Outcome.bind_eq_ok] at h
        obtain ⟨⟨table, notices'⟩, hfold, hm⟩ := h
        cases hm
        obtain ⟨hlistable, added, hturned, htable, hnodup⟩ :=
          (foldlM_addListed_eq_ok hempty).mp ⟨notices', hfold⟩
        rw [List.nil_append] at htable
        subst htable
        exact ⟨options, _, table, ⟨entries, rfl, hkeys, hsection, rfl⟩, hlistable, hturned, hnodup,
          rfl⟩
    · rintro ⟨options, default, table, ⟨entries', hentries, hkeys, hsection, rfl⟩, hlistable,
        hturned, hnodup, rfl⟩
      cases hentries
      obtain ⟨notices, hfold⟩ : ∃ notices, (listed options).foldlM (addListed name) {} =
          .ok ⟨table, notices⟩ :=
        (foldlM_addListed_eq_ok hempty).mpr ⟨hlistable, table, hturned, rfl, hnodup⟩
      refine ⟨notices, ?_⟩
      rw [read, unknownKeys_bind_eq_ok fun unknown hne => by simp [hne, Outcome.raise]]
      refine ⟨hkeys, ?_⟩
      simp only [List.isEmpty_nil, Bool.not_true, Bool.false_eq_true, if_false, hsection,
        foldlM_addOutput, hfold]
      rfl

/-- A definition is read exactly when all that it lists can be listed, each raw value
under a text of its own. -/
theorem exists_read_iff_declares {definition : Value} :
    (∃ m, read name definition = .ok m) ↔ ∃ options default, Declares definition options default ∧
      (∀ e ∈ listed options, Listable e) ∧ DifferentTexts (listed options) := by
  constructor
  · rintro ⟨⟨m, notices⟩, h⟩
    obtain ⟨options, default, table, hdeclares, hlistable, hturned, hnodup, -⟩ :=
      read_eq_ok.mp ⟨notices, h⟩
    exact ⟨options, default, hdeclares, hlistable, (nodup_of_turned hturned).mp hnodup⟩
  · rintro ⟨options, default, hdeclares, hlistable, hdifferent⟩
    obtain ⟨table, hturned⟩ := exists_turned fun e he => (hlistable e he).1
    obtain ⟨notices, h⟩ : ∃ notices, read name definition = .ok (⟨name, default, table⟩, notices) :=
      read_eq_ok.mpr ⟨options, default, table, hdeclares, hlistable, hturned,
        (nodup_of_turned hturned).mpr hdifferent, rfl⟩
    exact ⟨_, h⟩

/-- A definition is read when its keys are known, its options are a section, and no
two of the raw values that it lists have the same text. -/
theorem exists_read {definition : Value} (hwritable : definition.Writable) :
    (∃ m, read name definition = .ok m) ↔
      ∃ entries options, definition = .map entries ∧ KeysAmong ["default", "options"] entries ∧
        Mapper.section? (Value.entry? entries "options") = some options ∧
        ((listed options).map (·.2)).Pairwise (fun a b => a.text? ≠ b.text?) := by
  rw [exists_read_iff_declares]
  simp only [List.pairwise_map]
  constructor
  · rintro ⟨options, default, ⟨entries, rfl, hkeys, hsection, -⟩, -, hdifferent⟩
    exact ⟨entries, options, rfl, hkeys, hsection, hdifferent⟩
  · rintro ⟨entries, options, rfl, hkeys, hsection, hdifferent⟩
    refine ⟨options, _, ⟨entries, rfl, hkeys, hsection, rfl⟩, ?_, hdifferent⟩
    rcases section?_eq_some hsection with rfl | hentry
    · simp [listed]
    · intro e he
      have hmem := Value.entry?_eq_some hentry
      have hlisted := writable_listed (Value.writable_map.mp hwritable _ hmem).2 e he
      exact ⟨hlisted.2, fun _ _ => hlisted.1⟩

end XmlHarvest.Mapper
