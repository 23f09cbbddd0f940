import XmlHarvest.Proofs.Value.Clean

/-! # Values with other texts

What becomes of a value when every text in it is changed, keys included.  A clean value stays
as it is exactly when each of its texts does: keys that become one leave fewer entries. -/
set_option autoImplicit false

namespace XmlHarvest

def Scalar.mapText (g : Text → Text) : Scalar → Scalar
  | .str s => .str (g s)
  | s => s

namespace Value

mutual

/-- The value with every text changed; of keys that become the same the last counts. -/
def mapTexts (g : Text → Text) : Value → Value
  | .scalar s => .scalar (s.mapText g)
  | .list items => .list (mapItems g items)
  | .map entries => .ofEntries (mapMembers g entries)

def mapItems (g : Text → Text) : List Value → List Value
  | [] => []
  | v :: rest => mapTexts g v :: mapItems g rest

def mapMembers (g : Text → Text) : List (Scalar × Value) → List (Scalar × Value)
  | [] => []
  | (k, v) :: rest => (k.mapText g, mapTexts g v) :: mapMembers g rest

end

variable {g : Text → Text} {items : List Value} {entries : List (Scalar × Value)} {v : Value}

theorem mapItems_eq_self : mapItems g items = items ↔ ∀ v ∈ items, v.mapTexts g = v := by
  induction items with
  | nil => simp [mapItems]
  | cons v items ih => rw [mapItems, List.cons.injEq, ih, List.forall_mem_cons]

theorem mapMembers_eq_self : mapMembers g entries = entries ↔
    ∀ e ∈ entries, e.1.mapText g = e.1 ∧ e.2.mapTexts g = e.2 := by
  induction entries with
  | nil => simp [mapMembers]
  | cons e entries ih =>
    rw [mapMembers, List.cons.injEq, ih, List.forall_mem_cons, Prod.ext_iff]

theorem length_mapMembers : (mapMembers g entries).length = entries.length := by
  induction entries with
  | nil => rfl
  | cons e entries ih => rw [mapMembers, List.length_cons, List.length_cons, ih]

theorem textKeys_mapMembers (h : TextKeys entries) : TextKeys (mapMembers g entries) := by
  induction entries with
  | nil => exact h
  | cons e entries ih =>
    obtain ⟨⟨name, hname⟩, hrest⟩ := List.forall_mem_cons.mp h
    exact List.forall_mem_cons.mpr ⟨⟨g name, by rw [hname]; rfl⟩, ih hrest⟩

/-- A map stays as it is exactly when no entry changes, since no two keys become one then. -/
theorem mapTexts_map_eq_self (htexts : TextKeys entries)
    (hdifferent : (Ordered.keys entries).Nodup) :
    (Value.map entries).mapTexts g = .map entries ↔ mapMembers g entries = entries := by
  rw [mapTexts, ofEntries_of_textKeys (textKeys_mapMembers htexts), Value.map.injEq]
  constructor
  · intro h
    have hlength : (Ordered.ofList (mapMembers g entries)).length =
        (mapMembers g entries).length := by rw [h, length_mapMembers]
    exact (Ordered.ofList_eq_self_iff.mpr (Ordered.nodup_of_length_ofList hlength)).symm.trans h
  · intro h
    rw [h]
    exact Ordered.ofList_eq_self_iff.mpr hdifferent

/-- A clean value stays as it is exactly when all its texts do, keys included. -/
theorem Clean.mapTexts_eq_self (h : v.Clean) :
    v.mapTexts g = v ↔ ∀ s, v.Holds (.str s) → g s = s := by
  induction v using Value.induction_on_parts with
  | scalar s =>
    have htext : s.mapText g = s ↔ ∀ t, s = .str t → g t = t := by
      cases s <;> simp [Scalar.mapText]
    rw [mapTexts, Value.scalar.injEq, htext]
    constructor
    · intro hstr t ht
      cases ht
      exact hstr t rfl
    · rintro hstr t rfl
      exact hstr t (.scalar _)
  | list items ih =>
    have heach : ∀ v ∈ items, v.mapTexts g = v ↔ ∀ t, v.Holds (.str t) → g t = t :=
      fun v hv => ih v hv (clean_list.mp h v hv)
    rw [mapTexts, Value.list.injEq, mapItems_eq_self]
    constructor
    · intro hself t ht
      cases ht with
      | item hv within => exact (heach _ hv).mp (hself _ hv) t within
    · exact fun hstr v hv => (heach v hv).mpr fun t ht => hstr t (.item hv ht)
  | map entries ih =>
    obtain ⟨htexts, hdifferent, hclean⟩ := clean_map.mp h
    have heach : ∀ e ∈ entries, e.2.mapTexts g = e.2 ↔ ∀ t, e.2.Holds (.str t) → g t = t :=
      fun e he => ih e he (hclean e he)
    rw [mapTexts_map_eq_self htexts hdifferent, mapMembers_eq_self]
    constructor
    · intro hself t ht
      cases ht with
      | key hkv => exact Scalar.str.inj (hself _ hkv).1
      | entry hkv within => exact (heach _ hkv).mp (hself _ hkv).2 t within
    · intro hstr e he
      obtain ⟨name, hname⟩ := htexts e he
      obtain ⟨k, v⟩ := e
      dsimp only at hname
      subst hname
      exact ⟨congrArg Scalar.str (hstr name (.key he)),
        (heach _ he).mpr fun t ht => hstr t (.entry he ht)⟩

end Value
end XmlHarvest
