import Mathlib.Data.List.Forall2
import Mathlib.Data.List.Nodup
import Mathlib.Data.List.Perm.Subperm
import XmlHarvest.Ordered

/-! # Tables written one after the other

A table that was written key by key has each key once.  When such a table is
written into another one, what is written into it before may as well be written
into that other one after it; so tables can be made in parts. -/
set_option autoImplicit false

namespace XmlHarvest.Ordered

/-- The table `t` after the entries of `more` are written into it. -/
def update {α β : Type} [BEq α] (t more : List (α × β)) : List (α × β) :=
  more.foldl (fun table (k, v) => put k v table) t

variable {α β : Type} {t more a b : List (α × β)} {k k' : α} {v v' : β}

theorem keys_append : keys (t ++ more) = keys t ++ keys more := List.map_append

theorem nodup_append_one {e : α × β} (h : (keys t).Nodup) :
    (keys (t ++ [e])).Nodup ↔ e.1 ∉ keys t := by
  rw [keys_append, List.nodup_append]
  constructor
  · rintro ⟨-, -, hdisjoint⟩ hmem
    exact hdisjoint e.1 hmem e.1 (by simp [keys]) rfl
  · intro hnew
    refine ⟨h, by simp [keys], ?_⟩
    intro a ha b hb
    obtain rfl : b = e.1 := by simpa [keys] using hb
    rintro rfl
    exact hnew ha

section Keyed

variable {ι ε : Type} {key : ι → Except ε α} {as : List ι}

/-- A table in which each entry has the key of what it was made of. -/
theorem mem_keys_of_keyed (h : List.Forall₂ (fun a e => key a = .ok e.1) as t) :
    k ∈ keys t ↔ ∃ a ∈ as, key a = .ok k := by
  induction h with
  | nil => simp [keys]
  | cons hentry _ ih =>
    rw [keys] at ih ⊢
    simp [ih, hentry, eq_comm]

theorem nodup_keys_of_keyed (h : List.Forall₂ (fun a e => key a = .ok e.1) as t) :
    (keys t).Nodup ↔ as.Pairwise fun a b => key a ≠ key b := by
  induction h with
  | nil => simp [keys]
  | @cons a e as t hentry hrest ih =>
    have hnew := mem_keys_of_keyed (k := e.1) hrest
    rw [List.pairwise_cons, ← ih]
    change (e.1 :: keys t).Nodup ↔ _
    rw [List.nodup_cons, hnew, hentry]
    simp [eq_comm]

end Keyed

section Equations

variable [BEq α]

@[simp] theorem put_nil : put k v [] = [(k, v)] := rfl

@[simp] theorem update_nil : update t [] = t := rfl

@[simp] theorem update_cons : update t ((k, v) :: more) = update (put k v t) more := rfl

@[simp] theorem ofList_nil : ofList ([] : List (α × β)) = [] := rfl

theorem ofList_eq_update : ofList t = update [] t := rfl

theorem update_append {first second : List (α × β)} :
    update t (first ++ second) = update (update t first) second := List.foldl_append

end Equations

section Writing

variable [BEq α] [LawfulBEq α]

@[simp] theorem put_cons_self : put k v ((k, v') :: t) = (k, v) :: t := by
  simp [put, putBy]

@[simp] theorem put_cons_of_ne (h : k' ≠ k) : put k v ((k', v') :: t) = (k', v') :: put k v t := by
  simp [put, putBy, h]

theorem mem_keys_put : k' ∈ keys (put k v t) ↔ k' = k ∨ k' ∈ keys t := by
  induction t with
  | nil => simp [keys]
  | cons e t ih =>
    obtain ⟨k₀, v₀⟩ := e
    by_cases hk : k₀ = k
    · subst hk
      simp [keys]
    · have hrest : k' ∈ keys (put k v t) ↔ k' = k ∨ k' ∈ keys t := ih
      rw [put_cons_of_ne hk]
      simp only [keys, List.map_cons, List.mem_cons] at hrest ⊢
      rw [hrest]
      exact or_left_comm

theorem keys_put_of_mem (h : k ∈ keys t) : keys (put k v t) = keys t := by
  induction t with
  | nil => simp [keys] at h
  | cons e t ih =>
    obtain ⟨k₀, v₀⟩ := e
    by_cases hk : k₀ = k
    · subst hk
      simp [keys]
    · have hrest : k ∈ keys t := by simpa [keys, Ne.symm hk] using h
      rw [put_cons_of_ne hk]
      simpa [keys] using ih hrest

/-- A new key goes to the end. -/
theorem put_of_notMem (h : k ∉ keys t) : put k v t = t ++ [(k, v)] := by
  induction t with
  | nil => rfl
  | cons e t ih =>
    obtain ⟨k₀, v₀⟩ := e
    have hk : k₀ ≠ k := by
      rintro rfl
      simp [keys] at h
    have hrest : k ∉ keys t := by
      intro hmem
      apply h
      simp only [keys, List.map_cons, List.mem_cons] at hmem ⊢
      exact Or.inr hmem
    rw [put_cons_of_ne hk, ih hrest]
    rfl

theorem nodup_put (h : (keys t).Nodup) : (keys (put k v t)).Nodup := by
  by_cases hk : k ∈ keys t
  · rw [keys_put_of_mem hk]
    exact h
  · rw [put_of_notMem hk, keys_append]
    have hdisjoint : ∀ a ∈ keys t, a ≠ k := by
      rintro a ha rfl
      exact hk ha
    simpa [keys, List.nodup_append] using And.intro h hdisjoint

theorem put_put_self : put k v (put k v' t) = put k v t := by
  induction t with
  | nil => simp
  | cons e t ih =>
    obtain ⟨k₀, v₀⟩ := e
    by_cases hk : k₀ = k
    · subst hk
      simp
    · simp [hk, ih]

/-- A key that is present keeps its place, so it may be written before a new one. -/
theorem put_put_comm (hne : k ≠ k') (hk : k ∈ keys t) :
    put k v (put k' v' t) = put k' v' (put k v t) := by
  induction t with
  | nil => simp [keys] at hk
  | cons e t ih =>
    obtain ⟨k₀, v₀⟩ := e
    by_cases h : k₀ = k
    · subst h
      simp [hne]
    · have hrest : k ∈ keys t := by simpa [keys, Ne.symm h] using hk
      by_cases h' : k₀ = k'
      · subst h'
        simp [h]
      · simp [h, h', ih hrest]

theorem put_ne_nil : put k v t ≠ [] := by
  intro h
  have hmem : k ∈ keys (put k v t) := mem_keys_put.mpr (Or.inl rfl)
  simp [h, keys] at hmem

theorem mem_keys_update : k ∈ keys (update t more) ↔ k ∈ keys t ∨ k ∈ keys more := by
  induction more generalizing t with
  | nil => simp [keys]
  | cons e more ih =>
    obtain ⟨k₀, v₀⟩ := e
    rw [update_cons, ih, mem_keys_put]
    simp only [keys, List.map_cons, List.mem_cons]
    rw [or_comm (a := k = k₀), or_assoc]

theorem mem_of_mem_put {e : α × β} (h : e ∈ put k v t) : e = (k, v) ∨ e ∈ t := by
  induction t with
  | nil => exact Or.inl (List.mem_singleton.mp h)
  | cons e₀ t ih =>
    obtain ⟨k₀, v₀⟩ := e₀
    by_cases hk : k₀ = k
    · subst hk
      rw [put_cons_self] at h
      rcases List.mem_cons.mp h with hhead | hrest
      · exact Or.inl hhead
      · exact Or.inr (List.mem_cons_of_mem _ hrest)
    · rw [put_cons_of_ne hk] at h
      rcases List.mem_cons.mp h with hhead | hrest
      · exact Or.inr (hhead ▸ List.mem_cons_self)
      · exact (ih hrest).imp_right (List.mem_cons_of_mem _)

theorem mem_of_mem_update {e : α × β} (h : e ∈ update t more) : e ∈ t ∨ e ∈ more := by
  induction more generalizing t with
  | nil => exact Or.inl h
  | cons e₀ more ih =>
    rcases ih h with hput | hmore
    · rcases mem_of_mem_put hput with hhead | hold
      · exact Or.inr (hhead ▸ List.mem_cons_self)
      · exact Or.inl hold
    · exact Or.inr (List.mem_cons_of_mem _ hmore)

theorem nodup_update (h : (keys t).Nodup) : (keys (update t more)).Nodup := by
  induction more generalizing t with
  | nil => exact h
  | cons e more ih => exact ih (nodup_put h)

theorem nodup_ofList : (keys (ofList t)).Nodup := nodup_update (t := []) (by simp [keys])

theorem update_eq_nil : update t more = [] ↔ t = [] ∧ more = [] := by
  induction more generalizing t with
  | nil => simp
  | cons e more ih =>
    obtain ⟨k, v⟩ := e
    simp [ih, put_ne_nil]

theorem ofList_eq_nil : ofList t = [] ↔ t = [] := by
  simp [ofList_eq_update, update_eq_nil]

/-- Nothing is replaced when all keys are different. -/
theorem update_eq_append (h : (keys (t ++ more)).Nodup) : update t more = t ++ more := by
  induction more generalizing t with
  | nil => simp
  | cons e more ih =>
    obtain ⟨k, v⟩ := e
    have hnew : k ∉ keys t := by
      intro hk
      rw [keys_append] at h
      exact List.disjoint_of_nodup_append h hk (by simp [keys])
    have hall : (keys ((t ++ [(k, v)]) ++ more)).Nodup := by simpa using h
    rw [update_cons, put_of_notMem hnew, ih hall]
    simp

/-- A list of entries is the table that they make exactly when no two of them have
the same key. -/
theorem ofList_eq_self_iff : ofList t = t ↔ (keys t).Nodup := by
  constructor
  · intro h
    rw [← h]
    exact nodup_ofList
  · intro h
    have happend : update [] t = [] ++ t := update_eq_append (by simpa using h)
    simpa [ofList_eq_update] using happend

/-- Where keys are repeated there are fewer entries in the table. -/
theorem nodup_of_length_ofList (h : (ofList t).length = t.length) : (keys t).Nodup := by
  have hsubset : keys (ofList t) ⊆ keys t := by
    intro k hk
    obtain ⟨e, he, rfl⟩ := List.mem_map.mp hk
    exact List.mem_map_of_mem ((mem_of_mem_update he).resolve_left (by simp))
  have hperm : (keys (ofList t)).Perm (keys t) :=
    (List.subperm_of_subset nodup_ofList hsubset).perm_of_length_le (by simp [keys, h])
  exact hperm.nodup_iff.mp nodup_ofList

theorem put_update_of_notMem (hk : k ∈ keys t) (hnew : k ∉ keys more) :
    put k v (update t more) = update (put k v t) more := by
  induction more generalizing t with
  | nil => rfl
  | cons e more ih =>
    obtain ⟨k₀, v₀⟩ := e
    have hne : k ≠ k₀ := by
      rintro rfl
      simp [keys] at hnew
    have hrest : k ∉ keys more := fun hmem => hnew (List.mem_cons_of_mem _ hmem)
    have hkept : k ∈ keys (put k₀ v₀ t) := mem_keys_put.mpr (Or.inr hk)
    rw [update_cons, update_cons, ih hkept hrest, put_put_comm hne hk]

/-- What is written into the second of two tables may be written after both. -/
theorem update_put (h : (keys b).Nodup) : update a (put k v b) = put k v (update a b) := by
  induction b generalizing a with
  | nil => rfl
  | cons e b ih =>
    obtain ⟨k₀, v₀⟩ := e
    have hparts : k₀ ∉ keys b ∧ (keys b).Nodup := List.nodup_cons.mp h
    by_cases hk : k₀ = k
    · subst hk
      have hmem : k₀ ∈ keys (put k₀ v₀ a) := mem_keys_put.mpr (Or.inl rfl)
      rw [put_cons_self, update_cons, update_cons, put_update_of_notMem hmem hparts.1,
        put_put_self]
    · rw [put_cons_of_ne hk, update_cons, update_cons, ih hparts.2]

end Writing

section Reading

variable [BEq α] [LawfulBEq α]

theorem get?_cons_self : get? ((k, v) :: t) k = some v := by
  simp [get?, find?]

theorem get?_cons_of_ne (h : k' ≠ k) : get? ((k', v) :: t) k = get? t k := by
  simp [get?, find?, h]

theorem mem_of_get? (h : get? t k = some v) : (k, v) ∈ t := by
  induction t with
  | nil => cases h
  | cons e t ih =>
    obtain ⟨k₀, v₀⟩ := e
    by_cases hk : k₀ = k
    · subst hk
      rw [get?_cons_self] at h
      cases h
      exact List.mem_cons_self
    · rw [get?_cons_of_ne hk] at h
      exact List.mem_cons_of_mem _ (ih h)

theorem get?_eq_none : get? t k = none ↔ k ∉ keys t := by
  induction t with
  | nil => simp [get?, find?, keys]
  | cons e t ih =>
    obtain ⟨k₀, v₀⟩ := e
    by_cases hk : k₀ = k
    · subst hk
      simp [get?_cons_self, keys]
    · rw [get?_cons_of_ne hk, ih]
      simp [keys, Ne.symm hk]

theorem get?_put_self : get? (put k v t) k = some v := by
  induction t with
  | nil => exact get?_cons_self
  | cons e t ih =>
    obtain ⟨k₀, v₀⟩ := e
    by_cases hk : k₀ = k
    · subst hk
      rw [put_cons_self, get?_cons_self]
    · rw [put_cons_of_ne hk, get?_cons_of_ne hk, ih]

theorem get?_put_of_ne (h : k' ≠ k) : get? (put k' v t) k = get? t k := by
  induction t with
  | nil => exact get?_cons_of_ne h
  | cons e t ih =>
    obtain ⟨k₀, v₀⟩ := e
    by_cases hk' : k₀ = k'
    · subst hk'
      rw [put_cons_self, get?_cons_of_ne h, get?_cons_of_ne h]
    · by_cases hk : k₀ = k
      · subst hk
        rw [put_cons_of_ne hk', get?_cons_self, get?_cons_self]
      · rw [put_cons_of_ne hk', get?_cons_of_ne hk, get?_cons_of_ne hk, ih]

/-- A key is found among the entries that are kept as it is found among all. -/
theorem get?_filter {keep : α → Bool} (h : keep k = true) :
    get? (t.filter fun e => keep e.1) k = get? t k := by
  induction t with
  | nil => rfl
  | cons e t ih =>
    obtain ⟨k₀, v₀⟩ := e
    by_cases hk : k₀ = k
    · subst hk
      simp [h, get?_cons_self]
    · by_cases hkeep : keep k₀ = true
      · simp [hkeep, get?_cons_of_ne hk, ih]
      · simp [hkeep, get?_cons_of_ne hk, ih]

theorem get?_update_of_notMem (h : k ∉ keys more) : get? (update t more) k = get? t k := by
  induction more generalizing t with
  | nil => rfl
  | cons e more ih =>
    obtain ⟨k₀, v₀⟩ := e
    have hne : k₀ ≠ k := by
      rintro rfl
      simp [keys] at h
    have hrest : k ∉ keys more := fun hmem => h (List.mem_cons_of_mem _ hmem)
    rw [update_cons, ih hrest, get?_put_of_ne hne]

/-- Of the entries with one key the last one counts. -/
theorem get?_ofList_of_last (h : k ∉ keys b) : get? (ofList (a ++ (k, v) :: b)) k = some v := by
  rw [ofList_eq_update, update_append, update_cons, get?_update_of_notMem h, get?_put_self]

theorem get?_ofList_eq_none : get? (ofList t) k = none ↔ k ∉ keys t := by
  rw [get?_eq_none, ofList_eq_update, mem_keys_update]
  simp [keys]

end Reading
end XmlHarvest.Ordered
