import XmlHarvest.Proofs.Field
import XmlHarvest.Proofs.Number.Overflow
import XmlHarvest.Proofs.Text.Digit
import XmlHarvest.Proofs.Value.Clean

/-! # What built-in modifiers give

Whatever clean values a built-in modifier is called with, and however many, what it gives
is clean: a text, a number that is within the limits, or one of its arguments. -/
set_option autoImplicit false

namespace XmlHarvest

/-! ## Integers -/

theorem overflow_le_tenTo : Binary64.overflow ≤ tenTo digitLimit := by decide +kernel

theorem writable_truncate (negative : Bool) {m : Nat} {e : Int} (hnormal : Binary64.Normal m e) :
    (Scalar.int (Binary64.truncate negative m e)).Writable :=
  (Binary64.natAbs_truncate_lt negative hnormal).trans_le overflow_le_tenTo

theorem writable_leadingIntegerOf {s : Text} {i : Int} (h : Value.leadingIntegerOf s = .ok i) :
    (Scalar.int i).Writable := by
  unfold Value.leadingIntegerOf at h
  split at h
  · cases h
    exact writable_signed false (tenTo_pos _)
  · rename_i n _
    split at h
    · cases h
    · rename_i hlength
      cases h
      have hshort : tenTo n.whole.length ≤ tenTo digitLimit := Value.tenTo_le_tenTo (by omega)
      exact writable_signed n.negative ((Text.decimalValue_lt n.whole).trans_le hshort)

theorem clean_toInteger {v : Value} {i : Int} (hv : v.Clean) (h : v.toInteger = .ok i) :
    (Value.int i).Clean := by
  refine .scalar ?_
  have hsmall : ∀ n : Nat, n < 10 → (Scalar.int n).Writable := fun n hn =>
    writable_signed false (hn.trans_le (Value.tenTo_le_tenTo (m := 1) (by decide)))
  have htext : ∀ w : Value, (do Value.leadingIntegerOf (← w.text?)) = Except.ok i →
      (Scalar.int i).Writable := by
    intro w hw
    obtain ⟨s, -, hs⟩ := (Outcome.bind_eq_ok _ _ _).mp hw
    exact writable_leadingIntegerOf hs
  cases v with
  | scalar s =>
    cases s with
    | null =>
      cases h
      exact hsmall 0 (by decide)
    | bool b =>
      cases h
      cases b with
      | true => exact hsmall 1 (by decide)
      | false => exact hsmall 0 (by decide)
    | int j =>
      cases h
      exact Value.clean_scalar.mp hv
    | float x =>
      have hx := (Value.clean_scalar.mp hv).1
      cases x with
      | nan => cases h
      | infinite negative => cases h
      | finite negative m e =>
        cases h
        exact writable_truncate negative hx
    | str s => exact htext _ h
    | time t => exact htext _ h
  | list items => exact htext _ h
  | map entries => exact htext _ h

/-! ## Numbers -/

theorem clean_float {x : Binary64} (h : x.Canonical ∧ x ≠ .nan) : (Value.float x).Clean := .scalar h

theorem clean_ofInt {i : Int} {x : Binary64} (h : Binary64.ofInt? i = some x) :
    (Value.float x).Clean := by
  have hratio := Binary64.ofRatio_canonical (decide (i < 0)) i.natAbs Nat.one_pos
  rw [Binary64.ofInt?] at h
  split at h
  · rename_i heq
    cases h
    rw [heq] at hratio
    exact clean_float hratio
  · cases h

theorem clean_zero : (Value.float .zero).Clean :=
  clean_float (Binary64.ofDecimal_canonical false 0 0)

theorem clean_leadingNumberOf (s : Text) : (Value.float (Value.leadingNumberOf s)).Clean := by
  unfold Value.leadingNumberOf
  split
  · exact clean_zero
  · exact clean_float (Binary64.ofDecimal_canonical _ _ _)

theorem clean_toNumber {v : Value} {x : Binary64} (hv : v.Clean) (h : v.toNumber = .ok x) :
    (Value.float x).Clean := by
  have htext : ∀ w : Value,
      (do .ok (Value.leadingNumberOf (← w.text?))) = (Except.ok x : Except Fault _) →
        (Value.float x).Clean := by
    intro w hw
    obtain ⟨s, -, hs⟩ := (Outcome.bind_eq_ok _ _ _).mp hw
    cases hs
    exact clean_leadingNumberOf s
  cases v with
  | scalar s =>
    cases s with
    | null =>
      cases h
      exact clean_zero
    | bool b =>
      cases h
      exact clean_float (Binary64.ofRatio_canonical _ _ (by decide))
    | int i =>
      rw [Value.toNumber] at h
      split at h
      · rename_i heq
        cases h
        exact clean_ofInt heq
      · cases h
    | float y =>
      cases h
      exact hv
    | str s => exact htext _ h
    | time t => exact htext _ h
  | list items => exact htext _ h
  | map entries => exact htext _ h

/-! ## Calls -/

section Calls

variable {s : Signature} {args : List Value} {v : Value}

theorem Signature.unary_eq_ok {f : Value → Except Fault Value} (h : s.unary f args = .ok v) :
    v = .null ∨ ∃ a ∈ args, f a = .ok v := by
  unfold Signature.unary at h
  split at h
  · cases h
  · exact .inr ⟨_, by simp, h⟩
  · cases h
    exact .inl rfl

theorem Signature.binary_eq_ok {f : Value → Value → Except Fault Value} (h : s.binary f args = .ok v) :
    v = .null ∨ ∃ a ∈ args, ∃ b ∈ args, f a b = .ok v := by
  unfold Signature.binary at h
  split at h
  · cases h
  · exact .inr ⟨_, by simp, _, by simp, h⟩
  · cases h
    exact .inl rfl

theorem clean_unary {f : Value → Except Fault Value} (hargs : ∀ a ∈ args, a.Clean)
    (hf : ∀ a, a.Clean → ∀ w, f a = .ok w → w.Clean) (h : s.unary f args = .ok v) : v.Clean := by
  rcases Signature.unary_eq_ok h with rfl | ⟨a, ha, h⟩
  · exact Value.clean_null
  · exact hf a (hargs a ha) v h

theorem clean_of_text {x : Except Fault Text} (h : (do .ok (Value.str (← x))) = Except.ok v) :
    v.Clean := by
  obtain ⟨t, -, ht⟩ := (Outcome.bind_eq_ok _ _ _).mp h
  cases ht
  exact Value.clean_str t

theorem clean_onText {f : Text → Text} {a : Value} (h : Builtin.onText f a = .ok v) : v.Clean := by
  obtain ⟨t, -, ht⟩ := (Outcome.bind_eq_ok _ _ _).mp h
  cases ht
  exact Value.clean_str _

theorem clean_joinValues (h : Builtin.joinValues args = .ok v) : v.Clean := by
  unfold Builtin.joinValues at h
  split at h
  · obtain ⟨sep, -, h⟩ := (Outcome.bind_eq_ok _ _ _).mp h
    obtain ⟨parts, -, h⟩ := (Outcome.bind_eq_ok _ _ _).mp h
    cases h
    exact Value.clean_str _
  · cases h

theorem clean_orFallback {a b : Value} (ha : a.Clean) (hb : b.Clean)
    (h : Builtin.orFallback a b = .ok v) : v.Clean := by
  obtain ⟨blank, -, h⟩ := (Outcome.bind_eq_ok _ _ _).mp h
  cases h
  split
  · exact hb
  · exact ha

/-- Built-in modifiers give clean values for clean ones. -/
theorem Builtin.clean_apply (b : Builtin) (hargs : ∀ a ∈ args, a.Clean) (h : b.apply args = .ok v) :
    v.Clean := by
  cases b with
  | toI =>
    refine clean_unary hargs (fun a ha w hw => ?_) h
    obtain ⟨i, hi, hw⟩ := (Outcome.bind_eq_ok _ _ _).mp hw
    cases hw
    exact clean_toInteger ha hi
  | toF =>
    refine clean_unary hargs (fun a ha w hw => ?_) h
    obtain ⟨x, hx, hw⟩ := (Outcome.bind_eq_ok _ _ _).mp hw
    cases hw
    exact clean_toNumber ha hx
  | toS | strip | upcase | downcase | capitalize =>
    exact clean_unary hargs (fun a _ w hw => clean_onText hw) h
  | squish | numbersOnly => exact clean_unary hargs (fun a _ w hw => clean_of_text hw) h
  | join => exact clean_joinValues h
  | defaultIfBlank =>
    rcases Signature.binary_eq_ok h with rfl | ⟨a, ha, b, hb, h⟩
    · exact Value.clean_null
    · exact clean_orFallback (hargs a ha) (hargs b hb) h

/-- A registry without custom modifiers. -/
structure Registry.IsBuiltin (r : Registry) : Prop where
  builtins : r.builtins ⊆ Builtin.all.map Builtin.entry
  capability : r.capability = none

theorem Registry.IsBuiltin.standard : (Registry.standard none).IsBuiltin :=
  ⟨List.Subset.refl _, rfl⟩

/-- Without custom modifiers, applying a modifier whose parameters are clean keeps values
clean. -/
theorem Registry.clean_apply {r : Registry} (hr : r.IsBuiltin) {ref : ModifierRef}
    (hparams : ∀ p ∈ ref.params, p.Clean) (hargs : ∀ a ∈ args, a.Clean)
    (h : r.apply ref args = .ok v) : v.Clean := by
  have hall : ∀ a ∈ args ++ ref.params, a.Clean := by
    intro a ha
    exact (List.mem_append.mp ha).elim (hargs a) (hparams a)
  obtain ⟨f, hresolve, -, hf⟩ := apply_eq_ok.mp h
  rw [resolve] at hresolve
  cases hfound : r.builtin? ref.name with
  | none => simp [hfound, hr.capability, Outcome.raise] at hresolve
  | some g =>
    rw [hfound] at hresolve
    obtain rfl : g = f := Except.ok.inj hresolve
    obtain ⟨before, after, hsplit, -⟩ := List.lookup_eq_some_iff.mp hfound
    have hmem : (ref.name, g) ∈ r.builtins := hsplit ▸ List.mem_append_cons_self
    obtain ⟨b, -, hb⟩ := List.mem_map.mp (hr.builtins hmem)
    obtain ⟨-, rfl⟩ := Prod.mk.inj hb
    exact b.clean_apply hall (Outcome.ofFault_eq_ok.mp hf)

end Calls

end XmlHarvest
