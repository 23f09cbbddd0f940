import Mathlib.Data.List.Forall2
import XmlHarvest.Error

/-! # Outcomes in sequence and side by side

When a sequence of computations succeeds and with what it fails: `Except` stops
at the first failure.  `Agree R x y` compares two computations: both succeed with
related results, or both fail with the same failure.  `FailsIff x e p` says that
`x` fails exactly when `p` holds, and only with `e`. -/
set_option autoImplicit false

namespace XmlHarvest

variable {ε α β γ δ : Type}

theorem mem_forall₂_right {R : α → β → Prop} {as : List α} {bs : List β}
    (h : List.Forall₂ R as bs) {b : β} (hb : b ∈ bs) : ∃ a ∈ as, R a b := by
  induction h with
  | nil => simp at hb
  | @cons a b' as bs hab _ ih =>
    rcases List.mem_cons.mp hb with rfl | hb
    · exact ⟨a, List.mem_cons_self, hab⟩
    · obtain ⟨a', ha', hab'⟩ := ih hb
      exact ⟨a', List.mem_cons_of_mem a ha', hab'⟩

namespace Outcome

theorem bind_eq_ok (x : Except ε α) (f : α → Except ε β) (b : β) :
    (x >>= f) = .ok b ↔ ∃ a, x = .ok a ∧ f a = .ok b := by
  cases x with
  | ok a => simp [bind, Except.bind]
  | error e => simp [bind, Except.bind]

theorem exists_bind_eq_ok (x : Except ε α) (f : α → Except ε β) :
    (∃ b, (x >>= f) = .ok b) ↔ ∃ a, x = .ok a ∧ ∃ b, f a = .ok b := by
  simp only [bind_eq_ok]
  exact ⟨fun ⟨b, a, ha, hb⟩ => ⟨a, ha, b, hb⟩, fun ⟨a, ha, b, hb⟩ => ⟨b, a, ha, hb⟩⟩

theorem bind_eq_error (x : Except ε α) (f : α → Except ε β) (e : ε) :
    (x >>= f) = .error e ↔ x = .error e ∨ ∃ a, x = .ok a ∧ f a = .error e := by
  cases x with
  | ok a => simp [bind, Except.bind]
  | error e => simp [bind, Except.bind]

theorem map_eq_ok (f : α → β) (x : Except ε α) (b : β) :
    f <$> x = .ok b ↔ ∃ a, x = .ok a ∧ f a = b := by
  cases x with
  | ok a => simp [Functor.map, Except.map]
  | error e => simp [Functor.map, Except.map]

theorem map_eq_error (f : α → β) (x : Except ε α) (e : ε) :
    f <$> x = .error e ↔ x = .error e := by
  cases x with
  | ok a => simp [Functor.map, Except.map]
  | error e => simp [Functor.map, Except.map]

theorem mapError_bind {ε' : Type} (g : ε → ε') (x : Except ε α) (f : α → Except ε β) :
    (x >>= f).mapError g = x.mapError g >>= fun a => (f a).mapError g := by
  cases x with
  | ok a => rfl
  | error e => rfl

theorem mapError_eq_ok {ε' : Type} {g : ε → ε'} {x : Except ε α} {a : α} :
    x.mapError g = .ok a ↔ x = .ok a := by
  cases x with
  | ok b => simp [Except.mapError]
  | error e => simp [Except.mapError]

theorem mapError_eq_error {ε' : Type} {g : ε → ε'} {x : Except ε α} {e' : ε'} :
    x.mapError g = .error e' ↔ ∃ e, x = .error e ∧ g e = e' := by
  cases x with
  | ok a => simp [Except.mapError]
  | error e => simp [Except.mapError]

theorem ofFault_eq_ok {x : Except Fault α} {a : α} : ofFault x = .ok a ↔ x = .ok a := by
  cases x with
  | ok b => simp [ofFault]
  | error f => simp [ofFault]

theorem ofFault_eq_error {x : Except Fault α} {failure : Failure} :
    ofFault x = .error failure ↔ ∃ fault, failure = .fault fault ∧ x = .error fault := by
  cases x with
  | ok b => simp [ofFault]
  | error f => simp [ofFault, eq_comm]

theorem within_eq_ok {outer : Place} {x : Outcome α} {a : α} :
    x.within outer = .ok a ↔ x = .ok a := mapError_eq_ok

/-- A traversal succeeds when it does so at every member. -/
theorem mapM_eq_ok (f : α → Except ε β) (as : List α) (bs : List β) :
    as.mapM f = .ok bs ↔ List.Forall₂ (fun a b => f a = .ok b) as bs := by
  induction as generalizing bs with
  | nil =>
    rw [List.mapM_nil, List.forall₂_nil_left_iff]
    exact ⟨fun h => (Except.ok.inj h).symm, fun h => by rw [h]; rfl⟩
  | cons a as ih =>
    rw [List.mapM_cons, bind_eq_ok, List.forall₂_cons_left_iff]
    constructor
    · rintro ⟨b, hb, h⟩
      obtain ⟨rest, hrest, h⟩ := (bind_eq_ok _ _ _).mp h
      exact ⟨b, rest, hb, (ih rest).mp hrest, (Except.ok.inj h).symm⟩
    · rintro ⟨b, rest, hb, hrest, rfl⟩
      exact ⟨b, hb, (bind_eq_ok _ _ _).mpr ⟨rest, (ih rest).mpr hrest, rfl⟩⟩

theorem exists_mapM_eq_ok (f : α → Except ε β) (as : List α) :
    (∃ bs, as.mapM f = .ok bs) ↔ ∀ a ∈ as, ∃ b, f a = .ok b := by
  simp only [mapM_eq_ok]
  induction as with
  | nil => simp
  | cons a as ih =>
    rw [List.forall_mem_cons, ← ih]
    simp only [List.forall₂_cons_left_iff]
    constructor
    · rintro ⟨_, b, bs, hb, hbs, rfl⟩
      exact ⟨⟨b, hb⟩, bs, hbs⟩
    · rintro ⟨⟨b, hb⟩, bs, hbs⟩
      exact ⟨_, b, bs, hb, hbs, rfl⟩

theorem mapM_congr {f g : α → Except ε β} {as : List α} (h : ∀ a ∈ as, f a = g a) :
    as.mapM f = as.mapM g := by
  induction as with
  | nil => rfl
  | cons a as ih =>
    have hrest : as.mapM f = as.mapM g := ih fun b hb => h b (List.mem_cons_of_mem a hb)
    rw [List.mapM_cons, List.mapM_cons, h a List.mem_cons_self, hrest]

/-- A run over a list succeeds when it does so at every member. -/
theorem forM_eq_ok (f : α → Except ε Unit) (as : List α) :
    forM as f = .ok () ↔ ∀ a ∈ as, f a = .ok () := by
  induction as with
  | nil => simp [pure, Except.pure]
  | cons a as ih =>
    rw [List.forM_cons, bind_eq_ok, List.forall_mem_cons, ← ih]
    exact ⟨fun ⟨⟨⟩, ha, h⟩ => ⟨ha, h⟩, fun ⟨ha, h⟩ => ⟨(), ha, h⟩⟩

/-- A run over a list fails where the first of its members fails. -/
theorem forM_eq_error (f : α → Except ε Unit) (as : List α) (e : ε) :
    forM as f = .error e ↔
      ∃ before a after, as = before ++ a :: after ∧ (∀ b ∈ before, f b = .ok ()) ∧
        f a = .error e := by
  induction as with
  | nil =>
    rw [List.forM_nil]
    simp [pure, Except.pure]
  | cons a as ih =>
    rw [List.forM_cons, bind_eq_error]
    constructor
    · rintro (h | ⟨⟨⟩, hok, h⟩)
      · exact ⟨[], a, as, rfl, by simp, h⟩
      · obtain ⟨before, b, after, rfl, hbefore, hb⟩ := ih.mp h
        exact ⟨a :: before, b, after, rfl, List.forall_mem_cons.mpr ⟨hok, hbefore⟩, hb⟩
    · rintro ⟨before, b, after, hsplit, hbefore, hb⟩
      cases before with
      | nil =>
        obtain ⟨rfl, rfl⟩ := List.cons.inj hsplit
        exact .inl hb
      | cons c before =>
        obtain ⟨rfl, rfl⟩ := List.cons.inj hsplit
        obtain ⟨hok, hrest⟩ := List.forall_mem_cons.mp hbefore
        exact .inr ⟨(), hok, ih.mpr ⟨before, b, after, rfl, hrest, hb⟩⟩

theorem mapError_forM {ε' : Type} (g : ε → ε') (f : α → Except ε Unit) (as : List α) :
    (forM as f : Except ε Unit).mapError g = forM as fun a => (f a).mapError g := by
  induction as with
  | nil => rfl
  | cons a as ih => rw [List.forM_cons, List.forM_cons, mapError_bind, ih]

theorem forM_flatMap (f : β → Except ε Unit) (g : α → List β) (as : List α) :
    forM (as.flatMap g) f = forM as fun a => forM (g a) f := by
  induction as with
  | nil => rfl
  | cons a as ih => rw [List.flatMap_cons, List.forM_append, List.forM_cons, ih]

def effect (x : Except ε α) : Except ε Unit := (fun _ => ()) <$> x

theorem effect_eq_error {x : Except ε α} {e : ε} : effect x = .error e ↔ x = .error e :=
  map_eq_error _ x e

theorem effect_eq_ok {x : Except ε α} : effect x = .ok () ↔ ∃ a, x = .ok a := by
  simp [effect, map_eq_ok]

theorem effect_map (f : α → β) (x : Except ε α) : effect (f <$> x) = effect x := by
  rw [effect, effect, Functor.map_map]

theorem effect_bind (x : Except ε α) (f : α → Except ε β) :
    effect (x >>= f) = x >>= fun a => effect (f a) := by
  cases x with
  | ok a => rfl
  | error e => rfl

theorem effect_then (x : Except ε α) (y : Except ε β) :
    (effect x >>= fun _ => y) = x >>= fun _ => y := by
  cases x with
  | ok a => rfl
  | error e => rfl

/-- A step that always succeeds adds nothing. -/
theorem effect_then_ok (x : Except ε α) (f : α → β) : effect (do .ok (f (← x))) = effect x := by
  cases x with
  | ok a => rfl
  | error e => rfl

theorem effect_mapError {ε' : Type} (g : ε → ε') (x : Except ε α) :
    effect (x.mapError g) = (effect x).mapError g := by
  cases x with
  | ok a => rfl
  | error e => rfl

theorem effect_mapM (f : α → Except ε β) (as : List α) :
    effect (as.mapM f) = forM as fun a => effect (f a) := by
  induction as with
  | nil => rfl
  | cons a as ih =>
    rw [List.mapM_cons, List.forM_cons, ← ih]
    cases f a with
    | error e => rfl
    | ok b => exact effect_then_ok _ _

/-- A traversal fails where the first of its members fails. -/
theorem mapM_eq_error (f : α → Except ε β) (as : List α) (e : ε) :
    as.mapM f = .error e ↔
      ∃ before a after, as = before ++ a :: after ∧ (∀ b ∈ before, ∃ c, f b = .ok c) ∧
        f a = .error e := by
  rw [← effect_eq_error, effect_mapM, forM_eq_error]
  simp only [effect_eq_ok, effect_eq_error]

end Outcome

/-- Two computations that succeed with related results or fail alike. -/
inductive Agree (R : α → β → Prop) : Except ε α → Except ε β → Prop
  | ok {a : α} {b : β} (related : R a b) : Agree R (.ok a) (.ok b)
  | error (e : ε) : Agree R (.error e) (.error e)

namespace Agree

variable {R : α → β → Prop} {S : γ → δ → Prop}

theorem bind {x : Except ε α} {y : Except ε β} {f : α → Except ε γ} {g : β → Except ε δ}
    (h : Agree R x y) (hfg : ∀ a b, R a b → Agree S (f a) (g b)) :
    Agree S (x >>= f) (y >>= g) := by
  cases h with
  | ok related => exact hfg _ _ related
  | error e => exact .error e

theorem map {x : Except ε α} {y : Except ε β} {f : α → γ} {g : β → δ}
    (h : Agree R x y) (hfg : ∀ a b, R a b → S (f a) (g b)) : Agree S (f <$> x) (g <$> y) := by
  cases h with
  | ok related => exact .ok (hfg _ _ related)
  | error e => exact .error e

theorem mapError {ε' : Type} {x : Except ε α} {y : Except ε β} (h : Agree R x y)
    (f : ε → ε') : Agree R (x.mapError f) (y.mapError f) := by
  cases h with
  | ok related => exact .ok related
  | error e => exact .error (f e)

/-- Traversals of two lists agree when they agree at each place. -/
theorem mapM {f : α → Except ε γ} {g : β → Except ε δ} {as : List α} {bs : List β}
    (h : List.Forall₂ (fun a b => Agree S (f a) (g b)) as bs) :
    Agree (List.Forall₂ S) (as.mapM f) (bs.mapM g) := by
  induction h with
  | nil => exact .ok .nil
  | cons head _ ih =>
    rw [List.mapM_cons, List.mapM_cons]
    refine head.bind fun c d hcd => ih.bind fun cs ds hcsds => ?_
    exact .ok (.cons hcd hcsds)

theorem eq {x y : Except ε α} (h : Agree Eq x y) : x = y := by
  cases h with
  | ok related => rw [related]
  | error e => rfl

theorem of_eq {x y : Except ε α} (h : x = y) : Agree Eq x y := by
  subst h
  cases x with
  | ok a => exact .ok rfl
  | error e => exact .error e

end Agree

def FailsIff (x : Except ε α) (e : ε) (p : Prop) : Prop := ∀ e', x = .error e' ↔ e' = e ∧ p

namespace FailsIff

variable {x : Except ε α} {e : ε} {p q : Prop}

theorem ok (a : α) (e : ε) : FailsIff (.ok a) e False := by
  intro e'
  simp

theorem congr (h : FailsIff x e p) (hpq : p ↔ q) : FailsIff x e q := by
  intro e'
  rw [h e', hpq]

theorem eq_ok_iff (h : FailsIff x e p) : (∃ a, x = .ok a) ↔ ¬ p := by
  cases hx : x with
  | ok a =>
    have hp : ¬ p := fun hp => by
      rw [(h e).mpr ⟨rfl, hp⟩] at hx
      cases hx
    simp [hp]
  | error e₀ => simp [((h e₀).mp hx).2]

theorem bind {f : α → Except ε β} (h : FailsIff x e p)
    (hf : ∀ a, x = .ok a → FailsIff (f a) e q) : FailsIff (x >>= f) e (p ∨ q) := by
  intro e'
  cases hx : x with
  | error e₀ =>
    obtain ⟨rfl, hp⟩ := (h e₀).mp hx
    simp only [Outcome.bind_eq_error, Except.error.injEq, reduceCtorEq, false_and, exists_false,
      or_false, hp, true_or, and_true]
    exact eq_comm
  | ok a =>
    have hp : ¬ p := h.eq_ok_iff.mp ⟨a, hx⟩
    simp only [Outcome.bind_eq_error, Except.ok.injEq, exists_eq_left', reduceCtorEq, false_or,
      hf a hx e', hp]

/-- A step that always succeeds adds no failure. -/
theorem then_ok (h : FailsIff x e p) (f : α → β) : FailsIff (do .ok (f (← x))) e p :=
  (h.bind fun a _ => ok (f a) e).congr (or_false p).to_iff

theorem ofFault {x : Except Fault α} {fault : Fault} (h : FailsIff x fault p) :
    FailsIff (Outcome.ofFault x) (.fault fault) p := by
  intro failure
  cases hx : x with
  | ok a => simp [Outcome.ofFault, h.eq_ok_iff.mp ⟨a, hx⟩]
  | error f =>
    obtain ⟨rfl, hp⟩ := (h f).mp hx
    simp only [Outcome.ofFault, Except.error.injEq, hp, and_true]
    exact eq_comm

end FailsIff
end XmlHarvest
