import XmlHarvest.Proofs.Conformity
import XmlHarvest.Proofs.Value.Writable

/-! # How a full field fails

The failures of a full field by the stage they come from: a path without a match,
a modifier, the mapper.  A failing modifier is found with the values that it was
applied to. -/
set_option autoImplicit false

namespace XmlHarvest

open Xml

/-- A descent stops short of a tag: the tags before it lead to an element without a
child that has it. -/
def Stops (e : Element) (segments : List Text) (tag : Text) : Prop :=
  ∃ front rest reached, segments = front ++ tag :: rest ∧ Reaches e front reached ∧
    ∀ c ∈ reached.elements, c.tag ≠ tag

/-- A modifier of a chain is applied to values. -/
inductive Scope.Applies (s : Scope) (e : Element) : Chain → ModifierRef → List Value → Prop
  | single {p : Path} {before after : List ModifierRef} {ref : ModifierRef} {text : Text}
      {v : Value} (found : p.textAt e = .ok text)
      (reached : s.applyAll before (.str text) = .ok v) :
      Applies s e (.single p (before ++ ref :: after)) ref [v]
  | combiner {p : Path} {others : List Path} {ref : ModifierRef} {modifiers : List ModifierRef}
      {texts : List Text} (found : Path.textsAt (p :: others) e = .ok texts) :
      Applies s e (.combined p others ref modifiers) ref (texts.map .str)
  | combined {p : Path} {others : List Path} {combiner ref : ModifierRef}
      {before after : List ModifierRef} {texts : List Text} {first v : Value}
      (found : Path.textsAt (p :: others) e = .ok texts)
      (joined : s.registry.apply combiner (texts.map .str) = .ok first)
      (reached : s.applyAll before first = .ok v) :
      Applies s e (.combined p others combiner (before ++ ref :: after)) ref [v]

/-- The log is to show the values and the parameters of a call, and cannot: a long
integer occurs in them. -/
def Registry.Withheld (r : Registry) (ref : ModifierRef) (values : List Value) : Prop :=
  r.debug = true ∧ ¬ ((Value.list values).Writable ∧ (Value.list ref.params).Writable)

section Modifiers

variable {r : Registry} {ref : ModifierRef} {values : List Value} {failure : Failure}
  {f : Transform}

theorem resolve_eq_error {name : Text} {failure : Failure}
    (h : r.resolve name = .error failure) : failure = .of (.unknownModifier name) := by
  rw [Registry.resolve] at h
  split at h
  · cases h
  · split at h
    · split at h
      · cases h
      · cases h
        rfl
    · cases h
      rfl

theorem show?_failsIff : FailsIff (r.show? ref values) .longInteger (r.Withheld ref values) := by
  rw [Registry.show?]
  by_cases hdebug : r.debug = true
  · rw [if_pos hdebug]
    have hvalues := Value.display?_failsIff (.list values)
    have hparams := (Value.display?_failsIff (.list ref.params)).then_ok fun _ => ()
    refine (hvalues.bind fun _ _ => hparams).congr ?_
    rw [Registry.Withheld, not_and_or, and_iff_right hdebug]
  · rw [if_neg hdebug]
    refine (FailsIff.ok () _).congr ?_
    simp [Registry.Withheld, hdebug]

theorem show?_eq_ok : r.show? ref values = .ok () ↔ ¬ r.Withheld ref values :=
  (exists_const Unit).symm.trans show?_failsIff.eq_ok_iff

theorem apply_of_resolve (hresolve : r.resolve ref.name = .ok f)
    (hshown : ¬ r.Withheld ref values) :
    r.apply ref values = (f (values ++ ref.params)).mapError (Registry.transformation ref values) := by
  rw [Registry.apply, hresolve, show?_eq_ok.mpr hshown]
  cases h : f (values ++ ref.params) <;> simp [h, bind, Except.bind, Outcome.ofFault, Except.mapError]

theorem apply_of_withheld (hresolve : r.resolve ref.name = .ok f)
    (hwithheld : r.Withheld ref values) : r.apply ref values = .error (.fault .longInteger) := by
  rw [Registry.apply, hresolve, (show?_failsIff _).mpr ⟨rfl, hwithheld⟩]
  rfl

theorem apply_eq_error :
    r.apply ref values = .error failure ↔
      r.resolve ref.name = .error failure ∨
        ∃ f, r.resolve ref.name = .ok f ∧
          (r.Withheld ref values ∧ failure = .fault .longInteger ∨
            ¬ r.Withheld ref values ∧ ∃ cause, f (values ++ ref.params) = .error cause ∧
              Registry.transformation ref values cause = failure) := by
  cases hresolve : r.resolve ref.name with
  | error known => simp [Registry.apply, hresolve, bind, Except.bind]
  | ok f =>
    simp only [reduceCtorEq, false_or, Except.ok.injEq, exists_eq_left']
    by_cases hwithheld : r.Withheld ref values
    · rw [apply_of_withheld hresolve hwithheld]
      simp [hwithheld, eq_comm]
    · rw [apply_of_resolve hresolve hwithheld, Outcome.mapError_eq_error]
      simp [hwithheld]

theorem apply_eq_ok {v : Value} :
    r.apply ref values = .ok v ↔ ∃ f, r.resolve ref.name = .ok f ∧
      ¬ r.Withheld ref values ∧ f (values ++ ref.params) = .ok v := by
  cases hresolve : r.resolve ref.name with
  | error known => simp [Registry.apply, hresolve, bind, Except.bind]
  | ok f =>
    simp only [Except.ok.injEq, exists_eq_left']
    by_cases hwithheld : r.Withheld ref values
    · rw [apply_of_withheld hresolve hwithheld]
      simp [hwithheld]
    · rw [apply_of_resolve hresolve hwithheld]
      cases f (values ++ ref.params) <;> simp [hwithheld, Except.mapError]

end Modifiers

section Paths

variable {e : Element} {segments : List Text} {tag : Text} {p : Path} {failure : Failure}

theorem child?_eq_none : e.child? tag = none ↔ ∀ c ∈ e.elements, c.tag ≠ tag := by
  simp [Element.child?]

/-- A descent fails with the tag that it stops short of. -/
theorem descend_eq_error : descend e segments = .error tag ↔ Stops e segments tag := by
  constructor
  · intro h
    induction segments generalizing e with
    | nil => cases h
    | cons first rest ih =>
      rw [descend] at h
      cases hchild : e.child? first with
      | none =>
        rw [hchild] at h
        cases h
        exact ⟨[], rest, e, rfl, .here e, child?_eq_none.mp hchild⟩
      | some child =>
        rw [hchild] at h
        obtain ⟨htag, before, after, hchildren, hfirst⟩ := child?_eq_some.mp hchild
        obtain ⟨front, rest, reached, rfl, hreached, hnone⟩ := ih h
        exact ⟨first :: front, rest, reached, rfl, .step hchildren hfirst htag hreached, hnone⟩
  · rintro ⟨front, rest, reached, rfl, hreached, hnone⟩
    induction hreached with
    | here e => rw [List.nil_append, descend, child?_eq_none.mpr hnone]
    | step hchildren hfirst htag _ ih =>
      rw [List.cons_append, descend, child?_eq_some.mpr ⟨htag, _, _, hchildren, hfirst⟩]
      exact ih hnone

theorem follow_eq_error : p.follow segments e = .error failure ↔
    ∃ tag, Stops e segments tag ∧
      failure = .error ⟨.pathNotFound tag, { path := some p.text }⟩ := by
  simp only [Path.follow, ← descend_eq_error]
  cases descend e segments with
  | ok target => simp
  | error tag => simp [eq_comm]

theorem textAt_eq_error : p.textAt e = .error failure ↔
    ∃ tag, Stops e p.segments tag ∧
      failure = .error ⟨.pathNotFound tag, { path := some p.text }⟩ := by
  rw [Path.textAt, Outcome.map_eq_error, Path.node, follow_eq_error]

theorem exists_textAt : (∃ text, p.textAt e = .ok text) ↔
    ∃ target, Reaches e p.segments target := by
  simp [textAt_eq_ok]

theorem textsAt_eq_error {paths : List Path} : Path.textsAt paths e = .error failure ↔
    ∃ before p after tag, paths = before ++ p :: after ∧
      (∀ q ∈ before, ∃ target, Reaches e q.segments target) ∧ Stops e p.segments tag ∧
        failure = .error ⟨.pathNotFound tag, { path := some p.text }⟩ := by
  rw [Path.textsAt, ← Outcome.effect_eq_error, Outcome.effect_mapM, Outcome.forM_eq_error]
  simp only [Outcome.effect_eq_ok, Outcome.effect_eq_error, exists_textAt, textAt_eq_error]
  constructor
  · rintro ⟨before, p, after, hpaths, hfound, tag, hstops, hfailure⟩
    exact ⟨before, p, after, tag, hpaths, hfound, hstops, hfailure⟩
  · rintro ⟨before, p, after, tag, hpaths, hfound, hstops, hfailure⟩
    exact ⟨before, p, after, hpaths, hfound, tag, hstops, hfailure⟩

end Paths

/-- The log is to show the default that a mapper falls back on, and cannot. -/
def Mapper.Withheld (m : Mapper) (v : Value) (debug : Bool) : Prop :=
  debug = true ∧ ¬ m.default.Writable ∧
    ∀ key, v.text? = .ok key → Ordered.get? m.options key = none

section Mapping

variable {mappers : Mappers} {m : Mapper} {name : Text} {v : Value} {debug : Bool}
  {failure : Failure}

theorem Mapper.not_withheld_quiet : ¬ m.Withheld v false := nofun

theorem Mapper.map_failsIff :
    FailsIff (m.map v debug) (.fault .longInteger) (¬ v.Writable ∨ m.Withheld v debug) := by
  rw [Mapper.map]
  refine (Value.text?_failsIff v).ofFault.bind fun key hkey => ?_
  have hkey : v.text? = .ok key := Outcome.ofFault_eq_ok.mp hkey
  cases hfound : Ordered.get? m.options key with
  | some output =>
    refine (FailsIff.ok output _).congr ?_
    simp [Mapper.Withheld, hkey, hfound]
  | none =>
    cases debug with
    | false => exact (FailsIff.ok m.default _).congr (by simp [Mapper.not_withheld_quiet])
    | true =>
      have hdefault := (Value.display?_failsIff m.default).ofFault.then_ok fun _ => m.default
      refine hdefault.congr ?_
      simp [Mapper.Withheld, hkey, hfound]

theorem Mapper.map_eq_ok {w : Value} (h : m.map v debug = .ok w) :
    ∃ key, v.text? = .ok key ∧ w = (Ordered.get? m.options key).getD m.default := by
  rw [Mapper.map, Outcome.bind_eq_ok] at h
  obtain ⟨key, hkey, h⟩ := h
  refine ⟨key, Outcome.ofFault_eq_ok.mp hkey, ?_⟩
  cases hfound : Ordered.get? m.options key with
  | some output =>
    rw [hfound] at h
    exact (Except.ok.inj h).symm
  | none =>
    rw [hfound] at h
    cases debug with
    | false => exact (Except.ok.inj h).symm
    | true =>
      obtain ⟨_, -, h⟩ := (Outcome.bind_eq_ok _ _ _).mp h
      exact (Except.ok.inj h).symm

theorem Mappers.map_eq_error :
    mappers.map name v debug = .error failure ↔
      (Ordered.get? mappers name = none ∧ failure = .of (.unknownMapper name)) ∨
        ∃ m, Ordered.get? mappers name = some m ∧ (¬ v.Writable ∨ m.Withheld v debug) ∧
          failure = .fault .longInteger := by
  rw [Mappers.map]
  cases Ordered.get? mappers name with
  | none =>
    simp only [Outcome.raise, Except.error.injEq, reduceCtorEq, false_and, exists_false, or_false,
      true_and]
    exact eq_comm
  | some m =>
    simp only [Mapper.map_failsIff failure, reduceCtorEq, false_and, false_or, Option.some.injEq,
      exists_eq_left']
    exact and_comm

end Mapping

section Fields

variable {s : Scope} {e : Element} {failure : Failure}

theorem applyAll_eq_error {modifiers : List ModifierRef} {v : Value} :
    s.applyAll modifiers v = .error failure ↔
      ∃ before ref after w, modifiers = before ++ ref :: after ∧
        s.applyAll before v = .ok w ∧ s.registry.apply ref [w] = .error failure := by
  induction modifiers generalizing v with
  | nil => simp [Scope.applyAll, pure, Except.pure]
  | cons m rest ih =>
    rw [Scope.applyAll, List.foldlM_cons, Outcome.bind_eq_error]
    constructor
    · rintro (h | ⟨u, hu, h⟩)
      · exact ⟨[], m, rest, v, rfl, rfl, h⟩
      · obtain ⟨before, ref, after, w, rfl, hw, h⟩ := ih.mp h
        refine ⟨m :: before, ref, after, w, rfl, ?_, h⟩
        rw [Scope.applyAll, List.foldlM_cons, hu]
        exact hw
    · rintro ⟨before, ref, after, w, hsplit, hw, h⟩
      cases before with
      | nil =>
        obtain ⟨rfl, rfl⟩ := List.cons.inj hsplit
        cases hw
        exact .inl h
      | cons m' before =>
        obtain ⟨rfl, rfl⟩ := List.cons.inj hsplit
        rw [Scope.applyAll, List.foldlM_cons, Outcome.bind_eq_ok] at hw
        obtain ⟨u, hu, hw⟩ := hw
        exact .inr ⟨u, hu, ih.mpr ⟨before, ref, after, w, rfl, hw, h⟩⟩

theorem runChain_eq_error {chain : Chain} :
    s.runChain e chain = .error failure ↔
      Path.textsAt chain.paths e = .error failure ∨
        ∃ ref values, s.Applies e chain ref values ∧
          s.registry.apply ref values = .error failure := by
  cases chain with
  | single p modifiers =>
    have hpaths : Path.textsAt [p] e = .error failure ↔ p.textAt e = .error failure := by
      rw [Path.textsAt, List.mapM_cons, List.mapM_nil]
      cases p.textAt e <;> simp [bind, Except.bind, pure, Except.pure]
    rw [Scope.runChain, Outcome.bind_eq_error, Chain.paths, hpaths]
    refine or_congr_right ?_
    constructor
    · rintro ⟨text, htext, h⟩
      obtain ⟨before, ref, after, w, rfl, hw, hfail⟩ := applyAll_eq_error.mp h
      exact ⟨ref, [w], .single htext hw, hfail⟩
    · rintro ⟨ref, values, happlies, hfail⟩
      cases happlies with
      | single htext hw =>
        exact ⟨_, htext, applyAll_eq_error.mpr ⟨_, _, _, _, rfl, hw, hfail⟩⟩
  | combined p others combiner modifiers =>
    rw [Scope.runChain, Outcome.bind_eq_error, Chain.paths]
    refine or_congr_right ?_
    constructor
    · rintro ⟨texts, htexts, h⟩
      rcases (Outcome.bind_eq_error _ _ _).mp h with h | ⟨first, hfirst, h⟩
      · exact ⟨combiner, _, .combiner htexts, h⟩
      · obtain ⟨before, ref, after, w, rfl, hw, hfail⟩ := applyAll_eq_error.mp h
        exact ⟨ref, [w], .combined htexts hfirst hw, hfail⟩
    · rintro ⟨ref, values, happlies, hfail⟩
      cases happlies with
      | combiner htexts => exact ⟨_, htexts, (Outcome.bind_eq_error _ _ _).mpr (.inl hfail)⟩
      | combined htexts hfirst hw =>
        refine ⟨_, htexts, (Outcome.bind_eq_error _ _ _).mpr (.inr ⟨_, hfirst, ?_⟩)⟩
        exact applyAll_eq_error.mpr ⟨_, _, _, _, rfl, hw, hfail⟩

theorem runFull_eq_error {f : FullField} :
    s.runFull e f = .error failure ↔
      s.runChain e f.chain = .error failure ∨
        ∃ v name, s.runChain e f.chain = .ok v ∧ f.mapper = some name ∧
          s.mappers.map name v s.registry.debug = .error failure := by
  rw [Scope.runFull, Outcome.bind_eq_error]
  cases f.mapper with
  | none => simp
  | some name => simp

end Fields
end XmlHarvest
