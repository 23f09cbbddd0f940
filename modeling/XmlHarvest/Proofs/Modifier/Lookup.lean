import XmlHarvest.Proofs.Field
import XmlHarvest.Proofs.References

/-! # Looking modifiers up and calling them

A registry knows, resolves and applies the same names: those of its own table, and of the
others those that the capability supplies.  That a name is not known is reported for no
other reason; whatever a modifier fails with when it is called, an unknown modifier of its
own included, becomes a transformation error. -/
set_option autoImplicit false

namespace XmlHarvest

/-! ## What is called -/

namespace Registry

/-- What a registry calls under a name: the modifier that its table has under it or, if
there is none, what the capability calls under it. -/
inductive Calls (r : Registry) (name : Text) : Transform → Prop
  | builtin {f : Transform} (found : r.builtins.lookup name = some f) : Calls r name f
  | custom {c : Capability} (others : ∀ entry ∈ r.builtins, entry.1 ≠ name)
      (capability : r.capability = some c) (known : c.knows name = true) :
      Calls r name (c.call name)

variable {r : Registry} {name : Text} {f : Transform}

theorem builtin?_eq_none : r.builtin? name = none ↔ ∀ entry ∈ r.builtins, entry.1 ≠ name := by
  rw [builtin?, List.lookup_eq_none_iff]
  refine forall₂_congr fun entry _ => ?_
  rw [bne_iff_ne, ne_comm]

theorem supplied?_eq_some {capability : Option Capability} :
    Capability.supplied? capability name = some f ↔
      ∃ c, capability = some c ∧ c.knows name = true ∧ c.call name = f := by
  cases capability with
  | none => simp [Capability.supplied?]
  | some c => by_cases h : c.knows name = true <;> simp [Capability.supplied?, h]

theorem resolve_eq_ok : r.resolve name = .ok f ↔ r.Calls name f := by
  cases hbuiltin : r.builtin? name with
  | some g =>
    have hlookup : r.builtins.lookup name = some g := hbuiltin
    rw [resolve, hbuiltin, Except.ok.injEq]
    constructor
    · rintro rfl
      exact .builtin hlookup
    · intro h
      cases h with
      | builtin found => exact Option.some.inj (hlookup.symm.trans found)
      | custom others => cases hbuiltin.symm.trans (builtin?_eq_none.mpr others)
  | none =>
    have hlookup : r.builtins.lookup name = none := hbuiltin
    have hcalls : r.Calls name f ↔ Capability.supplied? r.capability name = some f := by
      rw [supplied?_eq_some]
      constructor
      · intro h
        cases h with
        | builtin found => cases hlookup.symm.trans found
        | custom _ hcapability hknown => exact ⟨_, hcapability, hknown, rfl⟩
      · rintro ⟨c, hcapability, hknown, rfl⟩
        exact .custom (builtin?_eq_none.mp hbuiltin) hcapability hknown
    rw [resolve_of_custom hbuiltin, hcalls]
    cases Capability.supplied? r.capability name with
    | none => simp [Outcome.raise]
    | some g => simp

/-- A registry knows the names that it resolves. -/
theorem knows_iff : r.knows name = true ↔ ∃ f, r.resolve name = .ok f := by
  rw [knows, resolve]
  cases r.builtin? name with
  | some b => simp
  | none =>
    cases r.capability with
    | none => simp [Outcome.raise]
    | some c => by_cases h : c.knows name = true <;> simp [h, Outcome.raise]

/-! ## The forms of a capability -/

theorem supplied?_ofFind {find : Text → Option Transform} :
    Capability.supplied? (some (.ofFind find)) name = find name := by
  cases h : find name with
  | none => simp [Capability.supplied?, Capability.ofFind, h]
  | some f =>
    refine supplied?_eq_some.mpr ⟨_, rfl, by simp [Capability.ofFind, h], ?_⟩
    funext args
    simp [Capability.ofFind, h]

/-- Without built-in modifiers, what is supplied is what is called. -/
theorem resolve_without_builtins {capability : Option Capability} :
    Registry.resolve { builtins := [], capability := capability } name = .ok f ↔
      Capability.supplied? capability name = some f := by
  rw [resolve_of_custom rfl]
  cases Capability.supplied? capability name with
  | none => simp [Outcome.raise]
  | some g => simp

theorem standard_lookup (b : Builtin) (capability : Option Capability) :
    (standard capability).builtins.lookup b.name =
      some fun args => Outcome.ofFault (b.apply args) := by
  cases b <;> rfl

/-- In the standard registry a built-in modifier is called under its name, whatever the
capability. -/
theorem standard_calls (b : Builtin) (capability : Option Capability) :
    (standard capability).Calls b.name fun args => Outcome.ofFault (b.apply args) :=
  .builtin (standard_lookup b capability)

theorem function?_eq_some {members : List (Text × Member)} :
    Capability.function? members name = some f ↔ members.lookup name = some (.function f) := by
  rw [Capability.function?]
  cases members.lookup name with
  | none => simp
  | some member => cases member <;> simp

theorem supplied?_table {entries : List (Text × Member)} :
    Capability.supplied? (some (.ofTable entries)) name = some f ↔
      entries.lookup name = some (.function f) := by
  rw [Capability.ofTable, supplied?_ofFind, function?_eq_some]

theorem supplied?_object {members : List (Text × Member)} :
    Capability.supplied? (some (.ofObject members)) name = some f ↔
      Capability.isPrivate name = false ∧ members.lookup name = some (.function f) := by
  rw [Capability.ofObject, supplied?_ofFind]
  by_cases h : Capability.isPrivate name = true <;> simp [h, function?_eq_some]

/-! ## What becomes of a failure -/

/-- A computation reports a modifier that is not known. -/
def ReportsUnknown {α : Type} (x : Outcome α) : Prop :=
  ∃ e, x = .error (.error e) ∧ e.kind = .unknownModifier

variable {ref : ModifierRef} {values : List Value} {cause : Failure}

/-- A call is shown in a log of all details, and then made. -/
theorem apply_of_calls (h : r.Calls ref.name f) : r.apply ref values =
    Outcome.ofFault (r.show? ref values) >>= fun _ =>
      (f (values ++ ref.params)).mapError (transformation ref values) := by
  rw [apply, resolve_eq_ok.mpr h]
  change (Outcome.ofFault (r.show? ref values) >>= fun _ => _) = _
  refine bind_congr fun _ => ?_
  cases f (values ++ ref.params) <;> rfl

theorem apply_quiet (hdebug : r.debug = false) (h : r.Calls ref.name f) : r.apply ref values =
    (f (values ++ ref.params)).mapError (transformation ref values) := by
  have hshow : r.show? ref values = .ok () := by simp [show?, hdebug]
  rw [apply_of_calls h, hshow]
  rfl

/-- The failure of a modifier is never taken for a name that is not known. -/
theorem transformation_ne_unknown {e : Error} (h : transformation ref values cause = .error e) :
    e.kind ≠ .unknownModifier := by
  rw [transformation] at h
  split at h
  · cases h
  · cases h
    simp [Error.kind, Problem.kind]

theorem not_reportsUnknown_iff :
    ¬ ReportsUnknown (r.apply ref values) ↔ ∃ f, r.resolve ref.name = .ok f := by
  constructor
  · intro h
    cases hresolve : r.resolve ref.name with
    | ok f => exact ⟨f, rfl⟩
    | error failure =>
      refine absurd ⟨⟨.unknownModifier ref.name, {}⟩, ?_, rfl⟩ h
      rw [apply, hresolve, resolve_eq_error hresolve]
      rfl
  · rintro ⟨f, hf⟩ ⟨e, he, hkind⟩
    rcases apply_eq_error.mp he with h | ⟨g, -, ⟨-, h⟩ | ⟨-, cause, -, hcause⟩⟩
    · cases hf.symm.trans h
    · cases h
    · exact transformation_ne_unknown hcause hkind

/-- What a failure with a text becomes. -/
theorem transformation_of_texts {shown reason : Text}
    (hshown : (source values).display? = .ok shown) (hreason : cause.text? = .ok reason) :
    transformation ref values cause = .of (.transformation
      ("Modifier '" ++ ref.name ++ "' failed on value " ++ shown ++ ": " ++ reason)
      (some ref.name) (some (source values)) (some cause)) := by
  have hreport : report ref values cause =
      .ok ("Modifier '" ++ ref.name ++ "' failed on value " ++ shown ++ ": " ++ reason) := by
    rw [report, hshown, hreason]
    rfl
  rw [transformation, hreport]

theorem transformation_of_wordless {shown : Text} {fault : Fault}
    (hshown : (source values).display? = .ok shown) (hwordless : cause.text? = .error fault) :
    transformation ref values cause = .fault fault := by
  have hreport : report ref values cause = .error fault := by
    rw [report, hshown, hwordless]
    rfl
  rw [transformation, hreport]

theorem source_eq_list (h : values.length ≠ 1) : source values = .list values := by
  match values, h with
  | [], _ => rfl
  | [_], h => exact absurd rfl h
  | _ :: _ :: _, _ => rfl

end Registry

/-! ## Failures and their texts -/

/-- A failure has a text of its own; only a custom modifier can fail without one. -/
def Failure.Worded : Failure → Prop
  | .error _ => True
  | .fault f => ∀ kind cause, f ≠ .wordless kind cause

/-- A computation fails with a text if it fails. -/
def FailsWorded {α : Type} (x : Except Fault α) : Prop :=
  ∀ fault, x = .error fault → (Failure.fault fault).Worded

theorem Failure.text?_of_worded {cause : Failure} (h : cause.Worded) :
    cause.text? = .ok cause.message := by
  cases cause with
  | error e => rfl
  | fault f =>
    cases f with
    | wordless kind inner => exact absurd rfl (h kind inner)
    | _ => rfl

namespace FailsWorded

variable {α β : Type} {x : Except Fault α}

theorem ok (a : α) : FailsWorded (.ok a) := by
  intro fault h
  cases h

theorem error {fault : Fault} (h : (Failure.fault fault).Worded) :
    FailsWorded (.error fault : Except Fault α) := by
  rintro _ ⟨⟩
  exact h

theorem bind {f : α → Except Fault β} (h : FailsWorded x) (hf : ∀ a, FailsWorded (f a)) :
    FailsWorded (x >>= f) := by
  intro fault hfault
  rcases (Outcome.bind_eq_error _ _ _).mp hfault with hx | ⟨a, -, hfa⟩
  · exact h fault hx
  · exact hf a fault hfa

theorem then_ok (h : FailsWorded x) (f : α → β) : FailsWorded (do .ok (f (← x))) :=
  h.bind fun a => ok (f a)

theorem mapM {f : α → Except Fault β} {as : List α} (h : ∀ a, FailsWorded (f a)) :
    FailsWorded (as.mapM f) := by
  intro fault hfault
  obtain ⟨_, a, _, -, -, ha⟩ := (Outcome.mapM_eq_error _ _ _).mp hfault
  exact h a fault ha

theorem text? (v : Value) : FailsWorded v.text? := by
  intro fault h
  obtain ⟨rfl, -⟩ := (v.text?_failsIff fault).mp h
  exact fun kind cause => nofun

theorem plainText (v : Value) : FailsWorded v.plainText := by
  unfold Value.plainText
  split
  · exact ok _
  · exact text? _

theorem leadingIntegerOf (s : Text) : FailsWorded (Value.leadingIntegerOf s) := by
  unfold Value.leadingIntegerOf
  split
  · exact ok _
  · split
    · exact error fun kind cause => nofun
    · exact ok _

theorem toInteger (v : Value) : FailsWorded v.toInteger := by
  unfold Value.toInteger
  split
  · exact ok _
  · exact ok _
  · exact ok _
  · unfold Value.truncated
    split
    · exact error fun kind cause => nofun
    · exact error fun kind cause => nofun
    · exact ok _
  · exact (text? _).bind leadingIntegerOf

theorem toNumber (v : Value) : FailsWorded v.toNumber := by
  unfold Value.toNumber
  split
  · exact ok _
  · exact ok _
  · split
    · exact ok _
    · exact error fun kind cause => nofun
  · exact ok _
  · exact (text? _).then_ok _

theorem isBlank (v : Value) : FailsWorded v.isBlank := by
  unfold Value.isBlank
  split
  · exact ok _
  · exact (text? _).then_ok _

theorem check (s : Signature) (args : List Value) : FailsWorded (s.check args) := by
  rw [Signature.check]
  by_cases hfew : args.length < s.params.length
  · rw [if_pos hfew]
    exact error fun kind cause => nofun
  · rw [if_neg hfew]
    by_cases hmany : s.params.length < args.length
    · rw [if_pos hmany]
      exact error fun kind cause => nofun
    · rw [if_neg hmany]
      exact ok _

theorem unary {f : Value → Except Fault Value} (s : Signature) (h : ∀ v, FailsWorded (f v))
    (args : List Value) : FailsWorded (s.unary f args) := by
  unfold Signature.unary
  split
  · rename_i fault hcheck
    exact error (check _ _ fault hcheck)
  · exact h _
  · exact ok _

theorem binary {f : Value → Value → Except Fault Value} (s : Signature)
    (h : ∀ v w, FailsWorded (f v w)) (args : List Value) : FailsWorded (s.binary f args) := by
  unfold Signature.binary
  split
  · rename_i fault hcheck
    exact error (check _ _ fault hcheck)
  · exact h _ _
  · exact ok _

theorem joinValues (args : List Value) : FailsWorded (Builtin.joinValues args) := by
  unfold Builtin.joinValues
  split
  · exact (text? _).bind fun separator => (mapM plainText).bind fun parts => ok _
  · exact error fun kind cause => nofun

/-- A built-in modifier fails with a text, whatever it is called with. -/
theorem apply (b : Builtin) (args : List Value) : FailsWorded (b.apply args) := by
  cases b with
  | toI => exact unary _ (fun v => (toInteger v).then_ok _) args
  | toF => exact unary _ (fun v => (toNumber v).then_ok _) args
  | toS | strip | upcase | downcase | capitalize =>
    exact unary _ (fun v => (plainText v).then_ok _) args
  | squish | numbersOnly => exact unary _ (fun v => ((plainText v).then_ok _).then_ok _) args
  | join => exact joinValues args
  | defaultIfBlank => exact binary _ (fun v fallback => (isBlank v).then_ok _) args

end FailsWorded

open Registry in
/-- A registry knows the name of a reference if it resolves it, and if applying the
reference does not report it as unknown.  What is called under it is what the table of
built-in modifiers has under it, or else the capability's modifier; of the capabilities a
table calls its functions and an object those of its methods that are not private.  What is
returned is the result; what the call fails with, an unknown modifier of its own included,
becomes a transformation error with the reference's name, that failure as its cause, and the
value or the list of the values.  Two things come between: a log of all details that cannot
show the values and the parameters, and a failure of a custom modifier that has no text. -/
theorem unknown_and_failed_stay_apart (r : Registry) (ref : ModifierRef) (values : List Value) :
    (r.knows ref.name = true ↔ ∃ f, r.resolve ref.name = .ok f) ∧
    (r.knows ref.name = true ↔ ¬ ReportsUnknown (r.apply ref values)) ∧
    (∀ f, r.resolve ref.name = .ok f ↔ r.Calls ref.name f) ∧
    (∀ f, r.Calls ref.name f →
      (r.Withheld ref values → r.apply ref values = .error (.fault .longInteger)) ∧
      (¬ r.Withheld ref values → ∀ v, f (values ++ ref.params) = .ok v →
        r.apply ref values = .ok v) ∧
      (¬ r.Withheld ref values → ∀ cause shown, f (values ++ ref.params) = .error cause →
        (source values).display? = .ok shown →
        (cause.Worded → r.apply ref values = .error (.of (.transformation
          ("Modifier '" ++ ref.name ++ "' failed on value " ++ shown ++ ": " ++ cause.message)
          (some ref.name) (some (source values)) (some cause)))) ∧
        ∀ fault, cause.text? = .error fault → r.apply ref values = .error (.fault fault))) ∧
    (∀ e, (Failure.error e).Worded) ∧ (∀ b : Builtin, ∀ args, FailsWorded (b.apply args)) ∧
    (∀ v, source [v] = v) ∧ (values.length ≠ 1 → source values = .list values) ∧
    (∀ entries name f, Registry.resolve
        { builtins := [], capability := some (.ofTable entries) } name = .ok f ↔
      entries.lookup name = some (.function f)) ∧
    ∀ members name f, Registry.resolve
        { builtins := [], capability := some (.ofObject members) } name = .ok f ↔
      Capability.isPrivate name = false ∧ members.lookup name = some (.function f) := by
  simp only [resolve_without_builtins, supplied?_table, supplied?_object, implies_true, and_true]
  refine ⟨knows_iff, knows_iff.trans not_reportsUnknown_iff.symm, fun f => resolve_eq_ok, ?_,
    fun e => trivial, FailsWorded.apply, fun v => rfl, source_eq_list⟩
  intro f hcalls
  have hresolve := resolve_eq_ok.mpr hcalls
  refine ⟨apply_of_withheld hresolve, fun hshown v hv => ?_, fun hshown cause shown hcause htext => ?_⟩
  · rw [apply_of_resolve hresolve hshown, hv]
    rfl
  · rw [apply_of_resolve hresolve hshown, hcause]
    refine ⟨fun hworded => ?_, fun fault hwordless => ?_⟩
    · rw [← transformation_of_texts htext (Failure.text?_of_worded hworded)]
      rfl
    · exact congrArg Except.error (transformation_of_wordless htext hwordless)

def asking : Capability :=
  .ofTable [("ask", .function fun _ => .raise (.unknownModifier "inner"))]

open Registry in
theorem inner_unknown_is_reported :
    Registry.knows (.standard (some asking)) "ask" = true ∧
    Registry.apply (.standard (some asking)) ⟨"ask", [], by decide +kernel⟩ [.str "x", .str "y"] =
      .error (.of (.transformation
        "Modifier 'ask' failed on value ['x', 'y']: Unknown modifier 'inner'" (some "ask")
        (some (.list [.str "x", .str "y"])) (some (.of (.unknownModifier "inner"))))) := by
  have hcalls : (Registry.standard (some asking)).Calls "ask" (asking.call "ask") :=
    .custom (by decide +kernel) rfl (by decide +kernel)
  obtain ⟨-, -, -, happly, -⟩ := unknown_and_failed_stay_apart (.standard (some asking))
    ⟨"ask", [], by decide +kernel⟩ [.str "x", .str "y"]
  obtain ⟨-, -, hfailed⟩ := happly _ hcalls
  have hquiet : ∀ ref values, ¬ (Registry.standard (some asking)).Withheld ref values :=
    fun _ _ => nofun
  exact ⟨by decide +kernel, (hfailed (hquiet _ _) _ "['x', 'y']" rfl (by decide +kernel)).1 trivial⟩

def longFallback : ModifierRef :=
  ⟨"default_if_blank", [.int (tenTo digitLimit)], by decide +kernel⟩

def longKey : Capability :=
  .ofTable [("find", .function fun _ => .error (.fault (.wordless .key .longInteger)))]

open Registry in
/-- A modifier that returns is not heard of in a log of all details, and the failure of one
that fails is lost when it has no text. -/
theorem long_integers_come_between :
    Registry.apply (.standard none) longFallback [.str "x"] = .ok (.str "x") ∧
    Registry.apply { Registry.standard none with debug := true } longFallback [.str "x"] =
      .error (.fault .longInteger) ∧
    Registry.apply (.standard (some longKey)) ⟨"find", [], by decide +kernel⟩ [.str "x"] =
      .error (.fault .longInteger) := by
  have hlong : ¬ (Value.list longFallback.params).Writable := by
    rw [Value.writable_list, longFallback, List.forall_mem_singleton]
    exact Value.not_writable_power (Nat.le_refl _)
  refine ⟨rfl, ?_, rfl⟩
  have hloud : Calls { Registry.standard none with debug := true } longFallback.name _ :=
    .builtin (Registry.standard_lookup .defaultIfBlank none)
  exact apply_of_withheld (resolve_eq_ok.mpr hloud) ⟨rfl, fun h => hlong h.2⟩

end XmlHarvest
