import XmlHarvest.Proofs.Chain
import XmlHarvest.Proofs.Schema.Parameters
import XmlHarvest.Proofs.Text.Moderate

/-! # Chains of conversions

The built-in modifiers with one argument take whatever is in a document, up to two limits:
the digits of an integer that is read, and the range of double-precision numbers.  Which texts
keep within them, whatever chain they go through, is seen from the number that a text starts
with and from the one that all its digits write. -/
set_option autoImplicit false

namespace XmlHarvest

open Text Xml

def Builtin.conversions : List Builtin :=
  [.toI, .toF, .toS, .strip, .upcase, .downcase, .capitalize, .squish, .numbersOnly]

/-- A conversion refuses a value: a text with too long an integer at its start, an infinite
number, or an integer that no double-precision number comes near. -/
inductive Builtin.Refuses : Builtin → Value → Fault → Prop
  | longRun {s : Text} (long : digitLimit < (leadingRun (trim s)).length) :
      Refuses .toI (.str s) (.longNumeral (leadingRun (trim s)).length)
  | infinite (negative : Bool) : Refuses .toI (.float (.infinite negative)) .infinityToInteger
  | beyond {i : Int} (large : Binary64.overflow ≤ i.natAbs) :
      Refuses .toF (.int i) .integerBeyondFloat

/-! ## One conversion -/

/-- What a text is converted to: texts, integers that can be written, and numbers. -/
inductive Value.Datum : Value → Prop
  | text (s : Text) : Datum (.str s)
  | integer {i : Int} (writable : (Scalar.int i).Writable) : Datum (.int i)
  | number {x : Binary64} (canonical : x.Canonical ∧ x ≠ .nan) : Datum (.float x)

/-- A value that keeps within the limits, and so does whatever it is converted to. -/
inductive Value.Moderate : Value → Prop
  | text {s : Text} (moderate : Text.Moderate s) : Moderate (.str s)
  | integer {i : Int} (small : i.natAbs < Binary64.overflow) : Moderate (.int i)
  | number {negative : Bool} {m : Nat} {e : Int} (normal : Binary64.Normal m e) :
      Moderate (.float (.finite negative m e))

section Values

variable {v w : Value} {b : Builtin} {fault : Fault} {i : Int} {x : Binary64} {m : Nat} {e : Int}

theorem Value.Datum.clean (h : v.Datum) : v.Clean := by
  cases h with
  | text s => exact Value.clean_str s
  | integer hwritable => exact .scalar hwritable
  | number hcanonical => exact clean_float hcanonical

theorem Value.Datum.writable (h : v.Datum) : v.Writable := fun s hs => by
  have hclean := h.clean.of_holds hs
  cases s with
  | int i => exact hclean
  | null | bool | float | str | time => trivial

theorem Value.Moderate.datum (h : v.Moderate) : v.Datum := by
  cases h with
  | @text s _ => exact .text s
  | integer hsmall => exact .integer (hsmall.trans_le overflow_le_tenTo)
  | number hnormal => exact .number ⟨hnormal, nofun⟩

theorem Value.moderate_float (hx : x.Canonical) (hfinite : x.Finite) : (Value.float x).Moderate := by
  cases x with
  | finite negative m e => exact .number hx
  | infinite negative => exact hfinite.elim
  | nan => exact hfinite.elim

theorem Value.Datum.exists_plainText (h : v.Datum) : ∃ t, v.plainText = .ok t := by
  have htext := v.text?_failsIff.eq_ok_iff.mpr (not_not.mpr h.writable)
  cases h with
  | text | integer | number => exact htext

theorem Value.Moderate.exists_plainText (h : v.Moderate) :
    ∃ t, v.plainText = .ok t ∧ Text.Moderate t := by
  obtain ⟨t, ht⟩ := h.datum.exists_plainText
  refine ⟨t, ht, ?_⟩
  cases h with
  | text hmoderate =>
    cases ht
    exact hmoderate
  | integer hsmall => exact moderate_integerText ht hsmall
  | @number negative m e hnormal =>
    cases ht
    exact moderate_of_length_le ((Binary64.length_text negative hnormal).trans (by decide))

/-! ### To integers -/

theorem apply_toI (v : Value) : Builtin.toI.apply [v] = Value.int <$> v.toInteger := rfl

theorem toI_moderate (h : v.Moderate) : ∃ w, Builtin.toI.apply [v] = .ok w ∧ w.Moderate := by
  rw [apply_toI]
  cases h with
  | @text s hmoderate =>
    have hread : Value.toInteger (.str s) = .ok (towardsZero (leadingValue (trim s))) :=
      (leadingIntegerOf_eq s).trans (if_neg (Nat.not_lt.mpr hmoderate.run))
    have hsmall := (natAbs_towardsZero_le (trim s)).trans_lt hmoderate.value
    rw [hread]
    exact ⟨_, rfl, .integer (by exact_mod_cast hsmall)⟩
  | integer hsmall => exact ⟨_, rfl, .integer hsmall⟩
  | number hnormal => exact ⟨_, rfl, .integer (Binary64.natAbs_truncate_lt _ hnormal)⟩

theorem toI_refuses (h : v.Datum) :
    Builtin.toI.apply [v] = .error fault ↔ Builtin.Refuses .toI v fault := by
  rw [apply_toI, Outcome.map_eq_error]
  cases h with
  | text s =>
    have hread : Value.toInteger (.str s) = _ := leadingIntegerOf_eq s
    rw [hread]
    constructor
    · intro hfault
      split at hfault
      · cases hfault
        exact .longRun ‹_›
      · cases hfault
    · intro hrefuses
      cases hrefuses with
      | longRun hlong => rw [if_pos hlong]
  | integer => exact ⟨nofun, nofun⟩
  | @number x hx =>
    cases x with
    | finite negative m e => exact ⟨nofun, nofun⟩
    | nan => exact absurd rfl hx.2
    | infinite negative =>
      constructor
      · intro hfault
        cases hfault
        exact .infinite negative
      · intro hrefuses
        cases hrefuses
        rfl

/-! ### To numbers -/

theorem apply_toF (v : Value) : Builtin.toF.apply [v] = Value.float <$> v.toNumber := rfl

theorem toF_moderate (h : v.Moderate) : ∃ w, Builtin.toF.apply [v] = .ok w ∧ w.Moderate := by
  rw [apply_toF]
  cases h with
  | @text s hmoderate =>
    have hclean := (Value.clean_scalar.mp (clean_leadingNumberOf s)).1
    exact ⟨_, rfl, Value.moderate_float hclean ((leadingNumberOf_finite_iff s).mpr hmoderate.value)⟩
  | @integer i hsmall =>
    have hread : Binary64.ofInt? i = some _ := Binary64.ofInt?_eq_some.mpr ⟨rfl, hsmall⟩
    have hfinite : (Binary64.ofRatio (decide (i < 0)) i.natAbs 1).Finite := by
      rw [Binary64.ofRatio_finite_iff _ _ Nat.one_pos, Nat.cast_one, div_one]
      exact_mod_cast hsmall
    refine ⟨.float (Binary64.ofRatio (decide (i < 0)) i.natAbs 1), ?_, Value.moderate_float
      (Binary64.ofRatio_canonical _ _ Nat.one_pos).1 hfinite⟩
    rw [Value.int, Value.toNumber, hread]
    rfl
  | number hnormal => exact ⟨_, rfl, .number hnormal⟩

theorem toF_refuses (h : v.Datum) :
    Builtin.toF.apply [v] = .error fault ↔ Builtin.Refuses .toF v fault := by
  rw [apply_toF, Outcome.map_eq_error]
  cases h with
  | text => exact ⟨nofun, nofun⟩
  | number => exact ⟨nofun, nofun⟩
  | @integer i =>
    have hsome : (∃ x, Binary64.ofInt? i = some x) ↔ i.natAbs < Binary64.overflow := by
      simp [Binary64.ofInt?_eq_some]
    rw [Value.int, Value.toNumber]
    constructor
    · intro hfault
      split at hfault
      · cases hfault
      · rename_i hnone
        cases hfault
        refine .beyond (Nat.not_lt.mp fun hsmall => ?_)
        obtain ⟨x, hx⟩ := hsome.mpr hsmall
        rw [hx] at hnone
        cases hnone
    · intro hrefuses
      cases hrefuses with
      | beyond hlarge =>
        split
        · rename_i hx
          exact absurd (hsome.mp ⟨_, hx⟩) (Nat.not_lt.mpr hlarge)
        · rfl

/-! ### To texts -/

/-- The other conversions reword the text of a value. -/
theorem exists_rewording (h : b ∈ Builtin.conversions) : b = .toI ∨ b = .toF ∨
    ∃ f : Text → Text, (∀ cs, Text.Moderate cs → Text.Moderate (f cs)) ∧
      ∀ v, b.apply [v] = (fun t => Value.str (f t)) <$> v.plainText := by
  cases b with
  | toI => exact .inl rfl
  | toF => exact .inr (.inl rfl)
  | toS => exact .inr (.inr ⟨id, fun _ hcs => hcs, fun _ => rfl⟩)
  | strip => exact .inr (.inr ⟨trim, fun _ => moderate_trim, fun _ => rfl⟩)
  | upcase =>
    exact .inr (.inr ⟨upper, fun cs => moderate_of_reworded (reworded_upper cs), fun _ => rfl⟩)
  | downcase =>
    exact .inr (.inr ⟨lower, fun cs => moderate_of_reworded (reworded_lowerFrom [] cs), fun _ => rfl⟩)
  | capitalize =>
    exact .inr (.inr ⟨capitalize, fun cs => moderate_of_reworded (reworded_capitalize cs), fun _ =>
      rfl⟩)
  | squish =>
    refine .inr (.inr ⟨fun cs => collapse (trim cs), fun cs hcs => ?_, fun v => ?_⟩)
    · exact moderate_of_reworded (reworded_collapse _) (moderate_trim hcs)
    · have hcall : Builtin.squish.apply [v] = Value.str <$> v.squished := rfl
      rw [hcall, Value.squished]
      cases v.plainText <;> rfl
  | numbersOnly =>
    refine .inr (.inr ⟨fun cs => cs.filter isAsciiDigit, fun _ => moderate_filter, fun v => ?_⟩)
    have hcall : Builtin.numbersOnly.apply [v] = Value.str <$> v.digitsOnly := rfl
    rw [hcall, Value.digitsOnly]
    cases v.plainText <;> rfl
  | join => exact absurd h (by decide)
  | defaultIfBlank => exact absurd h (by decide)

/-- A value within the limits is converted to one within the limits. -/
theorem conversion_moderate (hb : b ∈ Builtin.conversions) (hv : v.Moderate) :
    ∃ w, b.apply [v] = .ok w ∧ w.Moderate := by
  rcases exists_rewording hb with rfl | rfl | ⟨f, hf, hcall⟩
  · exact toI_moderate hv
  · exact toF_moderate hv
  · obtain ⟨t, ht, hmoderate⟩ := hv.exists_plainText
    exact ⟨.str (f t), by rw [hcall, ht]; rfl, .text (hf _ hmoderate)⟩

/-- Nothing else keeps a conversion from its result. -/
theorem conversion_refuses (hb : b ∈ Builtin.conversions) (hv : v.Datum) :
    b.apply [v] = .error fault ↔ b.Refuses v fault := by
  rcases exists_rewording hb with rfl | rfl | ⟨f, -, hcall⟩
  · exact toI_refuses hv
  · exact toF_refuses hv
  · obtain ⟨t, ht⟩ := hv.exists_plainText
    rw [hcall, ht]
    refine ⟨nofun, fun hrefuses => ?_⟩
    -- only a conversion to numbers refuses a value, and neither of them rewords its text
    have hfault : b.apply [v] = .error fault := by
      cases hrefuses with
      | longRun hlong => exact (toI_refuses hv).mpr (.longRun hlong)
      | infinite negative => exact (toI_refuses hv).mpr (.infinite negative)
      | beyond hlarge => exact (toF_refuses hv).mpr (.beyond hlarge)
    rw [hcall, ht] at hfault
    cases hfault

theorem conversion_datum (hb : b ∈ Builtin.conversions) (hv : v.Datum) (h : b.apply [v] = .ok w) :
    w.Datum := by
  have hclean : w.Clean := b.clean_apply (by simpa using hv.clean) h
  rcases exists_rewording hb with rfl | rfl | ⟨f, -, hcall⟩
  · rw [apply_toI, Outcome.map_eq_ok] at h
    obtain ⟨i, -, rfl⟩ := h
    exact .integer (Value.clean_scalar.mp hclean)
  · rw [apply_toF, Outcome.map_eq_ok] at h
    obtain ⟨x, -, rfl⟩ := h
    exact .number (Value.clean_scalar.mp hclean)
  · rw [hcall, Outcome.map_eq_ok] at h
    obtain ⟨t, -, rfl⟩ := h
    exact .text _

end Values

/-! ## Chains -/

def Builtin.chain (bs : List Builtin) : List ModifierRef := bs.map fun b => b.ref []

section Chains

variable {s : Scope} {capability : Option Capability} {mappers : Mappers} {v w : Value}
  {bs : List Builtin} {b : Builtin} {failure : Failure} {text : Text}

/-- What becomes of a refused value: an error that shows it. -/
theorem apply_conversion_eq_error (hb : b ∈ Builtin.conversions) (hv : v.Datum) :
    (Registry.standard capability).apply (b.ref []) [v] = .error failure ↔
      ∃ fault shown, b.Refuses v fault ∧ v.display? = .ok shown ∧
        failure = .of (.transformation
          ("Modifier '" ++ b.name ++ "' failed on value " ++ shown ++ ": " ++ fault.message)
          (some b.name) (some v) (some (.fault fault))) := by
  obtain ⟨shown, hshown⟩ := v.display?_failsIff.eq_ok_iff.mpr (not_not.mpr hv.writable)
  have hreport : ∀ fault, b.Refuses v fault →
      Registry.transformation (b.ref []) [v] (.fault fault) = _ :=
    fun fault hrefuses =>
      have hfails := (conversion_refuses hb hv).mpr hrefuses
      Registry.transformation_of_texts hshown
        (Failure.text?_of_worded (FailsWorded.apply b [v] fault hfails))
  rw [b.apply_ref, List.append_nil, Outcome.mapError_eq_error]
  simp only [Outcome.ofFault_eq_error]
  constructor
  · rintro ⟨_, ⟨fault, rfl, hfault⟩, rfl⟩
    have hrefuses := (conversion_refuses hb hv).mp hfault
    exact ⟨fault, shown, hrefuses, hshown, hreport fault hrefuses⟩
  · rintro ⟨fault, shown', hrefuses, hshown', rfl⟩
    obtain rfl : shown = shown' := Except.ok.inj (hshown.symm.trans hshown')
    exact ⟨_, ⟨fault, rfl, (conversion_refuses hb hv).mpr hrefuses⟩, hreport fault hrefuses⟩

theorem apply_conversion_eq_ok : (Registry.standard capability).apply (b.ref []) [v] = .ok w ↔
    b.apply [v] = .ok w := by
  rw [b.apply_ref, List.append_nil, Outcome.mapError_eq_ok, Outcome.ofFault_eq_ok]

/-- Whatever a chain of conversions makes of a value within the limits is within them. -/
theorem applyAll_moderate (hbs : bs ⊆ Builtin.conversions) (hv : v.Moderate) :
    ∃ w, Scope.applyAll ⟨.standard capability, mappers⟩ (Builtin.chain bs) v = .ok w ∧ w.Moderate := by
  induction bs generalizing v with
  | nil => exact ⟨v, rfl, hv⟩
  | cons b rest ih =>
    obtain ⟨hb, hrest⟩ := List.cons_subset.mp hbs
    obtain ⟨u, hu, hmoderate⟩ := conversion_moderate hb hv
    obtain ⟨w, hw, hlast⟩ := ih hrest hmoderate
    refine ⟨w, ?_, hlast⟩
    rw [Builtin.chain, List.map_cons, applyAll_cons, Outcome.bind_eq_ok]
    exact ⟨u, apply_conversion_eq_ok.mpr hu, hw⟩

theorem applyAll_datum (hbs : bs ⊆ Builtin.conversions) (hv : v.Datum)
    (h : Scope.applyAll ⟨.standard capability, mappers⟩ (Builtin.chain bs) v = .ok w) : w.Datum := by
  induction bs generalizing v with
  | nil =>
    cases h
    exact hv
  | cons b rest ih =>
    obtain ⟨hb, hrest⟩ := List.cons_subset.mp hbs
    rw [Builtin.chain, List.map_cons, applyAll_cons, Outcome.bind_eq_ok] at h
    obtain ⟨u, hu, hw⟩ := h
    exact ih hrest (conversion_datum hb hv (apply_conversion_eq_ok.mp hu)) hw

/-- A chain fails at a conversion that refuses what the ones before it give. -/
theorem applyAll_refuses (hbs : bs ⊆ Builtin.conversions) (hv : v.Datum) :
    Scope.applyAll ⟨.standard capability, mappers⟩ (Builtin.chain bs) v = .error failure ↔
      ∃ before b after u fault shown, bs = before ++ b :: after ∧
        Scope.applyAll ⟨.standard capability, mappers⟩ (Builtin.chain before) v = .ok u ∧
        b.Refuses u fault ∧ u.display? = .ok shown ∧
        failure = .of (.transformation
          ("Modifier '" ++ b.name ++ "' failed on value " ++ shown ++ ": " ++ fault.message)
          (some b.name) (some u) (some (.fault fault))) := by
  have hmembers : ∀ {before b after}, bs = before ++ b :: after →
      before ⊆ Builtin.conversions ∧ b ∈ Builtin.conversions := by
    rintro before b after rfl
    exact ⟨fun c hc => hbs (List.mem_append_left _ hc), hbs (by simp)⟩
  rw [applyAll_eq_error]
  constructor
  · rintro ⟨front, ref, back, u, hsplit, hu, hfailure⟩
    obtain ⟨before, tail, rfl, rfl, htail⟩ := List.map_eq_append_iff.mp hsplit
    obtain ⟨b, after, rfl, rfl, -⟩ := List.map_eq_cons_iff.mp htail
    obtain ⟨hbefore, hb⟩ := hmembers rfl
    obtain ⟨fault, shown, hrefused⟩ :=
      (apply_conversion_eq_error hb (applyAll_datum hbefore hv hu)).mp hfailure
    exact ⟨before, b, after, u, fault, shown, rfl, hu, hrefused⟩
  · rintro ⟨before, b, after, u, fault, shown, hsplit, hu, hrefused⟩
    obtain ⟨hbefore, hb⟩ := hmembers hsplit
    refine ⟨_, b.ref [], Builtin.chain after, u, ?_, hu, ?_⟩
    · rw [hsplit, Builtin.chain, List.map_append, List.map_cons]
      rfl
    · exact (apply_conversion_eq_error hb (applyAll_datum hbefore hv hu)).mpr ⟨fault, shown, hrefused⟩

def Scope.Converts (s : Scope) (bs : List Builtin) (v : Value) : Prop :=
  ∃ w, s.applyAll (Builtin.chain bs) v = .ok w ∧ ∀ x, w = .float x → x.Finite

theorem Value.Moderate.finite (h : v.Moderate) (x : Binary64) (hx : v = .float x) : x.Finite := by
  cases h with
  | text | integer => cases hx
  | number =>
    cases hx
    trivial

theorem converts_cons (h : b.apply [v] = .ok w) :
    Scope.Converts ⟨.standard capability, mappers⟩ (b :: bs) v ↔
      Scope.Converts ⟨.standard capability, mappers⟩ bs w := by
  have hfirst : (Registry.standard capability).apply (b.ref []) [v] = .ok w :=
    apply_conversion_eq_ok.mpr h
  rw [Scope.Converts, Builtin.chain, List.map_cons, applyAll_cons, hfirst]
  rfl

theorem converts_toI : Scope.Converts ⟨.standard capability, mappers⟩ [.toI] (.str text) ↔
    (leadingRun (trim text)).length ≤ digitLimit := by
  have hcall : Builtin.toI.apply [.str text] = Value.int <$> Value.leadingIntegerOf text := rfl
  rw [leadingIntegerOf_eq] at hcall
  constructor
  · rintro ⟨w, hw, -⟩
    rw [Builtin.chain, List.map_cons, applyAll_cons, Outcome.bind_eq_ok] at hw
    obtain ⟨u, hu, -⟩ := hw
    rw [apply_conversion_eq_ok, hcall] at hu
    by_contra hlong
    rw [if_pos (Nat.not_le.mp hlong)] at hu
    cases hu
  · intro hshort
    rw [if_neg (Nat.not_lt.mpr hshort)] at hcall
    exact (converts_cons hcall).mpr ⟨_, rfl, nofun⟩

theorem converts_toF : Scope.Converts ⟨.standard capability, mappers⟩ [.toF] (.str text) ↔
    |leadingValue (trim text)| < Binary64.overflow := by
  have hcall : Builtin.toF.apply [.str text] = .ok (.float (Value.leadingNumberOf text)) := rfl
  rw [converts_cons hcall, ← leadingNumberOf_finite_iff]
  constructor
  · rintro ⟨w, hw, hfinite⟩
    cases hw
    exact hfinite _ rfl
  · intro hfinite
    refine ⟨_, rfl, ?_⟩
    rintro x ⟨⟩
    exact hfinite

/-- The numbers at the start of a text and of its digits decide about all chains. -/
theorem converts_iff : (∀ bs ⊆ Builtin.conversions,
      Scope.Converts ⟨.standard capability, mappers⟩ bs (.str text)) ↔
    Text.Moderate text := by
  constructor
  · intro h
    have hdigits : Digits (text.filter isAsciiDigit) := fun c hc => (List.mem_filter.mp hc).2
    obtain ⟨htrim, hrun, hvalue⟩ := leading_of_digits hdigits
    have hcall : Builtin.numbersOnly.apply [.str text] =
      .ok (.str (text.filter isAsciiDigit)) := rfl
    have hrunDigits := converts_toI.mp ((converts_cons hcall).mp (h [.numbersOnly, .toI] (by decide)))
    have hvalueDigits := converts_toF.mp ((converts_cons hcall).mp (h [.numbersOnly, .toF] (by decide)))
    rw [htrim] at hrunDigits hvalueDigits
    rw [hrun] at hrunDigits
    rw [hvalue, Nat.abs_cast, Nat.cast_lt] at hvalueDigits
    exact ⟨converts_toI.mp (h [.toI] (by decide)), converts_toF.mp (h [.toF] (by decide)),
      hrunDigits, hvalueDigits⟩
  · intro hmoderate bs hbs
    obtain ⟨w, hw, hlast⟩ := applyAll_moderate hbs (.text hmoderate)
    exact ⟨w, hw, hlast.finite⟩

end Chains

/-! ## Fields of conversions -/

section Fields

variable {s : Scope} {capability : Option Capability} {mappers : Mappers} {f : FullField} {e : Element}
  {p : Path} {bs : List Builtin} {b : Builtin} {failure : Failure} {texts : List Text}

/-- A field with one path and no mapper is its chain of modifiers. -/
theorem runFull_of_path (hpath : f.chain.paths = [p]) (hmapper : f.mapper = none) :
    s.runFull e f = p.textAt e >>= fun text => s.applyAll f.chain.modifiers (.str text) := by
  have hchain : s.runChain e f.chain = s.runChain e (.single p f.chain.modifiers) :=
    runChain_eq_of_parts hpath rfl
  rw [runFull_eq_mapped, hmapper, hchain]
  exact bind_pure _

/-- A field of conversions fails if its path leads nowhere, and for no other reason as long as
what it finds is within the limits. -/
theorem runFull_conversions (hbs : bs ⊆ Builtin.conversions) (hpath : f.chain.paths = [p])
    (hmodifiers : f.chain.modifiers = Builtin.chain bs) (hmapper : f.mapper = none)
    (hmoderate : ∀ text, p.textAt e = .ok text → Text.Moderate text) :
    Scope.runFull ⟨.standard capability, mappers⟩ e f = .error failure ↔
      ∃ tag, Stops e p.segments tag ∧
        failure = .error ⟨.pathNotFound tag, { path := some p.text }⟩ := by
  rw [runFull_of_path hpath hmapper, hmodifiers, ← textAt_eq_error, Outcome.bind_eq_error]
  refine ⟨?_, .inl⟩
  rintro (hmissing | ⟨text, htext, hfailure⟩)
  · exact hmissing
  · obtain ⟨w, hw, -⟩ := applyAll_moderate hbs (.text (hmoderate text htext))
    rw [hw] at hfailure
    cases hfailure

theorem Builtin.apply_of_length (hb : b ∈ Builtin.conversions) {args : List Value}
    (hlength : 1 < args.length) : b.apply args = .error (.extraArguments b.name 1 args.length) := by
  have hunary : ∀ g, (⟨b.name, ["value"], false⟩ : Signature).unary g args =
      .error (.extraArguments b.name 1 args.length) := by
    intro g
    have hcheck : (⟨b.name, ["value"], false⟩ : Signature).check args =
        .error (.extraArguments b.name 1 args.length) := by
      simp [Signature.check, hlength, Nat.not_lt.mpr hlength.le]
    unfold Signature.unary
    rw [hcheck]
  cases b with
  | join => exact absurd hb (by decide)
  | defaultIfBlank => exact absurd hb (by decide)
  | _ => exact hunary _

/-- Conversions do not join: with several paths the first one is given too many values. -/
theorem runFull_conversions_joined (hb : b ∈ Builtin.conversions)
    (hmodifiers : f.chain.modifiers = Builtin.chain (b :: bs))
    (htexts : Path.textsAt f.chain.paths e = .ok texts) (hlength : 1 < texts.length) :
    Scope.runFull ⟨.standard capability, mappers⟩ e f = .error (Registry.transformation (b.ref [])
      (texts.map .str) (.fault (.extraArguments b.name 1 texts.length))) := by
  have hcall : b.apply (texts.map .str) = .error (.extraArguments b.name 1 texts.length) := by
    rw [b.apply_of_length hb (by rwa [List.length_map]), List.length_map]
  have hcalls : (Registry.standard capability).Calls (b.ref []).name _ :=
    Registry.standard_calls b capability
  rw [runFull_of_calls hmodifiers htexts hcalls]
  dsimp only [Builtin.ref]
  rw [List.append_nil, hcall]
  rfl

end Fields

/-- Every chain of conversions of a text returns, without an infinite number at any step,
exactly if the number at the start of the text and the one that its digits write are within the
limits, as they are in a text of up to 308 characters.  A chain that fails does so at a
conversion of too long a run of digits, of an infinite number or of an integer beyond all
numbers, and the error shows what was to be converted.  A field of conversions with one path
fails only because the path leads nowhere if what it finds is within the limits; with several
paths it fails, since no conversion takes more than one value. -/
theorem conversions_return_iff_moderate (capability : Option Capability) (mappers : Mappers) :
    let s : Scope := ⟨.standard capability, mappers⟩
    (∀ text : Text, (∀ bs ⊆ Builtin.conversions, s.Converts bs (.str text)) ↔
      Text.Moderate text) ∧
    (∀ text : Text, text.length ≤ 308 → Text.Moderate text) ∧
    (∀ bs ⊆ Builtin.conversions, ∀ text failure,
      s.applyAll (Builtin.chain bs) (.str text) = .error failure ↔
        ∃ before b after u fault shown, bs = before ++ b :: after ∧
          s.applyAll (Builtin.chain before) (.str text) = .ok u ∧ b.Refuses u fault ∧
          u.display? = .ok shown ∧ failure = .of (.transformation
            ("Modifier '" ++ b.name ++ "' failed on value " ++ shown ++ ": " ++ fault.message)
            (some b.name) (some u) (some (.fault fault)))) ∧
    (∀ bs ⊆ Builtin.conversions, ∀ (f : FullField) (e : Element), f.mapper = none →
      f.chain.modifiers = Builtin.chain bs →
      (∀ p, f.chain.paths = [p] →
        (∀ text, p.textAt e = .ok text → Text.Moderate text) → ∀ failure,
        s.runFull e f = .error failure ↔ ∃ tag, Stops e p.segments tag ∧
          failure = .error ⟨.pathNotFound tag, { path := some p.text }⟩) ∧
      ∀ b ∈ bs.head?, ∀ texts, Path.textsAt f.chain.paths e = .ok texts → 1 < texts.length →
        s.runFull e f = .error (Registry.transformation (b.ref []) (texts.map .str)
          (.fault (.extraArguments b.name 1 texts.length)))) := by
  refine ⟨fun text => converts_iff, fun text => moderate_of_length_le, fun bs hbs text failure => ?_,
    fun bs hbs f e hmapper hmodifiers => ⟨fun p hpath hmoderate failure => ?_, ?_⟩⟩
  · exact applyAll_refuses hbs (.text text)
  · exact runFull_conversions hbs hpath hmodifiers hmapper hmoderate
  · intro b hb texts htexts hlength
    obtain ⟨rest, rfl⟩ := List.head?_eq_some_iff.mp hb
    exact runFull_conversions_joined (hbs List.mem_cons_self) hmodifiers htexts hlength

def nines (n : Nat) : Text := List.replicate n '9'

theorem writtenBy_nines {n : Nat} (hn : 0 < n) :
    Numeral.WrittenBy ⟨false, List.replicate n '9', []⟩ (nines n) := by
  have hdigits : Digits (List.replicate n '9') := by
    intro c hc
    rw [List.eq_of_mem_replicate hc]
    decide
  rw [nines]
  exact .whole .none (digitRun_of_digits hdigits (List.ne_nil_of_length_pos (by simpa using hn)))

/-- A text of digits of which there are too many is refused, and a shorter one is converted to
an infinite number, which is refused in turn. -/
theorem nines_refused :
    (Registry.standard none).apply (Builtin.toI.ref []) [.str (nines 4301)] =
      .error (.of (.transformation
        ("Modifier 'to_i' failed on value " ++ Text.quote (nines 4301) ++ ": " ++
          (Fault.longNumeral 4301).message)
        (some "to_i") (some (.str (nines 4301))) (some (.fault (.longNumeral 4301))))) ∧
    (Registry.standard none).apply (Builtin.toF.ref []) [.str (nines 309)] =
      .ok (.float (.infinite false)) ∧
    (Registry.standard none).apply (Builtin.toI.ref []) [.float (.infinite false)] =
      .error (.of (.transformation
        "Modifier 'to_i' failed on value inf: cannot convert float infinity to integer"
        (some "to_i") (some (.float (.infinite false))) (some (.fault .infinityToInteger)))) := by
  refine ⟨?_, ?_, ?_⟩
  · obtain ⟨htrim, hrun, -⟩ := leading_of_writtenBy (writtenBy_nines (n := 4301) (by decide))
    have hlength : (leadingRun (trim (nines 4301))).length = 4301 := by
      rw [htrim, hrun, List.length_replicate]
    have hrefuses : Builtin.Refuses .toI (.str (nines 4301))
        (.longNumeral (leadingRun (trim (nines 4301))).length) := by
      refine .longRun ?_
      rw [hlength]
      exact Nat.lt_succ_self digitLimit
    rw [hlength] at hrefuses
    exact (apply_conversion_eq_error (b := .toI) (by decide) (.text _)).mpr
      ⟨_, _, hrefuses, rfl, rfl⟩
  · have hwritten := writtenBy_nines (n := 309) (by decide)
    have hread : Value.leadingNumberOf (nines 309) = .infinite false := by
      rw [Value.leadingNumberOf, (leading_of_writtenBy hwritten).1,
        leadingDecimal?_of_writtenBy hwritten]
      decide +kernel
    have hcall : Builtin.toF.apply [.str (nines 309)] =
      .ok (.float (Value.leadingNumberOf (nines 309))) := rfl
    rw [apply_conversion_eq_ok, hcall, hread]
  · have hdatum : Value.Datum (.float (.infinite false)) := .number ⟨trivial, by simp⟩
    exact (apply_conversion_eq_error (b := .toI) (by decide) hdatum).mpr
      ⟨_, _, .infinite false, rfl, rfl⟩

end XmlHarvest
