import XmlHarvest.Proofs.Text.Split
import XmlHarvest.Xml.AttributeValue

/-! # Reading moves forward

Whatever part of a document is read: the text left over is an end of the text
that was there, and no mistake is forgotten.  The one exception is the declared
encoding, under which the text that follows is read anew. -/
set_option autoImplicit false

namespace XmlHarvest.Xml

/-- The second state comes after the first one. -/
structure Forward (st st' : Scan) : Prop where
  suffix : st'.input <:+ st.input
  fatal : st.fatal = true → st'.fatal = true
  truncated : st.truncated = true → st'.truncated = true

namespace Forward

theorem refl (st : Scan) : Forward st st := ⟨List.suffix_rfl, id, id⟩

theorem trans {a b c : Scan} (h : Forward a b) (h' : Forward b c) : Forward a c :=
  ⟨h'.suffix.trans h.suffix, fun hf => h'.fatal (h.fatal hf),
    fun ht => h'.truncated (h.truncated ht)⟩

end Forward

def Advances {α : Type} (x : ScanM α) : Prop := ∀ st, Forward st (x.run st).2

/-- A reader moves forward from every state in which `cs` is the text to come. -/
def AdvancesOn {α : Type} (cs : List Char) (x : ScanM α) : Prop :=
  ∀ st : Scan, st.input = cs → Forward st (x.run st).2

section Rules

variable {α β : Type} {cs rest : List Char}

theorem advances_pure (a : α) : Advances (pure a) := fun st => .refl st

theorem advances_bind {x : ScanM α} {f : α → ScanM β} (hx : Advances x)
    (hf : ∀ a, Advances (f a)) : Advances (x >>= f) := fun st => (hx st).trans (hf _ _)

theorem advances_ite {p : Prop} [Decidable p] {x y : ScanM α} (hx : Advances x)
    (hy : Advances y) : Advances (if p then x else y) := by
  split
  · exact hx
  · exact hy

/-- A step that may be left out. -/
theorem advances_when {p : Prop} [Decidable p] {x : ScanM Unit} {y : ScanM α} (hx : Advances x)
    (hy : Advances y) : Advances (if p then x >>= fun _ => y else y) :=
  advances_ite (advances_bind hx fun _ => hy) hy

theorem advances_get : Advances (get : ScanM Scan) := fun st => .refl st

theorem advances_input : Advances input := fun st => .refl st

theorem advances_modify {f : Scan → Scan} (h : ∀ st, Forward st (f st)) :
    Advances (modify f) := h

theorem Advances.on {x : ScanM α} (h : Advances x) : AdvancesOn cs x := fun st _ => h st

theorem advances_input_bind {f : List Char → ScanM β} (h : ∀ cs, AdvancesOn cs (f cs)) :
    Advances (input >>= f) := fun _ => h _ _ rfl

theorem advancesOn_ite {p : Prop} [Decidable p] {x y : ScanM α} (hx : AdvancesOn cs x)
    (hy : AdvancesOn cs y) : AdvancesOn cs (if p then x else y) := by
  split
  · exact hx
  · exact hy

theorem advancesOn_get_bind {f : Scan → ScanM β} (h : ∀ st, AdvancesOn cs (f st)) :
    AdvancesOn cs (get >>= f) := fun _ => h _ _

theorem advancesOn_setInput (h : rest <:+ cs) : AdvancesOn cs (setInput rest) := by
  rintro st rfl
  exact ⟨h, id, id⟩

theorem advancesOn_setInput_bind {f : Unit → ScanM β} (h : rest <:+ cs)
    (hf : Advances (f ())) : AdvancesOn cs (setInput rest >>= f) :=
  fun _ hst => (advancesOn_setInput h _ hst).trans (hf _)

/-- The rest of the text may be given up altogether. -/
theorem advances_setInput_nil : Advances (setInput []) :=
  fun _ => ⟨List.nil_suffix, id, id⟩

theorem suffix_cons_cons (c d : Char) (rest : List Char) : rest <:+ c :: d :: rest :=
  (List.suffix_cons d rest).trans (List.suffix_cons c (d :: rest))

end Rules

section Scanning

theorem advances_report (s : Severity) : Advances (report s) := by
  refine advances_modify fun st => ⟨List.suffix_rfl, ?_, id⟩
  intro h
  rw [h, Bool.true_or]

/-- Nothing comes of a mistake. -/
theorem advances_refuse {α : Type} (s : Severity) (a : α) :
    Advances (do report s; return a) :=
  advances_bind (advances_report s) fun _ => advances_pure a

theorem advances_halt : Advances halt :=
  advances_modify fun _ => ⟨List.nil_suffix, fun _ => rfl, id⟩

theorem advances_addNode (n : Node) : Advances (addNode n) := by
  refine advances_modify fun st => ?_
  split
  · exact .refl st
  · exact ⟨List.suffix_rfl, id, id⟩

theorem advances_closeFrame : Advances closeFrame := by
  refine advances_modify fun st => ?_
  split
  · exact .refl st
  · split <;> exact ⟨List.suffix_rfl, id, id⟩

theorem afterStart?_suffix {start cs rest : List Char}
    (h : Text.afterStart? start cs = some rest) : rest <:+ cs :=
  ⟨start, (Text.afterStart?_eq_some.mp h).symm⟩

theorem advances_accept (s : String) : Advances (accept s) := by
  unfold accept
  refine advances_input_bind fun cs => ?_
  split
  · rename_i rest hrest
    exact advancesOn_setInput_bind (afterStart?_suffix hrest) (advances_pure true)
  · exact (advances_pure false).on

theorem advances_require (s : String) : Advances (require s) := by
  unfold require
  refine advances_bind (advances_accept s) fun found => ?_
  exact advances_ite (advances_report .fatal) (advances_pure ())

theorem advances_skipSpace : Advances skipSpace := by
  unfold skipSpace
  refine advances_input_bind fun cs => ?_
  exact advancesOn_setInput_bind (List.dropWhile_suffix isSpace) (advances_pure _)

theorem advances_requireSpace : Advances requireSpace := by
  unfold requireSpace
  refine advances_bind advances_skipSpace fun spaced => ?_
  exact advances_ite (advances_report .fatal) (advances_pure ())

theorem takeName?_suffix {cs name rest : List Char} (h : takeName? cs = some (name, rest)) :
    rest <:+ cs := by
  cases cs with
  | nil => cases h
  | cons c cs =>
    rw [takeName?] at h
    split at h
    · cases h
      exact (List.dropWhile_suffix _).trans (List.suffix_cons c cs)
    · cases h

theorem advances_name? : Advances name? := by
  unfold name?
  refine advances_input_bind fun cs => ?_
  split
  · rename_i name rest hname
    exact advancesOn_setInput_bind (takeName?_suffix hname) (advances_pure _)
  · exact (advances_pure none).on

theorem advances_nameToken? : Advances nameToken? := by
  unfold nameToken?
  refine advances_input_bind fun cs => ?_
  split
  · exact (advances_pure none).on
  · exact advancesOn_setInput_bind (List.dropWhile_suffix isNameChar) (advances_pure _)

theorem advances_requireName : Advances requireName := by
  unfold requireName
  refine advances_bind advances_name? fun name? => ?_
  cases name? with
  | some name => exact advances_pure _
  | none => exact advances_refuse .fatal none

theorem cutBefore?_eq_some {ending cs body rest : List Char}
    (h : cutBefore? ending cs = some (body, rest)) : cs = body ++ ending ++ rest := by
  induction cs generalizing body with
  | nil =>
    rw [cutBefore?] at h
    split at h
    · rename_i hempty
      cases h
      rw [List.isEmpty_iff.mp hempty]
      rfl
    · cases h
  | cons c cs ih =>
    rw [cutBefore?] at h
    split at h
    · rename_i hstart
      cases h
      exact Text.afterStart?_eq_some.mp hstart
    · obtain ⟨⟨body', rest'⟩, hcut, hcons⟩ := Option.map_eq_some_iff.mp h
      cases hcons
      rw [ih hcut]
      rfl

theorem cutBefore?_suffix {ending cs body rest : List Char}
    (h : cutBefore? ending cs = some (body, rest)) : rest <:+ cs :=
  ⟨body ++ ending, (cutBefore?_eq_some h).symm⟩

theorem advances_bodyUpTo (ending : String) : Advances (bodyUpTo ending) := by
  unfold bodyUpTo
  refine advances_input_bind fun cs => ?_
  have hmissing : AdvancesOn cs (do
      setInput (cs.dropWhile isDocumentChar)
      report .fatal
      return (none : Option (List Char))) :=
    advancesOn_setInput_bind (List.dropWhile_suffix isDocumentChar) (advances_refuse .fatal none)
  split
  · rename_i body rest hcut
    refine advancesOn_ite ?_ hmissing
    exact advancesOn_setInput_bind (cutBefore?_suffix hcut) (advances_pure _)
  · exact hmissing

theorem advances_comment : Advances comment := by
  unfold comment
  refine advances_bind (advances_bodyUpTo "-->") fun body? => ?_
  cases body? with
  | none => exact advances_pure ()
  | some body => exact advances_when (advances_report .fatal) (advances_addNode _)

theorem advances_checkTarget (target : List Char) : Advances (checkTarget target) := by
  have hcolon : Advances (if target.contains ':' then report .error else pure ()) :=
    advances_ite (advances_report .error) (advances_pure ())
  unfold checkTarget
  refine advances_ite ?_ hcolon
  refine advances_ite (advances_report .fatal) ?_
  refine advances_ite (advances_pure ()) ?_
  exact advances_bind (advances_report .warning) fun _ => hcolon

theorem advances_instruction : Advances instruction := by
  unfold instruction
  refine advances_bind advances_name? fun target? => ?_
  cases target? with
  | none => exact advances_report .fatal
  | some target =>
    refine advances_bind (advances_checkTarget target) fun _ => ?_
    refine advances_bind (advances_accept "?>") fun ended => ?_
    refine advances_ite (advances_addNode _) ?_
    refine advances_bind advances_requireSpace fun _ => ?_
    refine advances_bind (advances_bodyUpTo "?>") fun body? => ?_
    cases body? with
    | none => exact advances_pure ()
    | some body => exact advances_addNode _

theorem charRefValue_suffix (base : Nat) (digit? : Char → Option Nat) (n : Nat)
    (cs : List Char) : (charRefValue base digit? n cs).2 <:+ cs := by
  induction cs generalizing n with
  | nil => exact List.suffix_rfl
  | cons c cs ih =>
    rw [charRefValue]
    split
    · exact List.suffix_cons c cs
    · split
      · exact (ih _).trans (List.suffix_cons c cs)
      · exact List.suffix_rfl

theorem advances_charRef : Advances charRef := by
  unfold charRef
  refine advances_input_bind fun cs => ?_
  refine advancesOn_setInput_bind ?_ ?_
  · split
    · exact (charRefValue_suffix _ _ _ _).trans (List.suffix_cons _ _)
    · exact charRefValue_suffix _ _ _ _
  · split
    · exact advances_refuse .fatal none
    · exact advances_ite (advances_pure _) (advances_refuse .fatal none)

theorem advances_entityName? : Advances entityName? := by
  unfold entityName?
  refine advances_bind advances_requireName fun name? => ?_
  cases name? with
  | none => exact advances_pure none
  | some name =>
    refine advances_bind (advances_accept ";") fun ended => ?_
    exact advances_ite (advances_pure _) (advances_refuse .fatal none)

theorem advances_undeclared : Advances undeclared := by
  unfold undeclared
  refine advances_bind advances_get fun st => ?_
  exact advances_ite (advances_report .fatal) (advances_report .warning)

end Scanning

section AttributeValues

theorem advances_attributeReference : Advances attributeReference := by
  unfold attributeReference
  refine advances_bind advances_entityName? fun name? => ?_
  cases name? with
  | none => exact advances_pure none
  | some name =>
    dsimp only
    cases predefined? name with
    | some c => exact advances_pure _
    | none =>
      refine advances_bind advances_get fun st => ?_
      cases st.entities.lookup name with
      | none => exact advances_bind advances_undeclared fun _ => advances_pure _
      | some entity =>
        cases entity with
        | internal value =>
          refine advances_bind advances_get fun st => ?_
          exact advances_when (advances_report .fatal) (advances_pure _)
        | external => exact advances_refuse .fatal _
        | unparsed => exact advances_refuse .fatal _

/-- What comes after a character of the value leaves the text after it. -/
theorem advances_attributeValue (quote : Char) (fuel : Nat) (acc : List Char) :
    Advances (attributeValue quote fuel acc) := by
  induction fuel generalizing acc with
  | zero => exact advances_bind advances_halt fun _ => advances_pure none
  | succ fuel ih =>
    unfold attributeValue
    refine advances_input_bind fun cs => ?_
    cases cs with
    | nil => exact (advances_refuse .fatal none).on
    | cons c rest =>
      have hrest : rest <:+ c :: rest := List.suffix_cons c rest
      refine advancesOn_ite (advancesOn_setInput_bind hrest (advances_pure _)) ?_
      refine advancesOn_ite (advances_refuse .fatal none).on ?_
      refine advancesOn_ite ?_ (advancesOn_setInput_bind hrest (ih _))
      refine advancesOn_setInput_bind hrest ?_
      refine advances_bind (advances_accept "#") fun isCharacter => ?_
      refine advances_ite (advances_bind advances_charRef fun c? => ?_)
        (advances_bind advances_attributeReference fun cs? => ?_)
      · cases c? with
        | some c => exact ih _
        | none => exact advances_pure none
      · cases cs? with
        | some cs => exact ih _
        | none => exact ih _

theorem advances_quotedValue? : Advances quotedValue? := by
  unfold quotedValue?
  refine advances_input_bind fun cs => ?_
  cases cs with
  | nil => exact (advances_refuse .fatal none).on
  | cons q rest =>
    refine advancesOn_ite ?_ (advances_refuse .fatal none).on
    exact advancesOn_setInput_bind (List.suffix_cons q rest) (advances_attributeValue q _ _)

end AttributeValues

end XmlHarvest.Xml
