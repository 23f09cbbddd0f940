import XmlHarvest.Proofs.Xml.Forward
import XmlHarvest.Xml.Doctype

/-! # Document types move forward

A replacement text is read in the place of its reference, and the text around it
is taken up again: seen from there, reading has only moved forward. -/
set_option autoImplicit false

namespace XmlHarvest.Xml

theorem cutAt?_suffix {sep : Char} {cs before after : List Char}
    (h : Text.cutAt? sep cs = some (before, after)) : after <:+ cs := by
  rw [Text.cutAt?_eq_some h]
  exact (List.suffix_cons sep after).trans (List.suffix_append before _)

theorem advances_quotedText? : Advances quotedText? := by
  unfold quotedText?
  refine advances_input_bind fun cs => ?_
  cases cs with
  | nil => exact (advances_pure none).on
  | cons q rest =>
    refine advancesOn_ite ?_ (advances_pure none).on
    split
    · rename_i body tail hcut
      have hsuffix := (cutAt?_suffix hcut).trans (List.suffix_cons q rest)
      refine advancesOn_setInput_bind hsuffix ?_
      exact advances_when (advances_report .fatal) (advances_pure _)
    · refine (advances_bind (advances_report .fatal) fun _ => ?_).on
      exact advances_bind advances_setInput_nil fun _ => advances_pure _

theorem advances_requireQuoted : Advances requireQuoted := by
  unfold requireQuoted
  refine advances_bind advances_quotedText? fun body? => ?_
  cases body? with
  | some body => exact advances_pure body
  | none => exact advances_refuse .fatal []

theorem advances_externalId? : Advances externalId? := by
  have hsystem : Advances (do return some (← requireQuoted)) :=
    advances_bind advances_requireQuoted fun system => advances_pure _
  unfold externalId?
  refine advances_bind (advances_accept "SYSTEM") fun isSystem => ?_
  refine advances_ite (advances_bind advances_requireSpace fun _ => hsystem) ?_
  refine advances_bind (advances_accept "PUBLIC") fun isPublic => ?_
  refine advances_ite ?_ (advances_pure none)
  refine advances_bind advances_requireSpace fun _ => ?_
  refine advances_bind advances_requireQuoted fun publicId => ?_
  exact advances_when (advances_report .fatal)
    (advances_bind advances_requireSpace fun _ => hsystem)

theorem advances_declarationEnd : Advances declarationEnd := by
  unfold declarationEnd
  exact advances_bind advances_skipSpace fun _ => advances_require ">"

theorem advances_declare (isParameter : Bool) (name : List Char) (e : Entity) :
    Advances (declare isParameter name e) := by
  refine advances_modify fun st => ?_
  split <;> exact ⟨List.suffix_rfl, id, id⟩

theorem advances_externalEntity (isParameter : Bool) (name : List Char) :
    Advances (externalEntity isParameter name) := by
  have hdata (spaced : Bool) : Advances (do
      if ← accept "NDATA" then
        if !spaced then report .fatal
        requireSpace
        let _ ← requireName
        declare false name .unparsed
      else declare false name .external) := by
    refine advances_bind (advances_accept "NDATA") fun isData => ?_
    refine advances_ite (advances_when (advances_report .fatal) ?_) (advances_declare false name _)
    refine advances_bind advances_requireSpace fun _ => ?_
    exact advances_bind advances_requireName fun _ => advances_declare false name _
  unfold externalEntity
  refine advances_bind advances_externalId? fun system? => ?_
  cases system? with
  | none => exact advances_report .fatal
  | some system =>
    refine advances_when (advances_report .fatal) ?_
    refine advances_bind advances_skipSpace fun spaced => ?_
    exact advances_ite (advances_declare true name _) (hdata spaced)

theorem advances_entityDefinition (isParameter : Bool) (name : List Char) :
    Advances (entityDefinition isParameter name) := by
  unfold entityDefinition
  refine advances_bind advances_requireSpace fun _ => ?_
  refine advances_bind advances_quotedText? fun literal? => ?_
  cases literal? with
  | none => exact advances_externalEntity isParameter name
  | some literal =>
    dsimp only
    split
    · exact advances_declare isParameter name _
    · exact advances_report .fatal

theorem advances_entityDeclaration : Advances entityDeclaration := by
  unfold entityDeclaration
  refine advances_bind advances_requireSpace fun _ => ?_
  refine advances_bind (advances_accept "%") fun isParameter => ?_
  refine advances_when advances_requireSpace ?_
  refine advances_bind advances_requireName fun name? => ?_
  cases name? with
  | none => exact advances_pure ()
  | some name =>
    refine advances_when (advances_report .error) ?_
    exact advances_bind (advances_entityDefinition isParameter name) fun _ =>
      advances_declarationEnd

theorem advances_occurrence : Advances occurrence := by
  unfold occurrence
  refine advances_input_bind fun cs => ?_
  cases cs with
  | nil => exact (advances_pure ()).on
  | cons c rest =>
    exact advancesOn_ite (advancesOn_setInput (List.suffix_cons c rest)) (advances_pure ()).on

theorem advances_modelRest {particle : ScanM Unit} (h : Advances particle) (fuel : Nat)
    (sep : Option Char) : Advances (modelRest particle fuel sep) := by
  induction fuel generalizing sep with
  | zero => exact advances_halt
  | succ fuel ih =>
    unfold modelRest
    refine advances_bind advances_skipSpace fun _ => advances_input_bind fun cs => ?_
    split
    · exact advancesOn_setInput_bind (List.suffix_cons _ _) advances_occurrence
    · refine advancesOn_ite ?_ (advances_report .fatal).on
      refine advancesOn_setInput_bind (List.suffix_cons _ _) ?_
      refine advances_bind advances_skipSpace fun _ => ?_
      exact advances_bind h fun _ => ih _
    · exact (advances_report .fatal).on

theorem advances_particle (fuel : Nat) : Advances (particle fuel) := by
  induction fuel with
  | zero => exact advances_halt
  | succ fuel ih =>
    unfold particle
    refine advances_bind (advances_accept "(") fun isGroup => advances_ite ?_ ?_
    · refine advances_bind advances_skipSpace fun _ => ?_
      exact advances_bind ih fun _ => advances_modelRest ih fuel none
    · exact advances_bind advances_requireName fun _ => advances_occurrence

theorem advances_mixedNames (fuel : Nat) : Advances (mixedNames fuel) := by
  induction fuel with
  | zero => exact advances_halt
  | succ fuel ih =>
    unfold mixedNames
    refine advances_bind advances_skipSpace fun _ => ?_
    refine advances_bind (advances_accept "|") fun more => ?_
    refine advances_ite ?_ (advances_require ")*")
    refine advances_bind advances_skipSpace fun _ => ?_
    exact advances_bind advances_requireName fun _ => ih

theorem advances_groupModel (fuel : Nat) : Advances (groupModel fuel) := by
  have hparticle := advances_particle fuel
  unfold groupModel
  refine advances_bind advances_skipSpace fun _ => ?_
  refine advances_bind (advances_accept "#PCDATA") fun isMixed => advances_ite ?_ ?_
  · refine advances_bind advances_skipSpace fun _ => ?_
    refine advances_bind (advances_accept ")") fun ended => ?_
    refine advances_ite ?_ (advances_mixedNames fuel)
    exact advances_bind (advances_accept "*") fun _ => advances_pure ()
  · exact advances_bind hparticle fun _ => advances_modelRest hparticle fuel none

theorem advances_contentModel (fuel : Nat) : Advances (contentModel fuel) := by
  unfold contentModel
  refine advances_bind (advances_accept "EMPTY") fun isEmpty => ?_
  refine advances_ite (advances_pure ()) ?_
  refine advances_bind (advances_accept "ANY") fun isAny => advances_ite (advances_pure ()) ?_
  refine advances_bind (advances_accept "(") fun isGroup => ?_
  exact advances_ite (advances_groupModel fuel) (advances_report .fatal)

theorem advances_elementDeclaration : Advances elementDeclaration := by
  unfold elementDeclaration
  refine advances_bind advances_requireSpace fun _ => ?_
  refine advances_bind advances_requireName fun _ => ?_
  refine advances_bind advances_requireSpace fun _ => advances_bind advances_input fun cs => ?_
  exact advances_bind (advances_contentModel _) fun _ => advances_declarationEnd

theorem advances_enumerationRest {item : ScanM (Option (List Char))} (h : Advances item)
    (fuel : Nat) : Advances (enumerationRest item fuel) := by
  induction fuel with
  | zero => exact advances_halt
  | succ fuel ih =>
    have hnext : Advances (do
        let _ ← skipSpace
        if ← accept "|" then enumerationRest item fuel
        else require ")") := by
      refine advances_bind advances_skipSpace fun _ => ?_
      exact advances_bind (advances_accept "|") fun more => advances_ite ih (advances_require ")")
    unfold enumerationRest
    refine advances_bind advances_skipSpace fun _ => advances_bind h fun item? => ?_
    exact advances_when (advances_report .fatal) hnext

theorem advances_acceptAny (keywords : List String) : Advances (acceptAny keywords) := by
  induction keywords with
  | nil => exact advances_pure false
  | cons keyword others ih =>
    unfold acceptAny
    exact advances_bind (advances_accept keyword) fun found => advances_ite (advances_pure true) ih

theorem advances_attributeType (fuel : Nat) : Advances (attributeType fuel) := by
  unfold attributeType
  refine advances_bind (advances_accept "CDATA") fun isText => ?_
  refine advances_ite (advances_pure true) ?_
  refine advances_bind (advances_acceptAny _) fun isKeyword => ?_
  refine advances_ite (advances_bind (advances_pure ()) fun _ => advances_pure false) ?_
  refine advances_bind (advances_accept "NOTATION") fun isNotation => advances_ite ?_ ?_
  · refine advances_bind advances_requireSpace fun _ => ?_
    refine advances_bind (advances_require "(") fun _ => ?_
    exact advances_bind (advances_enumerationRest advances_name? fuel) fun _ => advances_pure false
  · refine advances_bind (advances_accept "(") fun isEnumeration => ?_
    refine advances_ite ?_ (advances_refuse .fatal false)
    exact advances_bind (advances_enumerationRest advances_nameToken? fuel) fun _ =>
      advances_pure false

theorem advances_attributeDefault? : Advances attributeDefault? := by
  unfold attributeDefault?
  refine advances_bind (advances_accept "#REQUIRED") fun isRequired => ?_
  refine advances_ite (advances_pure none) ?_
  refine advances_bind (advances_accept "#IMPLIED") fun isImplied => ?_
  refine advances_ite (advances_pure none) ?_
  refine advances_bind (advances_accept "#FIXED") fun isFixed => ?_
  exact advances_when advances_requireSpace advances_quotedValue?

theorem advances_declareAttribute (d : AttributeDeclaration) :
    Advances (modify fun st => st.declareAttribute d) := by
  refine advances_modify fun st => ?_
  rw [Scan.declareAttribute]
  split
  · exact .refl st
  · exact ⟨List.suffix_rfl, id, id⟩

theorem advances_attributeDefinition (element name : List Char) (fuel : Nat) :
    Advances (attributeDefinition element name fuel) := by
  unfold attributeDefinition
  refine advances_bind advances_requireSpace fun _ => ?_
  refine advances_bind (advances_attributeType fuel) fun isText => ?_
  refine advances_bind advances_requireSpace fun _ => ?_
  exact advances_bind advances_attributeDefault? fun value => advances_declareAttribute _

theorem advances_attributeDeclarations (element : List Char) (fuel : Nat) :
    Advances (attributeDeclarations element fuel) := by
  induction fuel with
  | zero => exact advances_halt
  | succ fuel ih =>
    unfold attributeDeclarations
    refine advances_bind advances_skipSpace fun spaced => ?_
    refine advances_bind (advances_accept ">") fun ended => advances_ite (advances_pure ()) ?_
    refine advances_when (advances_report .fatal) ?_
    refine advances_bind advances_requireName fun name? => ?_
    cases name? with
    | none => exact advances_pure ()
    | some name => exact advances_bind (advances_attributeDefinition _ name fuel) fun _ => ih

theorem advances_attributeListDeclaration : Advances attributeListDeclaration := by
  unfold attributeListDeclaration
  refine advances_bind advances_requireSpace fun _ => ?_
  refine advances_bind advances_requireName fun element? => ?_
  cases element? with
  | none => exact advances_pure ()
  | some element =>
    exact advances_bind advances_input fun cs => advances_attributeDeclarations element _

theorem advances_notationId : Advances notationId := by
  unfold notationId
  refine advances_bind (advances_accept "PUBLIC") fun isPublic => advances_ite ?_ ?_
  · have hsystem : Advances (do
        if ← skipSpace then
          let _ ← quotedText?) := by
      refine advances_bind advances_skipSpace fun spaced => advances_ite ?_ (advances_pure ())
      exact advances_bind advances_quotedText? fun _ => advances_pure ()
    refine advances_bind advances_requireSpace fun _ => ?_
    refine advances_bind advances_requireQuoted fun publicId => ?_
    exact advances_when (advances_report .fatal) hsystem
  · refine advances_bind advances_externalId? fun system? => ?_
    exact advances_ite (advances_report .fatal) (advances_pure ())

theorem advances_notationDeclaration : Advances notationDeclaration := by
  unfold notationDeclaration
  refine advances_bind advances_requireSpace fun _ => ?_
  refine advances_bind advances_requireName fun name? => ?_
  cases name? with
  | none => exact advances_pure ()
  | some name =>
    refine advances_when (advances_report .error) ?_
    refine advances_bind advances_requireSpace fun _ => ?_
    exact advances_bind advances_notationId fun _ => advances_declarationEnd

theorem advances_parameterText? : Advances parameterText? := by
  have hmark : Advances (modify fun st : Scan => { st with parameterRefs := true }) :=
    advances_modify fun st => ⟨List.suffix_rfl, id, id⟩
  unfold parameterText?
  refine advances_bind advances_entityName? fun name? => ?_
  cases name? with
  | none => exact advances_pure none
  | some name =>
    refine advances_bind hmark fun _ => advances_bind advances_get fun st => ?_
    cases st.parameters.lookup name with
    | none => exact advances_bind advances_undeclared fun _ => advances_pure none
    | some entity =>
      cases entity with
      | internal value => exact advances_pure _
      | external => exact advances_pure none
      | unparsed => exact advances_pure none

/-- After a replacement text the text around it is taken up where it was left. -/
theorem forward_resume (st : Scan) {replaced inner : Scan} (h : Forward replaced inner)
    (hfatal : replaced.fatal = st.fatal) (htruncated : replaced.truncated = st.truncated) :
    Forward st ((resume st.input).run inner).2 := by
  refine ⟨?_, fun hf => h.fatal (hfatal.trans hf), fun ht => h.truncated (htruncated.trans ht)⟩
  change (if inner.halted then [] else st.input) <:+ st.input
  split
  · exact List.nil_suffix
  · exact List.suffix_rfl

theorem advances_replacement {α β : Type} {value : List Char} {x : ScanM α}
    {f : α → List Char → ScanM β} (hx : Advances x) (hf : ∀ a left, Advances (f a left)) :
    Advances (do
      let outer ← input
      setInput value
      let a ← x
      let left ← input
      resume outer
      f a left) := by
  intro st
  exact (forward_resume st (hx { st with input := value }) rfl rfl).trans (hf _ _ _)

theorem advances_declarations (fuel : Nat) : Advances (declarations fuel) := by
  induction fuel with
  | zero => exact advances_bind advances_halt fun _ => advances_pure false
  | succ fuel ih =>
    -- a declaration, a comment or an instruction, and what follows it
    have hthen {x : ScanM Unit} (h : Advances x) : Advances (x >>= fun _ => declarations fuel) :=
      advances_bind h fun _ => ih
    unfold declarations
    refine advances_bind advances_skipSpace fun _ => ?_
    refine advances_bind (advances_accept "%") fun isReference => advances_ite ?_ ?_
    · refine advances_bind advances_parameterText? fun value? => ?_
      cases value? with
      | none => exact ih
      | some value =>
        refine advances_replacement ih fun whole left => ?_
        exact advances_ite ih (advances_refuse .fatal false)
    · refine advances_bind (advances_accept "<?") fun isInstruction => ?_
      refine advances_ite (hthen advances_instruction) ?_
      refine advances_bind (advances_accept "<!--") fun isComment => ?_
      refine advances_ite (hthen advances_comment) ?_
      refine advances_bind (advances_accept "<!ENTITY") fun isEntity => ?_
      refine advances_ite (hthen advances_entityDeclaration) ?_
      refine advances_bind (advances_accept "<!ELEMENT") fun isElement => ?_
      refine advances_ite (hthen advances_elementDeclaration) ?_
      refine advances_bind (advances_accept "<!ATTLIST") fun isAttributeList => ?_
      refine advances_ite (hthen advances_attributeListDeclaration) ?_
      refine advances_bind (advances_accept "<!NOTATION") fun isNotation => ?_
      exact advances_ite (hthen advances_notationDeclaration) (advances_pure true)

theorem advances_internalSubset (fuel : Nat) : Advances (internalSubset fuel) := by
  unfold internalSubset
  exact advances_bind (advances_declarations fuel) fun _ => advances_require "]"

theorem advances_doctypeHead : Advances doctypeHead := by
  have hmark : Advances (modify fun st : Scan => { st with externalSubset := true }) :=
    advances_modify fun _ => ⟨List.suffix_rfl, id, id⟩
  unfold doctypeHead
  refine advances_bind advances_requireSpace fun _ => ?_
  refine advances_bind advances_requireName fun _ => ?_
  refine advances_bind advances_skipSpace fun _ => ?_
  refine advances_bind advances_externalId? fun system? => ?_
  exact advances_when hmark (advances_bind advances_skipSpace fun _ => advances_pure ())

end XmlHarvest.Xml
