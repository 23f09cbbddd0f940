import XmlHarvest.Proofs.Xml.Forward
import XmlHarvest.Xml.StartTag

/-! # Start tags move forward

The readers of names, of attributes and of whole start tags. -/
set_option autoImplicit false

namespace XmlHarvest.Xml

theorem takeLocalName?_suffix {cs name rest : List Char}
    (h : takeLocalName? cs = some (name, rest)) : rest <:+ cs := by
  cases cs with
  | nil => cases h
  | cons c cs =>
    rw [takeLocalName?] at h
    split at h
    · cases h
      exact (List.dropWhile_suffix _).trans (List.suffix_cons c cs)
    · cases h

theorem advances_localName? : Advances localName? := by
  unfold localName?
  refine advances_input_bind fun cs => ?_
  split
  · rename_i name rest hname
    exact advancesOn_setInput_bind (takeLocalName?_suffix hname) (advances_pure _)
  · exact (advances_pure none).on

theorem advances_lookingAt (s : String) : Advances (lookingAt s) := by
  unfold lookingAt
  exact advances_bind advances_input fun cs => advances_pure _

theorem advances_qualifiedName? : Advances qualifiedName? := by
  unfold qualifiedName?
  refine advances_bind advances_localName? fun first? => ?_
  cases first? with
  | none =>
    refine advances_bind (advances_lookingAt ":") fun hasColon => ?_
    refine advances_ite (advances_bind advances_name? fun name? => ?_) (advances_pure none)
    cases name? with
    | some name => exact advances_refuse .error _
    | none => exact advances_pure none
  | some first =>
    refine advances_bind (advances_accept ":") fun hasColon => ?_
    refine advances_ite (advances_pure _) ?_
    refine advances_bind advances_localName? fun second? => ?_
    cases second? with
    | none =>
      refine advances_bind (advances_report .error) fun _ => ?_
      exact advances_bind advances_nameToken? fun more? => advances_pure _
    | some second =>
      refine advances_bind (advances_accept ":") fun hasColon => ?_
      refine advances_ite (advances_pure _) ?_
      refine advances_bind (advances_report .error) fun _ => ?_
      exact advances_bind advances_name? fun more? => advances_pure _

theorem advances_attributeAfterName (name : QualifiedName) :
    Advances (attributeAfterName name) := by
  unfold attributeAfterName
  refine advances_bind advances_skipSpace fun _ => ?_
  refine advances_bind (advances_accept "=") fun hasValue => ?_
  refine advances_ite (advances_refuse .fatal none) ?_
  refine advances_bind advances_skipSpace fun _ => ?_
  refine advances_bind advances_quotedValue? fun value? => ?_
  cases value? with
  | some value => exact advances_pure _
  | none => exact advances_pure none

theorem advances_bindNamespace (key : Option (List Char)) (uri : List Char)
    (bound : Namespaces) : Advances (bindNamespace key uri bound) := by
  unfold bindNamespace
  exact advances_ite (advances_refuse .fatal bound) (advances_pure _)

theorem advances_bindDefault (uri : List Char) (bound : Namespaces) :
    Advances (bindDefault uri bound) := by
  have hbind := advances_bindNamespace none uri bound
  have hreserved : Advances (if uri == xmlUri || uri == xmlnsUri then do
      report .error
      return bound
    else bindNamespace none uri bound) := advances_ite (advances_refuse .error bound) hbind
  unfold bindDefault
  refine advances_ite ?_ hbind
  refine advances_ite (advances_bind (advances_report .error) fun _ => hreserved) ?_
  exact advances_when (advances_report .warning) hreserved

theorem advances_bindPrefix (name uri : List Char) (bound : Namespaces) :
    Advances (bindPrefix name uri bound) := by
  unfold bindPrefix
  refine advances_ite (advances_when (advances_report .error) (advances_pure bound)) ?_
  refine advances_ite (advances_refuse .error bound) ?_
  exact advances_when (advances_report .error) (advances_bindNamespace _ uri bound)

theorem advances_addAttribute (acc : Attributes) (a : Attribute) :
    Advances (addAttribute acc a) := by
  unfold addAttribute
  split
  · refine advances_ite ?_ (advances_pure _)
    exact advances_bind (advances_bindDefault _ _) fun bound => advances_pure _
  · refine advances_ite ?_ ?_
    · exact advances_bind (advances_bindPrefix _ _ _) fun bound => advances_pure _
    · exact advances_when (advances_report .warning) (advances_pure _)

theorem advances_atTagEnd : Advances atTagEnd := by
  unfold atTagEnd
  refine advances_bind advances_input fun cs => ?_
  split
  · exact advances_pure true
  · exact advances_pure true
  · exact advances_pure false

theorem advances_attributes (fuel : Nat) (acc : Attributes) : Advances (attributes fuel acc) := by
  induction fuel generalizing acc with
  | zero => exact advances_bind advances_halt fun _ => advances_pure acc
  | succ fuel ih =>
    -- after each attribute the tag ends, or there is space before the next one
    have hnext (acc : Attributes) : Advances (do
        if ← atTagEnd then return acc
        if !(← skipSpace) then
          report .fatal
          return acc
        attributes fuel acc) := by
      refine advances_bind advances_atTagEnd fun ended => ?_
      refine advances_ite (advances_pure acc) ?_
      refine advances_bind advances_skipSpace fun spaced => ?_
      exact advances_ite (advances_refuse .fatal acc) (ih acc)
    unfold attributes
    refine advances_bind advances_atTagEnd fun ended => advances_ite (advances_pure acc) ?_
    refine advances_bind advances_input fun cs => ?_
    cases cs with
    | nil => exact advances_pure acc
    | cons c rest =>
      refine advances_ite (advances_pure acc) ?_
      refine advances_bind advances_qualifiedName? fun name? => ?_
      cases name? with
      | none => exact advances_refuse .fatal acc
      | some name =>
        refine advances_bind (advances_attributeAfterName name) fun attribute? => ?_
        cases attribute? with
        | none => exact hnext acc
        | some a => exact advances_bind (advances_addAttribute acc a) hnext

theorem advances_checkAttributes (scope : Namespaces)
    (seen : List (QualifiedName × Option (List Char))) (names : List QualifiedName) :
    Advances (checkAttributes scope seen names) := by
  induction names generalizing seen with
  | nil => exact advances_pure ()
  | cons q rest ih =>
    -- a name that occurs twice is one mistake, a name and its namespace another
    have htwice {p r : Prop} [Decidable p] [Decidable r] {x : ScanM Unit} (h : Advances x) :
        Advances (if p then report .fatal >>= fun _ => x
          else if r then report .error >>= fun _ => x else x) :=
      advances_ite (advances_bind (advances_report .fatal) fun _ => h)
        (advances_when (advances_report .error) h)
    unfold checkAttributes
    cases q.qualifier with
    | none => exact htwice (ih _)
    | some qualifier => exact advances_when (advances_report .error) (htwice (ih _))

theorem advances_startTag? (outer : Namespaces) : Advances (startTag? outer) := by
  unfold startTag?
  refine advances_bind advances_qualifiedName? fun name? => ?_
  cases name? with
  | none => exact advances_refuse .fatal none
  | some q =>
    refine advances_bind advances_skipSpace fun _ => advances_bind advances_input fun cs => ?_
    refine advances_bind (advances_attributes _ _) fun attrs => ?_
    refine advances_bind advances_get fun st => ?_
    refine advances_when (advances_report .error) ?_
    exact advances_bind (advances_checkAttributes _ _ _) fun _ => advances_pure _

end XmlHarvest.Xml
