import XmlHarvest.Proofs.Xml.Forward.Doctype
import XmlHarvest.Proofs.Xml.Forward.StartTag
import XmlHarvest.Xml.Reader

/-! # Content moves forward

The readers of elements and of what they contain, and those of the items of a
document's declaration. -/
set_option autoImplicit false

namespace XmlHarvest.Xml

section Contents

theorem advances_characters : Advances characters := by
  unfold characters
  refine advances_input_bind fun cs => ?_
  refine advancesOn_setInput_bind (List.dropWhile_suffix _) ?_
  refine advances_when (advances_report .fatal) ?_
  split
  · exact advances_pure ()
  · exact advances_addNode _

theorem advances_endTag : Advances endTag := by
  unfold endTag
  refine advances_bind advances_get fun st => ?_
  refine advances_bind advances_name? fun found => ?_
  refine advances_bind advances_skipSpace fun _ => ?_
  refine advances_bind (advances_require ">") fun _ => ?_
  exact advances_when (advances_report .fatal) advances_closeFrame

theorem advances_openFrame (frame : Frame) :
    Advances (modify fun st : Scan => { st with frames := frame :: st.frames }) :=
  advances_modify fun _ => ⟨List.suffix_rfl, id, id⟩

theorem advances_openElement : Advances openElement := by
  unfold openElement
  refine advances_bind advances_get fun st => ?_
  refine advances_ite advances_halt ?_
  refine advances_bind (advances_startTag? _) fun frame? => ?_
  cases frame? with
  | none => exact advances_pure ()
  | some frame =>
    refine advances_bind (advances_openFrame frame) fun _ => ?_
    refine advances_bind (advances_accept "/>") fun isEmpty => ?_
    refine advances_ite advances_closeFrame ?_
    refine advances_bind (advances_accept ">") fun ended => advances_ite (advances_pure ()) ?_
    exact advances_bind (advances_report .fatal) fun _ => advances_closeFrame

theorem advances_plainSection : Advances plainSection := by
  unfold plainSection
  refine advances_bind (advances_bodyUpTo "]]>") fun body? => ?_
  cases body? with
  | none => exact advances_pure ()
  | some body => exact advances_addNode _

theorem advances_markup : Advances markup := by
  unfold markup
  refine advances_bind (advances_accept "![CDATA[") fun isPlain => ?_
  refine advances_ite advances_plainSection ?_
  refine advances_bind (advances_accept "!--") fun isComment => ?_
  exact advances_ite advances_comment advances_openElement

theorem advances_characterReference : Advances characterReference := by
  unfold characterReference
  refine advances_bind advances_charRef fun c? => ?_
  cases c? with
  | none => exact advances_pure ()
  | some c => exact advances_addNode _

theorem advances_checkWhole : Advances checkWhole := by
  unfold checkWhole
  refine advances_bind advances_get fun st => ?_
  exact advances_ite (advances_report .fatal) (advances_pure ())

theorem advances_checkReplacement (name value : List Char) {x : ScanM Unit} (h : Advances x) :
    Advances (checkReplacement name value x) := by
  intro st
  have hread := advances_bind h fun _ => advances_checkWhole
  have houter (namespaces : Namespaces) := forward_resume st
    (hread { st with input := value, frames := [⟨[], [], namespaces, []⟩], root := none }) rfl rfl
  exact (houter _).trans ⟨List.suffix_rfl, id, id⟩

theorem advances_addReference (name : List Char) (expanding : List (List Char))
    {check : List Char → ScanM Unit} (h : ∀ value, Advances (check value)) :
    Advances (addReference name expanding check) := by
  have hadd := advances_addNode (.entity (.ofChars name))
  unfold addReference
  refine advances_bind advances_get fun st => ?_
  cases predefined? name with
  | some c => exact advances_ite (advances_addNode _) (advances_pure ())
  | none =>
    cases st.entities.lookup name with
    | none => exact advances_bind advances_undeclared fun _ => hadd
    | some entity =>
      cases entity with
      | internal value =>
        refine advances_ite advances_halt ?_
        exact advances_ite (advances_when (h value) hadd) (advances_pure ())
      | external => exact advances_ite hadd (advances_pure ())
      | unparsed => exact advances_bind (advances_report .fatal) fun _ => hadd

theorem advances_entityReference (expanding : List (List Char))
    {check : List Char → List Char → ScanM Unit} (h : ∀ name value, Advances (check name value)) :
    Advances (entityReference expanding check) := by
  unfold entityReference
  refine advances_bind advances_entityName? fun name? => ?_
  cases name? with
  | none => exact advances_pure ()
  | some name => exact advances_addReference name expanding (h name)

/-- The replacement text of an entity is content too, so the induction is over
every depth and every list of entities that are being read. -/
theorem advances_content (fuel base : Nat) (expanding : List (List Char)) :
    Advances (content fuel base expanding) := by
  induction fuel generalizing base expanding with
  | zero => exact advances_halt
  | succ fuel ih =>
    have hthen {x : ScanM Unit} (h : Advances x) :
        Advances (x >>= fun _ => content fuel base expanding) :=
      advances_bind h fun _ => ih base expanding
    have hcheck : ∀ name value,
        Advances (checkReplacement name value (content fuel 1 (name :: expanding))) :=
      fun name value => advances_checkReplacement name value (ih _ _)
    have hreference := advances_entityReference expanding hcheck
    unfold content
    refine advances_input_bind fun cs => ?_
    split
    · exact (advances_pure ()).on
    · refine advancesOn_get_bind fun st => advancesOn_ite (advances_pure ()).on ?_
      exact advancesOn_setInput_bind (suffix_cons_cons _ _ _) (hthen advances_endTag)
    · exact advancesOn_setInput_bind (suffix_cons_cons _ _ _) (hthen advances_instruction)
    · exact advancesOn_setInput_bind (List.suffix_cons _ _) (hthen advances_markup)
    · exact advancesOn_setInput_bind (suffix_cons_cons _ _ _) (hthen advances_characterReference)
    · exact advancesOn_setInput_bind (List.suffix_cons _ _) (hthen hreference)
    · exact (hthen advances_characters).on

end Contents

section Declarations

theorem advances_versionNumber? : Advances versionNumber? := by
  unfold versionNumber?
  refine advances_input_bind fun cs => ?_
  split
  · refine advancesOn_ite (advancesOn_setInput_bind ?_ (advances_pure _)) (advances_pure none).on
    exact (List.dropWhile_suffix isDecimal).trans (suffix_cons_cons _ _ _)
  · exact (advances_pure none).on

theorem advances_encodingName? : Advances encodingName? := by
  unfold encodingName?
  refine advances_input_bind fun cs => ?_
  cases cs with
  | nil => exact (advances_refuse .fatal none).on
  | cons c rest =>
    refine advancesOn_ite (advancesOn_setInput_bind ?_ (advances_pure _))
      (advances_refuse .fatal none).on
    exact (List.dropWhile_suffix _).trans (List.suffix_cons c rest)

theorem advances_standaloneValue? : Advances standaloneValue? := by
  unfold standaloneValue?
  refine advances_bind (advances_accept "no") fun isNo => advances_ite (advances_pure _) ?_
  refine advances_bind (advances_accept "yes") fun isYes => ?_
  exact advances_ite (advances_pure _) (advances_refuse .fatal none)

theorem advances_declarationItem {α : Type} (keyword : String) {value : ScanM (Option α)}
    (h : Advances value) : Advances (declarationItem keyword value) := by
  unfold declarationItem
  refine advances_bind (advances_accept keyword) fun isThere => ?_
  refine advances_ite (advances_pure none) ?_
  refine advances_bind advances_skipSpace fun _ => ?_
  refine advances_bind (advances_accept "=") fun hasValue => ?_
  refine advances_ite (advances_refuse .fatal none) ?_
  refine advances_bind advances_skipSpace fun _ => advances_input_bind fun cs => ?_
  cases cs with
  | nil => exact (advances_refuse .fatal none).on
  | cons q rest =>
    refine advancesOn_ite ?_ (advances_refuse .fatal none).on
    refine advancesOn_setInput_bind (List.suffix_cons q rest) ?_
    refine advances_bind h fun v => ?_
    exact advances_bind (advances_require _) fun _ => advances_pure v

theorem advances_versionItem : Advances versionItem := by
  unfold versionItem
  refine advances_bind advances_skipSpace fun _ => ?_
  refine advances_bind (advances_declarationItem _ advances_versionNumber?) fun version? => ?_
  cases version? with
  | none => exact advances_report .fatal
  | some version => exact advances_ite (advances_report _) (advances_pure ())

end Declarations

end XmlHarvest.Xml
