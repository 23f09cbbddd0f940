import XmlHarvest.Error
import XmlHarvest.Text.Blank
import XmlHarvest.Value.Text

/-! # References to modifiers

A reference names a modifier and carries the parameters that follow the values
it is applied to.  A name has at least one character that is not white
space. -/
set_option autoImplicit false

namespace XmlHarvest

structure ModifierRef where
  name : Text
  params : List Value
  named : Text.isBlankText name = false

namespace ModifierRef

def ofName (name : Text) (params : List Value) : Outcome ModifierRef :=
  if h : Text.isBlankText name = false then .ok ⟨name, params, h⟩
  else
    .raise (.malformedField
      ("modifier name must be a non-empty string, got " ++ Text.quote name))

def ofValue (name : Value) (params : List Value) : Outcome ModifierRef :=
  match name with
  | .scalar (.str s) => ofName s params
  | other => do
    let shown ← Outcome.ofFault other.display?
    .raise (.malformedField ("modifier name must be a non-empty string, got " ++ shown))

end ModifierRef
end XmlHarvest
